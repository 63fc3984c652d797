import Mathlib.Data.List.Chain
import MeteredFetch.Proofs.Bucket.Roster

/-!
# Rounds — whoever is due first has the first turn

Setting the clock calls those whose alarms are due, by deadline. They have their turns in this order as
long as turns that are given out are given out until nobody is ready: then nobody who slept on, because
the clock went back meanwhile, is called again behind those who are still ready. If time only passes from
one alarm to the next, while nobody is ready, everybody has its turn at its deadline.

* `Bucket.Unbroken` — once turns are given out, they are given out until nobody is ready;
* `Bucket.InTurn` — the callers whose alarms have rung are ready in the order of their deadlines, and
  `Bucket.inTurn_of_history` — they are if a run is unbroken;
* `Bucket.head_of_inTurn` — whoever has its turn because its alarm is due is due first;
* `Bucket.Moment.letsPass` — time passes no further than to the next alarm, while nobody is ready, and
  `Bucket.onTime_of_history` — then an alarm has rung at its deadline.
-/

namespace MeteredFetch
namespace Bucket

open Executor

variable {b : Bucket} {id n : TaskId} {e e' : State} {hs : List Moment}

/-! ## Order -/

/-- Once turns are given out, they are given out until nobody is ready. -/
def Unbroken (hs : List Moment) : Prop :=
  hs.IsChain fun m m' => m.2 = .turn → m'.2 = .turn ∨ m'.1.ready = []

instance (hs : List Moment) : Decidable (Unbroken hs) :=
  inferInstanceAs (Decidable (List.IsChain _ hs))

/-- No alarm has rung before one that has not. -/
def Front (alarms : List Alarm) : Prop :=
  alarms.Pairwise fun a a' => a'.rung = true → a.rung = true

def midway (hs : List Moment) : Prop :=
  ∃ m, hs.getLast? = some m ∧ m.2 = .turn

/-- The callers whose alarms have rung are ready in the order of their deadlines. Unless turns are being
given out, no alarm has rung before one that has not. -/
structure InTurn (hs : List Moment) (e : State) : Prop where
  order : (rung e.alarms).Sublist e.ready
  front : ¬ midway hs → Front e.alarms

/-- If nobody is ready, no alarm has rung. -/
theorem front_of_ready (roster : Roster e) (nobody : e.ready = []) : Front e.alarms := by
  refine List.pairwise_of_forall_mem_list fun a _ a' member' has => ?_
  rw [(roster.ahead_of_ready nobody member').1] at has
  cases has

theorem midway_snoc (hs : List Moment) (m : Moment) : midway (hs ++ [m]) ↔ m.2 = .turn := by
  simp [midway]

/-- A task whose alarm is cleared has none that has rung. -/
theorem rung_filter (alarms : List Alarm) (id : TaskId) :
    rung (alarms.filter fun a => a.task != id) = (rung alarms).filter (· != id) := by
  unfold rung
  rw [List.filter_map, List.filter_filter, List.filter_filter]
  congr 1
  exact List.filter_congr fun a _ => Bool.and_comm _ _

/-- An alarm that is set anew has not rung. -/
theorem rung_insert (deadline : Instant) (id : TaskId) (alarms : List Alarm) :
    rung (Alarm.insert { deadline, task := id } alarms) = rung alarms := by
  induction alarms with
  | nil =>
      rfl
  | cons a rest ih =>
      unfold Alarm.insert
      split
      · cases has : a.rung with
        | true =>
            simpa [rung, has] using ih
        | false =>
            simpa [rung, has] using ih
      · rfl

/-- Whoever comes first in the ready list leaves it, and no other alarm rings. -/
theorem rung_of_turn (roster : Roster e) (turned : e.turn program = .ok e') :
    (e.ready = [] ∧ e' = e) ∨ ∃ id rest, e.ready = id :: rest ∧ e'.ready = rest ∧
      rung e'.alarms = (rung e.alarms).filter (· != id) := by
  rcases turn_eq turned with idle |
    ⟨id, rest, ready, ⟨asleep, rfl⟩ | ⟨gone, rfl⟩ | ⟨g, b, o, next, looked, rfl⟩⟩
  · exact .inl idle
  · refine .inr ⟨id, rest, ready, rfl, ?_⟩
    rw [← rung_filter]
    -- the alarm that is set again has not rung any more
    have each : ∀ alarms : List Alarm,
        rung (alarms.map fun a => if a.task == id then { a with rung := false } else a) =
          rung (alarms.filter fun a => a.task != id) := by
      intro alarms
      induction alarms with
      | nil =>
          rfl
      | cons a rest ih =>
          by_cases own : a.task = id
          · simpa [rung, own] using ih
          · cases has : a.rung <;> simpa [rung, own, has] using ih
    exact each e.alarms
  · refine .inr ⟨id, rest, ready, rfl, ?_⟩
    refine (List.filter_eq_self.2 fun n member => ?_).symm
    rcases List.mem_map.1 member with ⟨a, there, rfl⟩
    have stands := roster.isSome_of_mem (List.mem_of_mem_filter there)
    have other : a.task ≠ id := by
      intro same
      rw [same, gone] at stands
      cases stands
    simpa using other
  · refine .inr ⟨id, rest, ready, ?_, ?_⟩
    · rw [ready_afterTurn, ready, List.tail_cons]
    · rw [alarms_afterTurn, ← rung_filter]
      cases o.bind Caller.wait? with
      | none =>
          rfl
      | some w =>
          exact rung_insert w.deadline id _

theorem rung_sublist {alarms alarms' : List Alarm} (h : alarms'.Sublist alarms) :
    (rung alarms').Sublist (rung alarms) :=
  (h.filter Alarm.rung).map Alarm.task

/-- Tasks are woken. They come behind those that are ready. -/
theorem order_foldl_wake (h : (rung e.alarms).Sublist e.ready) (ids : List TaskId) :
    (rung (ids.foldl Executor.wake e).alarms).Sublist (ids.foldl Executor.wake e).ready := by
  induction ids generalizing e with
  | nil =>
      exact h
  | cons id rest ih =>
      have kept : (e.wake id).alarms.Sublist e.alarms := alarms_foldl_wake e [id]
      have ready : e.ready.Sublist (e.wake id).ready := by
        unfold Executor.wake Executor.rouse
        split
        · exact List.sublist_append_left _ _
        · exact List.Sublist.refl _
      exact ih (((rung_sublist kept).trans h).trans ready)

/-- Every move of an unbroken run keeps the callers in turn. -/
theorem inTurn_of_step {l : Label Action Answer} (h : InTurn hs e) (roster : Roster e)
    (step : Step program e l e') (settled : midway hs → l = .turn ∨ e.ready = []) :
    InTurn (hs ++ [(e, l)]) e' := by
  -- unless this move is a turn as well, the round before it is over
  have front : l ≠ .turn → Front e.alarms := by
    intro other
    by_cases turning : midway hs
    · exact front_of_ready roster ((settled turning).resolve_left other)
    · exact h.front turning
  cases step with
  | turn turned =>
      refine ⟨?_, fun still => absurd ((midway_snoc hs (e, .turn)).2 rfl) still⟩
      rcases rung_of_turn roster turned with ⟨_, rfl⟩ | ⟨id, rest, ready, ready', alarms⟩
      · exact h.order
      · have order := h.order.filter (· != id)
        rw [ready, List.filter_cons_of_neg (by simp)] at order
        rw [alarms, ready']
        exact order.trans List.filter_sublist
  | clock time =>
      have before := front (by simp)
      have alarms := alarms_setClock e time
      have ready := roster.ready_setClock time
      refine ⟨?_, fun _ => ?_⟩
      · rw [alarms, ready, rung_map_ring time before]
        exact h.order.append (List.Sublist.refl _)
      · rw [alarms]
        refine List.pairwise_map.2 ((before.and roster.sorted).imp ?_)
        rintro a a' ⟨earlier, le⟩
        rw [rung_ring, rung_ring, Bool.or_eq_true, Bool.or_eq_true]
        rintro (due | has)
        · -- who is due no later is due as well
          have due' : a'.deadline ≤ time := of_decide_eq_true due
          exact .inl (decide_eq_true (Nat.le_trans le due'))
        · exact .inr (earlier has)
  | kill task =>
      rw [kill_eq]
      cases found : e.task? task with
      | none =>
          rw [drop_of_task?_eq_none program found]
          exact ⟨h.order, fun _ => front (by simp)⟩
      | some g =>
          rcases drop_of_task? program found with ⟨alarms, ready⟩
          refine ⟨?_, fun _ => ?_⟩
          · rw [alarms, ready, rung_filter]
            exact h.order.filter _
          · rw [alarms]
            exact (front (by simp)).sublist List.filter_sublist
  | @act _ action answer acted =>
      have before := front (by simp)
      cases action with
      | operate op =>
          rcases operate_eq acted with ⟨b, woken, _, rfl⟩
          exact ⟨order_foldl_wake (e := { e with shared := b }) h.order woken,
            fun _ => before.sublist (alarms_foldl_wake { e with shared := b } woken)⟩
      | grab tokens =>
          cases grab_eq acted
          exact ⟨h.order.trans (List.sublist_append_left _ _), fun _ => before⟩

/-- In an unbroken run the callers whose waits are over have their turns in the order of their
deadlines. -/
theorem inTurn_of_history {start : Instant} (history : History program (opening start b) hs e)
    (unbroken : Unbroken hs) : InTurn hs e := by
  induction history with
  | refl =>
      exact ⟨List.Sublist.refl _, fun _ => List.Pairwise.nil⟩
  | @tail hs l e e' before step ih =>
      rcases List.isChain_append.1 unbroken with ⟨earlier, _, last⟩
      refine inTurn_of_step (ih earlier) (roster_of_history before) step ?_
      rintro ⟨m, member, turned⟩
      exact last m member (e, l) rfl turned

/-- If the first of the ready list has its turn because its alarm is due, no other alarm is due before
it. -/
theorem head_of_inTurn (h : InTurn hs e) (roster : Roster e) {rest : List TaskId}
    (ready : e.ready = id :: rest) {a : Alarm} (member : a ∈ e.alarms) (own : a.task = id)
    (due : a.deadline ≤ e.now) : e.alarms.head? = some a := by
  rcases List.append_of_mem member with ⟨before, after, split⟩
  cases before with
  | nil =>
      rw [split]
      rfl
  | cons first others =>
      -- one that stands before it is due too, so it has rung and is ready before it
      exfalso
      have sorted := roster.sorted
      have distinct := roster.distinct
      have order := h.order
      have there : first ∈ e.alarms := by
        rw [split]
        exact List.mem_cons_self
      rw [split] at sorted distinct
      have earlier : first.deadline ≤ a.deadline :=
        (List.pairwise_cons.1 sorted).1 a (List.mem_append_right _ List.mem_cons_self)
      have other : first.task ≠ id := by
        rw [List.cons_append, List.map_cons] at distinct
        intro same
        refine (List.nodup_cons.1 distinct).1 ?_
        rw [same, ← own]
        exact List.mem_map_of_mem (List.mem_append_right _ List.mem_cons_self)
      have has : first.rung = true :=
        roster.rung_of_due there (Nat.le_trans earlier due)
      have has' : a.rung = true := roster.rung_of_due member due
      have first' : rung e.alarms = first.task :: rung (others ++ a :: after) := by
        rw [split]
        simp [rung, has]
      have later : id ∈ rung (others ++ a :: after) :=
        List.mem_map.2 ⟨a, List.mem_filter.2 ⟨List.mem_append_right _ List.mem_cons_self, has'⟩, own⟩
      rw [first', ready] at order
      have inRest : (first.task :: rung (others ++ a :: after)).Sublist rest := by
        cases order with
        | cons _ rest => exact rest
        | cons_cons _ _ => exact absurd rfl other
      have once := roster.once
      rw [ready] at once
      exact (List.nodup_cons.1 once).1 (inRest.subset (List.mem_cons_of_mem _ later))

/-! ## Time that passes -/

namespace Moment

/-- Whether the clock is set only while nobody is ready, not back, and no further than to the alarm that
is due first. -/
def letsPass (m : Moment) : Bool :=
  match m.2 with
  | .clock time =>
      m.1.ready.isEmpty && decide (m.1.now ≤ time) &&
        m.1.alarms.all fun a => decide (time ≤ max m.1.now a.deadline)
  | .act _ _ | .turn | .kill _ => true

end Moment

def OnTime (e : State) : Prop :=
  ∀ a ∈ e.alarms, a.rung = true → a.deadline = e.now

/-- Without the clock no time passes and no alarm rings. -/
theorem silent_of_step {l : Label Action Answer} (step : Step program e l e')
    (other : ∀ time, l ≠ .clock time) :
    e'.now = e.now ∧ ∀ a ∈ e'.alarms, a.rung = true → a ∈ e.alarms := by
  cases step with
  | turn turned =>
      rcases turn_eq turned with ⟨_, rfl⟩ |
        ⟨id, rest, ready, ⟨asleep, rfl⟩ | ⟨gone, rfl⟩ | ⟨g, b, o, next, looked, rfl⟩⟩
      · exact ⟨rfl, fun a member _ => member⟩
      · refine ⟨rfl, fun a member has => ?_⟩
        rcases List.mem_map.1 member with ⟨a', old, rfl⟩
        by_cases own : a'.task = id
        · simp [own] at has
        · simpa [own] using old
      · exact ⟨rfl, fun a member _ => member⟩
      · refine ⟨now_afterTurn e id g b o, fun a member has => ?_⟩
        rw [alarms_afterTurn] at member
        cases waits : o.bind Caller.wait? with
        | none =>
            rw [waits] at member
            exact List.mem_of_mem_filter member
        | some w =>
            rw [waits] at member
            rcases List.mem_cons.1 ((Alarm.insert_perm _ _).mem_iff.1 member) with rfl | old
            · cases has
            · exact List.mem_of_mem_filter old
  | clock time =>
      exact absurd rfl (other time)
  | kill task =>
      rw [kill_eq]
      unfold Executor.drop
      split
      · exact ⟨rfl, fun a member _ => member⟩
      · exact ⟨rfl, fun a member _ => List.mem_of_mem_filter member⟩
  | @act _ action answer acted =>
      cases action with
      | operate op =>
          rcases operate_eq acted with ⟨b, woken, _, rfl⟩
          refine ⟨(Alike.foldl_wake woken _).now, fun a member _ => ?_⟩
          exact (alarms_foldl_wake { e with shared := b } woken).subset member
      | grab tokens =>
          cases grab_eq acted
          exact ⟨rfl, fun a member _ => member⟩

/-- A clock that stops at each alarm lets every one of them ring at its deadline. -/
theorem onTime_of_step {l : Label Action Answer} (h : OnTime e) (roster : Roster e)
    (step : Step program e l e') (passes : Moment.letsPass (e, l) = true) : OnTime e' := by
  by_cases clock : ∃ time, l = .clock time
  · rcases clock with ⟨time, rfl⟩
    cases step
    simp only [Moment.letsPass, Bool.and_eq_true, List.isEmpty_iff, decide_eq_true_eq,
      List.all_eq_true] at passes
    rcases passes with ⟨⟨nobody, _⟩, first⟩
    have alarms := alarms_setClock e time
    intro a member has
    rw [alarms] at member
    rcases List.mem_map.1 member with ⟨a', old, rfl⟩
    rcases roster.ahead_of_ready nobody old with ⟨silent, ahead⟩
    rw [rung_ring, silent, Bool.or_false] at has
    have due : a'.deadline ≤ time := of_decide_eq_true has
    have last := first a' old
    rw [Nat.max_eq_right (Nat.le_of_lt ahead)] at last
    rw [Alarm.deadline_ring, (setClock_alike e time).now]
    exact Nat.le_antisymm due last
  · rcases silent_of_step step fun time same => clock ⟨time, same⟩ with ⟨now, silent⟩
    intro a member has
    rw [now]
    exact h a (silent a member has) has

/-- Every alarm of such a run has rung at its deadline. -/
theorem onTime_of_history {start : Instant} (history : History program (opening start b) hs e)
    (passes : ∀ m ∈ hs, Moment.letsPass m = true) : OnTime e := by
  induction history with
  | refl =>
      exact fun a member => absurd member List.not_mem_nil
  | @tail hs l e e' before step ih =>
      have earlier := ih fun m member => passes m (List.mem_append_left _ member)
      exact onTime_of_step earlier (roster_of_history before) step (passes (e, l) (by simp))

end Bucket
end MeteredFetch
