import MeteredFetch.Proofs.Bucket.Bounds
import MeteredFetch.Proofs.Bucket.Elapsed
import MeteredFetch.Proofs.Bucket.Erasure
import MeteredFetch.Proofs.Bucket.Panics
import MeteredFetch.Proofs.Bucket.Signals

/-!
# Abandoned — callers that are dropped while they wait

A caller that has to wait takes what there is, or clears the debt, and moves the cursor on to its deadline.
If it is dropped before its wait is over, none of this is undone, and nothing else is left of it: the run
goes on as one without the caller in which the bucket lost its balance, or its debt, and had the cursor moved
when the caller would have begun to wait.

* `Bucket.task?_of_step` — a move is a turn of a task, or leaves it where it stands, or drops it;
* `Bucket.quiet_of_fresh`, `Bucket.quiet_of_waiting` — a caller is quiet before its first turn, and while
  it waits for its last chunk;
* `Bucket.forfeit`, `Bucket.first_turn` — what a caller does to the bucket when it begins to wait;
* `Bucket.balance_forfeit_iff`, `Bucket.draw_forfeit` — when that shows in later credits, and how long
  later chunks are waited for;
* `Bucket.run_of_abandoned` — a run with a caller that was dropped.
-/

namespace MeteredFetch
namespace Bucket

open Executor

variable {e e' : State} {id : TaskId} {tokens : UInt64} {w : Wait} {rest : Chunks}
  {l : Label Action Answer} {hs : List Moment}

/-! ## Where a task stands -/

/-- A move is a turn of a task, or it leaves the task where it stands or drops it. -/
theorem task?_of_step (inside : id < e.tasks.length) (step : Step program e l e') :
    (∃ g b o, l = .turn ∧ e.next? = some (id, g) ∧
        g.caller.turn e.now id e.shared = .ok (b, o) ∧
        e'.task? id = o.map fun caller => { g with caller }) ∨
      ((l = .turn → ∀ g, e.next? ≠ some (id, g)) ∧
        (e'.task? id = e.task? id ∨ e'.task? id = none)) := by
  have of_tasks : ∀ {s s' : State}, s'.tasks = s.tasks → s'.task? id = s.task? id := by
    intro s s' same
    unfold task?
    rw [same]
  -- only its own turn does anything to a task but drop it
  cases step with
  | turn turned =>
      rcases turn_alike turned with ⟨nobody, alike⟩ | ⟨n, g, b, o, next, looked, alike⟩
      · refine .inr ⟨fun _ g next => ?_, .inl (of_tasks alike.tasks)⟩
        cases nobody.symm.trans next
      · by_cases own : n = id
        · subst own
          refine .inl ⟨g, b, o, rfl, next, looked, ?_⟩
          unfold task?
          rw [alike.tasks, List.getElem?_set_self inside]
          cases o <;> rfl
        · refine .inr ⟨fun _ g' next' => ?_, .inl ?_⟩
          · cases next.symm.trans next'
            exact own rfl
          · unfold task?
            rw [alike.tasks, List.getElem?_set_ne own]
  | clock time =>
      exact .inr ⟨nofun, .inl (of_tasks (setClock_alike e time).tasks)⟩
  | kill task =>
      refine .inr ⟨nofun, ?_⟩
      rw [kill_eq]
      cases found : e.task? task with
      | none =>
          rw [drop_of_task?_eq_none program found]
          exact .inl rfl
      | some g =>
          have tasks := (drop_alike program e found).tasks
          by_cases own : task = id
          · right
            unfold task?
            rw [tasks, own, List.getElem?_set_self inside]
            rfl
          · left
            unfold task?
            rw [tasks, List.getElem?_set_ne own]
  | @act _ action answer acted =>
      refine .inr ⟨nofun, .inl ?_⟩
      cases action with
      | operate op =>
          rcases operate_alike acted with ⟨b, woken, _, alike⟩
          exact of_tasks alike.tasks
      | grab tokens =>
          unfold task?
          rw [(grab_alike acted).tasks, List.getElem?_append_left inside]

/-- After its turn a caller waits, or is gone. -/
theorem waiting_of_turn {now : Instant} {b b' : Bucket} {c c' : Caller}
    (h : c.turn now id b = .ok (b', some c')) : ∃ w rest, c' = .waiting w rest := by
  rcases Caller.turn_cases h with ⟨_, _, _, _, _, drawn⟩ | ⟨_, _, _, _, _, _, _, drawn⟩ |
    ⟨_, rest, w, _, _, _, _, _, _, waits⟩
  · rcases drawn.ahead.2.2 c' rfl with ⟨_, w, rest, same, _⟩
    exact ⟨w, rest, same⟩
  · rcases drawn.ahead.2.2 c' rfl with ⟨_, w, rest, same, _⟩
    exact ⟨w, rest, same⟩
  · exact ⟨w, rest, Option.some.inj waits⟩

/-- A caller whose last chunk was drawn waits no more. -/
theorem Draws.gone {now : Instant} {b b' : Bucket} {c : Chunks} {ds : List Draw} {o : Option Caller}
    (drawn : Draws now id c b ds b' o) (last : c.next? = none) : o = none := by
  cases drawn with
  | done _ _ =>
      rfl
  | taken first _ _ =>
      cases last.symm.trans first
  | held first _ =>
      cases last.symm.trans first

/-- A caller that has not had its turn has not had it before either. -/
theorem quiet_of_fresh (inside : id < e.tasks.length) (step : Step program e l e')
    (fresh : e'.task? id = some (.start tokens)) :
    e.task? id = some (.start tokens) ∧ Quiet id (e, l) := by
  rcases task?_of_step inside step with ⟨g, b, o, rfl, next, looked, after⟩ | ⟨other, same | gone⟩
  · rw [fresh] at after
    rcases Option.map_eq_some_iff.1 after.symm with ⟨caller, rfl, stands⟩
    rcases waiting_of_turn looked with ⟨w, rest, rfl⟩
    cases stands
  · exact ⟨same.symm.trans fresh, fun turn g next => absurd next (other turn g)⟩
  · cases gone.symm.trans fresh

/-- A caller that waits for its last chunk waits on, as long as it is there. -/
theorem quiet_of_waiting (step : Step program e l e')
    (waits : e.task? id = some ⟨tokens, .waiting w rest⟩) (last : rest.next? = none)
    (stands : (e'.task? id).isSome = true) :
    Quiet id (e, l) ∧ ∃ w', e'.task? id = some ⟨tokens, .waiting w' rest⟩ := by
  have inside : id < e.tasks.length := (List.getElem?_eq_some_iff.1 (getElem?_of_task? waits)).1
  rcases task?_of_step inside step with ⟨g, b, o, rfl, next, looked, after⟩ | ⟨other, same | gone⟩
  · have own := task?_of_next? next
    rw [getElem?_of_task? waits] at own
    cases own
    rcases Caller.turn_cases looked with ⟨_, _, arriving, _⟩ |
      ⟨_, _, w', waiting, _, _, _, drawn⟩ | ⟨_, _, w', waiting, _, _, unexpired, _, _, rfl⟩
    · cases arriving
    · -- nothing is left to be drawn, so it would be gone
      cases waiting
      rw [after, drawn.gone last] at stands
      cases stands
    · cases waiting
      refine ⟨fun _ g' next' => ?_, w', after⟩
      cases next.symm.trans next'
      exact ⟨⟨w, rfl⟩, unexpired⟩
  · exact ⟨fun turn g next => absurd next (other turn g), w, same.trans waits⟩
  · rw [gone] at stands
    cases stands

/-- As long as a caller has not had its first turn, no move of the run is one in which it draws. -/
theorem quiet_of_fresh_run (roster : Roster e) (inside : id < e.tasks.length)
    (history : History program e hs e') (fresh : e'.task? id = some (.start tokens)) :
    ∀ m ∈ hs, Quiet id m := by
  induction history with
  | refl =>
      exact fun m member => absurd member List.not_mem_nil
  | @tail hs l e' e'' before step ih =>
      have inside' := Nat.lt_of_lt_of_le inside (length_tasks_le roster before.trace)
      rcases quiet_of_fresh inside' step fresh with ⟨earlier, last⟩
      intro m member
      rcases List.mem_append.1 member with old | new
      · exact ih earlier m old
      · cases List.mem_singleton.1 new
        exact last

/-- A caller that waits for its last chunk, and is still there, has drawn nothing in between. -/
theorem quiet_of_waiting_run (roster : Roster e) (history : History program e hs e')
    (waits : e.task? id = some ⟨tokens, .waiting w rest⟩) (last : rest.next? = none)
    (stands : (e'.task? id).isSome = true) :
    (∀ m ∈ hs, Quiet id m) ∧ ∃ w', e'.task? id = some ⟨tokens, .waiting w' rest⟩ := by
  have inside : id < e.tasks.length := (List.getElem?_eq_some_iff.1 (getElem?_of_task? waits)).1
  induction history with
  | refl =>
      exact ⟨fun m member => absurd member List.not_mem_nil, w, waits⟩
  | @tail hs l e' e'' before step ih =>
      have inside' := Nat.lt_of_lt_of_le inside (length_tasks_le roster before.trace)
      -- who is gone does not come back
      have there : (e'.task? id).isSome = true := by
        rcases task?_of_step inside' step with ⟨g, _, _, _, next, _, _⟩ | ⟨_, same | gone⟩
        · have own := task?_of_next? next
          simp [task?, own]
        · rwa [← same]
        · rw [gone] at stands
          cases stands
      rcases ih there with ⟨quiet, w', waits'⟩
      rcases quiet_of_waiting step waits' last stands with ⟨final, waits''⟩
      refine ⟨fun m member => ?_, waits''⟩
      rcases List.mem_append.1 member with old | new
      · exact quiet m old
      · cases List.mem_singleton.1 new
        exact final

/-- Only tasks that have started are on the list of those to be woken. -/
theorem listed_of_step (listed : ∀ n ∈ e.shared.waiters, n < e.tasks.length)
    (step : Step program e l e') : ∀ n ∈ e'.shared.waiters, n < e'.tasks.length := by
  cases step with
  | turn turned =>
      rcases turn_alike turned with ⟨_, alike⟩ | ⟨n, g, b, o, next, looked, alike⟩
      · rw [alike.shared, alike.tasks]
        exact listed
      · rw [alike.shared, alike.tasks, List.length_set]
        intro n' member
        -- only the caller that has the turn may come to be listed, and it is a task
        by_cases own : n' = n
        · rw [own]
          exact (List.getElem?_eq_some_iff.1 (task?_of_next? next)).1
        · have count := (registered_of_turn looked).2.1 n' own
          have there := List.count_pos_iff.2 member
          exact listed n' (List.count_pos_iff.1 (count ▸ there))
  | clock time =>
      have alike := setClock_alike e time
      rw [alike.shared, alike.tasks]
      exact listed
  | kill task =>
      rw [kill_eq]
      cases found : e.task? task with
      | none =>
          rw [drop_of_task?_eq_none program found]
          exact listed
      | some g =>
          have alike := drop_alike program e found
          rw [alike.shared, alike.tasks, List.length_set]
          exact fun n member => listed n (List.mem_of_mem_filter member)
  | @act _ action answer acted =>
      cases action with
      | operate op =>
          rcases operate_alike acted with ⟨b, woken, operated, alike⟩
          rw [alike.shared, alike.tasks]
          rcases operate_waiters operated with ⟨same, _, _⟩ | ⟨none, _, _⟩
          · simp only [same]
            exact listed
          · simp only [none]
            exact fun n member => absurd member List.not_mem_nil
      | grab tokens =>
          have alike := grab_alike acted
          rw [alike.shared, alike.tasks]
          intro n member
          rw [List.length_append]
          exact Nat.lt_add_right _ (listed n member)

/-! ## What a caller does when it begins to wait -/

/-- What a caller does to a bucket when it begins to wait: it takes what there is, or clears the debt, and
moves the cursor on to its deadline. -/
def forfeit (now deadline : Instant) (b : Bucket) : Bucket :=
  { b.credit now with balance := 0, cursor := deadline }

/-- The first turn of a caller that wants less than the capacity and has to wait for it. -/
theorem first_turn (turned : e.turn program = .ok e') (next : e.next? = some (id, .start tokens))
    (small : tokens.toNat < e.shared.capacity) (waits : waitOf e' id = some w) :
    e.shared.draw e.now tokens.toNat = .ok (e.shared.forfeit e.now w.deadline, some w) ∧
      e'.task? id = some ⟨tokens, .waiting w ⟨tokens.toNat, 0, none⟩⟩ ∧
      without id e' = { without id e with
        shared := (without id e).shared.forfeit (without id e).now w.deadline } := by
  have stands := task?_of_next? next
  have inside : id < e.tasks.length := (List.getElem?_eq_some_iff.1 stands).1
  rcases turn_eq turned with ⟨nobody, rfl⟩ |
    ⟨n, ready, first, ⟨asleep, rfl⟩ | ⟨gone, rfl⟩ | ⟨g, b, o, next', looked, rfl⟩⟩
  · simp [next?, nobody] at next
  · simp [next?, first, asleep] at next
  · simp [next?, first, gone] at next
  · cases next.symm.trans next'
    rw [waitOf_afterTurn stands, if_pos rfl] at waits
    have single : e.shared.chunksOf tokens = .ok (.single tokens.toNat) := if_pos small
    -- there is one chunk, and it has to be waited for
    have drawn : e.shared.drawLast e.now id tokens.toNat (some tokens.toNat) = .ok (b, o) := by
      simp only [Grab.start, Caller.turn, single] at looked
      exact looked
    rcases ok_of_bind drawn with ⟨⟨b₁, _ | w'⟩, draws, left⟩
    · cases left
      cases waits
    · cases left
      cases waits
      have same : b₁ = e.shared.forfeit e.now w.deadline := (draw_eq_some draws).2.2.2
      refine ⟨same ▸ draws, ?_, ?_⟩
      · unfold task?
        rw [tasks_afterTurn, List.getElem?_set_self inside]
        rfl
      · rw [Without.afterTurn_self (by simp [first]), leave_join, same]
        rfl

/-! ## What is left of it -/

variable {b b' : Bucket} {now t deadline : Instant}

def passed (now t : Instant) (b : Bucket) : Nat :=
  b.pending t - b.pending now

/-- Two credits, the later one: what passed between them is added, up to the capacity. -/
theorem balance_credit_later (range : b.capacity ≤ maxBalance) (later : now ≤ t)
    (few : b.pending t < 2 ^ 63) :
    (b.credit t).balance = min ((b.credit now).balance + b.passed now t) (b.capacity : Int) := by
  have fewer := Nat.lt_of_le_of_lt (pending_mono b later) few
  have left : (b.credit now).pending t = b.passed now t := pending_credit fewer t
  have earned : (b.credit now).earned t = b.passed now t := by
    rw [← left]
    exact earned_of_pending (Nat.lt_of_le_of_lt (pending_credit_le b now t) few)
  rw [← credit_later range later few, credit_eq (b := b.credit now) range, earned]
  rfl

/-- Once its tokens are forfeit, a bucket holds only what came in afterwards. -/
theorem balance_forfeit (range : b.capacity ≤ maxBalance) (later : now ≤ t)
    (few : b.pending t < 2 ^ 63) (deadline : Instant) :
    ((b.forfeit now deadline).credit t).balance = min (b.passed now t : Int) (b.capacity : Int) := by
  have fewer := Nat.lt_of_le_of_lt (pending_mono b later) few
  have left : (b.forfeit now deadline).pending t = b.passed now t := pending_credit fewer t
  have earned : (b.forfeit now deadline).earned t = b.passed now t := by
    rw [← left]
    exact earned_of_pending (Nat.lt_of_le_of_lt (pending_credit_le b now t) few)
  rw [credit_eq (b := b.forfeit now deadline) range, earned]
  exact congrArg (fun x : Int => min x (b.capacity : Int)) (Int.zero_add _)

/-- The balance that was lost, or the debt, shows in a later credit, unless there was none or the bucket is
full either way. -/
theorem balance_forfeit_iff (range : b.capacity ≤ maxBalance) (later : now ≤ t)
    (few : b.pending t < 2 ^ 63) (deadline : Instant) :
    ((b.forfeit now deadline).credit t).balance = (b.credit t).balance ↔
      (b.credit now).balance = 0 ∨
        (b.capacity ≤ b.passed now t ∧ b.capacity ≤ (b.credit now).balance + b.passed now t) := by
  rw [balance_forfeit range later few, balance_credit_later range later few]
  omega

/-- A chunk that the balance does not exceed is waited for, if the cursor comes to lie ahead. -/
theorem draw_of_short {n : Nat} (short : (b.credit t).balance ≤ n)
    (above : (b.credit t).balance ≠ minBalance)
    (due : max b.cursor t + b.delay (min (Draw.missing ⟨t, b, n⟩) maxBalance) = deadline)
    (ahead : t < deadline) :
    b.draw t n = .ok (b.forfeit t deadline,
      some ⟨n - (b.credit t).balance.toNat, deadline, b.interval⟩) := by
  have missing : n - (b.credit t).balance.toNat + (-(b.credit t).balance).toNat =
      Draw.missing ⟨t, b, n⟩ := by
    simp only [Draw.missing, Draw.found]
    omega
  have due' : max (b.credit t).cursor t + (b.credit t).delay (min (Draw.missing ⟨t, b, n⟩) maxBalance) =
      deadline := due
  unfold draw claim
  simp only [if_neg (Int.not_lt.2 short), if_neg above, missing, due', bind, Except.bind,
    if_neg (Nat.not_le.2 ahead)]
  rfl

/-- If it does not show in a credit, a chunk that has to be waited for is waited for longer, by what the
deadline lies behind the cursor and the present moment. -/
theorem draw_forfeit {n : Nat} (behind : b.cursor ≤ deadline)
    (same : ((b.forfeit now deadline).credit t).balance = (b.credit t).balance)
    (drawn : b.draw t n = .ok (b', some w)) :
    ∃ b'' w', (b.forfeit now deadline).draw t n = .ok (b'', some w') ∧ w'.owed = w.owed ∧
      w'.deadline = w.deadline + (max deadline t - max b.cursor t) := by
  rcases draw_eq_some drawn with ⟨short, ahead, rfl, _⟩
  have above : (b.credit t).balance ≠ minBalance := by
    intro least
    cases drawn.symm.trans (draw_eq_error_iff.2 ⟨rfl, least⟩)
  have missing : Draw.missing ⟨t, b.forfeit now deadline, n⟩ = Draw.missing ⟨t, b, n⟩ := by
    simp only [Draw.missing, Draw.found, same]
  generalize waited : min (Draw.missing ⟨t, b, n⟩) maxBalance = k at ahead
  have due : max (b.forfeit now deadline).cursor t +
      (b.forfeit now deadline).delay (min (Draw.missing ⟨t, b.forfeit now deadline, n⟩) maxBalance) =
        max b.cursor t + b.delay k + (max deadline t - max b.cursor t) := by
    rw [missing, waited]
    have delay : (b.forfeit now deadline).delay k = b.delay k := rfl
    have cursor : (b.forfeit now deadline).cursor = deadline := rfl
    rw [delay, cursor]
    unfold Instant at *
    omega
  have drawn' := draw_of_short (same ▸ short) (same ▸ above) due
    (Nat.lt_of_lt_of_le ahead (Nat.le_add_right _ _))
  exact ⟨_, _, drawn', by rw [same], rfl⟩

/-! ## A run with a caller that was dropped -/

def Reached (e : State) : Prop :=
  ∃ capacity interval initial start b hs, create capacity interval initial start = .ok b ∧
    History program (opening start b) hs e

/-- A caller comes to a bucket that a run has come to. It wants less than the capacity, has to wait for it in
its first turn, and is still there later on. -/
structure Waits (tokens : UInt64) (w : Wait) (e₀ e₁ e₂ e₃ e₄ : State) (hs₁ hs₂ : List Moment) :
    Prop where
  reached : Reached e₀
  came : e₀.act program (.grab tokens) = .ok (e₁, .done)
  before : History program e₁ hs₁ e₂
  next : e₂.next? = some (e₀.tasks.length, .start tokens)
  small : tokens.toNat < e₂.shared.capacity
  turned : e₂.turn program = .ok e₃
  waits : waitOf e₃ e₀.tasks.length = some w
  after : History program e₃ hs₂ e₄
  stands : (e₄.task? e₀.tasks.length).isSome = true

/-- A caller that was dropped before its first turn has not been there. -/
theorem without_newcomer (roster : Roster e) (listed : ∀ n ∈ e.shared.waiters, n < e.tasks.length)
    (g : Grab) : without e.tasks.length (e.spawn g) = { e with tasks := e.tasks ++ [none] } := by
  have ready : (e.ready ++ [e.tasks.length]).filter (· != e.tasks.length) = e.ready := by
    have others : ∀ n ∈ e.ready, (n != e.tasks.length) = true := by
      intro n member
      simpa using Nat.ne_of_lt (roster.known n member)
    simp [List.filter_append, List.filter_eq_self.2 others]
  have alarms : (e.alarms.filter fun a => a.task != e.tasks.length) = e.alarms := by
    refine List.filter_eq_self.2 fun a member => ?_
    simpa using Nat.ne_of_lt (roster.lt_of_mem member)
  have shared : e.shared.leave e.tasks.length = e.shared :=
    leave_of_notMem fun member => Nat.lt_irrefl _ (listed _ member)
  unfold without Executor.spawn
  simp only [ready, alarms, shared]
  simp

/-- Dropping a caller that waits undoes nothing of what it did when it began to wait, and adds nothing to it.
The run goes on as one in which the caller never came, with the same moves and answers and to the same end,
but for one thing: at the moment at which the caller began to wait, the bucket was credited, lost its balance
or its debt, and had its cursor moved to the deadline of the wait. So the balance after a later credit is
what it would be without the caller exactly if there was nothing to be lost, or if the bucket is full either
way. If it is, a chunk that has to be waited for is waited for longer, by what the deadline lies behind the
cursor and the present moment. -/
theorem run_of_abandoned {e₀ e₁ e₂ e₃ e₄ : State} {hs₁ hs₂ : List Moment}
    (h : Waits tokens w e₀ e₁ e₂ e₃ e₄ hs₁ hs₂) :
    ∃ e hs₁' hs₂', History program { e₀ with tasks := e₀.tasks ++ [none] } hs₁' e ∧
      hs₁'.map Prod.snd = labelsWithout e₀.tasks.length hs₁ ∧
      e = e₂.kill program e₀.tasks.length ∧
      w.deadline = max e.shared.cursor e.now +
        e.shared.delay (min (Draw.missing ⟨e.now, e.shared, tokens.toNat⟩) maxBalance) ∧
      History program { e with shared := e.shared.forfeit e.now w.deadline } hs₂'
        (e₄.kill program e₀.tasks.length) ∧
      hs₂'.map Prod.snd = labelsWithout e₀.tasks.length hs₂ ∧
      ∀ t, e.now ≤ t → e.shared.pending t < 2 ^ 63 →
        (((e.shared.forfeit e.now w.deadline).credit t).balance = (e.shared.credit t).balance ↔
          (e.shared.credit e.now).balance = 0 ∨
            (e.shared.capacity ≤ e.shared.passed e.now t ∧
              e.shared.capacity ≤ (e.shared.credit e.now).balance + e.shared.passed e.now t)) ∧
        (((e.shared.forfeit e.now w.deadline).credit t).balance = (e.shared.credit t).balance →
          ∀ n b' w', e.shared.draw t n = .ok (b', some w') →
            ∃ b'' w'', (e.shared.forfeit e.now w.deadline).draw t n = .ok (b'', some w'') ∧
              w''.owed = w'.owed ∧
              w''.deadline = w'.deadline + (max w.deadline t - max e.shared.cursor t)) := by
  rcases h.reached with ⟨capacity, interval, initial, start, b, hs, made, history⟩
  have history₂ := (history.tail (.act h.came)).trans h.before
  have roster₁ : Roster e₁ := roster_of_history (history.tail (.act h.came))
  have roster₃ : Roster e₃ := roster_of_history (history₂.tail (.turn h.turned))
  have listed : ∀ n ∈ e₀.shared.waiters, n < e₀.tasks.length := by
    refine history.trace.invariant (fun listed step => listed_of_step listed step) ?_
    rcases create_eq_ok made with ⟨rfl, _, _⟩
    exact fun n member => absurd member List.not_mem_nil
  have fits : e₂.shared.capacity ≤ maxBalance :=
    (keeps_of_history (bounded_of_create made) history₂).bounded.fits
  have spawned : e₁ = e₀.spawn (.start tokens) := grab_eq h.came
  have inside : e₀.tasks.length < e₁.tasks.length := by
    rw [spawned]
    simp [Executor.spawn]
  -- until its first turn the caller is quiet, and so it is while it waits
  have fresh : e₂.task? e₀.tasks.length = some (.start tokens) := by
    simp [task?, task?_of_next? h.next]
  rcases erased_of_history roster₁ inside h.before (quiet_of_fresh_run roster₁ inside h.before fresh)
    with ⟨hs₁', first, labels⟩
  rcases first_turn h.turned h.next h.small h.waits with ⟨draws, waiting, begun⟩
  rcases quiet_of_waiting_run roster₃ h.after waiting rfl h.stands with ⟨quiet, w', still⟩
  have inside₃ : e₀.tasks.length < e₃.tasks.length :=
    (List.getElem?_eq_some_iff.1 (getElem?_of_task? waiting)).1
  rcases erased_of_history roster₃ inside₃ h.after quiet with ⟨hs₂', second, labels'⟩
  have uncalled : without e₀.tasks.length e₁ = { e₀ with tasks := e₀.tasks ++ [none] } := by
    rw [spawned]
    exact without_newcomer (roster_of_history history) listed _
  have deadline : w.deadline = max e₂.shared.cursor e₂.now +
      e₂.shared.delay (min (Draw.missing ⟨e₂.now, e₂.shared, tokens.toNat⟩) maxBalance) :=
    congrArg Wait.deadline (draw_eq_some draws).2.2.1
  have behind : e₂.shared.cursor ≤ w.deadline := by
    rw [deadline]
    exact Nat.le_trans (Nat.le_max_left _ _) (Nat.le_add_right _ _)
  refine ⟨without e₀.tasks.length e₂, hs₁', hs₂', uncalled ▸ first, labels,
    (kill_of_stands fresh).symm, deadline, ?_, labels', fun t later few => ⟨?_, fun same n b' w' => ?_⟩⟩
  · rw [kill_of_stands still, ← begun]
    exact second
  · exact balance_forfeit_iff (b := e₂.shared.leave e₀.tasks.length) fits later few w.deadline
  · exact draw_forfeit (b := e₂.shared.leave e₀.tasks.length) behind same

def half : State :=
  -- half of what the caller wants
  opening 0 ⟨5, 100, 10000000, 0, 0, []⟩

def halfCalled : State :=
  (follow program half [.act (.grab 10) ()]).2

def halfTaken : State :=
  (follow program halfCalled [.turn]).2

theorem waits_half (moves : List (Label Action Unit))
    (stands : ((follow program halfTaken moves).2.task? 0).isSome = true) :
    Waits 10 ⟨5, 50000000, 10000000⟩ half halfCalled halfCalled halfTaken
      (follow program halfTaken moves).2 [] (follow program halfTaken moves).1 where
  reached := ⟨100, 10000000, 5, 0, _, [], rfl, .refl⟩
  came := rfl
  before := .refl
  next := rfl
  small := by decide
  turned := rfl
  waits := rfl
  after := history_follow _ _
  stands := stands

/-- Another caller comes, and time passes, before the first one is dropped. -/
theorem half_run_of_abandoned :
    ∃ (e : State) (hs : List Moment),
      History program { e with shared := e.shared.forfeit e.now 50000000 } hs
        ((follow program halfTaken [.act (.grab 20) (), .turn, .clock 20000000]).2.kill program 0) ∧
      hs.map Prod.snd = [.act (.grab 20) .done, .turn, .clock 20000000] ∧
      ((e.shared.forfeit e.now 50000000).credit 20000000).balance ≠
        (e.shared.credit 20000000).balance := by
  have waits := waits_half [.act (.grab 20) (), .turn, .clock 20000000] (by decide)
  rcases run_of_abandoned waits with ⟨e, _, hs, _, _, rfl, _, run, labels, later⟩
  refine ⟨_, hs, run, labels, fun same => ?_⟩
  exact absurd ((later 20000000 (by decide) (by decide)).1.1 same) (by decide)

/-- The balance that a caller took is gone after it was dropped, and who comes next waits for longer. -/
theorem not_run_as_uncalled :
    (¬ ∀ (tokens : UInt64) (w : Wait) (e₀ e₁ e₂ e₃ e₄ e' : State) (hs₁ hs₂ hs' : List Moment),
        Waits tokens w e₀ e₁ e₂ e₃ e₄ hs₁ hs₂ →
        History program { e₀ with tasks := e₀.tasks ++ [none] } hs' e' →
        hs'.map Prod.snd = labelsWithout e₀.tasks.length (hs₁ ++ (e₂, .turn) :: hs₂) →
        ((e₄.kill program e₀.tasks.length).shared.credit e₄.now).balance =
          (e'.shared.credit e'.now).balance) ∧
      ¬ ∀ (tokens : UInt64) (w : Wait) (e₀ e₁ e₂ e₃ e₄ e' : State) (hs₁ hs₂ hs' : List Moment)
          (n : Nat) (b₁ b₂ : Bucket) (w₁ w₂ : Wait),
        Waits tokens w e₀ e₁ e₂ e₃ e₄ hs₁ hs₂ →
        History program { e₀ with tasks := e₀.tasks ++ [none] } hs' e' →
        hs'.map Prod.snd = labelsWithout e₀.tasks.length (hs₁ ++ (e₂, .turn) :: hs₂) →
        (e₄.kill program e₀.tasks.length).shared.draw e₄.now n = .ok (b₁, some w₁) →
        e'.shared.draw e'.now n = .ok (b₂, some w₂) → w₁.deadline = w₂.deadline := by
  have waits := waits_half [] (by decide)
  refine ⟨fun same => ?_, fun same => ?_⟩
  · exact absurd (same _ _ _ _ _ _ _ _ _ _ _ waits .refl rfl) (by decide)
  · have taken : (halfTaken.kill program 0).shared.draw 0 10 =
        .ok (⟨0, 100, 10000000, 0, 150000000, []⟩, some ⟨10, 150000000, 10000000⟩) := by decide
    have untaken : half.shared.draw 0 10 =
        .ok (⟨0, 100, 10000000, 0, 50000000, []⟩, some ⟨5, 50000000, 10000000⟩) := by decide
    have waited : (150000000 : Nat) = 50000000 :=
      same _ _ _ _ _ _ _ _ _ _ _ 10 _ _ _ _ waits .refl rfl taken untaken
    omega

end Bucket
end MeteredFetch
