import MeteredFetch.Proofs.Bucket.Scripted
import MeteredFetch.Proofs.Bucket.Unlisted
import MeteredFetch.Proofs.Bucket.Visit

/-!
# Erasure — a run without one of its tasks

A task that only waits shows nowhere but in the list of those to be woken, in the ready list and among the
alarms. If it is taken out of all states of a run, its own turns do nothing, and the other moves lead from
one of these states to the next as before, with the same answers. Its number stays free.

* `Alarm.filter_insert` — an alarm is set in its place among those that are kept;
* `Bucket.without` — a state without a task, which is what a drop of the task leaves;
* `Bucket.Quiet` — a move that is no turn in which the task draws chunks;
* `Bucket.erased_of_step`, `Bucket.erased_of_history` — moves and runs without a task that is quiet.
-/

namespace MeteredFetch

open Executor

/-! ## Alarms -/

namespace Alarm

variable {a : Alarm} {alarms : List Alarm} {p : Alarm → Bool}

/-- An alarm that rings before all others is put in front. -/
theorem insert_of_later (later : ∀ b ∈ alarms, a.deadline < b.deadline) :
    insert a alarms = a :: alarms := by
  cases alarms with
  | nil =>
      rfl
  | cons b rest =>
      exact if_neg (Nat.not_le.2 (later b List.mem_cons_self))

/-- An alarm that is not kept leaves no trace. -/
theorem filter_insert_of_neg (out : p a = false) (alarms : List Alarm) :
    (insert a alarms).filter p = alarms.filter p := by
  induction alarms with
  | nil =>
      simp [insert, out]
  | cons b rest ih =>
      by_cases le : b.deadline ≤ a.deadline
      · cases kept : p b <;> simp [insert, le, kept, ih]
      · simp [insert, le, out]

/-- In a list that is in order, an alarm gets the place that it gets among those that are kept. -/
theorem filter_insert (kept : p a = true)
    (sorted : alarms.Pairwise fun x y => x.deadline ≤ y.deadline) :
    (insert a alarms).filter p = insert a (alarms.filter p) := by
  induction alarms with
  | nil =>
      simp [insert, kept]
  | cons b rest ih =>
      rcases List.pairwise_cons.1 sorted with ⟨first, later⟩
      by_cases le : b.deadline ≤ a.deadline
      · cases stays : p b <;> simp [insert, le, stays, ih later]
      · -- it goes before all others, whichever of them are kept
        have ahead : ∀ c ∈ (b :: rest).filter p, a.deadline < c.deadline := by
          intro c member
          rcases List.mem_cons.1 (List.mem_of_mem_filter member) with rfl | there
          · exact Nat.lt_of_not_le le
          · exact Nat.lt_of_lt_of_le (Nat.lt_of_not_le le) (first c there)
        have front : insert a (b :: rest) = a :: b :: rest := if_neg le
        rw [front, insert_of_later ahead, List.filter_cons_of_pos kept]

end Alarm

namespace Bucket

variable {e e' : State} {id n : TaskId}

/-! ## States without a task -/

def without (id : TaskId) (e : State) : State :=
  { e with
    shared := e.shared.leave id
    tasks := e.tasks.set id none
    ready := e.ready.filter (· != id)
    alarms := e.alarms.filter fun a => a.task != id }

/-- A task is dropped by taking it out of the state. -/
theorem kill_of_stands {g : Grab} (stands : e.task? id = some g) :
    e.kill program id = without id e := by
  rw [kill_eq]
  unfold drop
  rw [stands]
  rfl

namespace Without

/-- The other tasks stand where they stood. -/
theorem task?_of_ne (ne : n ≠ id) (e : State) : (without id e).task? n = e.task? n := by
  unfold task? without
  rw [List.getElem?_set_ne (Ne.symm ne)]

theorem task?_self (e : State) (id : TaskId) : (without id e).task? id = none := by
  unfold task? without
  rw [List.getElem?_set]
  split
  · split <;> rfl
  · rename_i other
    exact absurd rfl other

theorem sleepsOn_of_ne (ne : n ≠ id) (e : State) : (without id e).sleepsOn n = e.sleepsOn n := by
  have own : (fun a : Alarm => decide ((a.task != id) = true ∧ (a.task == n) = true)) =
      fun a => a.task == n := by
    funext a
    by_cases mine : a.task = n <;> simp [mine, ne]
  unfold sleepsOn alarm? without
  simp only [List.find?_filter, own]

/-! ## Waking and starting tasks -/

/-- A task that is taken out can be roused without a trace. -/
theorem rouse_self (e : State) (id : TaskId) : without id (e.rouse id) = without id e := by
  unfold Executor.rouse
  split
  · simp [without, List.filter_append]
  · rfl

/-- Whether another task is roused first or the task is taken out first makes no difference. -/
theorem rouse (ne : n ≠ id) (e : State) : without id (e.rouse n) = (without id e).rouse n := by
  have listed : (without id e).ready.contains n = e.ready.contains n := by
    simp [without, ne]
  unfold Executor.rouse
  rw [task?_of_ne ne, listed]
  split
  · simp [without, List.filter_append, ne]
  · rfl

theorem clearAlarm (id n : TaskId) (e : State) :
    without id (e.clearAlarm n) = (without id e).clearAlarm n := by
  unfold Executor.clearAlarm without
  rw [List.filter_comm]

theorem clearAlarm_self (e : State) (id : TaskId) :
    without id (e.clearAlarm id) = without id e := by
  simp [Executor.clearAlarm, without, List.filter_filter]

/-- A task that is taken out can be woken without a trace. -/
theorem wake_self (e : State) (id : TaskId) : without id (e.wake id) = without id e :=
  (rouse_self (e.clearAlarm id) id).trans (clearAlarm_self e id)

/-- Another task is woken alike with and without the one that is taken out. -/
theorem wake (ne : n ≠ id) (e : State) : without id (e.wake n) = (without id e).wake n := by
  unfold Executor.wake
  rw [rouse ne, clearAlarm]

/-- What is done to tasks one after another is done to all others without this one. -/
theorem foldl {f : State → TaskId → State}
    (own : ∀ e, without id (f e id) = without id e)
    (other : ∀ {n}, n ≠ id → ∀ e, without id (f e n) = f (without id e) n)
    (ids : List TaskId) (e : State) :
    without id (ids.foldl f e) = (ids.filter (· != id)).foldl f (without id e) := by
  induction ids generalizing e with
  | nil =>
      rfl
  | cons n rest ih =>
      by_cases mine : n = id
      · have left : (n :: rest).filter (· != id) = rest.filter (· != id) := by simp [mine]
        rw [List.foldl_cons, ih, left, mine, own]
      · have left : (n :: rest).filter (· != id) = n :: rest.filter (· != id) := by simp [mine]
        rw [List.foldl_cons, ih, left, List.foldl_cons, other mine]

/-- Tasks are numbered alike, since the number of the one that is taken out stays free. -/
theorem spawn (inside : id < e.tasks.length) (g : Grab) :
    without id (e.spawn g) = (without id e).spawn g := by
  have ne : e.tasks.length ≠ id := Nat.ne_of_gt inside
  unfold Executor.spawn without
  simp [List.set_append_left id none inside, List.filter_append, ne]

/-! ## Moves -/

/-- The clock wakes the others alike. -/
theorem setClock (id : TaskId) (time : Instant) (e : State) :
    without id (e.setClock time) = (without id e).setClock time := by
  have rings : ∀ alarms : List Alarm, (alarms.map (Alarm.ring time)).filter (fun a => a.task != id) =
      (alarms.filter fun a => a.task != id).map (Alarm.ring time) := by
    intro alarms
    rw [List.filter_map]
    simp [Function.comp_def]
  have due : ((e.alarms.filter fun a => a.isDue time && !a.rung).map Alarm.task).filter (· != id) =
      ((e.alarms.filter fun a => a.task != id).filter fun a => a.isDue time && !a.rung).map
        Alarm.task := by
    rw [List.filter_map, List.filter_comm]
    rfl
  unfold Executor.setClock
  simp only [foldl (fun e => rouse_self e id) rouse, due]
  unfold without
  simp only [rings]

theorem drop_self (e : State) (id : TaskId) : (without id e).drop program id = without id e :=
  drop_of_task?_eq_none program (task?_self e id)

theorem drop (ne : n ≠ id) (e : State) :
    without id (e.drop program n) = (without id e).drop program n := by
  unfold Executor.drop
  rw [task?_of_ne ne]
  cases e.task? n with
  | none =>
      rfl
  | some g =>
      have left : (e.shared.leave n).leave id = (e.shared.leave id).leave n :=
        leave_leave e.shared n id
      simp only [without, Executor.clearAlarm, program, left, List.filter_comm (· != n),
        List.filter_comm (fun a : Alarm => a.task != n), List.set_comm _ _ ne]

/-- After a drop there is nothing of the task left to take out. -/
theorem drop_of_self (e : State) (id : TaskId) :
    without id (e.drop program id) = without id e := by
  cases found : e.task? id with
  | none =>
      rw [drop_of_task?_eq_none program found]
  | some g =>
      rw [← kill_eq, kill_of_stands found]
      simp [without, leave_self, List.filter_filter]

theorem resetAlarm (id n : TaskId) (e : State) :
    without id (e.resetAlarm n) = (without id e).resetAlarm n := by
  unfold Executor.resetAlarm without
  simp only [List.filter_map]
  congr 2
  refine List.filter_congr fun a _ => ?_
  by_cases mine : a.task = n <;> simp [mine]

theorem resetAlarm_self (e : State) (id : TaskId) :
    without id (e.resetAlarm id) = without id e := by
  have others : ∀ a ∈ e.alarms.filter fun a => a.task != id,
      (if a.task == id then { a with rung := false } else a) = a := by
    intro a member
    have ne : a.task ≠ id := by simpa using (List.mem_filter.1 member).2
    exact if_neg (by simpa using ne)
  rw [resetAlarm]
  unfold Executor.resetAlarm
  simp only [without, List.map_congr_left others, List.map_id']

/-- A turn of another task. -/
theorem afterTurn {rest : List TaskId} (ready : e.ready = n :: rest) (ne : n ≠ id)
    (sorted : e.alarms.Pairwise fun a a' => a.deadline ≤ a'.deadline) (g : Grab) (b : Bucket)
    (o : Option Caller) :
    without id (afterTurn e n g b o) = Bucket.afterTurn (without id e) n g (b.leave id) o := by
  have left : e.ready.tail.filter (· != id) = (e.ready.filter (· != id)).tail := by
    simp [ready, ne]
  have ended : ended (without id e) n g o = Bucket.ended e n g o := by
    cases o <;> rfl
  have cleared : (e.alarms.filter fun a => a.task != n).Pairwise fun a a' => a.deadline ≤ a'.deadline :=
    sorted.filter _
  unfold Bucket.afterTurn
  rw [ended]
  cases o.bind Caller.alarm with
  | none =>
      simp only [setAlarm, Executor.clearAlarm, without, left, List.set_comm _ _ ne,
        List.filter_comm fun a : Alarm => a.task != n]
  | some deadline =>
      have placed := Alarm.filter_insert (a := { deadline, task := n }) (p := fun a => a.task != id)
        (by simpa using ne) cleared
      simp only [setAlarm, Executor.clearAlarm, without, left, List.set_comm _ _ ne,
        placed, List.filter_comm fun a : Alarm => a.task != n]

/-- A turn of the task itself, if it waits then. -/
theorem afterTurn_self (ready : e.ready.head? = some id) (g : Grab) (b : Bucket) (caller : Caller) :
    without id (Bucket.afterTurn e id g b (some caller)) =
      { without id e with shared := b.leave id } := by
  have left : e.ready.tail.filter (· != id) = e.ready.filter (· != id) := by
    rcases List.head?_eq_some_iff.1 ready with ⟨rest, first⟩
    simp [first]
  unfold Bucket.afterTurn
  cases (some caller).bind Caller.alarm with
  | none =>
      simp only [setAlarm, Executor.clearAlarm, without, left, List.set_set,
        List.filter_filter, Bool.and_self, Bucket.ended]
  | some deadline =>
      have placed := Alarm.filter_insert_of_neg (a := { deadline, task := id })
        (p := fun a => a.task != id) (by simp) (e.alarms.filter fun a => a.task != id)
      simp only [setAlarm, Executor.clearAlarm, without, left, List.set_set, placed,
        List.filter_filter, Bool.and_self, Bucket.ended]

end Without

/-! ## Moves -/

namespace Moment

/-- Whether the move is the turn of the task, or finds that it sleeps on or is gone. -/
def isOwn (id : TaskId) (m : Moment) : Bool :=
  match m.2 with
  | .turn => m.1.ready.head? == some id
  | .act _ _ | .clock _ | .kill _ => false

end Moment

/-- The move is no turn in which the task draws chunks: no turn that it begins with, and none that finds
its wait over. -/
def Quiet (id : TaskId) (m : Moment) : Prop :=
  m.2 = .turn → ∀ g, m.1.next? = some (id, g) →
    (∃ w, g.caller.wait? = some w) ∧ g.caller.over? m.1.now m.1.shared = none

/-- The turn of a task that waits on. -/
theorem erased_of_own_turn (quiet : Quiet id (e, .turn)) (own : e.ready.head? = some id)
    (turned : e.turn program = .ok e') : without id e' = without id e := by
  rcases turn_eq turned with ⟨nobody, rfl⟩ |
    ⟨n, rest, first, ⟨asleep, rfl⟩ | ⟨gone, rfl⟩ | ⟨g, b, o, next, looked, rfl⟩⟩
  · rfl
  · rw [first] at own
    cases own
    rw [Without.resetAlarm_self]
    simp [without, first]
  · rw [first] at own
    cases own
    simp [without, first]
  · have here : n = id := by
      rw [first] at own
      exact Option.some.inj own
    subst here
    rcases quiet rfl g next with ⟨⟨w, waits⟩, unexpired⟩
    rcases Caller.turn_cases looked with ⟨_, _, arriving, _⟩ |
      ⟨_, _, _, _, _, _, expired, _⟩ | ⟨_, _, w', waiting, _, _, _, _, rfl, rfl⟩
    · rw [arriving] at waits
      cases waits
    · cases unexpired.symm.trans expired
    · rw [Without.afterTurn_self own, leave_join, leave_self]
      rfl

/-- The first of the ready list sleeps on, or is gone, or has its turn. -/
theorem turn_cons {rest : List TaskId} (ready : e.ready = n :: rest) :
    e.turn program =
      if e.sleepsOn n then .ok (({ e with ready := rest } : State).resetAlarm n)
      else
        match e.task? n with
        | none => .ok { e with ready := rest }
        | some g => (g.caller.turn e.now n e.shared).map fun r => afterTurn e n g r.1 r.2 := by
  have sleeps : ({ e with ready := rest } : State).sleepsOn n = e.sleepsOn n := rfl
  have stands : ({ e with ready := rest } : State).task? n = e.task? n := rfl
  by_cases asleep : e.sleepsOn n = true
  · unfold Executor.turn
    simp only [ready, sleeps, if_pos asleep]
  · rw [if_neg asleep]
    cases found : e.task? n with
    | none =>
        unfold Executor.turn take
        simp only [ready, sleeps, if_neg asleep, stands, found]
    | some g =>
        cases looked : g.caller.turn e.now n e.shared with
        | error panic =>
            unfold Executor.turn take
            simp only [ready, sleeps, if_neg asleep, stands, found, program, Bucket.turn, looked]
            rfl
        | ok r =>
            simp only [looked]
            exact turn_of_ready ready (by simpa using asleep) found looked

/-- The turn of another task. -/
theorem turn_without {rest : List TaskId} (ready : e.ready = n :: rest) (ne : n ≠ id)
    (sorted : e.alarms.Pairwise fun a a' => a.deadline ≤ a'.deadline) :
    (without id e).turn program = (e.turn program).map (without id) := by
  have ready' : (without id e).ready = n :: rest.filter (· != id) := by
    simp [without, ready, ne]
  rw [turn_cons ready, turn_cons ready', Without.sleepsOn_of_ne ne, Without.task?_of_ne ne]
  by_cases asleep : e.sleepsOn n = true
  · rw [if_pos asleep, if_pos asleep]
    simp only [Except.map, Without.resetAlarm]
    rfl
  · rw [if_neg asleep, if_neg asleep]
    cases e.task? n with
    | none =>
        rfl
    | some g =>
        have looked : g.caller.turn (without id e).now n (without id e).shared =
            (g.caller.turn e.now n e.shared).map (aside id) := turn_leave ne g.caller e.shared
        simp only [looked]
        cases g.caller.turn e.now n e.shared with
        | error panic =>
            rfl
        | ok r =>
            exact congrArg Except.ok (Without.afterTurn ready ne sorted g r.1 r.2).symm

/-- An action from outside. -/
theorem act_without (inside : id < e.tasks.length) {action : Action} {answer : Answer}
    (acted : e.act program action = .ok (e', answer)) :
    (without id e).act program action = .ok (without id e', answer) := by
  cases action with
  | operate op =>
      rcases operate_eq acted with ⟨b, woken, operated, rfl⟩
      have operated' : (without id e).shared.operate (without id e).now op =
          .ok (b.leave id, woken.filter (· != id), answer) := by
        have apart := operate_leave e.now op e.shared id
        rw [operated] at apart
        exact apart
      rw [act_of_operate operated',
        Without.foldl (fun e => Without.wake_self e id) Without.wake woken]
      rfl
  | grab tokens =>
      cases grab_eq acted
      rw [Without.spawn inside]
      rcases act_cases acted with ⟨r, performed, rfl, _⟩
      cases performed
      rfl

/-- A move of a run without a task. If it is quiet, its own turns do nothing, and the others lead from state
to state as before. -/
theorem erased_of_step {l : Label Action Answer} (roster : Roster e) (inside : id < e.tasks.length)
    (quiet : Quiet id (e, l)) (step : Step program e l e') :
    (Moment.isOwn id (e, l) = true ∧ without id e' = without id e) ∨
      (Moment.isOwn id (e, l) = false ∧ Step program (without id e) l (without id e')) := by
  cases step with
  | turn turned =>
      -- the caller's own turn is the one step that the other execution does not make
      by_cases own : e.ready.head? = some id
      · exact .inl ⟨by simp [Moment.isOwn, own], erased_of_own_turn quiet own turned⟩
      · refine .inr ⟨by simp [Moment.isOwn, own], .turn ?_⟩
        cases ready : e.ready with
        | nil =>
            have ready' : (without id e).ready = [] := by simp [without, ready]
            unfold Executor.turn at turned ⊢
            simp only [ready] at turned
            simp only [ready']
            cases turned
            rfl
        | cons n rest =>
            have ne : n ≠ id := by
              rintro rfl
              exact own (by simp [ready])
            rw [turn_without ready ne roster.sorted, turned]
            rfl
  | clock time =>
      rw [Without.setClock]
      exact .inr ⟨rfl, .clock _ time⟩
  | kill task =>
      refine .inr ⟨rfl, ?_⟩
      rw [kill_eq]
      by_cases own : task = id
      · have gone := Step.kill (p := program) (without id e) id
        rw [kill_eq, Without.drop_self] at gone
        rw [own, Without.drop_of_self]
        exact gone
      · rw [Without.drop own]
        exact .kill (without id e) task
  | act acted =>
      exact .inr ⟨rfl, .act (act_without inside acted)⟩

/-! ## Runs -/

/-- What moves are, without the turns of a task. -/
def labelsWithout (id : TaskId) (hs : List Moment) : List (Label Action Answer) :=
  (hs.filter fun m => !m.isOwn id).map Prod.snd

/-- A move is left out if it is a turn of the task itself. -/
theorem labelsWithout_concat (id : TaskId) (hs : List Moment) (m : Moment) :
    labelsWithout id (hs ++ [m]) = labelsWithout id hs ++ if m.isOwn id then [] else [m.2] := by
  unfold labelsWithout
  rw [List.filter_append, List.map_append]
  cases own : m.isOwn id <;> simp [own]

/-- A run without a task. -/
theorem erased_of_history {hs : List Moment} (roster : Roster e) (inside : id < e.tasks.length)
    (history : History program e hs e') (quiet : ∀ m ∈ hs, Quiet id m) :
    ∃ hs', History program (without id e) hs' (without id e') ∧
      hs'.map Prod.snd = labelsWithout id hs := by
  induction history with
  | refl =>
      exact ⟨[], .refl, rfl⟩
  | @tail hs l e' e'' before step ih =>
      rcases ih fun m member => quiet m (List.mem_append_left _ member) with ⟨hs', history', labels⟩
      have last : Quiet id (e', l) := quiet (e', l) (by simp)
      have roster' : Roster e' :=
        before.trace.invariant (fun roster step => roster_of_step roster step) roster
      have inside' : id < e'.tasks.length :=
        Nat.lt_of_lt_of_le inside (length_tasks_le roster before.trace)
      rcases erased_of_step roster' inside' last step with ⟨own, same⟩ | ⟨other, step'⟩
      · refine ⟨hs', same ▸ history', ?_⟩
        rw [labelsWithout_concat, labels, own]
        simp
      · refine ⟨hs' ++ [(without id e', l)], history'.tail step', ?_⟩
        rw [labelsWithout_concat, List.map_append, labels, other]
        rfl

end Bucket
end MeteredFetch
