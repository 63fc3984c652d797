import MeteredFetch.Proofs.Bucket.Order

/-!
# Steps — the moves on a bucket to the last detail

Which caller has the next turn depends on the ready list and on the alarms. This says what the moves
of a run on a bucket do to them as well.

* `Bucket.afterTurn` — what a turn of a caller leaves, and `Bucket.turn_eq` — what a turn does;
* `Bucket.operate_eq`, `Bucket.act_of_operate`, `Bucket.grab_eq`, `Bucket.kill_eq` — what is done from
  outside;
* `Bucket.waitOf_afterTurn`, `Bucket.waitOf_spawn`, `Bucket.waitOf_drop` — what the tasks wait for then.
-/

namespace MeteredFetch
namespace Bucket

open Executor

variable {e e' : State} {id n : TaskId} {answer : Answer}

/-! ## Turns -/

/-- What a turn of a caller leaves. Its alarm is cleared, and set anew if it waits. -/
def afterTurn (e : State) (id : TaskId) (g : Grab) (b : Bucket) (o : Option Caller) : State :=
  (({ e with
      shared := b
      tasks := e.tasks.set id (o.map fun caller => { g with caller })
      ready := e.ready.tail
      finished := ended e id g o } : State).clearAlarm id).setAlarm id (o.bind Caller.alarm)

/-- A turn does nothing if nobody is ready. Otherwise the first of the ready list sleeps on, or is
gone, or has its turn. -/
theorem turn_eq (h : e.turn program = .ok e') :
    (e.ready = [] ∧ e' = e) ∨ ∃ id rest, e.ready = id :: rest ∧
      ((e.sleepsOn id = true ∧ e' = ({ e with ready := rest } : State).resetAlarm id) ∨
        (e.task? id = none ∧ e' = { e with ready := rest }) ∨
        ∃ g b o, e.next? = some (id, g) ∧ g.caller.turn e.now id e.shared = .ok (b, o) ∧
          e' = afterTurn e id g b o) := by
  unfold Executor.turn at h
  split at h
  · rename_i nobody
    cases h
    exact .inl ⟨nobody, rfl⟩
  · rename_i id rest ready
    refine .inr ⟨id, rest, ready, ?_⟩
    have sleeps : ({ e with ready := rest } : State).sleepsOn id = e.sleepsOn id := rfl
    simp only [sleeps] at h
    split at h
    · rename_i asleep
      cases h
      exact .inl ⟨asleep, rfl⟩
    · rename_i awake
      unfold take at h
      have stands : ({ e with ready := rest } : State).task? id = e.task? id := rfl
      rw [stands] at h
      cases found : e.task? id with
      | none =>
          simp only [found] at h
          cases h
          exact .inr (.inl ⟨rfl, rfl⟩)
      | some g =>
          simp only [found] at h
          rcases ok_of_bind h with ⟨t, turned, same⟩
          rcases ok_of_bind turned with ⟨⟨b, o⟩, looked, left⟩
          refine .inr (.inr ⟨g, b, o, ?_, looked, ?_⟩)
          · simp [next?, ready, awake, found]
          · -- the turn has no effects, so nothing is woken after it
            unfold afterTurn
            rw [ready, List.tail_cons]
            cases o with
            | none =>
                cases left
                cases same
                rfl
            | some caller =>
                cases left
                cases same
                cases caller <;> rfl

/-! ## Actions and drops -/

theorem carryOutAll_map_wake (ids : List TaskId) (e : State) :
    e.carryOutAll program (ids.map .wake) = ids.foldl Executor.wake e := by
  unfold carryOutAll
  rw [List.foldl_map]
  rfl

/-- An operation changes the bucket and wakes callers. -/
theorem operate_eq {op : Operation} (h : e.act program (.operate op) = .ok (e', answer)) :
    ∃ b woken, e.shared.operate e.now op = .ok (b, woken, answer) ∧
      e' = woken.foldl Executor.wake { e with shared := b } := by
  rcases act_cases h with ⟨r, performed, rfl, rfl⟩
  rcases ok_of_bind performed with ⟨⟨b, woken, answer⟩, operated, rest⟩
  cases rest
  exact ⟨b, woken, operated, carryOutAll_map_wake woken { e with shared := b }⟩

/-- An operation puts its bucket in place and wakes the callers that it names. -/
theorem act_of_operate {op : Operation} {b : Bucket} {woken : List TaskId}
    (operated : e.shared.operate e.now op = .ok (b, woken, answer)) :
    e.act program (.operate op) =
      .ok (woken.foldl Executor.wake { e with shared := b }, answer) := by
  have performed : program.perform e.now e.tasks.length (.operate op) e.shared =
      .ok ⟨b, woken.map .wake, answer⟩ := by
    simp [program, perform, operated, bind, Except.bind, pure, Except.pure]
  unfold Executor.act
  rw [performed, ← carryOutAll_map_wake]
  rfl

/-- A withdrawal is a new task, which has done nothing yet. -/
theorem grab_eq {tokens : UInt64} (h : e.act program (.grab tokens) = .ok (e', answer)) :
    e' = e.spawn (.start tokens) := by
  rcases act_cases h with ⟨r, performed, _, rfl⟩
  cases performed
  rfl

theorem kill_eq (e : State) (id : TaskId) : e.kill program id = e.drop program id := rfl

/-! ## What the tasks wait for -/

theorem waitOf_of_tasks (same : e'.tasks = e.tasks) (n : TaskId) : waitOf e' n = waitOf e n := by
  unfold waitOf task?
  rw [same]

theorem tasks_afterTurn (e : State) (id : TaskId) (g : Grab) (b : Bucket) (o : Option Caller) :
    (afterTurn e id g b o).tasks = e.tasks.set id (o.map fun caller => { g with caller }) :=
  (Alike.setAlarm _ id (o.bind Caller.alarm)).tasks

theorem shared_afterTurn (e : State) (id : TaskId) (g : Grab) (b : Bucket) (o : Option Caller) :
    (afterTurn e id g b o).shared = b :=
  (Alike.setAlarm _ id (o.bind Caller.alarm)).shared

theorem ready_afterTurn (e : State) (id : TaskId) (g : Grab) (b : Bucket) (o : Option Caller) :
    (afterTurn e id g b o).ready = e.ready.tail := by
  unfold afterTurn
  cases o.bind Caller.alarm <;> rfl

/-- The only alarm that is set after a turn is that of the task. -/
theorem mem_alarms_afterTurn {g : Grab} {b : Bucket} {o : Option Caller} {a : Alarm}
    (member : a ∈ (afterTurn e id g b o).alarms) : a.task = id ∨ a ∈ e.alarms := by
  unfold afterTurn at member
  cases alarm : o.bind Caller.alarm with
  | none =>
      rw [alarm] at member
      exact .inr (List.mem_of_mem_filter member)
  | some deadline =>
      rw [alarm] at member
      rcases List.mem_cons.1 ((Alarm.insert_perm _ _).mem_iff.1 member) with rfl | old
      · exact .inl rfl
      · exact .inr (List.mem_of_mem_filter old)

/-- After a turn of a caller, the others wait for what they waited for. -/
theorem waitOf_afterTurn {g : Grab} (stands : e.tasks[id]? = some (some g)) (b : Bucket)
    (o : Option Caller) (n : TaskId) :
    waitOf (afterTurn e id g b o) n = if n = id then o.bind Caller.wait? else waitOf e n := by
  have inside : id < e.tasks.length := (List.getElem?_eq_some_iff.1 stands).1
  unfold waitOf task?
  rw [tasks_afterTurn]
  split
  · rename_i own
    subst own
    rw [List.getElem?_set_self inside]
    cases o <;> rfl
  · rename_i other
    rw [List.getElem?_set_ne (Ne.symm other)]

/-- A caller that has just come waits for nothing. -/
theorem waitOf_spawn (e : State) (tokens : UInt64) (n : TaskId) :
    waitOf (e.spawn (.start tokens)) n = waitOf e n := by
  unfold waitOf task? Executor.spawn
  simp only
  by_cases old : n < e.tasks.length
  · rw [List.getElem?_append_left old]
  · have beyond : e.tasks.length ≤ n := Nat.le_of_not_lt old
    rw [List.getElem?_append_right beyond, List.getElem?_eq_none beyond]
    cases n - e.tasks.length <;> rfl

/-- Who is dropped waits for nothing any more. -/
theorem waitOf_drop (e : State) (id n : TaskId) :
    waitOf (e.drop program id) n = if n = id then none else waitOf e n := by
  cases found : e.task? id with
  | none =>
      rw [drop_of_task?_eq_none program found]
      split
      · rename_i own
        rw [own]
        simp [waitOf, found]
      · rfl
  | some g =>
      have inside : id < e.tasks.length :=
        (List.getElem?_eq_some_iff.1 (getElem?_of_task? found)).1
      rw [waitOf_of_tasks (drop_alike program e found).tasks]
      unfold waitOf task?
      simp only
      split
      · rename_i own
        rw [own, List.getElem?_set_self inside]
        rfl
      · rename_i other
        rw [List.getElem?_set_ne (Ne.symm other)]

end Bucket
end MeteredFetch
