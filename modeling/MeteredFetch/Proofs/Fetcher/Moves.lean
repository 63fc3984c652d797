import MeteredFetch.Proofs.Fetcher.Cancellation

/-!
# Moves — what one move does, in four cases

A move is the turn of a task, or an action, or it drops a task, or it does nothing that tasks or
shared state could show. In each case it is known what becomes of the shared state, of the tasks,
with their numbers, and of the ends that are recorded. A sweep may come on top.

* `Fetcher.Swept` — a sweep is all that lies between two shared states;
* `Fetcher.Leaves` — what is left after a move, up to a sweep;
* `Fetcher.Moves` — the four cases, and `Fetcher.moves_of_step` says that there is no other.
-/

namespace MeteredFetch
namespace Fetcher

open Executor

variable {f g : Fetcher} {e e' : State}

/-! ## Effects -/

/-- Nothing but schedulers differs, and not what they do with requests. -/
def Swept (f g : Fetcher) : Prop :=
  ∃ schedulers, g = { f with schedulers } ∧ schedulers.map mail = f.schedulers.map mail

theorem Swept.refl (f : Fetcher) : Swept f f :=
  ⟨f.schedulers, rfl, rfl⟩

/-- A sweep is of no concern to requests and their consumers. -/
theorem Swept.unchanged (h : Swept f g) : Unchanged f g := by
  rcases h with ⟨schedulers, rfl, _⟩
  exact ⟨rfl, rfl, rfl⟩

/-- What is left after a move that brings the shared state to `f`, up to a sweep. -/
structure Leaves (now : Instant) (f : Fetcher) (tasks : List (Option Job))
    (finished : List (Completion Result)) (e' : State) : Prop where
  now : e'.now = now
  shared : Swept f e'.shared
  tasks : e'.tasks = tasks
  finished : e'.finished = finished

/-- What a turn leaves of its task, whatever tasks it has started. -/
theorem Leaves.stands {now : Instant} {number : TaskId} {job : Option Job} {more : List (Option Job)}
    {finished : List (Completion Result)} (left : Leaves now f (e.tasks.set number job ++ more) finished e')
    (inside : number < e.tasks.length) : e'.tasks[number]? = some job := by
  rw [left.tasks, List.getElem?_append_left (by rwa [List.length_set]), List.getElem?_set_self inside]

/-- Effects that drop nobody add tasks and leave the rest as it was, up to a sweep. -/
theorem leaves_carryOutAll {effects : Effects} (gentle : Gentle effects) (e : State) :
    Leaves e.now e.shared (e.tasks ++ (spawned effects).map some) e.finished
      (e.carryOutAll program effects) := by
  have alike := carryOutAll_alike program gentle e
  refine ⟨alike.now, ?_, alike.tasks, alike.finished⟩
  rw [alike.shared]
  exact sweep_same _ e.shared

/-- A sweep by itself leaves everything, up to a sweep. -/
theorem leaves_sweep (e : State) :
    Leaves e.now e.shared e.tasks e.finished (e.sweep program) := by
  have alike := sweep_alike program e
  refine ⟨alike.now, ?_, alike.tasks, alike.finished⟩
  rw [alike.shared]
  exact sweep_same e.tasks e.shared

/-- No turn drops a task. -/
theorem gentle_of_turn {now : Instant} {task : TaskId} {job : Job} {t : Turned}
    (turned : f.turn now task job = .ok t) : Gentle t.effects := by
  cases turns turned with
  | granted | waits =>
      exact Waking.nil.gentle
  | @attempts _ request stage _ _ _ _ _ _ _ _ =>
      exact (waking_send f now task request stage).gentle
  | @retries request failure =>
      exact (waking_retry f request failure).gentle
  | @serves d _ _ served =>
      cases served with
      | served =>
          exact gentle_sendAll d _
      | _ =>
          exact Waking.nil.gentle

/-- The only action that drops a task is the one that drops a dispatcher. -/
theorem gentle_of_perform {now : Instant} {task : TaskId} {action : Action} {r : Reacted}
    (performed : f.perform now task action = .ok r) :
    Gentle r.effects ∨ ∃ d number, action = .abort d ∧ r.shared = f ∧ r.effects = [.drop number] := by
  cases does performed with
  | @scheduled request =>
      exact .inl (waking_schedule f request).gentle
  | tuned _ _ _ waking =>
      exact .inl waking.gentle
  | @aborted d _ number _ _ =>
      exact .inr ⟨d, number, rfl, rfl, rfl⟩
  | @operated _ _ woken _ _ =>
      have waking : Waking (woken.map (Effect.wake (τ := Job))) := .map_wake _
      exact .inl waking.gentle
  | sends | retries | grabs | started =>
      exact .inl (by simp [Gentle])
  | _ =>
      exact .inl Waking.nil.gentle

/-! ## Moves -/

inductive Moves (e : State) (l : Label Action Answer) (e' : State) : Prop
  /-- It is the turn of a task. -/
  | turned {number : TaskId} {job : Job} {t : Turned} :
      l = .turn → e.next? = some (number, job) → e.shared.turn e.now number job = .ok t →
      Leaves e.now t.shared (e.tasks.set number (standing t.next) ++ (spawned t.effects).map some)
        (e.recorded number t.next) e' → Moves e l e'
  /-- It is an action, and drops no task. -/
  | acted {action : Action} {answer : Answer} {r : Reacted} :
      l = .act action answer → Gentle r.effects →
      e.shared.perform e.now e.tasks.length action = .ok r →
      Leaves e.now r.shared (e.tasks ++ (spawned r.effects).map some) e.finished e' → Moves e l e'
  /-- It drops a task. -/
  | dropped {number : TaskId} {job : Job} :
      l ≠ .turn → e.tasks[number]? = some (some job) →
      Leaves e.now (e.shared.dropJob number job) (e.tasks.set number none) e.finished e' →
      Moves e l e'
  /-- It changes the time, or who is ready, and nothing else. -/
  | rested {now : Instant} :
      (l = .turn → e.next? = none) → Leaves now e.shared e.tasks e.finished e' → Moves e l e'

/-- A task is dropped, or it was gone before. -/
theorem moves_of_drop {l : Label Action Answer} (quiet : l ≠ .turn) (number : TaskId) :
    Moves e l ((e.drop program number).sweep program) := by
  have left := leaves_sweep (e.drop program number)
  cases stands : e.task? number with
  | none =>
      rw [drop_of_task?_eq_none program stands] at left ⊢
      exact .rested (fun turn => absurd turn quiet) left
  | some job =>
      have alike := drop_alike program e stands
      rw [alike.now, alike.shared, alike.tasks, alike.finished] at left
      exact .dropped quiet (getElem?_of_task? stands) left

/-- The cases of a move of the fetcher. -/
theorem moves_of_step {l : Label Action Answer} (step : Step program e l e') : Moves e l e' := by
  cases step with
  | act acted =>
      rcases act_cases acted with ⟨r, performed, _, rfl⟩
      rcases gentle_of_perform performed with gentle | ⟨d, number, _, shared, effects⟩
      · have left := leaves_carryOutAll gentle { e with shared := r.shared }
        exact .acted rfl gentle performed left
      · rw [shared, effects]
        exact moves_of_drop (by simp) number
  | turn turned =>
      rcases turn_cases turned with ⟨nobody, alike⟩ |
        ⟨number, job, t, middle, next, went, alike, rfl⟩
      · refine .rested (fun _ => nobody) ⟨alike.now, ?_, alike.tasks, alike.finished⟩
        rw [alike.shared]
        exact .refl e.shared
      · have left := leaves_carryOutAll (gentle_of_turn went) middle
        rw [alike.now, alike.shared, alike.tasks, alike.finished] at left
        exact .turned rfl next went left
  | clock time =>
      have alike := setClock_alike e time
      refine .rested nofun ⟨alike.now, ?_, alike.tasks, alike.finished⟩
      rw [alike.shared]
      exact .refl e.shared
  | kill number =>
      exact moves_of_drop (by simp) number

/-- What the turn of the next task does. -/
theorem Moves.of_next {l : Label Action Answer} {number : TaskId} {job : Job}
    (moves : Moves e l e') (turn : l = .turn) (next : e.next? = some (number, job)) :
    ∃ t, e.shared.turn e.now number job = .ok t ∧
      Leaves e.now t.shared (e.tasks.set number (standing t.next) ++ (spawned t.effects).map some)
        (e.recorded number t.next) e' := by
  cases moves with
  | turned _ next' went left =>
      cases next.symm.trans next'
      exact ⟨_, went, left⟩
  | acted acted =>
      cases turn.symm.trans acted
  | dropped quiet _ _ =>
      exact absurd turn quiet
  | rested quiet _ =>
      cases next.symm.trans (quiet turn)

end Fetcher
end MeteredFetch
