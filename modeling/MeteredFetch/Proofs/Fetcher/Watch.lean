import MeteredFetch.Proofs.Executor.Attention
import MeteredFetch.Proofs.Fetcher.Registrations

/-!
# Watch — who listens for the mail of a dispatcher

A scheduler knows the task that listens for its mail, and whether it was abandoned. Both are matters of
its dispatcher and of the sweep. Whoever registers a request puts it into the scheduler and leaves the
rest as it is.

* `Fetcher.watch?` — the task that listens for the mail of a dispatcher, and whether no more will come;
* `Fetcher.watch?_of_turn`, `Fetcher.watch?_of_perform`, `Fetcher.watch?_dropJob` — nobody else changes
  that;
* `Fetcher.watch?_of_step` — between the turns of a dispatcher that is left alone, nothing but a
  sweep does.
-/

namespace MeteredFetch
namespace Fetcher

open Executor

/-- The task that listens for the mail of a dispatcher, and whether the scheduler was abandoned. -/
def watch? (f : Fetcher) (d : Nat) : Option (Option TaskId × Bool) :=
  (f.schedulers[d]?).map fun q => (q.listener, q.abandoned)

variable {d : Nat} {f g : Fetcher} {now : Instant} {task : TaskId} {job : Job} {t : Turned}
  {e e' : State} {l : Label Action Answer} {id : RequestId} {number : TaskId}

theorem watch?_of_scheduler {q : Scheduler} (there : f.schedulers[d]? = some q) :
    f.watch? d = some (q.listener, q.abandoned) := by
  simp [watch?, there]

theorem watch?_modifyScheduler_of_ne {s : SchedulerId} (ne : s ≠ d) (change : Scheduler → Scheduler) :
    (f.modifyScheduler s change).watch? d = f.watch? d := by
  simp [watch?, modifyScheduler, ne]

/-- A change that concerns neither the listener nor whether the scheduler was abandoned. -/
theorem watch?_modifyScheduler {change : Scheduler → Scheduler} (s : SchedulerId)
    (listener : ∀ q, (change q).listener = q.listener)
    (abandoned : ∀ q, (change q).abandoned = q.abandoned) :
    (f.modifyScheduler s change).watch? d = f.watch? d := by
  simp only [watch?, modifyScheduler, List.getElem?_modify]
  cases f.schedulers[d]? with
  | none =>
      rfl
  | some q =>
      by_cases here : s = d <;> simp [here, listener, abandoned]

theorem watch?_retire {id : Nat} (ne : id ≠ d) : (f.retire id).watch? d = f.watch? d :=
  watch?_modifyScheduler_of_ne (f := f.modifyDispatcher id Dispatcher.retire) ne Scheduler.retire

theorem Swept.watch?_isSome (h : Swept f g) (d : Nat) :
    (g.watch? d).isSome = (f.watch? d).isSome := by
  rcases h with ⟨schedulers, rfl, kept⟩
  have there : (schedulers[d]?).map mail = (f.schedulers[d]?).map mail := by
    simpa using congrArg (fun xs : List (List RequestId × Reception × Bool) => xs[d]?) kept
  simpa [watch?] using congrArg Option.isSome there

/-! ## Turns -/

theorem watch?_enlist (f : Fetcher) (id : RequestId) (r : Request) (d : Nat) :
    (f.enlist id r).1.watch? d = f.watch? d := by
  unfold enlist
  split
  · rfl
  · exact watch?_modifyScheduler _ (fun _ => rfl) (fun _ => rfl)

theorem watch?_schedule (f : Fetcher) (id : RequestId) (d : Nat) :
    (f.schedule id).shared.watch? d = f.watch? d := by
  unfold schedule
  split
  · rfl
  · split
    · rfl
    · rfl
    · exact watch?_enlist _ id _ d

theorem watch?_adopt (f : Fetcher) (id : RequestId) (c : Conclusion) (d : Nat) :
    (f.adopt id c).1.watch? d = f.watch? d := by
  unfold adopt
  simp only
  split
  · exact watch?_enlist _ id c.request d
  · rfl

theorem watch?_send (f : Fetcher) (now : Instant) (task : TaskId) (id : RequestId) (stage : Sending)
    (d : Nat) : (f.send now task id stage).1.watch? d = f.watch? d := by
  have sent := sends f now task id stage
  generalize f.send now task id stage = result at sent ⊢
  have searched : ∀ {r : Request} {response : Response} {g : Fetcher},
      Searched f task id r response g → g.watch? d = f.watch? d := by
    intro r response g after
    rw [after.same]
    rfl
  cases sent with
  | missing gone =>
      rfl
  | concluded found begins =>
      exact watch?_adopt f id _ d
  | arrived found =>
      exact watch?_adopt f id _ d
  | awaits held found begins after =>
      rw [← searched after]
      rfl
  | answered found begins after there onward =>
      exact (watch?_adopt _ id _ d).trans (searched after)

/-- A turn of another task changes neither who listens for the mail of a dispatcher nor whether any will
come. -/
theorem watch?_of_turn (other : ∀ chosen, job ≠ .serve d chosen)
    (turned : f.turn now task job = .ok t) : t.shared.watch? d = f.watch? d := by
  cases turns turned with
  | granted | waits =>
      rfl
  | @attempts _ request stage _ _ _ _ _ _ _ _ =>
      exact watch?_send f now task request stage d
  | @retries request failure =>
      unfold Fetcher.retry
      split
      · rfl
      · exact watch?_adopt f request _ d
  | @serves id chosen _ served =>
      have ne : id ≠ d := fun here => other chosen (here ▸ rfl)
      cases served with
      | served =>
          simp [watch?, ne]
      | _ =>
          rfl

/-! ## Actions and drops -/

/-- An action that leaves a dispatcher alone changes neither. -/
theorem watch?_of_perform {action : Action} {r : Reacted}
    (apart : Moment.leavesAlone d (e, .act action r.answer) = true)
    (performed : f.perform now task action = .ok r) : r.shared.watch? d = f.watch? d := by
  cases does performed with
  | @scheduled request =>
      exact watch?_schedule f request d
  | @popped s _ _ _ =>
      have ne : s ≠ d := by simpa [Moment.leavesAlone] using apart
      exact watch?_modifyScheduler_of_ne ne _
  | adjusted =>
      apply watch?_modifyScheduler <;> intro q <;> unfold Scheduler.adjust <;> split <;> rfl
  | @retired id _ _ _ =>
      have ne : id ≠ d := by simpa [Moment.leavesAlone] using apart
      exact watch?_retire ne
  | _ =>
      rfl

theorem watch?_dropJob (other : job.worksFor d = false) :
    (f.dropJob task job).watch? d = f.watch? d := by
  cases job with
  | serve id chosen =>
      have ne : id ≠ d := by simpa [Job.worksFor] using other
      exact watch?_retire ne
  | _ =>
      rfl

/-! ## Moves -/

theorem swept_of_closes (closes : Closes program g e') : Swept g e'.shared := by
  rw [closes.shared]
  exact sweep_same e'.tasks g

/-- A turn ends in a sweep of what it leaves. -/
theorem closes_of_turn (step : Step program e .turn e') (next : e.next? = some (number, job))
    (went : e.shared.turn e.now number job = .ok t) : Closes program t.shared e' := by
  cases step with
  | turn turned =>
      rcases turn_cases turned with ⟨nobody, _⟩ | ⟨number', job', t', middle, next', went', alike, rfl⟩
      · cases next.symm.trans nobody
      · cases next.symm.trans next'
        cases went.symm.trans went'
        have closes := closes_carryOutAll program (gentle_of_turn went) middle
        rw [alike.shared] at closes
        exact closes

/-- A drop ends in a sweep, and changes nothing for a dispatcher if it takes no task from it. -/
theorem watch?_of_drop {n : TaskId} (crews : ∀ id, Crewed id e)
    (step : Step program e l ((e.drop program n).sweep program))
    (apart : Moment.leavesAlone d (e, l) = true) (quiet : l ≠ .turn) :
    ∃ g, g.watch? d = e.shared.watch? d ∧ Closes program g ((e.drop program n).sweep program) := by
  refine ⟨(e.drop program n).shared, ?_, closes_sweep program _⟩
  cases stands : e.task? n with
  | none =>
      rw [drop_of_task?_eq_none program stands]
  | some job =>
      have there := getElem?_of_task? stands
      have inside := (List.getElem?_eq_some_iff.1 there).1
      have dropped := drop_alike program e stands
      have gone : ((e.drop program n).sweep program).tasks[n]? = some none := by
        rw [(sweep_alike program _).tasks, dropped.tasks, List.getElem?_set_self inside]
      rw [dropped.shared]
      exact watch?_dropJob (not_worksFor_of_dropped crews step apart quiet there gone)

/-- Between the turns of a dispatcher that is left alone, only a sweep changes who listens for its mail
and whether any will come. -/
theorem watch?_of_step (crews : ∀ id, Crewed id e) (step : Step program e l e')
    (apart : Moment.leavesAlone d (e, l) = true) (other : ¬ IsTurnOf d e l) :
    (∃ g, g.watch? d = e.shared.watch? d ∧ Closes program g e') ∨
      (e'.shared = e.shared ∧ e'.tasks = e.tasks) := by
  have whole := step
  cases step with
  | act acted =>
      left
      rcases act_cases acted with ⟨r, performed, rfl, rfl⟩
      rcases gentle_of_perform performed with gentle | ⟨id, n, rfl, shared, effects⟩
      · exact ⟨r.shared, watch?_of_perform apart performed,
          closes_carryOutAll program gentle { e with shared := r.shared }⟩
      · -- another dispatcher is dropped
        rw [shared, effects] at whole ⊢
        exact watch?_of_drop crews whole apart nofun
  | turn turned =>
      rcases turn_cases turned with ⟨_, alike⟩ | ⟨number, job, t, middle, next, went, _, _⟩
      · -- nobody has the turn, and there is no sweep
        exact .inr ⟨alike.shared, alike.tasks⟩
      · left
        exact ⟨t.shared, watch?_of_turn (not_serve_of_next other rfl next) went,
          closes_of_turn whole next went⟩
  | clock time =>
      have alike := setClock_alike e time
      exact .inr ⟨alike.shared, alike.tasks⟩
  | kill n =>
      exact .inl (watch?_of_drop crews whole apart nofun)

/-- A scheduler that exists goes on to exist. -/
theorem watch?_isSome_of_step (crews : ∀ id, Crewed id e) (step : Step program e l e')
    (apart : Moment.leavesAlone d (e, l) = true) (other : ¬ IsTurnOf d e l) :
    (e'.shared.watch? d).isSome = (e.shared.watch? d).isSome := by
  rcases watch?_of_step crews step apart other with ⟨g, same, closes⟩ | ⟨same, _⟩
  · rw [(swept_of_closes closes).watch?_isSome, same]
  · rw [same]

end Fetcher
end MeteredFetch
