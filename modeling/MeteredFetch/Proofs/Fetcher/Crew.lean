import MeteredFetch.Proofs.Fetcher.Sendings

/-!
# Crew — the tasks that work for a dispatcher

A dispatcher is at work in one task, and each request that it sends has a task of its own. Nobody can
drop them but by dropping the dispatcher or a task from outside. A dispatcher that is left alone loses
none of its tasks before they have ended.

* `Job.worksFor` — whether a task dispatches or sends for a dispatcher;
* `Fetcher.Moment.leavesAlone` — whether a move takes neither a task nor mail from a dispatcher;
* `Fetcher.Crewed`, `Fetcher.crewed_of_history` — a dispatcher that is at work has no other task's
  number;
* `Fetcher.not_worksFor_of_dropped` — a task that is dropped is none of a dispatcher that is left
  alone.
-/

namespace MeteredFetch
namespace Fetcher

open Executor

/-! ## Tasks and moves -/

def Job.worksFor (d : Nat) : Job → Bool
  | .serve id _ | .dispatch id _ _ => id == d
  | .grab _ _ | .send _ _ | .retry _ _ => false

/-- Whether a move takes neither a task nor mail from a dispatcher, and does not drop it. -/
def Moment.leavesAlone (d : Nat) (m : Moment) : Bool :=
  match m.2 with
  | .act (.pop s) _ => s != d
  | .act (.abort id) answer => id != d || answer != .found true
  | .kill task => !(m.1.task? task).any (Job.worksFor d)
  | _ => true

def standing? (f : Fetcher) (d : Nat) : Option Standing :=
  (f.dispatchers[d]?).map (·.standing)

variable {d n : Nat} {f g : Fetcher} {now : Instant} {task : TaskId} {job : Job} {t : Turned}
  {e e' : State} {l : Label Action Answer}

/-- Whether a dispatcher is at work is part of what it has before it. -/
theorem standing?_of_desk (f : Fetcher) (d : Nat) :
    f.standing? d = (f.desk? d).map (·.standing) := by
  unfold standing? desk?
  rw [Option.map_map]
  rfl

/-- Mail alone neither starts nor stops a dispatcher. -/
theorem Gathers.standing? (h : Gathers d f g) : g.standing? d = f.standing? d := by
  rcases h with ⟨fresh, grown, _⟩
  rw [standing?_of_desk, standing?_of_desk, grown, Option.map_map]
  rfl

theorem Swept.standing? (h : Swept f g) (d : Nat) : g.standing? d = f.standing? d := by
  rw [standing?_of_desk, standing?_of_desk, h.desk? d]

/-! ## Who begins to work -/

/-- A dispatcher that is dropped is not at work, and no other one is affected. -/
theorem standing?_retire {id : Nat} (running : (f.retire id).standing? d = some (.running n)) :
    f.standing? d = some (.running n) := by
  by_cases here : id = d
  · subst here
    rw [standing?_of_desk, desk?_retire, Option.map_map] at running
    rcases Option.map_eq_some_iff.1 running with ⟨k, _, gone⟩
    cases gone
  · rw [← (gathers_retire here).standing?]
    exact running

/-- No turn has a dispatcher begin to work. -/
theorem standing?_of_turn (turned : f.turn now task job = .ok t)
    (running : t.shared.standing? d = some (.running n)) : f.standing? d = some (.running n) := by
  by_cases own : ∃ chosen, job = .serve d chosen
  · rcases own with ⟨chosen, rfl⟩
    rw [standing?_of_desk] at running ⊢
    cases serving turned 0 with
    | still _ _ same _ =>
        rw [← same]
        exact running
    | served _ before after _ _ _ _ _ _ _ goesOn =>
        rw [after, Option.map_some] at running
        rw [before, Option.map_some]
        rcases goesOn with ⟨gone, _⟩ | ⟨same, _⟩
        · rw [gone] at running
          cases running
        · rw [← same]
          exact running
  · have other : ∀ chosen, job ≠ .serve d chosen := fun chosen same => own ⟨chosen, same⟩
    rw [← (gathers_of_turn other turned).standing?]
    exact running

/-- The only action that has a dispatcher begin to work starts a task for it. -/
theorem standing?_of_perform {action : Action} {r : Reacted}
    (performed : f.perform now task action = .ok r)
    (running : r.shared.standing? d = some (.running n)) :
    f.standing? d = some (.running n) ∨ n = task ∧ spawned r.effects = [.serve d none] := by
  cases does performed with
  | @scheduled request =>
      rw [(gathers_schedule f request).standing?] at running
      exact .inl running
  | @started id _ _ _ =>
      by_cases here : id = d
      · -- its task is the one that is started
        subst here
        simp only [Fetcher.standing?, modifyDispatcher, List.getElem?_modify_eq,
          Option.map_eq_map, Option.map_map] at running
        rcases Option.map_eq_some_iff.1 running with ⟨x, _, same⟩
        cases same
        exact .inr ⟨rfl, rfl⟩
      · have same : (f.modifyDispatcher id fun x => { x with standing := .running task }).standing? d =
            f.standing? d := by simp [standing?, modifyDispatcher, here]
        rw [← same]
        exact .inl running
  | retired =>
      exact .inl (standing?_retire running)
  | _ =>
      exact .inl running

/-- A drop starts no dispatcher. -/
theorem standing?_dropJob (running : (f.dropJob task job).standing? d = some (.running n)) :
    f.standing? d = some (.running n) := by
  cases job with
  | serve id chosen =>
      have retired : (f.retire id).standing? d = some (.running n) := running
      exact standing?_retire retired
  | _ =>
      exact running

/-- A dispatcher that is at work after a move was so before, or the move has started its task. -/
theorem standing?_of_step (step : Step program e l e')
    (running : e'.shared.standing? d = some (.running n)) :
    e.shared.standing? d = some (.running n) ∨
      n = e.tasks.length ∧ e'.tasks[n]? = some (some (.serve d none)) := by
  cases moves_of_step step with
  | turned _ _ went left =>
      rw [left.shared.standing? d] at running
      exact .inl (standing?_of_turn went running)
  | acted _ _ performed left =>
      rw [left.shared.standing? d] at running
      rcases standing?_of_perform performed running with old | ⟨rfl, started⟩
      · exact .inl old
      · right
        rw [left.tasks, started]
        simp
  | dropped _ _ left =>
      rw [left.shared.standing? d] at running
      exact .inl (standing?_dropJob running)
  | rested _ left =>
      rw [left.shared.standing? d] at running
      exact .inl running

/-! ## Tasks that stay -/

/-- No task has the number of one in which a dispatcher is at work, but a task of this dispatcher. -/
structure Crewed (d : Nat) (e : State) : Prop where
  known : ∀ {n}, e.shared.standing? d = some (.running n) → n < e.tasks.length
  own : ∀ {n job}, e.shared.standing? d = some (.running n) → e.tasks[n]? = some (some job) →
    ∃ chosen, job = .serve d chosen

/-- No move gives another task the number of one in which a dispatcher is at work. -/
theorem crewed_of_step (h : Crewed d e) (step : Step program e l e') : Crewed d e' := by
  refine ⟨fun {n} running => ?_, fun {n job} running stands => ?_⟩
  · rcases standing?_of_step step running with old | ⟨_, there⟩
    · exact Nat.lt_of_lt_of_le (h.known old) (length_tasks_of_step step)
    · exact (List.getElem?_eq_some_iff.1 there).1
  · rcases standing?_of_step step running with old | ⟨_, there⟩
    · -- tasks that start have other numbers, and its own one goes on to dispatch for it
      have inside := h.known old
      cases arises_of_step step stands with
      | stays before _ =>
          exact h.own old before
      | goesOn _ next continues =>
          rcases h.own old (task?_of_next? next) with ⟨chosen, rfl⟩
          cases continues
          exact ⟨_, rfl⟩
      | acted _ later _ =>
          exact absurd inside (Nat.not_lt_of_le later)
      | sent sends _ =>
          exact absurd inside (Nat.not_lt_of_le (stands_of_sends step sends).1)
    · cases there.symm.trans stands
      exact ⟨none, rfl⟩

/-- In every state of a run, the task in which a dispatcher is at work is its own. -/
theorem crewed_of_history {hs : List Moment} (h : Crewed d e) (history : History program e hs e') :
    Crewed d e' :=
  history.trace.invariant (fun crewed step => crewed_of_step crewed step) h

/-- A task that is dropped is dropped from outside, or together with its dispatcher. -/
theorem dropped_of_step (step : Step program e l e') (quiet : l ≠ .turn)
    (stands : e.tasks[n]? = some (some job)) (gone : e'.tasks[n]? = some none) :
    l = .kill n ∨
      ∃ id, l = .act (.abort id) (.found true) ∧ e.shared.standing? id = some (.running n) := by
  have inside := (List.getElem?_eq_some_iff.1 stands).1
  -- dropping another task leaves this one where it is
  have other : ∀ {m : TaskId}, (((e.drop program m).sweep program).tasks)[n]? = some none → m = n := by
    intro m left
    by_contra ne
    rw [(sweep_alike program (e.drop program m)).tasks] at left
    cases found : e.task? m with
    | none =>
        rw [drop_of_task?_eq_none program found] at left
        cases left.symm.trans stands
    | some task =>
        rw [(drop_alike program e found).tasks, List.getElem?_set_ne ne] at left
        cases left.symm.trans stands
  cases step with
  | @act _ action answer acted =>
      right
      rcases act_cases acted with ⟨r, performed, rfl, rfl⟩
      rcases gentle_of_perform performed with gentle | ⟨id, m, rfl, shared, effects⟩
      · rw [(carryOutAll_alike program gentle _).tasks, List.getElem?_append_left inside] at gone
        cases gone.symm.trans stands
      · rw [shared, effects] at gone
        obtain rfl := other gone
        refine ⟨id, ?_⟩
        cases performed
        unfold Fetcher.abort at effects ⊢
        split at effects
        · cases effects
        · rename_i running
          cases effects
          exact ⟨by simp, running⟩
        · cases effects
  | turn turned =>
      exact absurd rfl quiet
  | clock time =>
      rw [(setClock_alike e time).tasks] at gone
      cases gone.symm.trans stands
  | kill m =>
      left
      rw [other gone]

/-- A dispatcher that is left alone loses no task by a drop. -/
theorem not_worksFor_of_dropped (crews : ∀ id, Crewed id e) (step : Step program e l e')
    (apart : Moment.leavesAlone d (e, l) = true) (quiet : l ≠ .turn)
    (stands : e.tasks[n]? = some (some job)) (gone : e'.tasks[n]? = some none) :
    job.worksFor d = false := by
  rcases dropped_of_step step quiet stands gone with rfl | ⟨id, rfl, running⟩
  · have there : e.task? n = some job := by simp [task?, stands]
    simpa [Moment.leavesAlone, there] using apart
  · rcases (crews id).own running stands with ⟨chosen, rfl⟩
    simpa [Moment.leavesAlone, Job.worksFor] using apart

/-- A task that works for a dispatcher that is left alone stands until it has its turn. -/
theorem stands_of_apart (crews : ∀ id, Crewed id e) (step : Step program e l e')
    (apart : Moment.leavesAlone d (e, l) = true) (works : job.worksFor d = true)
    (stands : e.tasks[n]? = some (some job)) (other : ∀ job', l = .turn → e.next? ≠ some (n, job')) :
    e'.tasks[n]? = some (some job) := by
  have inside := (List.getElem?_eq_some_iff.1 stands).1
  cases moves_of_step step with
  | @turned number job' t turn next _ left =>
      have ne : number ≠ n := by
        rintro rfl
        exact other job' turn next
      rw [left.tasks, List.getElem?_append_left (by rwa [List.length_set]), List.getElem?_set_ne ne]
      exact stands
  | acted _ _ _ left =>
      rw [left.tasks, List.getElem?_append_left inside]
      exact stands
  | @dropped number job' quiet there left =>
      by_cases here : number = n
      · subst here
        cases stands.symm.trans there
        have gone : e'.tasks[number]? = some none := by
          rw [left.tasks, List.getElem?_set_self inside]
        have apart' := not_worksFor_of_dropped crews step apart quiet stands gone
        cases works.symm.trans apart'
      · rw [left.tasks, List.getElem?_set_ne here]
        exact stands
  | rested _ left =>
      rw [left.tasks]
      exact stands

/-- Nobody is at work before the run begins. -/
theorem crewed_opening (d : Nat) (bucket : Bucket) (groups : List Group) (blocks : List (Key × Bytes))
    (costs : List UInt64) (start : Instant) :
    Crewed d (opening start (ofDispatchers bucket groups blocks costs)) := by
  have idle : ∀ {n}, (opening start (ofDispatchers bucket groups blocks costs)).shared.standing? d ≠
      some (.running n) := by
    intro n running
    simp only [opening, standing?, ofDispatchers, List.getElem?_map, Option.map_map] at running
    rcases Option.map_eq_some_iff.1 running with ⟨cost, _, same⟩
    cases same
  exact ⟨fun running => absurd running idle, fun running => absurd running idle⟩

end Fetcher
end MeteredFetch
