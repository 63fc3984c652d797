import MeteredFetch.Proofs.Executor.Alarms

/-!
# Attention — who was called, and who is called by a sweep

A task that was called and has had no turn since stays called, whatever the others do. Every move that
changes more than the clock ends in a sweep, and whoever this names is called.

* `Executor.Attends` — a task that was called, if it still stands; `Executor.attends_of_step` says that
  no move changes that but its own turn;
* `Executor.Closes` — what a sweep leaves behind; `Executor.closes_carryOutAll` and
  `Executor.closes_sweep` say which moves end in one.
-/

namespace MeteredFetch
namespace Executor

variable {σ τ ρ α β : Type} {p : Program σ τ ρ α β} {e e' : Executor σ τ ρ} {n id : TaskId}
  {l : Label α β}

/-! ## Tasks that were called -/

structure Attends (n : TaskId) (e : Executor σ τ ρ) : Prop where
  inside : n < e.tasks.length
  called : (e.task? n).isSome = true → Called n e

namespace Attends

/-- The task was not woken up to fall asleep again, and comes back no more if it is gone. -/
theorem mono (h : Attends n e) (inside : e.tasks.length ≤ e'.tasks.length)
    (called : (e'.task? n).isSome = true →
      (e.task? n).isSome = true ∧ (Called n e → Called n e')) : Attends n e' := by
  refine ⟨Nat.lt_of_lt_of_le h.inside inside, fun stands => ?_⟩
  rcases called stands with ⟨before, stays⟩
  exact stays (h.called before)

/-- Attention is kept by whatever leaves the tasks and the call alone. -/
theorem of_tasks (h : Attends n e) (tasks : e'.tasks = e.tasks)
    (called : Called n e → Called n e') : Attends n e' := by
  refine h.mono (Nat.le_of_eq (by rw [tasks])) fun stands => ⟨?_, called⟩
  rwa [task?, tasks] at stands

theorem wake (h : Attends n e) (id : TaskId) : Attends n (e.wake id) :=
  h.of_tasks (Alike.wake e id).tasks fun called => called.wake id

/-- A task that starts takes nobody else from their call. -/
theorem spawn (h : Attends n e) (task : τ) : Attends n (e.spawn task) := by
  refine h.mono (by simp [Executor.spawn]) fun stands => ⟨?_, fun called => ?_⟩
  · rw [task?, Executor.spawn, List.getElem?_append_left h.inside] at stands
    exact stands
  · exact called.mono (List.mem_append_left _) fun a member own => ⟨a, member, own⟩

theorem drop (p : Program σ τ ρ α β) (h : Attends n e) (id : TaskId) : Attends n (e.drop p id) := by
  cases found : e.task? id with
  | none =>
      rw [drop_of_task?_eq_none p found]
      exact h
  | some task =>
      have tasks := (drop_alike p e found).tasks
      refine h.mono (Nat.le_of_eq (by rw [tasks, List.length_set])) fun stands => ?_
      -- a task that still stands is not the one that was dropped
      have ne : n ≠ id := by
        rintro rfl
        simp [task?, tasks, h.inside] at stands
      rw [task?, tasks, List.getElem?_set_ne (Ne.symm ne)] at stands
      exact ⟨stands, fun called => called.drop p ne⟩

/-- A sweep only calls. -/
theorem sweep (p : Program σ τ ρ α β) (h : Attends n e) : Attends n (e.sweep p) := by
  refine h.of_tasks (sweep_alike p e).tasks fun called => Called.foldl_wake ?_ _
  exact called.mono (fun there => there) fun a member own => ⟨a, member, own⟩

theorem carryOutAll (p : Program σ τ ρ α β) (h : Attends n e) (effects : List (Effect τ)) :
    Attends n (e.carryOutAll p effects) := by
  refine sweep p ?_
  induction effects generalizing e with
  | nil =>
      exact h
  | cons effect rest ih =>
      apply ih
      cases effect with
      | wake id =>
          exact h.wake id
      | spawn task =>
          exact h.spawn task
      | drop id =>
          exact h.drop p id

/-- The turn goes to another task, which may set an alarm for itself. -/
theorem proceed (h : Attends n e) (ne : n ≠ id) (next : Next τ ρ) : Attends n (e.proceed id next) := by
  have tasks := (proceed_alike e id next).tasks
  refine h.mono (Nat.le_of_eq (by rw [tasks, List.length_set])) fun stands => ⟨?_, fun called => ?_⟩
  · rwa [task?, tasks, List.getElem?_set_ne (Ne.symm ne)] at stands
  · refine called.mono (fun there => ?_) fun a member own => ?_
    · rw [ready_proceed]
      exact there
    · rcases mem_alarms_proceed member with mine | old
      · exact absurd (own.symm.trans mine) ne
      · exact ⟨a, old, own⟩

/-- The turn of another task takes nobody from their call. -/
theorem turn (h : Attends n e) (other : ∀ task, e.next? ≠ some (n, task))
    (turned : e.turn p = .ok e') : Attends n e' := by
  unfold Executor.turn at turned
  split at turned
  · cases turned
    exact h
  · rename_i id rest first
    simp only at turned
    -- whoever is the first of the list is another task, or is gone
    have passed : (e.task? n).isSome = true → n ≠ id := by
      rintro stands rfl
      rcases Option.isSome_iff_exists.1 stands with ⟨task, there⟩
      apply other task
      simp [next?, first, (h.called stands).sleepsOn, there]
    have later : Attends n { e with ready := rest } := by
      refine h.mono (Nat.le_refl _) fun stands => ⟨stands, fun called => ?_⟩
      refine called.mono (fun there => ?_) fun a member own => ⟨a, member, own⟩
      rw [first] at there
      exact (List.mem_cons.1 there).resolve_left (passed stands)
    split at turned
    · cases turned
      refine later.of_tasks rfl fun called => called.mono (fun there => there) fun a member own => ?_
      rcases List.mem_map.1 member with ⟨b, old, rfl⟩
      refine ⟨b, old, ?_⟩
      rw [← own]
      split <;> rfl
    · rename_i awake
      unfold take at turned
      split at turned
      · cases turned
        exact later
      · rename_i task found
        rcases ok_of_bind turned with ⟨t, went, same⟩
        cases same
        have ne : n ≠ id := by
          rintro rfl
          exact passed (Option.isSome_iff_exists.2 ⟨task, found⟩) rfl
        have cleared : Attends n
            { ({ e with ready := rest } : Executor σ τ ρ).clearAlarm id with shared := t.shared } := by
          refine later.of_tasks rfl fun called => (called.clearAlarm id).mono (fun there => there) ?_
          exact fun a member own => ⟨a, member, own⟩
        exact (cleared.proceed ne t.next).carryOutAll p t.effects

end Attends

/-- A task that was called stays called until it has its turn. -/
theorem attends_of_step (h : Attends n e) (step : Step p e l e')
    (other : ∀ task, l = .turn → e.next? ≠ some (n, task)) : Attends n e' := by
  cases step with
  | act acted =>
      rcases act_cases acted with ⟨r, _, _, rfl⟩
      have shared : Attends n { e with shared := r.shared } :=
        h.of_tasks rfl fun called =>
          called.mono (fun there => there) fun a member own => ⟨a, member, own⟩
      exact shared.carryOutAll p r.effects
  | turn turned =>
      exact h.turn (fun task => other task rfl) turned
  | clock time =>
      exact h.of_tasks (setClock_alike e time).tasks fun called => called.setClock time
  | kill task =>
      exact (h.drop p task).sweep p

/-! ## Sweeps -/

/-- What a sweep leaves of a shared state. Whoever it names was called. -/
structure Closes (p : Program σ τ ρ α β) (s : σ) (e : Executor σ τ ρ) : Prop where
  shared : e.shared = (p.sweep e.tasks s).1
  calls : ∀ n ∈ (p.sweep e.tasks s).2, (e.task? n).isSome = true → Called n e

/-- Whoever a sweep names was called by it. -/
theorem closes_sweep (p : Program σ τ ρ α β) (e : Executor σ τ ρ) :
    Closes p e.shared (e.sweep p) := by
  have alike := sweep_alike p e
  refine ⟨?_, fun n named stands => ?_⟩
  · rw [alike.tasks]
    exact alike.shared
  · rw [alike.tasks] at named
    rw [task?, alike.tasks] at stands
    exact called_of_mem named stands

/-- Effects are followed by a sweep. -/
theorem closes_carryOutAll (p : Program σ τ ρ α β) {effects : List (Effect τ)}
    (gentle : Gentle effects) (e : Executor σ τ ρ) : Closes p e.shared (e.carryOutAll p effects) := by
  have carried := (foldl_carryOut_alike p gentle e).shared
  have closes := closes_sweep p (effects.foldl (carryOut p) e)
  rw [carried] at closes
  exact closes

end Executor
end MeteredFetch
