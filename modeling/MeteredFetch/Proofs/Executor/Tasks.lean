import Mathlib.Algebra.BigOperators.Group.List.Basic
import Mathlib.Algebra.GroupWithZero.Nat
import MeteredFetch.Proofs.Executor.Step

/-!
# Tasks — amounts that the tasks of a run have together, and their numbers

* `sum_map_set` — a sum over a list when one entry is changed;
* `Executor.total f tasks` — what the tasks amount to, each counted by `f`;
* `Executor.total_set`, `Executor.total_append` — what changing and adding tasks does to it;
* `Executor.total_carryOutAll_le`, `Executor.total_turn_le` — what effects and a turn add at most;
* `Executor.stands_append`, `Executor.stands_set_append` — which tasks stand when others have
  started, and one has changed.
-/

namespace MeteredFetch

/-! ## Sums over lists -/

section Sums

variable {α M : Type} [AddCommMonoid M]

/-- Changing one entry of a list exchanges its share of a sum. -/
theorem sum_map_set (f : α → M) {xs : List α} {i : Nat} {x : α} (h : xs[i]? = some x) (y : α) :
    ((xs.set i y).map f).sum + f x = (xs.map f).sum + f y := by
  induction xs generalizing i with
  | nil =>
      simp at h
  | cons z rest ih =>
      cases i with
      | zero =>
          obtain rfl : z = x := by simpa using h
          simp only [List.set_cons_zero, List.map_cons, List.sum_cons]
          rw [add_comm, add_comm (f y), add_assoc]
      | succ i =>
          have rest := ih (by simpa using h)
          simp only [List.set_cons_succ, List.map_cons, List.sum_cons, add_assoc, rest]

end Sums

namespace Executor

/-! ## Numbers -/

section Numbers

variable {τ : Type} {tasks : List (Option τ)} {started : List τ} {n : TaskId} {x : τ}

/-- Tasks that start get the numbers that come next. -/
theorem stands_append (h : (tasks ++ started.map some)[n]? = some (some x)) :
    tasks[n]? = some (some x) ∨ ∃ i, n = tasks.length + i ∧ started[i]? = some x := by
  rcases Nat.lt_or_ge n tasks.length with old | new
  · rw [List.getElem?_append_left old] at h
    exact .inl h
  · rw [List.getElem?_append_right new, List.getElem?_map] at h
    rcases Option.map_eq_some_iff.1 h with ⟨y, there, same⟩
    cases same
    exact .inr ⟨n - tasks.length, (Nat.add_sub_of_le new).symm, there⟩

/-- A task that stands after a turn had the turn itself, stood there before, or was started in it. -/
theorem stands_set_append {number : TaskId} {now : Option τ}
    (h : (tasks.set number now ++ started.map some)[n]? = some (some x)) :
    (n = number ∧ now = some x) ∨ (n ≠ number ∧ tasks[n]? = some (some x)) ∨
      ∃ i, n = tasks.length + i ∧ started[i]? = some x := by
  rcases stands_append h with stands | ⟨i, later, there⟩
  · by_cases here : number = n
    · subst here
      rw [List.getElem?_set] at stands
      simp only [if_true] at stands
      split at stands
      · exact .inl ⟨rfl, Option.some.inj stands⟩
      · cases stands
    · rw [List.getElem?_set_ne here] at stands
      exact .inr (.inl ⟨Ne.symm here, stands⟩)
  · rw [List.length_set] at later
    exact .inr (.inr ⟨i, later, there⟩)

end Numbers

variable {τ M : Type} [AddCommMonoid M]

/-! ## Totals -/

def share (f : τ → M) (task : Option τ) : M :=
  (task.map f).getD 0

@[simp]
theorem share_none (f : τ → M) : share f none = 0 := rfl

@[simp]
theorem share_some (f : τ → M) (task : τ) : share f (some task) = f task := rfl

theorem share_eq_sum (f : τ → M) (task : Option τ) : share f task = (task.toList.map f).sum := by
  cases task <;> simp [share]

/-- What the tasks count together. -/
def total (f : τ → M) (tasks : List (Option τ)) : M :=
  (tasks.map (share f)).sum

@[simp]
theorem total_nil (f : τ → M) : total f [] = 0 := by
  simp [total]

/-- The sum changes by what one task counts. -/
theorem total_set (f : τ → M) {tasks : List (Option τ)} {id : TaskId} {task : Option τ}
    (h : tasks[id]? = some task) (after : Option τ) :
    total f (tasks.set id after) + share f task = total f tasks + share f after :=
  sum_map_set (share f) h after

/-- New tasks count in addition to the others. -/
@[simp]
theorem total_append (f : τ → M) (tasks : List (Option τ)) (started : List τ) :
    total f (tasks ++ started.map some) = total f tasks + (started.map f).sum := by
  simp [total, List.sum_append, Function.comp_def]

/-- Only tasks that stand matter to the sum. -/
theorem total_congr {f g : τ → M} {tasks : List (Option τ)}
    (same : ∀ task, some task ∈ tasks → f task = g task) : total f tasks = total g tasks := by
  refine congrArg List.sum (List.map_congr_left fun task member => ?_)
  cases task with
  | none =>
      rfl
  | some task =>
      exact same task member

theorem total_mono {f g : τ → Nat} (le : ∀ task, f task ≤ g task) (tasks : List (Option τ)) :
    total f tasks ≤ total g tasks := by
  induction tasks with
  | nil =>
      exact Nat.le_refl 0
  | cons task rest ih =>
      have first : share f task ≤ share g task := by
        cases task with
        | none =>
            exact Nat.le_refl 0
        | some task =>
            exact le task
      simp only [total, List.map_cons, List.sum_cons] at ih ⊢
      exact Nat.add_le_add first ih

/-- No task counts more than all of them. -/
theorem le_total (f : τ → Nat) {tasks : List (Option τ)} {id : TaskId} {task : τ}
    (h : tasks[id]? = some (some task)) : f task ≤ total f tasks := by
  have without := total_set f h none
  simp only [share_some, share_none] at without
  omega

/-! ## Effects -/

variable {σ ρ α β : Type} (f : τ → Nat) (p : Program σ τ ρ α β)

/-- A drop takes away what its task counts. -/
theorem total_drop_le (e : Executor σ τ ρ) (id : TaskId) :
    total f (e.drop p id).tasks ≤ total f e.tasks := by
  cases found : e.task? id with
  | none =>
      exact Nat.le_of_eq (by rw [drop_of_task?_eq_none p found])
  | some task =>
      have gone := total_set f (getElem?_of_task? found) none
      rw [(drop_alike p e found).tasks]
      simp only [share_none, share_some] at gone ⊢
      omega

/-- Effects add at most the tasks that they start. -/
theorem total_carryOutAll_le (e : Executor σ τ ρ) (effects : List (Effect τ)) :
    total f (e.carryOutAll p effects).tasks ≤
      total f e.tasks + ((spawned effects).map f).sum := by
  have swept := (sweep_alike p (effects.foldl (carryOut p) e)).tasks
  unfold carryOutAll
  rw [swept]
  clear swept
  induction effects generalizing e with
  | nil =>
      exact Nat.le_add_right _ _
  | cons effect rest ih =>
      refine Nat.le_trans (ih (e.carryOut p effect)) ?_
      cases effect with
      | wake id =>
          have woken := (Alike.wake e id).tasks
          simp [carryOut, woken, spawned]
      | spawn task =>
          have started := total_append f e.tasks [task]
          simp only [List.map_cons, List.map_nil, List.sum_cons, List.sum_nil] at started
          simp only [carryOut, spawn, spawned, List.filterMap_cons, List.map_cons, List.sum_cons,
            started]
          omega
      | drop id =>
          have dropped := total_drop_le f p e id
          simp only [carryOut, spawned, List.filterMap_cons]
          omega

/-- A turn takes away what its task counts, and adds what it counts afterwards and what the tasks
count that are started. -/
theorem total_turn_le {e middle : Executor σ τ ρ} {id : TaskId} {task : τ} {t : Turn σ τ ρ}
    (next : e.next? = some (id, task)) (tasks : middle.tasks = e.tasks.set id (standing t.next)) :
    total f (middle.carryOutAll p t.effects).tasks + f task ≤
      total f e.tasks + (share f (standing t.next) + ((spawned t.effects).map f).sum) := by
  have carried := total_carryOutAll_le f p middle t.effects
  have changed := total_set f (task?_of_next? next) (standing t.next)
  rw [tasks] at carried
  simp only [share_some] at changed
  omega

end Executor
end MeteredFetch
