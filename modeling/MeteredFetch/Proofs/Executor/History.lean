import MeteredFetch.Executor.Trace

/-!
# History — a run with the states it goes through

A trace says which moves were made. A history also says in which state each of them was made, so
that what a move did can be read off.

* `Executor.Moment` — a state and the move that was made in it, and `Executor.Moment.after` is the
  state after that;
* `Executor.History p e hs e'` — the moments `hs`, in order, lead from `e` to `e'`;
* `Executor.Trace.exists_history` — every trace has a history;
* `Executor.History.invariant` — what every move keeps holds after every run;
* `Executor.History.split` — a history can be looked at in two parts;
* `Executor.follow` — the history of given moves, and `Executor.history_follow` says that it is one.
-/

namespace MeteredFetch
namespace Executor

variable {σ τ ρ α β : Type}

/-! ## Moments and histories -/

abbrev Moment (σ τ ρ α β : Type) :=
  Executor σ τ ρ × Label α β

def Moment.isForward (m : Moment σ τ ρ α β) : Bool :=
  match m.2 with
  | .clock time => decide (m.1.now ≤ time)
  | .act _ _ | .turn | .kill _ => true

/-- The state after the move of a moment. A defect leaves everything as it was. -/
def Moment.after (p : Program σ τ ρ α β) (m : Moment σ τ ρ α β) : Executor σ τ ρ :=
  match m.2 with
  | .act action _ =>
      match m.1.act p action with
      | .ok (e', _) => e'
      | .error _ => m.1
  | .turn =>
      match m.1.turn p with
      | .ok e' => e'
      | .error _ => m.1
  | .clock time => m.1.setClock time
  | .kill task => m.1.kill p task

/-- A move leads to the state that stands after its moment. -/
theorem after_of_step {p : Program σ τ ρ α β} {e e' : Executor σ τ ρ} {l : Label α β}
    (step : Step p e l e') : Moment.after p (e, l) = e' := by
  cases step with
  | act acted =>
      simp only [Moment.after, acted]
  | turn turned =>
      simp only [Moment.after, turned]
  | clock time =>
      rfl
  | kill task =>
      rfl

/-- Moves lead, one after another, from one state of a run to another. -/
inductive History (p : Program σ τ ρ α β) (e : Executor σ τ ρ) :
    List (Moment σ τ ρ α β) → Executor σ τ ρ → Prop
  | refl : History p e [] e
  | tail {hs : List (Moment σ τ ρ α β)} {l : Label α β} {e' e'' : Executor σ τ ρ} :
      History p e hs e' → Step p e' l e'' → History p e (hs ++ [(e', l)]) e''

variable {p : Program σ τ ρ α β}

/-- The moves of a history, without the states, are a trace. -/
theorem History.trace {e e' : Executor σ τ ρ} {hs : List (Moment σ τ ρ α β)}
    (h : History p e hs e') : Trace p e (hs.map Prod.snd) e' := by
  induction h with
  | refl =>
      exact .refl
  | tail _ step ih =>
      simpa using ih.tail step

/-- Every trace is that of a history, with the states written down. -/
theorem Trace.exists_history {e e' : Executor σ τ ρ} {ls : List (Label α β)}
    (h : Trace p e ls e') : ∃ hs, History p e hs e' ∧ hs.map Prod.snd = ls := by
  induction h with
  | refl =>
      exact ⟨[], .refl, rfl⟩
  | tail _ step ih =>
      rcases ih with ⟨hs, history, labels⟩
      refine ⟨_, history.tail step, ?_⟩
      simp [labels]

/-- Where no move was made, nothing has changed. -/
theorem History.of_nil {e e' : Executor σ τ ρ} (h : History p e [] e') : e' = e := by
  generalize none : ([] : List (Moment σ τ ρ α β)) = hs at h
  cases h with
  | refl =>
      rfl
  | tail _ _ =>
      simp at none

theorem History.head {e e' e'' : Executor σ τ ρ} {l : Label α β} {hs : List (Moment σ τ ρ α β)}
    (step : Step p e l e') (h : History p e' hs e'') : History p e ((e, l) :: hs) e'' := by
  induction h with
  | refl =>
      simpa using History.refl.tail step
  | tail _ later ih =>
      simpa using ih.tail later

theorem History.trans {e e' e'' : Executor σ τ ρ} {hs hs' : List (Moment σ τ ρ α β)}
    (h : History p e hs e') (h' : History p e' hs' e'') : History p e (hs ++ hs') e'' := by
  induction h' with
  | refl =>
      simpa using h
  | tail _ step ih =>
      rw [← List.append_assoc]
      exact ih.tail step

/-- What every move keeps that is as `A` says holds after every run of such moves. -/
theorem History.invariant {I : List (Moment σ τ ρ α β) → Executor σ τ ρ → Prop}
    {A : Moment σ τ ρ α β → Prop}
    (keeps : ∀ {hs e l e'}, I hs e → Step p e l e' → A (e, l) → I (hs ++ [(e, l)]) e')
    {e e' : Executor σ τ ρ} {hs : List (Moment σ τ ρ α β)} (h : History p e hs e')
    (allowed : ∀ m ∈ hs, A m) (start : I [] e) : I hs e' := by
  induction h with
  | refl =>
      exact start
  | tail _ step ih =>
      have earlier := ih fun m member => allowed m (List.mem_append_left _ member)
      have last := allowed _ (List.mem_append_right _ (List.mem_singleton_self _))
      exact keeps earlier step last

/-- A history up to one of its states, and from there. -/
theorem History.split {e e' : Executor σ τ ρ} {hs hs' : List (Moment σ τ ρ α β)}
    (h : History p e (hs ++ hs') e') : ∃ middle, History p e hs middle ∧ History p middle hs' e' := by
  generalize whole : hs ++ hs' = all at h
  induction h generalizing hs' with
  | refl =>
      rcases List.append_eq_nil_iff.1 whole with ⟨rfl, rfl⟩
      exact ⟨_, .refl, .refl⟩
  | @tail all l e' e'' before step ih =>
      rcases List.eq_nil_or_concat hs' with rfl | ⟨rest, m, rfl⟩
      · rw [List.append_nil] at whole
        rw [whole]
        exact ⟨_, before.tail step, .refl⟩
      · rw [List.concat_eq_append, ← List.append_assoc] at whole
        rcases List.append_inj' whole rfl with ⟨earlier, last⟩
        cases last
        rcases ih earlier with ⟨middle, first, later⟩
        rw [List.concat_eq_append]
        exact ⟨middle, first, later.tail step⟩

/-- The history up to a moment leads to the state of the moment, and its move on from there. -/
theorem History.split_cons {e e' : Executor σ τ ρ} {hs hs' : List (Moment σ τ ρ α β)}
    {m : Moment σ τ ρ α β} (h : History p e (hs ++ m :: hs') e') :
    History p e hs m.1 ∧ ∃ middle, Step p m.1 m.2 middle ∧ History p middle hs' e' := by
  rw [List.append_cons] at h
  rcases h.split with ⟨middle, first, later⟩
  generalize whole : hs ++ [m] = all at first
  cases first with
  | refl =>
      cases hs <;> cases whole
  | tail before step =>
      rcases List.append_inj' whole rfl with ⟨rfl, last⟩
      cases last
      exact ⟨before, middle, step, later⟩

/-! ## Following moves -/

def move (p : Program σ τ ρ α β) (e : Executor σ τ ρ) :
    Label α Unit → Except Panic (Executor σ τ ρ × Label α β)
  | .act action _ =>
      match e.act p action with
      | .ok (e', answer) => .ok (e', .act action answer)
      | .error panic => .error panic
  | .turn =>
      match e.turn p with
      | .ok e' => .ok (e', .turn)
      | .error panic => .error panic
  | .clock time => .ok (e.setClock time, .clock time)
  | .kill task => .ok (e.kill p task, .kill task)

/-- What is made as a move is a step of the run. -/
theorem step_of_move {e e' : Executor σ τ ρ} {m : Label α Unit} {l : Label α β}
    (h : e.move p m = .ok (e', l)) : Step p e l e' := by
  cases m with
  | act action answer =>
      simp only [move] at h
      split at h
      · rename_i acted
        cases h
        exact .act acted
      · cases h
  | turn =>
      simp only [move] at h
      split at h
      · rename_i turned
        cases h
        exact .turn turned
      · cases h
  | clock time =>
      simp only [move] at h
      cases h
      exact .clock e time
  | kill task =>
      simp only [move] at h
      cases h
      exact .kill e task

/-- The moments of given moves, and the state that they lead to. A defect ends the run. -/
def follow (p : Program σ τ ρ α β) :
    Executor σ τ ρ → List (Label α Unit) → List (Moment σ τ ρ α β) × Executor σ τ ρ
  | e, [] => ([], e)
  | e, m :: rest =>
      match e.move p m with
      | .ok (e', l) => ((e, l) :: (follow p e' rest).1, (follow p e' rest).2)
      | .error _ => ([], e)

/-- Moves that are followed make up a history. -/
theorem history_follow (e : Executor σ τ ρ) (moves : List (Label α Unit)) :
    History p e (follow p e moves).1 (follow p e moves).2 := by
  induction moves generalizing e with
  | nil =>
      exact .refl
  | cons m rest ih =>
      simp only [follow]
      split
      · rename_i e' l moved
        exact History.head (step_of_move moved) (ih e')
      · exact .refl

end Executor
end MeteredFetch
