import MeteredFetch.Executor.Session

/-!
# Trace — the moves that a run is made of

A run may be looked at move by move: an action from outside with its answer, a turn, a change of
the clock, or the drop of a task.

* `Executor.Step p e l e'` — the move with label `l` leads from `e` to `e'`;
* `Executor.Trace p e ls e'` — the moves with labels `ls`, in order, lead from `e` to `e'`;
* `Executor.Trace.invariant` — what every move keeps holds after every trace;
* `Executor.trace_of_run`, `Executor.trace_of_advance`, `Session.trace_of_carryOut` — giving out
  turns, letting time pass and carrying out a command are traces.
-/

namespace MeteredFetch
namespace Executor

variable {σ τ ρ α β : Type}

/-! ## Moves and traces -/

inductive Label (α β : Type)
  /-- Something was done from outside. -/
  | act (action : α) (answer : β)
  /-- The next ready task took its turn. -/
  | turn
  /-- The clock was set. -/
  | clock (time : Instant)
  /-- A task was dropped from outside. -/
  | kill (task : TaskId)
  deriving DecidableEq, Repr

/-- A move leads from one state of a run to another. -/
inductive Step (p : Program σ τ ρ α β) : Executor σ τ ρ → Label α β → Executor σ τ ρ → Prop
  | act {e e' : Executor σ τ ρ} {action : α} {answer : β} :
      e.act p action = .ok (e', answer) → Step p e (.act action answer) e'
  | turn {e e' : Executor σ τ ρ} : e.turn p = .ok e' → Step p e .turn e'
  | clock (e : Executor σ τ ρ) (time : Instant) : Step p e (.clock time) (e.setClock time)
  | kill (e : Executor σ τ ρ) (task : TaskId) : Step p e (.kill task) (e.kill p task)

inductive Trace (p : Program σ τ ρ α β) (e : Executor σ τ ρ) :
    List (Label α β) → Executor σ τ ρ → Prop
  | refl : Trace p e [] e
  | tail {ls : List (Label α β)} {l : Label α β} {e' e'' : Executor σ τ ρ} :
      Trace p e ls e' → Step p e' l e'' → Trace p e (ls ++ [l]) e''

def Label.isSilent : Label α β → Bool
  | .turn | .clock _ => true
  | .act _ _ | .kill _ => false

namespace Trace

variable {p : Program σ τ ρ α β} {e e' e'' : Executor σ τ ρ} {ls ls' : List (Label α β)}

theorem single {l : Label α β} (h : Step p e l e') : Trace p e [l] e' := by
  simpa using Trace.refl.tail h

theorem trans (h : Trace p e ls e') (h' : Trace p e' ls' e'') : Trace p e (ls ++ ls') e'' := by
  induction h' with
  | refl => simpa using h
  | tail _ step ih =>
      rw [← List.append_assoc]
      exact ih.tail step

/-- What every move keeps holds after every trace. -/
theorem invariant {I : Executor σ τ ρ → Prop}
    (keeps : ∀ {e l e'}, I e → Step p e l e' → I e') (h : Trace p e ls e') (start : I e) :
    I e' := by
  induction h with
  | refl => exact start
  | tail _ step ih => exact keeps ih step

end Trace

/-! ## Runs are traces -/

variable {p : Program σ τ ρ α β}

/-- Giving out turns is a trace of turns. -/
theorem trace_of_runFor {n : Nat} {e e' : Executor σ τ ρ} (h : e.runFor p n = .ok e') :
    ∃ ls, Trace p e ls e' ∧ ∀ l ∈ ls, l = .turn := by
  induction n generalizing e with
  | zero =>
      obtain rfl : e = e' := by simpa [runFor] using h
      exact ⟨[], .refl, by simp⟩
  | succ n ih =>
      simp only [runFor] at h
      split at h
      · obtain rfl : e = e' := by simpa using h
        exact ⟨[], .refl, by simp⟩
      · cases turned : e.turn p with
        | error panic => simp [turned, bind, Except.bind] at h
        | ok middle =>
            -- one turn, and then the trace of those that follow
            have rest : middle.runFor p n = .ok e' := by
              simpa [turned, bind, Except.bind] using h
            obtain ⟨ls, trace, turns⟩ := ih rest
            refine ⟨[.turn] ++ ls, (Trace.single (.turn turned)).trans trace, ?_⟩
            intro l member
            rcases List.mem_append.1 member with first | later
            · exact List.mem_singleton.1 first
            · exact turns l later

/-- A run up to the rest of all tasks consists of turns. -/
theorem trace_of_run {e e' : Executor σ τ ρ} (h : e.run p = .ok e') :
    ∃ ls, Trace p e ls e' ∧ ∀ l ∈ ls, l = .turn :=
  trace_of_runFor h

/-- Letting time pass is a trace of turns and changes of the clock. -/
theorem trace_of_passFor {target : Instant} {n : Nat} {e e' : Executor σ τ ρ}
    (h : e.passFor p target n = .ok e') :
    ∃ ls, Trace p e ls e' ∧ ∀ l ∈ ls, l.isSilent = true := by
  have last : ∀ e : Executor σ τ ρ, (Except.ok (e.setClock target) : Except Panic _) = .ok e' →
      ∃ ls, Trace p e ls e' ∧ ∀ l ∈ ls, l.isSilent = true := by
    intro e h
    obtain rfl : e.setClock target = e' := by simpa using h
    exact ⟨[.clock target], .single (.clock e target), by simp [Label.isSilent]⟩
  induction n generalizing e with
  | zero => exact last e (by simpa [passFor] using h)
  | succ n ih =>
      simp only [passFor] at h
      split at h
      · exact last e h
      · rename_i deadline _
        split at h
        · cases ran : (e.setClock (max e.now deadline)).run p with
          | error panic => simp [ran, bind, Except.bind] at h
          | ok middle =>
              -- the clock goes to the alarm, the turns follow, and then time goes on
              have rest : middle.passFor p target n = .ok e' := by
                simpa [ran, bind, Except.bind] using h
              obtain ⟨turns, ran, areTurns⟩ := trace_of_run ran
              obtain ⟨ls, trace, silent⟩ := ih rest
              refine ⟨[.clock (max e.now deadline)] ++ turns ++ ls,
                ((Trace.single (.clock e _)).trans ran).trans trace, ?_⟩
              intro l member
              rcases List.mem_append.1 member with early | later
              · rcases List.mem_append.1 early with first | turned
                · rw [List.mem_singleton.1 first]
                  rfl
                · rw [areTurns l turned]
                  rfl
              · exact silent l later
        · exact last e h

/-- While time passes, tasks take turns and the clock is set, and nothing is done from outside. -/
theorem trace_of_advance {e e' : Executor σ τ ρ} {duration : Nat}
    (h : e.advance p duration = .ok e') :
    ∃ ls, Trace p e ls e' ∧ ∀ l ∈ ls, l.isSilent = true := by
  cases ran : e.run p with
  | error panic => simp [advance, ran, bind, Except.bind] at h
  | ok middle =>
      have passed : middle.passFor p (middle.now + duration) (duration + 1) = .ok e' := by
        simpa [advance, ran, bind, Except.bind] using h
      obtain ⟨turns, ran, areTurns⟩ := trace_of_run ran
      obtain ⟨ls, trace, silent⟩ := trace_of_passFor passed
      refine ⟨turns ++ ls, ran.trans trace, ?_⟩
      intro l member
      rcases List.mem_append.1 member with turned | later
      · rw [areTurns l turned]
        rfl
      · exact silent l later

end Executor

/-! ## Commands are traces -/

namespace Session

variable {σ τ ρ α β : Type} {p : Program σ τ ρ α β}

/-- What follows from a command is a trace of turns. -/
theorem trace_of_settle {hold : Bool} {s s' : Session σ τ ρ} (h : s.settle p hold = .ok s') :
    ∃ ls, Executor.Trace p s.executor ls s'.executor ∧ ∀ l ∈ ls, l = .turn := by
  cases hold with
  | true =>
      obtain rfl : s = s' := by simpa [settle] using h
      exact ⟨[], .refl, by simp⟩
  | false =>
      cases ran : s.executor.run p with
      | error panic => simp [settle, ran, bind, Except.bind] at h
      | ok e =>
          obtain rfl : { s with executor := e } = s' := by
            simpa [settle, ran, bind, Except.bind, pure, Except.pure] using h
          exact Executor.trace_of_run ran

/-- A command without what follows from it is a trace. -/
theorem trace_of_perform {s s' : Session σ τ ρ} {command : Command α} {reply : Reply β}
    (h : s.perform p command = .ok (s', reply)) :
    ∃ ls, Executor.Trace p s.executor ls s'.executor := by
  cases command with
  | act action =>
      cases acted : s.executor.act p action with
      | error panic => simp [perform, acted, bind, Except.bind] at h
      | ok r =>
          obtain ⟨e, answer⟩ := r
          simp only [perform, acted, bind, Except.bind, pure, Except.pure] at h
          cases h
          exact ⟨_, .single (.act acted)⟩
  | launch action =>
      cases acted : s.executor.act p action with
      | error panic => simp [perform, launch, acted, bind, Except.bind] at h
      | ok r =>
          obtain ⟨e, answer⟩ := r
          -- whether there is a task that gets a number makes no difference to the run
          by_cases grown : s.executor.tasks.length < e.tasks.length
          · simp only [perform, launch, acted, grown, bind, Except.bind, pure, Except.pure] at h
            cases h
            exact ⟨_, .single (.act acted)⟩
          · simp only [perform, launch, acted, grown, bind, Except.bind, pure, Except.pure] at h
            cases h
            exact ⟨_, .single (.act acted)⟩
  | advance duration =>
      cases advanced : s.executor.advance p duration with
      | error panic => simp [perform, advanced, bind, Except.bind] at h
      | ok e =>
          simp only [perform, advanced, bind, Except.bind, pure, Except.pure] at h
          cases h
          obtain ⟨ls, trace, _⟩ := Executor.trace_of_advance advanced
          exact ⟨ls, trace⟩
  | setClock time =>
      simp only [perform] at h
      cases h
      exact ⟨_, .single (.clock _ time)⟩
  | kill number =>
      simp only [perform] at h
      split at h
      · cases h
        exact ⟨_, .single (.kill _ _)⟩
      · cases h
        exact ⟨[], .refl⟩
  | idle =>
      simp only [perform] at h
      cases h
      exact ⟨[], .refl⟩

/-- A command is a trace. -/
theorem trace_of_carryOut {s s' : Session σ τ ρ} {command : Command α} {hold : Bool}
    {reply : Reply β} (h : s.carryOut p command hold = .ok (s', reply)) :
    ∃ ls, Executor.Trace p s.executor ls s'.executor := by
  cases performed : s.perform p command with
  | error panic => simp [carryOut, performed, bind, Except.bind] at h
  | ok r =>
      obtain ⟨middle, answer⟩ := r
      cases settled : middle.settle p hold with
      | error panic => simp [carryOut, performed, settled, bind, Except.bind] at h
      | ok final =>
          simp only [carryOut, performed, settled, bind, Except.bind, pure, Except.pure] at h
          cases h
          obtain ⟨first, moved⟩ := trace_of_perform performed
          obtain ⟨later, turned, _⟩ := trace_of_settle settled
          exact ⟨first ++ later, moved.trans turned⟩

end Session
end MeteredFetch
