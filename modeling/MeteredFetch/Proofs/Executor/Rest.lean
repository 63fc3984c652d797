import MeteredFetch.Executor.Run
import MeteredFetch.Proofs.Executor.Step

/-!
# Rest — runs that come to rest

A run gives out turns until no task is ready. If only one task is ready and its turn makes no other
task ready, the run is that one turn.

* `Executor.turn_of_first` — the turn of the first task that is ready;
* `Executor.run_of_rest`, `Executor.run_of_turn` — runs of no turn and of one.
-/

namespace MeteredFetch
namespace Executor

variable {σ τ ρ α β : Type} {p : Program σ τ ρ α β} {e e' : Executor σ τ ρ}

/-- The first task that is ready has its turn, unless it sleeps on. -/
theorem turn_of_first {id : TaskId} {rest : List TaskId} {task : τ} {t : Turn σ τ ρ}
    (first : e.ready = id :: rest) (awake : e.sleepsOn id = false) (stands : e.task? id = some task)
    (turned : p.turn e.now id task e.shared = .ok t) :
    e.turn p = .ok (({ ({ e with ready := rest } : Executor σ τ ρ).clearAlarm id with
      shared := t.shared }.proceed id t.next).carryOutAll p t.effects) := by
  have awake' : ({ e with ready := rest } : Executor σ τ ρ).sleepsOn id = false := awake
  have stands' : ({ e with ready := rest } : Executor σ τ ρ).task? id = some task := stands
  unfold turn
  simp only [first, awake', Bool.false_eq_true, if_false]
  unfold take
  simp only [stands', turned]
  rfl

/-- A run that has come to rest stays there. -/
theorem runFor_of_rest (rest : e.ready = []) (k : Nat) : e.runFor p k = .ok e := by
  cases k with
  | zero =>
      rfl
  | succ k =>
      simp only [runFor, rest]

theorem run_of_rest (rest : e.ready = []) : e.run p = .ok e :=
  runFor_of_rest rest patience

/-- A run comes to rest after a turn that leaves nobody ready. -/
theorem run_of_turn (busy : e.ready ≠ []) (turned : e.turn p = .ok e') (rest : e'.ready = []) :
    e.run p = .ok e' := by
  have several : patience = (patience - 1) + 1 := by decide
  unfold run
  rw [several]
  cases ready : e.ready with
  | nil =>
      exact absurd ready busy
  | cons id others =>
      simp only [runFor, ready, turned]
      exact runFor_of_rest rest _

end Executor
end MeteredFetch
