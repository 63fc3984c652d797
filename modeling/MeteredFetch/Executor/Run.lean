import MeteredFetch.Executor.Basic

/-!
# Run — letting tasks and time go on

* `Executor.run` gives out turns until no task is ready;
* `Executor.advance` lets time pass from alarm to alarm.
-/

namespace MeteredFetch
namespace Executor

variable {σ τ ρ α β : Type}

def runFor (p : Program σ τ ρ α β) : Nat → Executor σ τ ρ → Except Panic (Executor σ τ ρ)
  | 0, e => .ok e
  | n + 1, e =>
      match e.ready with
      | [] => .ok e
      | _ :: _ => do runFor p n (← e.turn p)

/-- The turns that are given out before a run counts as one that never comes to rest. -/
def patience : Nat := 1000000000000000

/-- Gives out turns until no task is ready. A run that goes on and on is left where it stands. -/
def run (p : Program σ τ ρ α β) (e : Executor σ τ ρ) : Except Panic (Executor σ τ ρ) :=
  e.runFor p patience

def nextDeadline? (e : Executor σ τ ρ) : Option Instant :=
  (e.alarms.find? fun a => !a.rung).map Alarm.deadline

/-- Lets time pass up to `target`, stopping at no more than `n` alarms on the way. The alarm that
is due first may already lie behind the clock, which then stays where it is. -/
def passFor (p : Program σ τ ρ α β) (target : Instant) :
    Nat → Executor σ τ ρ → Except Panic (Executor σ τ ρ)
  | 0, e => .ok (e.setClock target)
  | n + 1, e =>
      match e.nextDeadline? with
      | none => .ok (e.setClock target)
      | some deadline =>
          if deadline ≤ target then do
            passFor p target n (← (e.setClock (max e.now deadline)).run p)
          else .ok (e.setClock target)

/-- Lets `duration` pass. After each stop every alarm lies ahead of the clock, so there are no
more stops than nanoseconds, and one for an alarm that is due at once. -/
def advance (p : Program σ τ ρ α β) (e : Executor σ τ ρ) (duration : Nat) :
    Except Panic (Executor σ τ ρ) := do
  let e ← e.run p
  e.passFor p (e.now + duration) (duration + 1)

end Executor
end MeteredFetch
