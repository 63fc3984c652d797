import MeteredFetch.Executor.Run

/-!
# Session — driving a run step by step

A session carries out one command after another on an executor. Between two commands all tasks
that are ready take their turns, unless the command is to be *held*: then what it woke and
started waits for a later one.

* `Session.carryOut` carries out a command;
* `Session.report` returns the tasks that ended since the last report. Tasks are known by the
  numbers in which the commands launched them; those that the program starts have none.
-/

namespace MeteredFetch

inductive Command (α : Type)
  /-- Does something from outside. -/
  | act (action : α)
  /-- Does something from outside that starts a task, and gives the task a number. -/
  | launch (action : α)
  /-- Lets time pass. -/
  | advance (duration : Nat)
  /-- Sets the clock. -/
  | setClock (time : Instant)
  /-- Drops the task with a number. -/
  | kill (number : Nat)
  /-- Does nothing. -/
  | idle
  deriving DecidableEq, Repr

inductive Reply (β : Type)
  | none
  | answer (answer : β)
  | number (number : Nat)
  | flag (value : Bool)
  deriving DecidableEq, Repr

structure Session (σ τ ρ : Type) where
  executor : Executor σ τ ρ
  /-- The tasks launched by commands, by number. -/
  launched : List TaskId := []
  /-- How many ends of tasks were reported. -/
  reported : Nat := 0
  deriving DecidableEq, Repr

structure Report (ρ : Type) where
  number : Nat
  result : ρ
  time : Instant
  deriving DecidableEq, Repr

namespace Session

variable {σ τ ρ α β : Type}

def start (now : Instant) (shared : σ) : Session σ τ ρ :=
  { executor := { now, shared } }

def shared (s : Session σ τ ρ) : σ :=
  s.executor.shared

/-- Does something from outside, and gives the first task that it starts a number. -/
def launch (p : Program σ τ ρ α β) (action : α) (s : Session σ τ ρ) :
    Except Panic (Session σ τ ρ × Option Nat) := do
  let id := s.executor.tasks.length
  let (executor, _) ← s.executor.act p action
  if id < executor.tasks.length then
    return ({ s with executor, launched := s.launched ++ [id] }, some s.launched.length)
  else return ({ s with executor }, none)

def perform (p : Program σ τ ρ α β) (s : Session σ τ ρ) :
    Command α → Except Panic (Session σ τ ρ × Reply β)
  | .act action => do
      let (executor, answer) ← s.executor.act p action
      return ({ s with executor }, .answer answer)
  | .launch action => do
      let (s, number) ← s.launch p action
      return (s, (number.map Reply.number).getD .none)
  | .advance duration => do
      return ({ s with executor := ← s.executor.advance p duration }, .none)
  | .setClock time => .ok ({ s with executor := s.executor.setClock time }, .none)
  | .kill number =>
      match s.launched[number]? with
      | some id =>
          .ok ({ s with executor := s.executor.kill p id },
            .flag (s.executor.task? id).isSome)
      | none => .ok (s, .flag false)
  | .idle => .ok (s, .none)

/-- Lets all tasks that are ready take their turns, unless they are held. -/
def settle (p : Program σ τ ρ α β) (hold : Bool) (s : Session σ τ ρ) :
    Except Panic (Session σ τ ρ) :=
  if hold then .ok s else do return { s with executor := ← s.executor.run p }

def carryOut (p : Program σ τ ρ α β) (command : Command α) (hold : Bool) (s : Session σ τ ρ) :
    Except Panic (Session σ τ ρ × Reply β) := do
  let (s, reply) ← s.perform p command
  return (← s.settle p hold, reply)

/-- The launched tasks that ended since the last report, the earliest first. -/
def unreported (s : Session σ τ ρ) : List (Report ρ) :=
  let finished := s.executor.finished
  (finished.take (finished.length - s.reported)).reverse.filterMap fun c =>
    (s.launched.idxOf? c.task).map fun number => ⟨number, c.result, c.time⟩

def report (s : Session σ τ ρ) : Session σ τ ρ × List (Report ρ) :=
  ({ s with reported := s.executor.finished.length }, s.unreported)

end Session
end MeteredFetch
