import MeteredFetch.Bucket.Operation
import MeteredFetch.Executor.Session

/-!
# Script — scripted runs of a lone bucket

* `Bucket.Script` is a bucket and a list of commands;
* `Bucket.Script.play` carries the commands out and records what is seen after each.
-/

namespace MeteredFetch
namespace Bucket

structure Script where
  capacity : UInt64
  interval : UInt64
  initial : Int64
  /-- The clock at the beginning. -/
  start : Instant
  /-- The commands, each with whether what follows from it is held. -/
  steps : List (Command Action × Bool)

namespace Script

structure Entry where
  reply : Reply Answer
  time : Instant
  ended : List (Report UInt64)
  balance : Int
  capacity : Nat
  interval : Nat
  deriving DecidableEq, Repr

abbrev State := Session Bucket Grab UInt64

def step (s : State) (command : Command Action) (hold : Bool) :
    Except Panic (State × Entry) := do
  let (s, reply) ← s.carryOut program command hold
  let (s, ended) := s.report
  let b := s.shared
  return (s, ⟨reply, s.executor.now, ended, b.balance, b.capacity, b.interval⟩)

def playFrom : State → List (Command Action × Bool) → List (Except Panic Entry)
  | _, [] => []
  | s, (command, hold) :: rest =>
      match step s command hold with
      | .error panic => [.error panic]
      | .ok (s, entry) => .ok entry :: playFrom s rest

def play (script : Script) : Except FetchError (List (Except Panic Entry)) := do
  let bucket ← create script.capacity script.interval script.initial script.start
  return playFrom (.start script.start bucket) script.steps

end Script
end Bucket
end MeteredFetch
