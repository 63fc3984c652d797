import MeteredFetch.Bucket.Caller

/-!
# Operation — what can be done with a bucket, and the tasks that draw on it

* `Bucket.Operation` lists what is done at once, and `Bucket.operate` does it;
* `Bucket.program` is the program whose tasks withdraw tokens and wait for them.
-/

namespace MeteredFetch
namespace Bucket

inductive Operation
  | instantGrab (tokens : UInt64)
  | forceGrab (tokens : UInt64)
  | recycle (tokens : UInt64)
  | credit
  | changeInterval (interval : UInt64)
  | changeCapacity (capacity : UInt64)
  | changeBoth (interval capacity : UInt64)
  deriving DecidableEq, Repr

inductive Answer
  /-- It was done. -/
  | done
  /-- Whether tokens were taken. -/
  | taken (granted : Bool)
  /-- The change was made. -/
  | changed
  /-- The change was refused, and nothing was done. -/
  | refused (error : FetchError)
  deriving DecidableEq, Repr

abbrev Operated := Bucket × List TaskId × Answer

/-- Makes a change unless its arguments are refused. -/
def change {α : Type} (b : Bucket) (checked : Except FetchError α)
    (make : α → Except Panic (Bucket × List TaskId)) : Except Panic Operated :=
  match checked with
  | .error e => .ok (b, [], .refused e)
  | .ok x => do
      let (b, woken) ← make x
      return (b, woken, .changed)

def operate (now : Instant) (b : Bucket) : Operation → Except Panic Operated
  | .instantGrab tokens =>
      let (b, granted) := b.instantGrab now tokens
      .ok (b, [], .taken granted)
  | .forceGrab tokens => .ok (b.forceGrab now tokens, [], .done)
  | .recycle tokens => .ok (b.recycle tokens, [], .done)
  | .credit => .ok (b.credit now, [], .done)
  | .changeInterval interval =>
      b.change (checkInterval interval) fun interval => b.changeInterval now interval
  | .changeCapacity capacity =>
      b.change (checkCapacity capacity) fun capacity => .ok (b.changeCapacity now capacity, [])
  | .changeBoth interval capacity =>
      let checked := do return (← checkInterval interval, ← checkCapacity capacity)
      b.change checked fun (interval, capacity) => b.changeBoth now interval capacity

/-! ## Tasks -/

structure Grab where
  tokens : UInt64
  caller : Caller
  deriving DecidableEq, Repr

def Grab.start (tokens : UInt64) : Grab :=
  ⟨tokens, .arriving tokens⟩

inductive Action
  /-- Performs an operation at once. -/
  | operate (operation : Operation)
  /-- Starts a task that withdraws an amount and waits for it. -/
  | grab (tokens : UInt64)
  deriving DecidableEq, Repr

/-- The turn of a task. The result is the amount that was granted. -/
def turn (now : Instant) (id : TaskId) (g : Grab) (b : Bucket) :
    Except Panic (Turn Bucket Grab UInt64) := do
  match ← g.caller.turn now id b with
  | (b, none) => return ⟨b, [], .finish g.tokens⟩
  | (b, some caller) => return ⟨b, [], .wait { g with caller } caller.alarm⟩

def perform (now : Instant) (b : Bucket) :
    Action → Except Panic (Reaction Bucket Grab Answer)
  | .operate operation => do
      let (b, woken, answer) ← b.operate now operation
      return ⟨b, woken.map .wake, answer⟩
  | .grab tokens => .ok ⟨b, [.spawn (.start tokens)], .done⟩

/-- Tasks that share a bucket. A dropped one no longer waits; what it took on when it began to
wait is not undone. -/
def program : Program Bucket Grab UInt64 Action Answer where
  turn := turn
  perform := fun now _ action b => b.perform now action
  drop := fun id _ b => b.leave id
  sweep := fun _ b => (b, [])

end Bucket
end MeteredFetch
