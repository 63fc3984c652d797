import MeteredFetch.Bucket.Operation

/-!
# Checked — the bucket in arithmetic that may fail

Balances are signed 64-bit numbers, amounts, capacities and intervals unsigned ones, and times and
products of 128 bits. Here the bucket is computed step by step as it is in these types: an addition, a
subtraction, a product or an opposite that leaves its type is a defect, and so is a division by zero.
Only what saturates, and the sum of a moment and a duration, is not checked.

* `Bucket.Defect` — what may go wrong;
* `Checked.add`, `Checked.subtract`, `Checked.multiply`, `Checked.divide` and the others are the steps;
* `Checked.operate` and `Checked.turn` are the operations on a bucket and the turns of its callers,
  computed in such steps.
-/

namespace MeteredFetch
namespace Bucket

/-- A step that has no result in its type, or a split into chunks of no tokens. -/
inductive Defect
  | add
  | subtract
  | multiply
  | negate
  | divide
  | emptyChunk
  deriving DecidableEq, Repr

def Defect.ofPanic : Panic → Defect
  | .emptyChunk => .emptyChunk
  | .negate => .negate
  | .multiply => .multiply

namespace Checked

/-! ## Steps -/

def add (x y : Nat) : Except Defect Nat :=
  if x + y < productLimit then .ok (x + y) else .error .add

def subtract (x y : Nat) : Except Defect Nat :=
  if y ≤ x then .ok (x - y) else .error .subtract

def multiply (x y : Nat) : Except Defect Nat :=
  if x * y < productLimit then .ok (x * y) else .error .multiply

def divide (x y : Nat) : Except Defect Nat :=
  if y = 0 then .error .divide else .ok (x / y)

def remainder (x y : Nat) : Except Defect Nat :=
  if y = 0 then .error .divide else .ok (x % y)

def subtractSigned (x y : Int) : Except Defect Int :=
  if minBalance ≤ x - y ∧ x - y ≤ maxBalance then .ok (x - y) else .error .subtract

def negate (x : Int) : Except Defect Int :=
  if minBalance ≤ -x ∧ -x ≤ maxBalance then .ok (-x) else .error .negate

/-- The nearest balance. -/
def saturate (x : Int) : Int :=
  max minBalance (min x maxBalance)

/-- An unsigned 64-bit number as a balance. -/
def signed (tokens : Nat) : Int :=
  min tokens maxBalance

/-! ## Credit -/

def earned (now : Instant) (b : Bucket) : Except Defect Nat := do
  let next ← add b.creditedTo b.interval
  if next > now then return 0
  let passed ← subtract now b.creditedTo
  let ticks ← divide passed b.interval
  return min ticks maxBalance

def creditUnclipped (now : Instant) (b : Bucket) : Except Defect Bucket := do
  let ticks ← earned now b
  let time ← multiply ticks b.interval
  let creditedTo ← add b.creditedTo time
  return { b with balance := saturate (b.balance + ticks), creditedTo }

def credit (now : Instant) (b : Bucket) : Except Defect Bucket := do
  return (← creditUnclipped now b).clip

/-- Takes tokens that need not be there. -/
def withdraw (tokens : Int) (b : Bucket) : Bucket :=
  { b with balance := saturate (b.balance - tokens) }

def take (tokens : Int) (b : Bucket) : Except Defect Bucket := do
  let balance ← subtractSigned b.balance tokens
  return { b with balance }

/-! ## Operations -/

def instantGrab (now : Instant) (tokens : UInt64) (b : Bucket) : Except Defect (Bucket × Bool) := do
  let b ← credit now b
  if b.balance > signed tokens.toNat then return ((← take (signed tokens.toNat) b).clip, true)
  else return (b.clip, false)

def forceGrab (now : Instant) (tokens : UInt64) (b : Bucket) : Except Defect Bucket := do
  return (withdraw (signed tokens.toNat) (← credit now b)).clip

def recycle (tokens : UInt64) (b : Bucket) : Bucket :=
  { b with balance := saturate (b.balance + signed tokens.toNat) }.clip

def rescale (now deadline : Instant) (old new : Nat) : Except Defect Instant :=
  if deadline < now then .ok deadline
  else do
    let product ← multiply (deadline - now) new
    let scaled ← divide product old
    return now + min scaled maxWord

def setInterval (now : Instant) (interval : Nat) (b : Bucket) :
    Except Defect (Bucket × List TaskId) :=
  if interval < b.interval then do
    let cursor ← rescale now b.cursor b.interval interval
    return ({ b with interval, cursor, waiters := [] }, b.waiters)
  else .ok ({ b with interval }, [])

def changeInterval (now : Instant) (interval : Nat) (b : Bucket) :
    Except Defect (Bucket × List TaskId) := do
  setInterval now interval (← credit now b)

def changeCapacity (now : Instant) (capacity : Nat) (b : Bucket) : Except Defect Bucket := do
  return (← creditUnclipped now b).setCapacity capacity

def changeBoth (now : Instant) (interval capacity : Nat) (b : Bucket) :
    Except Defect (Bucket × List TaskId) := do
  let (b, woken) ← setInterval now interval (← creditUnclipped now b)
  return (b.setCapacity capacity, woken)

def change {α : Type} (b : Bucket) (checked : Except FetchError α)
    (make : α → Except Defect (Bucket × List TaskId)) : Except Defect Operated :=
  match checked with
  | .error e => .ok (b, [], .refused e)
  | .ok x => do
      let (b, woken) ← make x
      return (b, woken, .changed)

def operate (now : Instant) (b : Bucket) : Operation → Except Defect Operated
  | .instantGrab tokens => do
      let (b, granted) ← instantGrab now tokens b
      return (b, [], .taken granted)
  | .forceGrab tokens => do return (← forceGrab now tokens b, [], .done)
  | .recycle tokens => .ok (recycle tokens b, [], .done)
  | .credit => do return (← credit now b, [], .done)
  | .changeInterval interval =>
      change b (checkInterval interval) fun interval => changeInterval now interval b
  | .changeCapacity capacity =>
      change b (checkCapacity capacity) fun capacity => do
        return (← changeCapacity now capacity b, [])
  | .changeBoth interval capacity =>
      let checked := do return (← checkInterval interval, ← checkCapacity capacity)
      change b checked fun (interval, capacity) => changeBoth now interval capacity b

/-! ## Callers -/

def delay (b : Bucket) (tokens : Int) : Except Defect Nat := do
  let nanos ← multiply b.interval (max tokens 0).toNat
  let whole ← divide nanos 1000000
  let part ← remainder nanos 1000000
  let millis ← if part > 0 then add whole 1 else pure whole
  return min millis maxWord * 1000000

/-- What the balance lacks for a chunk, and the debt on top of it. -/
def lacking (tokens balance : Int) : Except Defect (Int × Int) :=
  if balance > 0 then do return (← subtractSigned tokens balance, 0)
  else if balance < 0 then do return (tokens, ← negate balance)
  else .ok (tokens, 0)

def claim (now : Instant) (tokens : Nat) (b : Bucket) : Except Defect (Bucket × Option Wait) := do
  let b ← credit now b
  if b.balance > signed tokens then return (← take (signed tokens) b, none)
  let (owed, debt) ← lacking (signed tokens) b.balance
  let delay ← delay b (saturate (owed + debt))
  let deadline := max b.cursor now + delay
  return ({ b with balance := 0, cursor := deadline }, some ⟨owed.toNat, deadline, b.interval⟩)

def draw (now : Instant) (tokens : Nat) (b : Bucket) : Except Defect (Bucket × Option Wait) := do
  match ← claim now tokens b with
  | (b, none) => return (b, none)
  | (b, some wait) =>
      if wait.deadline ≤ now then return (withdraw wait.owed b, none) else return (b, some wait)

def drawLast (now : Instant) (id : TaskId) (size : Nat) :
    Option Nat → Bucket → Except Defect (Bucket × Option Caller)
  | none, b => .ok (b, none)
  | some tokens, b => do
      match ← draw now tokens b with
      | (b, none) => return (b, none)
      | (b, some wait) => return (b.join id, some (.waiting wait ⟨size, 0, none⟩))

def drawWhole (now : Instant) (id : TaskId) (size : Nat) (remainder : Option Nat) :
    Nat → Bucket → Except Defect (Bucket × Option Caller)
  | 0, b => drawLast now id size remainder b
  | n + 1, b => do
      match ← draw now size b with
      | (b, none) => drawWhole now id size remainder n b
      | (b, some wait) => return (b.join id, some (.waiting wait ⟨size, n, remainder⟩))

def drawAll (now : Instant) (id : TaskId) (chunks : Chunks) (b : Bucket) :
    Except Defect (Bucket × Option Caller) :=
  drawWhole now id chunks.size chunks.remainder chunks.whole b

def split (tokens size : Nat) : Except Defect Chunks :=
  if size = 0 then .error .emptyChunk
  else do
    let whole ← divide tokens size
    let rest ← remainder tokens size
    return ⟨size, whole, if rest = 0 then none else some rest⟩

def chunksOf (tokens : UInt64) (b : Bucket) : Except Defect Chunks :=
  if tokens.toNat < b.capacity then .ok (.single tokens.toNat)
  else split tokens.toNat b.capacity

def reprice (now : Instant) (interval : Nat) (w : Wait) : Except Defect Wait :=
  if interval < w.pricedAt then do
    let deadline ← rescale now w.deadline w.pricedAt interval
    return { w with deadline, pricedAt := interval }
  else .ok w

def turn (now : Instant) (id : TaskId) (b : Bucket) : Caller → Except Defect (Bucket × Option Caller)
  | .arriving tokens => do drawAll now id (← chunksOf tokens b) b
  | .waiting wait rest => do
      let b := b.leave id
      let wait ← reprice now b.interval wait
      if wait.deadline ≤ now then drawAll now id rest (withdraw wait.owed b)
      else return (b.join id, some (.waiting wait rest))

end Checked
end Bucket
end MeteredFetch
