import MeteredFetch.Bucket.Chunks
import MeteredFetch.Bucket.Rate

/-!
# Caller — withdrawals that wait

A caller withdraws an amount chunk by chunk. A chunk that the balance does not exceed takes what
there is, moves the cursor on by the time that the missing tokens and any debt take, and waits
until then. The wait has paid for the tokens, so they are withdrawn afterwards without another
look at the balance.

* `Wait` is what a waiting caller has to pay, and when;
* `Bucket.claim` begins with a chunk;
* `Caller.turn` is the turn of a caller.
-/

namespace MeteredFetch

structure Wait where
  /-- What is withdrawn when the wait is over. -/
  owed : Nat
  /-- When it is over. -/
  deadline : Instant
  /-- The interval that the deadline was computed for. -/
  pricedAt : Nat
  deriving DecidableEq, Repr

/-- Shortens a wait that was computed for a longer interval. -/
def Wait.reprice (w : Wait) (now : Instant) (interval : Nat) : Except Panic Wait :=
  if interval < w.pricedAt then do
    let deadline ← rescale now w.deadline w.pricedAt interval
    return { w with deadline, pricedAt := interval }
  else .ok w

/-- Where a withdrawal stands that has not been granted in full. -/
inductive Caller
  /-- It has not begun. -/
  | arriving (tokens : UInt64)
  /-- It waits for one chunk, and others may follow. -/
  | waiting (wait : Wait) (rest : Chunks)
  deriving DecidableEq, Repr

def Caller.alarm : Caller → Option Instant
  | .arriving _ => none
  | .waiting wait _ => some wait.deadline

namespace Bucket

/-- Takes one chunk if the balance exceeds it; otherwise takes what there is, clears any debt,
and says what is to be waited for. -/
def claim (now : Instant) (tokens : Nat) (b : Bucket) : Except Panic (Bucket × Option Wait) :=
  let b := b.credit now
  if b.balance > tokens then .ok (b.withdraw tokens, none)
  else if b.balance = minBalance then .error .negate
  else
    -- one of the two is zero: a balance covers part of the chunk, a debt is paid off on top of it
    let owed := tokens - b.balance.toNat
    let debt := (-b.balance).toNat
    -- whoever waits already goes first
    let deadline := max b.cursor now + b.delay (min (owed + debt) maxBalance)
    .ok ({ b with balance := 0, cursor := deadline }, some ⟨owed, deadline, b.interval⟩)

/-- Takes one chunk, and says what is to be waited for if that has not come yet. -/
def draw (now : Instant) (tokens : Nat) (b : Bucket) : Except Panic (Bucket × Option Wait) := do
  match ← b.claim now tokens with
  | (b, none) => return (b, none)
  | (b, some wait) =>
      if wait.deadline ≤ now then return (b.withdraw wait.owed, none) else return (b, some wait)

def drawLast (now : Instant) (id : TaskId) (size : Nat) :
    Option Nat → Bucket → Except Panic (Bucket × Option Caller)
  | none, b => .ok (b, none)
  | some tokens, b => do
      match ← b.draw now tokens with
      | (b, none) => return (b, none)
      | (b, some wait) => return (b.join id, some (.waiting wait ⟨size, 0, none⟩))

/-- Takes whole chunks and then the last one, as far as that goes without waiting. -/
def drawWhole (now : Instant) (id : TaskId) (size : Nat) (remainder : Option Nat) :
    Nat → Bucket → Except Panic (Bucket × Option Caller)
  | 0, b => b.drawLast now id size remainder
  | n + 1, b => do
      match ← b.draw now size with
      | (b, none) => b.drawWhole now id size remainder n
      | (b, some wait) => return (b.join id, some (.waiting wait ⟨size, n, remainder⟩))

def drawAll (now : Instant) (id : TaskId) (chunks : Chunks) (b : Bucket) :
    Except Panic (Bucket × Option Caller) :=
  b.drawWhole now id chunks.size chunks.remainder chunks.whole

/-- Withdrawals of at least the capacity are made in chunks of it. -/
def chunksOf (tokens : UInt64) (b : Bucket) : Except Panic Chunks :=
  if tokens.toNat < b.capacity then .ok (.single tokens.toNat)
  else Chunks.split tokens.toNat b.capacity

end Bucket

/-- The turn of a caller: begins, or looks again at what it waits for. Returns where it stands
then, unless everything was granted. A caller that goes on waiting does so behind all others. -/
def Caller.turn (now : Instant) (id : TaskId) (b : Bucket) :
    Caller → Except Panic (Bucket × Option Caller)
  | .arriving tokens => do b.drawAll now id (← b.chunksOf tokens)
  | .waiting wait rest => do
      let b := b.leave id
      let wait ← wait.reprice now b.interval
      -- the wait has paid for the tokens, so the balance is not looked at
      if wait.deadline ≤ now then (b.withdraw wait.owed).drawAll now id rest
      else return (b.join id, some (.waiting wait rest))

end MeteredFetch
