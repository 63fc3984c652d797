import MeteredFetch.Executor.Basic
import MeteredFetch.FetchError

/-!
# Bucket — a balance of tokens that is earned over time

A `Bucket` is credited with one token per interval, never beyond its capacity, and work is let
through by withdrawing tokens from it. The balance may be negative; it is then a debt.

* `Bucket.earned` counts the whole intervals since the last credit, and `Bucket.credit` adds them;
* `Bucket.instantGrab`, `Bucket.forceGrab` and `Bucket.recycle` take and return tokens at once;
* `Bucket.delay` is how long tokens take to be earned.

Amounts are 64-bit numbers and balances signed ones. Sums that leave the range of balances stop
at its ends.
-/

namespace MeteredFetch

/-- The largest balance: the largest signed 64-bit number. -/
def maxBalance : Nat := 0x7fffffffffffffff

def minBalance : Int := -0x8000000000000000

def maxWord : Nat := 0xffffffffffffffff

/-- The amount that stands for a 64-bit number: no more than the largest balance. -/
def amount (tokens : UInt64) : Nat :=
  min tokens.toNat maxBalance

structure Bucket where
  /-- The tokens at hand, negative in debt. -/
  balance : Int
  /-- What the balance is limited to. -/
  capacity : Nat
  /-- The nanoseconds in which one token is earned. -/
  interval : Nat
  /-- The moment up to which tokens were credited. -/
  creditedTo : Instant
  /-- The moment before which no caller that begins to wait may wake. -/
  cursor : Instant
  /-- The callers to wake when tokens begin to be earned faster, in the order in which they
  last began to wait. -/
  waiters : List TaskId := []
  deriving DecidableEq, Repr

namespace Bucket

/-! ## Making a bucket -/

/-- A capacity is positive and within the range of balances. -/
def checkCapacity (capacity : UInt64) : Except FetchError Nat :=
  if 0 < capacity.toNat ∧ capacity.toNat ≤ maxBalance then .ok capacity.toNat
  else .error .invalidCapacity

def checkInterval (interval : UInt64) : Except FetchError Nat :=
  if interval.toNat = 0 then .error .invalidInterval else .ok interval.toNat

/-- A bucket with a balance that may lie outside of the capacity until the first credit. -/
def create (capacity interval : UInt64) (initial : Int64) (now : Instant) :
    Except FetchError Bucket := do
  let capacity ← checkCapacity capacity
  let interval ← checkInterval interval
  return ⟨initial.toInt, capacity, interval, now, now, []⟩

def unused : Bucket :=
  ⟨0, 1, 1, 0, 0, []⟩

/-! ## Credit -/

/-- The whole intervals since the last credit. A clock behind the last credit has none. -/
def earned (b : Bucket) (now : Instant) : Nat :=
  min ((now - b.creditedTo) / b.interval) maxBalance

/-- Credits what was earned, over the capacity if need be. The part of an interval that has
passed is kept for the next credit. -/
def creditUnclipped (now : Instant) (b : Bucket) : Bucket :=
  { b with
    balance := min (b.balance + b.earned now) maxBalance
    creditedTo := b.creditedTo + b.earned now * b.interval }

def clip (b : Bucket) : Bucket :=
  { b with balance := min b.balance b.capacity }

def credit (now : Instant) (b : Bucket) : Bucket :=
  (b.creditUnclipped now).clip

/-! ## Taking and returning tokens at once -/

/-- Takes tokens from the balance, into debt if need be. -/
def withdraw (tokens : Nat) (b : Bucket) : Bucket :=
  { b with balance := max (b.balance - tokens) minBalance }

/-- Takes tokens if there are more than that. -/
def instantGrab (now : Instant) (tokens : UInt64) (b : Bucket) : Bucket × Bool :=
  let b := b.credit now
  if b.balance > amount tokens then (b.withdraw (amount tokens), true) else (b, false)

def forceGrab (now : Instant) (tokens : UInt64) (b : Bucket) : Bucket :=
  ((b.credit now).withdraw (amount tokens)).clip

def recycle (tokens : UInt64) (b : Bucket) : Bucket :=
  { b with balance := min (b.balance + amount tokens) maxBalance }.clip

/-! ## Waiting -/

/-- How long tokens take to be earned, rounded up to the millisecond. -/
def delay (b : Bucket) (tokens : Nat) : Nat :=
  min ((b.interval * tokens + 999999) / 1000000) maxWord * 1000000

def join (id : TaskId) (b : Bucket) : Bucket :=
  { b with waiters := b.waiters.filter (· != id) ++ [id] }

def leave (id : TaskId) (b : Bucket) : Bucket :=
  { b with waiters := b.waiters.filter (· != id) }

/-! ## What a credit leaves as it is -/

@[simp]
theorem creditUnclipped_capacity (now : Instant) (b : Bucket) :
    (b.creditUnclipped now).capacity = b.capacity := rfl

@[simp]
theorem credit_capacity (now : Instant) (b : Bucket) : (b.credit now).capacity = b.capacity := rfl

@[simp]
theorem credit_interval (now : Instant) (b : Bucket) : (b.credit now).interval = b.interval := rfl

@[simp]
theorem credit_cursor (now : Instant) (b : Bucket) : (b.credit now).cursor = b.cursor := rfl

@[simp]
theorem credit_waiters (now : Instant) (b : Bucket) : (b.credit now).waiters = b.waiters := rfl

/-- After a credit there is no more than the capacity. -/
theorem credit_balance_le (now : Instant) (b : Bucket) : (b.credit now).balance ≤ b.capacity :=
  Int.min_le_right _ _

/-- The limit does nothing to a balance within the capacity. -/
theorem clip_of_balance_le {b : Bucket} (h : b.balance ≤ b.capacity) : b.clip = b := by
  simp [clip, Int.min_eq_left h]

end Bucket
end MeteredFetch
