import MeteredFetch.FetchError

/-!
# Retries — how often a request may be tried again
-/

namespace MeteredFetch

/-- How often a request may be tried again after its first attempt. -/
inductive Retries
  /-- At most this often. -/
  | limited (most : Nat)
  /-- Until the request succeeds or is cancelled. -/
  | unlimited
  deriving DecidableEq, Repr

namespace Retries

/-- Whether the retry with this number is allowed, counting from one. -/
def permits : Retries → Nat → Bool
  | .limited most, retry => decide (retry ≤ most)
  | .unlimited, _ => true

/-- The budget that a number stands for: minus one is unlimited, other negative numbers are
no budget. -/
def ofBudget (budget : Int32) : Except FetchError Retries :=
  match budget.toInt with
  | .ofNat most => .ok (.limited most)
  | .negSucc 0 => .ok .unlimited
  | .negSucc (n + 1) => .error (.invalidRetries (.negSucc (n + 1)))

end Retries
end MeteredFetch
