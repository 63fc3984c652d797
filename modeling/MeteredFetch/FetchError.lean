import MeteredFetch.Key

/-!
# FetchError — refused configurations and stopped schedulers

These errors are never retried: whoever made the call gets them at once.
-/

namespace MeteredFetch

/-- Why a call was refused. -/
inductive FetchError
  /-- The group has no scheduler for keys of this family. -/
  | unbound (family : Family)
  /-- The budget is negative and does not stand for an unlimited one. -/
  | invalidRetries (budget : Int)
  /-- The capacity of a bucket is zero or too large for a balance to reach. -/
  | invalidCapacity
  /-- The interval between two tokens is zero. -/
  | invalidInterval
  /-- The scheduler dispatches nothing any more. -/
  | closed
  deriving DecidableEq, Repr

namespace FetchError

def message : FetchError → String
  | .unbound family => "no scheduler bound for " ++ family.display ++ " keys"
  | .invalidRetries budget => "invalid retry budget: " ++ toString budget
  | .invalidCapacity => "bucket capacity must be positive"
  | .invalidInterval => "tick interval must be positive"
  | .closed => "scheduler closed"

end FetchError
end MeteredFetch
