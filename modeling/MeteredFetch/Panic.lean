/-!
# Panic — defects that stop everything

A `Panic` is not an error that a caller could handle: the turn in which it arises does not end,
and nothing runs after it.
-/

namespace MeteredFetch

/-- A defect that stops the whole program. -/
inductive Panic
  /-- A withdrawal was to be split into chunks of no tokens. -/
  | emptyChunk
  /-- The opposite of the least balance is not a balance. -/
  | negate
  /-- A product is too large for the width it is computed in. -/
  | multiply
  deriving DecidableEq, Repr

def Panic.message : Panic → String
  | .emptyChunk => "max must be positive"
  | .negate => "attempt to negate with overflow"
  | .multiply => "attempt to multiply with overflow"

end MeteredFetch
