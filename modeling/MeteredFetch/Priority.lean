/-!
# Priority — how urgent a group of requests is

Classes are ordered from most to least urgent, so that the least class goes first.
-/

namespace MeteredFetch

inductive Priority
  | maximum
  | interactive
  | immediateSplitfile
  | update
  | bulk
  | prefetch
  | minimum
  deriving DecidableEq, Repr

namespace Priority

def all : List Priority :=
  [.maximum, .interactive, .immediateSplitfile, .update, .bulk, .prefetch, .minimum]

/-- The number of classes that are more urgent. -/
def rank : Priority → Nat
  | .maximum => 0
  | .interactive => 1
  | .immediateSplitfile => 2
  | .update => 3
  | .bulk => 4
  | .prefetch => 5
  | .minimum => 6

/-- Groups that name no class work in bulk. -/
instance : Inhabited Priority where
  default := .bulk

def sort (classes : List Priority) : List Priority :=
  classes.mergeSort fun p q => decide (p.rank ≤ q.rank)

/-- No two classes are equally urgent. -/
theorem rank_injective {p q : Priority} (h : p.rank = q.rank) : p = q := by
  cases p <;> cases q <;> simp_all [rank]

end Priority
end MeteredFetch
