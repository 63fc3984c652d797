import MeteredFetch.Panic

/-!
# Chunks — large withdrawals in parts

A withdrawal of at least the capacity of a bucket is made in parts, so that others can go in
between. There may be astronomically many parts, so they are counted and not listed.

* `Chunks.split` splits an amount into parts of a given size and a smaller remainder;
* `Chunks.toList` lists the parts.
-/

namespace MeteredFetch

/-- The parts of a withdrawal that are still to be made. -/
structure Chunks where
  /-- How large a whole part is. -/
  size : Nat
  /-- How many whole parts there are. -/
  whole : Nat
  /-- The part that comes last, if any. -/
  remainder : Option Nat
  deriving DecidableEq, Repr

namespace Chunks

def single (tokens : Nat) : Chunks :=
  ⟨tokens, 0, some tokens⟩

/-- An amount in parts of at most `size`. -/
def split (tokens size : Nat) : Except Panic Chunks :=
  if size = 0 then .error .emptyChunk
  else .ok ⟨size, tokens / size, if tokens % size = 0 then none else some (tokens % size)⟩

def toList (c : Chunks) : List Nat :=
  List.replicate c.whole c.size ++ c.remainder.toList

def next? (c : Chunks) : Option (Nat × Chunks) :=
  match c.whole, c.remainder with
  | n + 1, _ => some (c.size, { c with whole := n })
  | 0, some r => some (r, { c with remainder := none })
  | 0, none => none

def take : Nat → Chunks → List Nat × Chunks
  | 0, c => ([], c)
  | n + 1, c =>
      match c.next? with
      | none => ([], c)
      | some (part, rest) =>
          let (parts, rest) := take n rest
          (part :: parts, rest)

/-! ## The parts as a list -/

theorem toList_eq_nil_of_next? {c : Chunks} (h : c.next? = none) : c.toList = [] := by
  obtain ⟨size, whole, remainder⟩ := c
  cases whole <;> cases remainder <;> simp_all [next?, toList]

/-- The first part and those of the rest are all parts. -/
theorem toList_of_next? {c rest : Chunks} {part : Nat} (h : c.next? = some (part, rest)) :
    c.toList = part :: rest.toList := by
  obtain ⟨size, whole, remainder⟩ := c
  cases whole with
  | zero =>
      cases remainder with
      | none => simp [next?] at h
      | some r =>
          obtain ⟨rfl, rfl⟩ : r = part ∧ _ = rest := by simpa [next?] using h
          simp [toList]
  | succ n =>
      obtain ⟨rfl, rfl⟩ : size = part ∧ _ = rest := by simpa [next?] using h
      simp [toList, List.replicate_succ]

end Chunks
end MeteredFetch
