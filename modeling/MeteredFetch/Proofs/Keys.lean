import MeteredFetch.Key

/-!
# Keys — which keys look alike, and which are looked for in the same place

The text of a key stands for no other key, although names are written as they are: the digits of a
digest are as many as those of any other, and the two families begin differently. The digest by which a
key is looked for stands for no other key either, as long as nobody finds two byte strings with the same
digest.

* `Digest.hex_append_inj` — a text that begins with the digits of a digest is read in one way only;
* `Key.display_inj` — keys with the same text are the same;
* `Sha256.Collide` — two byte strings with the same digest;
* `Key.trail` — the bytes whose digest a subspace key is looked for by, and `Key.trail_inj` says what they
  tell of the key;
* `Key.routing_eq_iff` — when two keys are looked for in the same place.
-/

namespace MeteredFetch

/-! ## Digits -/

/-- No two byte strings are written alike. -/
theorem Hex.digits_injective : Function.Injective Hex.digits := by
  intro x y same
  have read := Hex.ofDigits?_digits x
  rw [same, Hex.ofDigits?_digits] at read
  exact (Option.some.inj read).symm

namespace Digest

theorem eq_of_bytes {d e : Digest} (same : d.bytes = e.bytes) : d = e := by
  cases d
  cases e
  cases same
  rfl

theorem toList_hex (d : Digest) : d.hex.toList = Hex.digits d.bytes :=
  String.toList_ofList

/-- All digests have equally many digits, so it is known where they end. -/
theorem hex_append_inj {d e : Digest} {s t : String} (same : d.hex ++ s = e.hex ++ t) :
    d = e ∧ s = t := by
  have chars : Hex.digits d.bytes ++ s.toList = Hex.digits e.bytes ++ t.toList := by
    rw [← toList_hex, ← toList_hex, ← String.toList_append, ← String.toList_append, same]
  have lengths : (Hex.digits d.bytes).length = (Hex.digits e.bytes).length := by
    rw [Hex.length_digits, Hex.length_digits, d.length_bytes, e.length_bytes]
  rcases List.append_inj chars lengths with ⟨digits, rest⟩
  exact ⟨eq_of_bytes (Hex.digits_injective digits), String.toList_inj.1 rest⟩

end Digest

namespace Key

/-! ## Texts -/

/-- The two families are told apart by the first letter. -/
theorem display_content_ne_subspace (d i : Digest) (n : String) :
    (content d).display ≠ (subspace i n).display := by
  intro same
  have chars := congrArg (fun text => text.toList.head?) same
  simp [display, String.toList_append] at chars

/-- The texts of two keys are the same exactly if the keys are. Names are arbitrary texts, and may hold
anything that stands elsewhere in the text of a key. -/
theorem display_inj (k₁ k₂ : Key) : k₁.display = k₂.display ↔ k₁ = k₂ := by
  refine ⟨fun same => ?_, fun same => by rw [same]⟩
  cases k₁ with
  | content d =>
      cases k₂ with
      | content e =>
          have digits : d.hex ++ "" = e.hex ++ "" := by
            rw [String.append_empty, String.append_empty]
            exact (String.append_right_inj "content:").1 same
          rw [(Digest.hex_append_inj digits).1]
      | subspace i n =>
          exact absurd same (display_content_ne_subspace d i n)
  | subspace i n =>
      cases k₂ with
      | content d =>
          exact absurd same.symm (display_content_ne_subspace d i n)
      | subspace j m =>
          simp only [display, String.append_assoc] at same
          have digits := (String.append_right_inj "subspace:").1 same
          rcases Digest.hex_append_inj digits with ⟨identity, rest⟩
          rw [identity, (String.append_right_inj "/").1 rest]

end Key

/-! ## Collisions -/

namespace Sha256

structure Collide (x y : Bytes) : Prop where
  ne : x ≠ y
  same : hash x = hash y

/-- Two digests are the same only for the same bytes or for a collision. -/
theorem hash_eq_iff {x y : Bytes} : hash x = hash y ↔ x = y ∨ Collide x y := by
  constructor
  · intro same
    by_cases equal : x = y
    · exact .inl equal
    · exact .inr ⟨equal, same⟩
  · rintro (equal | collide)
    · rw [equal]
    · exact collide.same

end Sha256

/-! ## Routes -/

namespace Key

variable {i j : Digest} {n m : String}

/-- No two names have the same bytes. -/
theorem nameBytes_inj : nameBytes n = nameBytes m ↔ n = m := by
  refine ⟨fun same => ?_, fun same => by rw [same]⟩
  have arrays : n.toUTF8 = m.toUTF8 := ByteArray.ext (Array.toList_inj.1 same)
  exact String.toByteArray_inj.1 arrays

/-- The bytes whose digest a subspace key is looked for by. -/
def trail (identity : Digest) (name : String) : Bytes :=
  identity.bytes ++ (Sha256.hash (nameBytes name)).bytes

theorem routing_subspace (i : Digest) (n : String) : (subspace i n).routing = Sha256.hash (trail i n) := rfl

/-- Whatever its name, a subspace key is looked for by sixty-four bytes. -/
theorem length_trail (i : Digest) (n : String) : (trail i n).length = 64 := by
  rw [trail, List.length_append, Digest.length_bytes, Digest.length_bytes]

/-- Digests are equally long, so it is known where the first one ends. -/
theorem trail_inj : trail i n = trail j m ↔
    i = j ∧ Sha256.hash (nameBytes n) = Sha256.hash (nameBytes m) := by
  constructor
  · intro same
    have lengths : i.bytes.length = j.bytes.length := by rw [i.length_bytes, j.length_bytes]
    rcases List.append_inj same lengths with ⟨identity, name⟩
    exact ⟨Digest.eq_of_bytes identity, Digest.eq_of_bytes name⟩
  · rintro ⟨identity, name⟩
    rw [trail, trail, identity, name]

/-- The names of two keys of one subspace are the same, or have the same digest although their bytes
differ. -/
theorem trail_eq_iff : trail i n = trail j m ↔
    subspace i n = subspace j m ∨ i = j ∧ n ≠ m ∧ Sha256.Collide (nameBytes n) (nameBytes m) := by
  rw [trail_inj, Sha256.hash_eq_iff, nameBytes_inj]
  constructor
  · rintro ⟨identity, name | collide⟩
    · exact .inl (by rw [identity, name])
    · exact .inr ⟨identity, fun name => collide.ne (nameBytes_inj.2 name), collide⟩
  · rintro (same | ⟨identity, _, collide⟩)
    · cases same
      exact ⟨rfl, .inl rfl⟩
    · exact ⟨identity, .inr collide⟩

/-- When two keys are looked for in the same place. Two subspace keys are the same then, or they are of one
subspace and their names collide, or the identities with the digests of the names collide, which are
byte strings of one length. A content key is made of just these bytes of the subspace key, or they collide
with the data that it is made of. -/
theorem routing_eq_iff :
    (∀ i j n m, (subspace i n).routing = (subspace j m).routing ↔
      subspace i n = subspace j m ∨
        (i = j ∧ n ≠ m ∧ Sha256.Collide (nameBytes n) (nameBytes m)) ∨
        ((trail i n).length = 64 ∧ (trail j m).length = 64 ∧ Sha256.Collide (trail i n) (trail j m))) ∧
      ∀ data i n, (ofData data).routing = (subspace i n).routing ↔
        data = trail i n ∨ Sha256.Collide data (trail i n) := by
  refine ⟨fun i j n m => ?_, fun data i n => Sha256.hash_eq_iff⟩
  rw [routing_subspace, routing_subspace, Sha256.hash_eq_iff, trail_eq_iff, or_assoc, length_trail,
    length_trail]
  simp only [true_and]

end Key
end MeteredFetch
