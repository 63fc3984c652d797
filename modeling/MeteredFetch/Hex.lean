/-!
# Hex — hexadecimal text of byte strings

Bytes are written as two lower-case digits each, most significant first.

* `Hex.encode` writes a byte string;
* `Hex.decode?` reads one back, accepting digits of either case.
-/

namespace MeteredFetch

abbrev Bytes := List UInt8

namespace Hex

def digit (n : Nat) : Char :=
  if n < 10 then Char.ofNat ('0'.toNat + n) else Char.ofNat ('a'.toNat + (n - 10))

def value? (c : Char) : Option Nat :=
  if '0' ≤ c ∧ c ≤ '9' then some (c.toNat - '0'.toNat)
  else if 'a' ≤ c ∧ c ≤ 'f' then some (c.toNat - 'a'.toNat + 10)
  else if 'A' ≤ c ∧ c ≤ 'F' then some (c.toNat - 'A'.toNat + 10)
  else none

def digits : Bytes → List Char
  | [] => []
  | b :: rest => digit (b.toNat / 16) :: digit (b.toNat % 16) :: digits rest

/-- The byte string that a row of digits stands for. -/
def ofDigits? : List Char → Option Bytes
  | [] => some []
  | [_] => none
  | high :: low :: rest => do
      let h ← value? high
      let l ← value? low
      let bytes ← ofDigits? rest
      return UInt8.ofNat (16 * h + l) :: bytes

def encode (bytes : Bytes) : String :=
  String.ofList (digits bytes)

def decode? (text : String) : Option Bytes :=
  ofDigits? text.toList

/-! ## Reading what was written -/

theorem value?_digit {n : Nat} (h : n < 16) : value? (digit n) = some n := by
  revert n
  decide

theorem length_digits (bytes : Bytes) : (digits bytes).length = 2 * bytes.length := by
  induction bytes with
  | nil => rfl
  | cons b rest ih => simp [digits, ih]; omega

/-- The digits of a byte string can be read back. -/
theorem ofDigits?_digits (bytes : Bytes) : ofDigits? (digits bytes) = some bytes := by
  induction bytes with
  | nil => rfl
  | cons b rest ih =>
      have high : b.toNat / 16 < 16 := by have := b.toNat_lt; omega
      have low : b.toNat % 16 < 16 := Nat.mod_lt _ (by decide)
      simp only [digits, ofDigits?, value?_digit high, value?_digit low, ih, Option.bind_eq_bind,
        Option.bind_some, Option.pure_def, Nat.div_add_mod, UInt8.ofNat_toNat]

end Hex

end MeteredFetch
