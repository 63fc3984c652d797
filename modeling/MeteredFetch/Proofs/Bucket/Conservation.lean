import MeteredFetch.Proofs.Bucket.Ledger

/-!
# Conservation — where the tokens of a run come from

As long as capacity and interval stay what they are, no token comes from nowhere, with one
exception: a chunk that finds a debt waits until the debt is paid off, but clears it at once. The
tokens that are earned meanwhile are credited as if there had been no debt.

* `Bucket.balance_add_withdrawn` — the books of a run on a new bucket;
* `Bucket.balance_add_withdrawn_le` — balance and withdrawn tokens are bounded by what was there,
  what was earned, what was given back, and the debts that were cleared. They are bounded without
  the debts exactly as long as the debts do not exceed what is kept elsewhere.
-/

namespace MeteredFetch
namespace Bucket

open Executor

/-! ## New buckets -/

def opening (start : Instant) (b : Bucket) : State :=
  { now := start, shared := b }

variable {capacity interval : UInt64} {initial : Int64} {start : Instant} {b : Bucket}

/-- What is known of a bucket that could be made. -/
theorem create_eq_ok (made : create capacity interval initial start = .ok b) :
    b = ⟨initial.toInt, capacity.toNat, interval.toNat, start, start, []⟩ ∧
      capacity.toNat ≤ maxBalance ∧ 0 < interval.toNat := by
  rcases ok_of_bind made with ⟨c, capacityChecked, made⟩
  rcases ok_of_bind made with ⟨i, intervalChecked, made⟩
  cases made
  unfold checkCapacity at capacityChecked
  unfold checkInterval at intervalChecked
  split at capacityChecked
  · rename_i inRange
    cases capacityChecked
    split at intervalChecked
    · cases intervalChecked
    · rename_i nonzero
      cases intervalChecked
      exact ⟨rfl, inRange.2, Nat.pos_of_ne_zero nonzero⟩
  · cases capacityChecked

/-- The books are in order at the beginning. -/
theorem sound_opening (made : create capacity interval initial start = .ok b) :
    Sound capacity.toNat interval.toNat start (opening start b) := by
  rcases create_eq_ok made with ⟨rfl, _, _⟩
  exact ⟨⟨rfl, rfl, Nat.le_refl start, Nat.le_refl start⟩, fun g member => by cases member⟩

theorem stock_opening (made : create capacity interval initial start = .ok b) :
    stock start (opening start b) = initial.toInt := by
  rcases create_eq_ok made with ⟨rfl, _, _⟩
  simp [stock, net, credited, held, granted, opening]

/-! ## Ticks -/

def ticks (interval : Nat) (start now : Instant) : Nat :=
  (now - start) / interval

/-- The whole intervals since a moment that were not credited yet. -/
def uncredited (start : Instant) (e : State) : Nat :=
  ticks e.shared.interval start e.now - e.shared.credited start

/-- Every interval since the beginning was credited or is still to be credited. -/
theorem credited_add_uncredited {capacity interval : Nat} {e : State}
    (sound : Sound capacity interval start e) :
    e.shared.credited start + uncredited start e = ticks interval start e.now := by
  have behind : e.shared.creditedTo - start ≤ e.now - start :=
    Nat.sub_le_sub_right sound.shared.upTo start
  have fewer : e.shared.credited start ≤ ticks e.shared.interval start e.now :=
    Nat.div_le_div_right behind
  unfold uncredited
  rw [sound.shared.interval] at fewer ⊢
  omega

/-! ## Conservation -/

def withdrawn (hs : List Moment) (e : State) : Nat :=
  granted e + along Moment.taken hs

variable {hs : List Moment} {e : State}

/-- The books of a run on a new bucket. -/
theorem balance_add_withdrawn (made : create capacity interval initial start = .ok b)
    (h : History program (opening start b) hs e)
    (steady : ∀ m ∈ hs, Moment.isSteady m = true) :
    e.shared.balance + withdrawn hs e + held e + along Moment.lost hs + uncredited start e =
      initial.toInt + ticks interval.toNat start e.now + along Moment.returned hs +
        along Moment.cleared hs + along Moment.spared hs := by
  rcases create_eq_ok made with ⟨_, fits, positive⟩
  rcases ledger_of_history fits positive (sound_opening made) h steady with ⟨sound, books⟩
  have earned := credited_add_uncredited sound
  rw [stock_opening made] at books
  simp only [stock, net] at books
  unfold withdrawn
  omega

/-- What is there and what was withdrawn were there at first, or were earned, or given back, or stand
for debts that were cleared; without these debts it is so exactly if they are made up for. -/
theorem balance_add_withdrawn_le (made : create capacity interval initial start = .ok b)
    (h : History program (opening start b) hs e)
    (steady : ∀ m ∈ hs, Moment.isSteady m = true)
    (unsaturated : ∀ m ∈ hs, Moment.spared m = 0) :
    e.shared.balance + withdrawn hs e ≤
        initial.toInt + ticks interval.toNat start e.now + along Moment.returned hs +
          along Moment.cleared hs ∧
      (e.shared.balance + withdrawn hs e ≤
          initial.toInt + ticks interval.toNat start e.now + along Moment.returned hs ↔
        along Moment.cleared hs ≤ held e + along Moment.lost hs + uncredited start e) := by
  have books := balance_add_withdrawn made h steady
  have none := along_eq_zero unsaturated
  constructor
  · omega
  · omega

def payingOff : List Moment × State :=
  follow program (opening 0 ⟨-50, 100, 10000000, 0, 0, []⟩)
    -- the caller waits for the debt of fifty and for ten tokens of its own
    [.act (.grab 10) (), .turn, .clock 600000000, .turn, .act (.operate .credit) ()]

theorem payingOff_balance_add_withdrawn_le :
    create 100 10000000 (-50) 0 = .ok ⟨-50, 100, 10000000, 0, 0, []⟩ ∧
      (∀ m ∈ payingOff.1, Moment.isSteady m = true) ∧
      (∀ m ∈ payingOff.1, Moment.spared m = 0) ∧
      payingOff.2.shared.balance + withdrawn payingOff.1 payingOff.2 ≤
        -50 + ticks 10000000 0 payingOff.2.now + along Moment.returned payingOff.1 +
          along Moment.cleared payingOff.1 := by
  have made : create 100 10000000 (-50) 0 = .ok ⟨-50, 100, 10000000, 0, 0, []⟩ := rfl
  have steady : ∀ m ∈ payingOff.1, Moment.isSteady m = true := by decide
  have unsaturated : ∀ m ∈ payingOff.1, Moment.spared m = 0 := by decide
  exact ⟨made, steady, unsaturated,
    (balance_add_withdrawn_le made (history_follow _ _) steady unsaturated).1⟩

/-- What is earned while a debt is paid off is there in addition to what was waited for. -/
theorem not_balance_add_withdrawn_le :
    ¬ ∀ (capacity interval : UInt64) (initial : Int64) (start : Instant) (b : Bucket)
        (hs : List Moment) (e : State),
      create capacity interval initial start = .ok b →
      History program (opening start b) hs e →
      (∀ m ∈ hs, Moment.isSteady m = true) → (∀ m ∈ hs, Moment.spared m = 0) →
      e.shared.balance + withdrawn hs e ≤
        initial.toInt + ticks interval.toNat start e.now + along Moment.returned hs := by
  intro bounded
  have bound := bounded 100 10000000 (-50) 0 ⟨-50, 100, 10000000, 0, 0, []⟩ payingOff.1
    payingOff.2 rfl (history_follow _ _) (by decide) (by decide)
  exact absurd bound (by decide)

end Bucket
end MeteredFetch
