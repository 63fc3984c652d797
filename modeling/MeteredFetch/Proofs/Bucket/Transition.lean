import MeteredFetch.Proofs.Bucket.Bounds
import MeteredFetch.Proofs.Bucket.Elapsed

/-!
# Transition — credit across a change of the interval

Before the interval is changed, the whole intervals that have passed are credited. The part that has
passed of the next one is kept as time, and not as a share of a token: after the change it is measured
by the new interval. If that one is much shorter, the part is worth many tokens.

* `Bucket.carried` — the time that is kept across a change;
* `Bucket.operate_of_pace` — what a change of the interval leaves for later credits;
* `Bucket.creditedAcross_le_iff` — when no more tokens are credited across a change up to a moment than
  were earned before and after it, and one;
* `Bucket.credited_across_le_iff` — when that is so at every moment after a change.
-/

namespace MeteredFetch
namespace Bucket

open Executor

variable {b b' : Bucket} {now t : Instant} {interval : Nat}

/-! ## Changes of the interval -/

/-- The time that has passed at a moment and is not credited then. -/
def carried (b : Bucket) (now : Instant) : Nat :=
  now - (b.credit now).creditedTo

/-- The interval that an operation puts in force if it changes nothing else. -/
def Operation.pace? (b : Bucket) : Operation → Option Nat
  | .changeInterval interval => some interval.toNat
  | .changeBoth interval capacity =>
      if capacity.toNat = b.capacity then some interval.toNat else none
  | .instantGrab _ | .forceGrab _ | .recycle _ | .credit | .changeCapacity _ => none

/-- What was credited and what is carried make up the time that has passed. -/
theorem earned_mul_add_carried (earns : 0 < b.interval) (upTo : b.creditedTo ≤ now) :
    b.creditedTo + b.earned now * b.interval + b.carried now = now := by
  have few : b.earned now ≤ (now - b.creditedTo) / b.interval := Nat.min_le_left _ _
  have passed : b.earned now * b.interval ≤ now - b.creditedTo :=
    (Nat.le_div_iff_mul_le earns).1 few
  have credited : (b.credit now).creditedTo = b.creditedTo + b.earned now * b.interval := rfl
  unfold carried
  rw [credited]
  unfold Instant at *
  omega

/-- All intervals that have passed were credited, or lie in the time that is carried. -/
theorem ticks_eq (earns : 0 < b.interval) (upTo : b.creditedTo ≤ now) :
    ticks b.interval b.creditedTo now = b.earned now + b.carried now / b.interval := by
  have whole := earned_mul_add_carried earns upTo
  have passed : now - b.creditedTo = b.carried now + b.earned now * b.interval := by
    unfold Instant at *
    omega
  unfold ticks
  rw [passed, Nat.add_mul_div_right _ _ earns, Nat.add_comm]

/-- As long as the intervals that have passed are in the range of balances, less than one of them is
carried. -/
theorem carried_of_few (few : b.pending now < 2 ^ 63) :
    b.carried now = (now - b.creditedTo) % b.interval := by
  have whole : b.earned now = (now - b.creditedTo) / b.interval := earned_of_pending few
  have credited : (b.credit now).creditedTo = b.creditedTo + b.earned now * b.interval := rfl
  have parts := Nat.div_add_mod' (now - b.creditedTo) b.interval
  unfold carried
  rw [credited, whole]
  unfold Instant at *
  omega

/-- A change of the interval that is made leaves the new interval and the moment up to which it has
credited, whether or not the capacity is named as well. -/
theorem operate_of_pace {op : Operation} {woken : List TaskId}
    (pace : op.pace? b = some interval) (operated : b.operate now op = .ok (b', woken, .changed)) :
    b'.interval = interval ∧ 0 < interval ∧ b'.creditedTo = (b.credit now).creditedTo := by
  cases op with
  | changeInterval q =>
      cases pace
      rcases change_cases operated with ⟨error, refused, _⟩ | ⟨_, n, checked, made⟩
      · cases refused
      · have same := eq_of_checkInterval checked
        rcases interval_of_setInterval made with ⟨put, kept⟩
        exact ⟨put.trans same, same ▸ of_checkInterval checked, kept⟩
  | changeBoth q c =>
      have own : q.toNat = interval := by
        simp only [Operation.pace?] at pace
        split at pace
        · exact Option.some.inj pace
        · cases pace
      rcases change_cases operated with ⟨error, refused, _⟩ | ⟨_, ⟨i, n⟩, checked, made⟩
      · cases refused
      · rcases ok_of_bind checked with ⟨i, earns, checked⟩
        rcases ok_of_bind checked with ⟨n, inRange, checked⟩
        cases checked
        have same := eq_of_checkInterval earns
        rcases ok_of_bind made with ⟨⟨b₁, woken₁⟩, set, rest⟩
        cases rest
        rcases interval_of_setInterval set with ⟨put, kept⟩
        exact ⟨put.trans (same.trans own), (same.trans own) ▸ of_checkInterval earns, kept⟩
  | instantGrab tokens => cases pace
  | forceGrab tokens => cases pace
  | recycle tokens => cases pace
  | credit => cases pace
  | changeCapacity capacity => cases pace

/-! ## What is carried across a change -/

/-- The time that was carried is worth no more new intervals than it had old ones, and one, exactly if
it lasts no longer than these with the part that has passed of the next one. -/
theorem quotient_le_iff {q d r m : Nat} (positive : 0 < q) :
    (d + r) / q ≤ m + d / q + 1 ↔ d % q + r < (m + 2) * q := by
  have parts := Nat.div_add_mod' d q
  calc
    (d + r) / q ≤ m + d / q + 1
        ↔ d + r < (m + d / q + 2) * q := by rw [← Nat.lt_succ_iff, Nat.div_lt_iff_lt_mul positive]
    _ ↔ d + r < d / q * q + (m + 2) * q := by
          rw [show m + d / q + 2 = d / q + (m + 2) by omega, Nat.add_mul]
    _ ↔ d % q + r < (m + 2) * q := by omega

/-- What is earned after a change. -/
theorem earned_of_carried (upTo : (b.credit now).creditedTo ≤ now) (later : now ≤ t)
    (put : b'.interval = interval) (kept : b'.creditedTo = (b.credit now).creditedTo) :
    b'.earned t = min ((t - now + b.carried now) / interval) maxBalance := by
  have passed : t - b'.creditedTo = t - now + b.carried now := by
    unfold carried
    rw [kept]
    unfold Instant at *
    omega
  unfold earned
  rw [passed, put]

/-- The tokens that are credited between the last credit and a moment, if the interval is changed at
another moment between the two. -/
def creditedAcross (b b' : Bucket) (now t : Instant) : Nat :=
  b.earned now + b'.earned t

def ticksAcross (b b' : Bucket) (now t : Instant) : Nat :=
  ticks b.interval b.creditedTo now + ticks b'.interval now t

/-- When no more tokens are credited across a change than were earned before and after it, and one. -/
theorem creditedAcross_le_iff (earns : 0 < b.interval) (upTo : b.creditedTo ≤ now)
    (positive : 0 < interval) (put : b'.interval = interval)
    (kept : b'.creditedTo = (b.credit now).creditedTo) (later : now ≤ t) :
    creditedAcross b b' now t ≤ ticksAcross b b' now t + 1 ↔
      (t - now) % interval + b.carried now < (b.carried now / b.interval + 2) * interval ∨
        maxBalance ≤ b.carried now / b.interval + ticks interval now t + 1 := by
  have whole := earned_mul_add_carried earns upTo
  have before := ticks_eq earns upTo
  have credited : (b.credit now).creditedTo ≤ now := by
    have moved : (b.credit now).creditedTo = b.creditedTo + b.earned now * b.interval := rfl
    unfold Instant at *
    omega
  have after := earned_of_carried credited later put kept
  rw [← quotient_le_iff positive]
  unfold creditedAcross ticksAcross
  rw [before, after, put]
  unfold ticks
  omega

/-- No more tokens are credited across a change of the interval than were earned before and after it,
and one, exactly if the time that is carried across the change, with the part that has passed of the
last interval, is shorter than two of the new intervals. (Should more intervals have passed than a
balance can count, those that were not credited are carried as well and count on both sides; and the
range of balances bounds what is credited later on.) So it is at all times exactly if the part that had
passed of the old interval is no longer than the new one, and always if the interval is not shortened. -/
theorem credited_across_le_iff {op : Operation} {woken : List TaskId} (earns : 0 < b.interval)
    (upTo : b.creditedTo ≤ now) (pace : op.pace? b = some interval)
    (operated : b.operate now op = .ok (b', woken, .changed)) :
    (∀ t, now ≤ t →
        (creditedAcross b b' now t ≤ ticksAcross b b' now t + 1 ↔
          (t - now) % interval + b.carried now < (b.carried now / b.interval + 2) * interval ∨
            maxBalance ≤ b.carried now / b.interval + ticks interval now t + 1)) ∧
      (b.pending now < 2 ^ 63 →
        b.carried now = (now - b.creditedTo) % b.interval ∧
          ((∀ t, now ≤ t → creditedAcross b b' now t ≤ ticksAcross b b' now t + 1) ↔
            b.carried now ≤ interval)) ∧
      (b.interval ≤ interval →
        ∀ t, now ≤ t → creditedAcross b b' now t ≤ ticksAcross b b' now t + 1) := by
  rcases operate_of_pace pace operated with ⟨put, positive, kept⟩
  have exact : ∀ t, now ≤ t →
      (creditedAcross b b' now t ≤ ticksAcross b b' now t + 1 ↔
        (t - now) % interval + b.carried now < (b.carried now / b.interval + 2) * interval ∨
          maxBalance ≤ b.carried now / b.interval + ticks interval now t + 1) :=
    fun _ later => creditedAcross_le_iff earns upTo positive put kept later
  refine ⟨exact, fun few => ?_, fun slower t later => ?_⟩
  · have part := carried_of_few few
    have short : b.carried now < b.interval := part ▸ Nat.mod_lt _ earns
    have none : b.carried now / b.interval = 0 := Nat.div_eq_of_lt short
    refine ⟨part, fun always => ?_, fun fits t later => ?_⟩
    · -- the last moment before the first new interval has passed decides
      by_contra longer
      have last := (exact (now + (interval - 1)) (Nat.le_add_right _ _)).1 (always _ (Nat.le_add_right _ _))
      have spent : now + (interval - 1) - now = interval - 1 := Nat.add_sub_cancel_left _ _
      have begun : (interval - 1) / interval = 0 := Nat.div_eq_of_lt (by omega)
      have range : 2 ≤ maxBalance := by decide
      unfold ticks at last
      rw [none, spent, begun, Nat.mod_eq_of_lt (by omega)] at last
      unfold Instant at *
      omega
    · refine (exact t later).2 (.inl ?_)
      have begun := Nat.mod_lt (t - now) positive
      rw [none]
      unfold Instant at *
      omega
  · refine (exact t later).2 (.inl ?_)
    have begun := Nat.mod_lt (t - now) positive
    have parts := Nat.div_add_mod' (b.carried now) b.interval
    have short := Nat.mod_lt (b.carried now) earns
    have more : b.carried now / b.interval * b.interval ≤ b.carried now / b.interval * interval :=
      Nat.mul_le_mul_left _ slower
    rw [Nat.add_mul]
    generalize b.carried now / b.interval = m at *
    unfold Instant at *
    omega

def hurried : Bucket :=
  ⟨0, 100, 10, 0, 0, []⟩

theorem hurried_credited_across_le_iff :
    (⟨0, 100, 100, 0, 0, []⟩ : Bucket).operate 99 (.changeInterval 10) =
        .ok (hurried, [], .changed) ∧
      ¬ creditedAcross ⟨0, 100, 100, 0, 0, []⟩ hurried 99 99 ≤
          ticksAcross ⟨0, 100, 100, 0, 0, []⟩ hurried 99 99 + 1 ∧
      (⟨0, 100, 100, 0, 0, []⟩ : Bucket).carried 99 = 99 := by
  have operated : (⟨0, 100, 100, 0, 0, []⟩ : Bucket).operate 99 (.changeInterval 10) =
      .ok (hurried, [], .changed) := by rfl
  rcases credited_across_le_iff (by decide) (by decide) (by rfl) operated with ⟨exact, few, _⟩
  have carried := (few (by decide)).1
  refine ⟨operated, fun within => ?_, carried⟩
  exact absurd ((exact 99 (Nat.le_refl 99)).1 within) (by decide)

/-- The part of an interval that has passed may be worth nine tokens after a change. -/
theorem not_credited_across_le :
    ¬ ∀ (b b' : Bucket) (op : Operation) (interval : Nat) (woken : List TaskId) (now t : Instant),
      0 < b.interval → b.creditedTo ≤ now → op.pace? b = some interval →
      b.operate now op = .ok (b', woken, .changed) → now ≤ t →
      creditedAcross b b' now t ≤ ticksAcross b b' now t + 1 := by
  intro bounded
  have bound := bounded ⟨0, 100, 100, 0, 0, []⟩ hurried (.changeInterval 10) 10 [] 99 99 (by decide)
    (by decide) rfl rfl (Nat.le_refl 99)
  exact absurd bound (by decide)

end Bucket
end MeteredFetch
