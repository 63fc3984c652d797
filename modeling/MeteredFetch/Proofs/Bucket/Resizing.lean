import MeteredFetch.Proofs.Bucket.Bounds
import MeteredFetch.Proofs.Bucket.Elapsed

/-!
# Resizing — changes of the capacity, with a credit before them or without

A change of the capacity credits what was earned before it, but does not hold it against the capacity that
was in force meanwhile: only the new one limits the balance. So a bucket that was full for a while gets
the tokens that did not fit when it is enlarged, unless somebody has credited it just before.

* `Bucket.endow` — a bucket with other funds;
* `Bucket.operate_of_resizes` — a change of the capacity is refused, or it changes the interval without
  a look at the funds, and limits what was credited;
* `Bucket.pending_credit_self` — what a credit leaves to be credited at the same moment;
* `Bucket.resized_after_credit` — what a credit just before a change of the capacity makes different.
-/

namespace MeteredFetch
namespace Bucket

open Executor

variable {b b₁ b₂ : Bucket} {now : Instant} {capacity : Nat} {op : Operation}
  {woken : List TaskId} {panic : Panic}

/-! ## Changes of the capacity -/

def endow (balance : Int) (creditedTo : Instant) (b : Bucket) : Bucket :=
  { b with balance, creditedTo }

namespace Operation

def capacity? : Operation → Option Nat
  | .changeCapacity capacity | .changeBoth _ capacity => some capacity.toNat
  | .instantGrab _ | .forceGrab _ | .recycle _ | .credit | .changeInterval _ => none

/-- What a change of the capacity does to the interval. -/
def pacing (now : Instant) (b : Bucket) : Operation → Except Panic (Bucket × List TaskId)
  | .changeBoth interval _ => b.setInterval now interval.toNat
  | .instantGrab _ | .forceGrab _ | .recycle _ | .credit | .changeInterval _ | .changeCapacity _ =>
      .ok (b, [])

end Operation

/-- The interval is changed without a look at the funds. -/
theorem pacing_endow (now : Instant) (op : Operation) (balance : Int) (creditedTo : Instant) (b : Bucket) :
    op.pacing now (b.endow balance creditedTo) =
      (op.pacing now b).map fun r => (r.1.endow balance creditedTo, r.2) := by
  cases op with
  | changeBoth q c =>
      have same : (b.endow balance creditedTo).interval = b.interval := rfl
      simp only [Operation.pacing, setInterval, same]
      by_cases faster : q.toNat < b.interval
      · rw [if_pos faster, if_pos faster]
        simp only [endow]
        cases rescale now b.cursor b.interval q.toNat <;> rfl
      · rw [if_neg faster, if_neg faster]
        rfl
  | _ => rfl

theorem eq_of_checkCapacity {c : UInt64} {n : Nat} (h : checkCapacity c = .ok n) : n = c.toNat := by
  unfold checkCapacity at h
  split at h <;> cases h
  rfl

/-- What a change of the capacity leaves of a bucket whose interval was changed. -/
def resize (now : Instant) (capacity : Nat) (b : Bucket) (r : Bucket × List TaskId) : Operated :=
  ((r.1.endow (b.creditUnclipped now).balance (b.creditUnclipped now).creditedTo).setCapacity capacity,
    r.2, .changed)

/-- A change of the capacity is refused whatever the bucket is, or it changes the interval and limits what
was credited to the new capacity. -/
theorem operate_of_resizes (now : Instant) (resizes : op.capacity? = some capacity) :
    (∃ error, ∀ b, operate now b op = .ok (b, [], .refused error)) ∨
      capacity ≤ maxBalance ∧ ∀ b, operate now b op = (op.pacing now b).map (b.resize now capacity) := by
  cases op with
  | changeCapacity c =>
      cases resizes
      cases checked : checkCapacity c with
      | error error =>
          exact .inl ⟨error, fun b => by simp only [operate, change, checked]⟩
      | ok n =>
          have same := eq_of_checkCapacity checked
          subst same
          refine .inr ⟨(of_checkCapacity checked).2, fun b => ?_⟩
          simp only [operate, change, checked]
          rfl
  | changeBoth q c =>
      cases resizes
      cases earns : checkInterval q with
      | error error =>
          refine .inl ⟨error, fun b => ?_⟩
          simp only [operate, change, earns, bind, Except.bind]
      | ok i =>
          cases checked : checkCapacity c with
          | error error =>
              refine .inl ⟨error, fun b => ?_⟩
              simp only [operate, change, earns, checked, bind, Except.bind]
          | ok n =>
              have interval := eq_of_checkInterval earns
              have same := eq_of_checkCapacity checked
              subst interval same
              refine .inr ⟨(of_checkCapacity checked).2, fun b => ?_⟩
              -- the change of rate reads neither the balance nor the moment of the last credit
              have credited : b.creditUnclipped now =
                  b.endow (b.creditUnclipped now).balance (b.creditUnclipped now).creditedTo := rfl
              have paced := pacing_endow now (.changeBoth q c)
                (b.creditUnclipped now).balance (b.creditUnclipped now).creditedTo b
              rw [← credited] at paced
              simp only [Operation.pacing] at paced ⊢
              simp only [operate, change, earns, checked, changeBoth, paced, bind, Except.bind, pure,
                Except.pure]
              cases b.setInterval now q.toNat <;> rfl
  | instantGrab _ => cases resizes
  | forceGrab _ => cases resizes
  | recycle _ => cases resizes
  | credit => cases resizes
  | changeInterval _ => cases resizes

/-- A credit changes the funds of a bucket only, so it does not show in a change of the interval. -/
theorem operate_credit_of_made
    (made : ∀ b, operate now b op = (op.pacing now b).map (b.resize now capacity)) (b : Bucket) :
    (b.credit now).operate now op = (op.pacing now b).map ((b.credit now).resize now capacity) := by
  have credited : b.credit now = b.endow (b.credit now).balance (b.credit now).creditedTo := rfl
  have paced := pacing_endow now op (b.credit now).balance (b.credit now).creditedTo b
  rw [← credited] at paced
  rw [made, paced]
  cases op.pacing now b <;> rfl

/-! ## Funds -/

/-- A second credit at the same moment finds the intervals that the first one could not count. -/
theorem pending_credit_self (now : Instant) (b : Bucket) :
    (b.credit now).pending now = b.pending now - b.earned now := by
  unfold pending ticks
  calc
    (now - (b.creditedTo + b.earned now * b.interval)) / b.interval
        = (now - b.creditedTo - b.interval * b.earned now) / b.interval := by
          rw [← Nat.sub_sub, Nat.mul_comm]
    _ = (now - b.creditedTo) / b.interval - b.earned now := Nat.sub_mul_div _ _ _

/-- It finds none exactly if the intervals that have passed can be counted. -/
theorem earned_credit_eq_zero_iff : (b.credit now).earned now = 0 ↔ b.pending now < 2 ^ 63 := by
  have counted : b.earned now = min (b.pending now) maxBalance := rfl
  have again : (b.credit now).earned now = min ((b.credit now).pending now) maxBalance := rfl
  rw [again, pending_credit_self, counted]
  unfold maxBalance
  omega

/-- A change credits what was earned up to the new capacity. -/
theorem balance_resize (now : Instant) (b : Bucket) (limited : capacity ≤ maxBalance)
    (r : Bucket × List TaskId) :
    (b.resize now capacity r).1.balance = min (b.balance + b.earned now) (capacity : Int) := by
  simp only [resize, endow, setCapacity, clip, creditUnclipped]
  omega

theorem creditedTo_resize (r : Bucket × List TaskId) :
    (b.resize now capacity r).1.creditedTo = b.creditedTo + b.earned now * b.interval := rfl

/-- A credit just before a change of the capacity, alone or with the interval, changes neither whether the
change panics nor anything it leaves but the funds: not the cursor, nor who is woken. It does not change
the moment up to which the bucket is credited exactly if the intervals since the last credit can be
counted. As for the balance, the change limits what was there and was earned by the new capacity only,
while with the credit before it the old one limits it as well. So it makes no difference exactly if the
change leaves no more than the old capacity, that is if it does not enlarge the bucket or if what was there
and was earned does not exceed the old capacity. -/
theorem resized_after_credit (range : b.capacity ≤ maxBalance) (earns : 0 < b.interval)
    (resizes : op.capacity? = some capacity) :
    (∀ panic, b.operate now op = .error panic ↔ (b.credit now).operate now op = .error panic) ∧
      ∀ b₁ woken, b.operate now op = .ok (b₁, woken, .changed) →
        ∃ b₂, (b.credit now).operate now op = .ok (b₂, woken, .changed) ∧
          b₂ = b₁.endow b₂.balance b₂.creditedTo ∧
          (b₂.creditedTo = b₁.creditedTo ↔ b.pending now < 2 ^ 63) ∧
          b₁.balance = min (b.balance + b.earned now) (capacity : Int) ∧
          b₂.balance = min (min (b.balance + b.earned now) (b.capacity : Int) +
            (b.credit now).earned now) (capacity : Int) ∧
          (b₁.balance ≤ b.capacity ↔
            capacity ≤ b.capacity ∨ b.balance + b.earned now ≤ b.capacity) ∧
          (b.pending now < 2 ^ 63 → (b₂.balance = b₁.balance ↔ b₁.balance ≤ b.capacity)) := by
  rcases operate_of_resizes now resizes with ⟨error, refused⟩ | ⟨limited, made⟩
  · rw [refused b, refused (b.credit now)]
    exact ⟨fun panic => ⟨nofun, nofun⟩, fun b₁ woken operated => nomatch operated⟩
  · rw [made b, operate_credit_of_made made b]
    cases paced : op.pacing now b with
    | error failed =>
        exact ⟨fun panic => Iff.rfl, fun b₁ woken operated => nomatch operated⟩
    | ok r =>
        refine ⟨fun panic => ⟨nofun, nofun⟩, fun b₁ woken operated => ?_⟩
        obtain ⟨rfl, rfl⟩ : (b.resize now capacity r).1 = b₁ ∧ r.2 = woken := by
          cases operated
          exact ⟨rfl, rfl⟩
        have first := balance_resize now b limited r
        have second := balance_resize now (b.credit now) limited r
        have credited : (b.credit now).balance = min (b.balance + b.earned now) (b.capacity : Int) := by
          rw [credit_eq range]
        rw [credited] at second
        -- a second credit at the same moment adds something only if the first one left ticks uncounted
        have moved : (b.credit now).earned now * b.interval = 0 ↔ b.pending now < 2 ^ 63 := by
          rw [Nat.mul_eq_zero, earned_credit_eq_zero_iff]
          exact or_iff_left (Nat.ne_of_gt earns)
        refine ⟨_, rfl, rfl, ?_, first, second, ?_, fun few => ?_⟩
        · change (resize now capacity (b.credit now) r).1.creditedTo = _ ↔ _
          rw [creditedTo_resize, creditedTo_resize, ← moved]
          exact Nat.add_eq_left
        · rw [first]
          omega
        · have nothing : (b.credit now).earned now = 0 := earned_credit_eq_zero_iff.2 few
          rw [nothing] at second
          change (resize now capacity (b.credit now) r).1.balance = _ ↔ _
          rw [first, second]
          omega

def overfull : Bucket :=
  -- full for a while, and a caller waits
  ⟨90, 100, 10, 0, 500, [3]⟩

theorem overfull_resized_after_credit :
    overfull.operate 200 (.changeBoth 5 300) = .ok (⟨110, 300, 5, 200, 350, []⟩, [3], .changed) ∧
      ∃ b₂, (overfull.credit 200).operate 200 (.changeBoth 5 300) = .ok (b₂, [3], .changed) ∧
        b₂.cursor = 350 ∧ b₂.creditedTo = 200 ∧ b₂.balance = 100 := by
  have operated : overfull.operate 200 (.changeBoth 5 300) =
      .ok (⟨110, 300, 5, 200, 350, []⟩, [3], .changed) := rfl
  rcases (resized_after_credit (by decide) (by decide) rfl).2 _ _ operated with
    ⟨b₂, operated', same, creditedTo, _, balance, _⟩
  refine ⟨operated, b₂, operated', ?_, creditedTo.2 (by decide), balance⟩
  rw [same]
  rfl

/-- A bucket that was full gets what did not fit when it is enlarged, but not after a credit; and of more
intervals than can be counted, a credit takes part away. -/
theorem not_resized_after_credit :
    (¬ ∀ (b b₁ b₂ : Bucket) (now : Instant) (op : Operation) (capacity : Nat) (woken woken' : List TaskId),
        Bounded now b → op.capacity? = some capacity →
        b.operate now op = .ok (b₁, woken, .changed) →
        (b.credit now).operate now op = .ok (b₂, woken', .changed) →
        b₂.balance = b₁.balance ∧ b₁.balance ≤ b.capacity) ∧
      ¬ ∀ (b b₁ b₂ : Bucket) (now : Instant) (op : Operation) (capacity : Nat) (woken woken' : List TaskId),
        Bounded now b → op.capacity? = some capacity →
        b.operate now op = .ok (b₁, woken, .changed) →
        (b.credit now).operate now op = .ok (b₂, woken', .changed) →
        b₂.creditedTo = b₁.creditedTo := by
  refine ⟨fun same => ?_, fun same => ?_⟩
  · have equal := same ⟨100, 100, 10, 0, 0, []⟩ ⟨200, 300, 10, 1000, 0, []⟩ ⟨100, 300, 10, 1000, 0, []⟩
      1000 (.changeCapacity 300) 300 [] [] ⟨by decide, by decide, by decide, by decide⟩ rfl rfl rfl
    exact absurd equal.1 (by decide)
  · have equal := same ⟨0, 100, 1, 0, 0, []⟩ ⟨50, 50, 1, 0x7fffffffffffffff, 0, []⟩
      ⟨50, 50, 1, 0x8000000000000000, 0, []⟩ 0x8000000000000000 (.changeCapacity 50) 50 [] []
      ⟨by decide, by decide, by decide, by decide⟩ rfl rfl rfl
    exact absurd equal (by decide)

end Bucket
end MeteredFetch
