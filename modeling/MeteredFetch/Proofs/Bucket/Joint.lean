import MeteredFetch.Proofs.Bucket.Resizing

/-!
# Joint — changing interval and capacity together

A change of interval and capacity together comes to the same as a change of the capacity and then one of
the interval, both at the same moment. The first of the two credits what was earned and leaves nothing
to be credited by the second, and neither the new capacity nor the balance shows in what the second does
to the cursor and to those who wait. It does not come to the same the other way round.

* `Bucket.setInterval_setCapacity` — the capacity does not show in a change of the interval;
* `Bucket.credit_changeCapacity` — a change of the capacity leaves nothing to be credited;
* `Bucket.changeBoth_eq` — the two changes one after the other;
* `Bucket.changed_jointly` — a joint change is refused and changes nothing, or is the two changes.
-/

namespace MeteredFetch
namespace Bucket

open Executor

variable {b : Bucket} {now : Instant} {interval capacity : Nat}

/-! ## One change after the other -/

/-- The two values can be put in force in either order. -/
theorem setInterval_setCapacity (now : Instant) (interval capacity : Nat) (b : Bucket) :
    (b.setCapacity capacity).setInterval now interval =
      (b.setInterval now interval).map fun r => (r.1.setCapacity capacity, r.2) := by
  have same : (b.setCapacity capacity).interval = b.interval := rfl
  simp only [setInterval, same]
  by_cases faster : interval < b.interval
  · rw [if_pos faster, if_pos faster]
    simp only [setCapacity, clip]
    cases rescale now b.cursor b.interval interval <;> rfl
  · rw [if_neg faster, if_neg faster]
    rfl

/-- A bucket to which nothing is to be credited, and whose balance is within its limits, is credited
already. -/
theorem credit_of_earned (nothing : b.earned now = 0) (range : b.balance ≤ maxBalance)
    (within : b.balance ≤ b.capacity) : b.credit now = b := by
  have unclipped : b.creditUnclipped now = b := by
    simp only [creditUnclipped, nothing, Nat.zero_mul, Int.natCast_zero, Int.add_zero, Nat.add_zero,
      Int.min_eq_left range]
  rw [credit, unclipped, clip_of_balance_le within]

/-- After a change of the capacity nothing is to be credited at the same moment. -/
theorem credit_changeCapacity (few : b.pending now < 2 ^ 63) :
    (b.changeCapacity now capacity).credit now = b.changeCapacity now capacity := by
  have nothing : (b.changeCapacity now capacity).earned now = 0 := earned_credit_eq_zero_iff.2 few
  have credited : (b.creditUnclipped now).balance ≤ maxBalance := Int.min_le_right _ _
  have clipped : (b.changeCapacity now capacity).balance ≤ (b.creditUnclipped now).balance :=
    Int.min_le_left _ _
  exact credit_of_earned nothing (Int.le_trans clipped credited) (Int.min_le_right _ _)

/-- A joint change is a change of the capacity followed by one of the interval. -/
theorem changeBoth_eq (few : b.pending now < 2 ^ 63) :
    b.changeBoth now interval capacity =
      (b.changeCapacity now capacity).changeInterval now interval := by
  rw [changeInterval, credit_changeCapacity few, changeCapacity, setInterval_setCapacity]
  unfold changeBoth
  cases (b.creditUnclipped now).setInterval now interval <;> rfl

/-! ## Checked changes -/

variable {q c : UInt64}

/-- A joint change whose arguments pass is a change of the capacity, which wakes nobody and does not
panic, and then one of the interval. -/
theorem operate_changeBoth (earns : q.toNat ≠ 0) (positive : 0 < c.toNat) (inRange : c.toNat < 2 ^ 63)
    (few : b.pending now < 2 ^ 63) :
    ∃ b₁, b.operate now (.changeCapacity c) = .ok (b₁, [], .changed) ∧
      b.operate now (.changeBoth q c) = b₁.operate now (.changeInterval q) := by
  have interval : checkInterval q = .ok q.toNat := if_neg earns
  have capacity : checkCapacity c = .ok c.toNat := if_pos ⟨positive, Nat.le_of_lt_succ inRange⟩
  refine ⟨b.changeCapacity now c.toNat, ?_, ?_⟩
  · simp only [operate, change, capacity]
    rfl
  · simp only [operate, change, interval, capacity, bind, Except.bind, pure, Except.pure,
      changeBoth_eq few]

/-- A joint change of which an argument does not pass is refused. The interval is looked at first. -/
theorem operate_changeBoth_refused :
    (q.toNat = 0 → b.operate now (.changeBoth q c) = .ok (b, [], .refused .invalidInterval)) ∧
      (q.toNat ≠ 0 → c.toNat = 0 ∨ 2 ^ 63 ≤ c.toNat →
        b.operate now (.changeBoth q c) = .ok (b, [], .refused .invalidCapacity)) := by
  refine ⟨fun zero => ?_, fun earns outside => ?_⟩
  · have interval : checkInterval q = .error .invalidInterval := if_pos zero
    simp only [operate, change, interval, bind, Except.bind]
  · have interval : checkInterval q = .ok q.toNat := if_neg earns
    have beyond : ¬ (0 < c.toNat ∧ c.toNat ≤ maxBalance) := by
      unfold maxBalance
      omega
    have capacity : checkCapacity c = .error .invalidCapacity := if_neg beyond
    simp only [operate, change, interval, capacity, bind, Except.bind]

/-- An operation in a run panics with the bucket, or changes it and wakes the callers that it names. -/
theorem act_operate (e : State) (op : Operation) :
    e.act program (.operate op) = (e.shared.operate e.now op).map fun r =>
      (r.2.1.foldl Executor.wake { e with shared := r.1 }, r.2.2) := by
  cases operated : e.shared.operate e.now op with
  | error panic =>
      simp only [Executor.act, program, perform, operated, bind, Except.bind]
      rfl
  | ok r =>
      exact act_of_operate operated

/-- A change of interval and capacity together, in whatever state the bucket and its callers are. If an
argument does not pass it is refused and changes nothing at all, even if the other one passes. Otherwise,
with no more intervals since the last credit than can be counted, it does what a change of the capacity
does, which wakes nobody, and then at the same moment a change of the interval: it leaves the same
bucket, names the same callers to be woken in the same order, and panics if that one does; so the whole
run goes on from the same state. -/
theorem changed_jointly (e : State) (q c : UInt64) :
    (q.toNat = 0 →
        e.act program (.operate (.changeBoth q c)) = .ok (e, .refused .invalidInterval)) ∧
      (q.toNat ≠ 0 → c.toNat = 0 ∨ 2 ^ 63 ≤ c.toNat →
        e.act program (.operate (.changeBoth q c)) = .ok (e, .refused .invalidCapacity)) ∧
      (q.toNat ≠ 0 → 0 < c.toNat → c.toNat < 2 ^ 63 → e.shared.pending e.now < 2 ^ 63 →
        ∃ b₁, e.shared.operate e.now (.changeCapacity c) = .ok (b₁, [], .changed) ∧
          e.shared.operate e.now (.changeBoth q c) = b₁.operate e.now (.changeInterval q) ∧
          e.act program (.operate (.changeCapacity c)) = .ok ({ e with shared := b₁ }, .changed) ∧
          e.act program (.operate (.changeBoth q c)) =
            ({ e with shared := b₁ } : State).act program (.operate (.changeInterval q))) := by
  refine ⟨fun zero => ?_, fun earns outside => ?_, fun earns positive inRange few => ?_⟩
  · rw [act_operate, operate_changeBoth_refused.1 zero]
    rfl
  · rw [act_operate, operate_changeBoth_refused.2 earns outside]
    rfl
  · rcases operate_changeBoth earns positive inRange few with ⟨b₁, resized, joint⟩
    refine ⟨b₁, resized, joint, ?_, ?_⟩
    · rw [act_operate, resized]
      rfl
    · rw [act_operate, act_operate, joint]

def twoDeep : State :=
  (follow program (opening 0 ⟨0, 100, 10000000, 0, 0, []⟩)
    -- three and a half intervals have passed since two callers began to wait
    [.act (.grab 99) (), .turn, .act (.grab 50) (), .turn, .clock 35000000]).2

theorem twoDeep_changed_jointly :
    twoDeep.act program (.operate (.changeBoth 0 40)) = .ok (twoDeep, .refused .invalidInterval) ∧
      twoDeep.act program (.operate (.changeBoth 5000000 0)) =
        .ok (twoDeep, .refused .invalidCapacity) ∧
      twoDeep.act program (.operate (.changeBoth 5000000 2)) =
        ({ twoDeep with shared := ⟨2, 2, 10000000, 30000000, 1490000000, [0, 1]⟩ } : State).act program
          (.operate (.changeInterval 5000000)) := by
  refine ⟨(changed_jointly twoDeep 0 40).1 rfl, (changed_jointly twoDeep 5000000 0).2.1 (by decide)
    (by decide), ?_⟩
  rcases (changed_jointly twoDeep 5000000 2).2.2 (by decide) (by decide) (by decide) (by decide) with
    ⟨b₁, resized, _, _, joint⟩
  cases resized
  exact joint

/-- The interval first and the capacity second: the old capacity limits what was earned. -/
example :
    let full : Bucket := ⟨100, 100, 10, 0, 0, []⟩
    (full.changeBoth 1000 20 300).map (·.1.balance) = .ok 200 ∧
      (full.changeInterval 1000 20).map (fun r => (r.1.changeCapacity 1000 300).balance) = .ok 100 :=
  ⟨rfl, rfl⟩

end Bucket
end MeteredFetch
