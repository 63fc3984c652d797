import MeteredFetch.Proofs.Bucket.Checked
import MeteredFetch.Proofs.Bucket.Panics
import MeteredFetch.Proofs.Bucket.Sized

/-!
# Safety — the arithmetic of a bucket does not fail

The numbers of a bucket fit their types and tokens are credited for no time after the last reading of the
clock, so nearly every step of the arithmetic has a result.

* `Checked.operate_eq`, `Checked.turn_eq` — computed step by step, operations and turns do what they do
  on the bucket, panics included;
* `Bucket.defect_iff` — what goes wrong in a run, and when.
-/

namespace MeteredFetch
namespace Bucket

open Executor

variable {latest now : Instant} {b b' : Bucket} {id : TaskId} {n : Nat} {e e' : State}

/-! ## Steps that do not fail -/

/-- The least number of nanoseconds that a clock cannot show. It counts seconds with 64 bits. -/
def clockLimit : Nat :=
  0x10000000000000000 * 1000000000

namespace Checked

/-- A sum that saturates is cut off above. -/
theorem saturate_add {x y : Int} (least : minBalance ≤ x) (nonneg : 0 ≤ y) :
    saturate (x + y) = min (x + y) maxBalance := by
  have below := minBalance_eq
  unfold saturate
  omega

/-- A difference that saturates is cut off below. -/
theorem saturate_sub {x y : Int} (most : x ≤ maxBalance) (nonneg : 0 ≤ y) :
    saturate (x - y) = max (x - y) minBalance := by
  have below := minBalance_eq
  unfold saturate
  omega

/-- A number in the range of balances is the same as a balance. -/
theorem signed_of_le (small : n ≤ maxBalance) : signed n = n := by
  unfold signed
  omega

theorem signed_toNat (tokens : UInt64) : signed tokens.toNat = amount tokens := by
  unfold signed amount
  omega

/-- A clock reading and an interval fit 128 bits together. -/
theorem add_of_clock {x y : Nat} (clock : x < clockLimit) (word : y ≤ maxWord) : add x y = .ok (x + y) := by
  refine if_pos ?_
  unfold clockLimit at clock
  unfold maxWord at word
  unfold productLimit
  omega

/-- Two numbers of 64 bits have a product of 128 bits. -/
theorem multiply_of_words {x y : Nat} (left : x ≤ maxWord) (right : y ≤ maxWord) :
    multiply x y = .ok (x * y) := by
  refine if_pos (Nat.lt_of_le_of_lt (Nat.mul_le_mul left right) ?_)
  decide

theorem divide_of_pos {x y : Nat} (positive : 1 ≤ y) : divide x y = .ok (x / y) :=
  if_neg (Nat.ne_of_gt positive)

theorem remainder_of_pos {x y : Nat} (positive : 1 ≤ y) : remainder x y = .ok (x % y) :=
  if_neg (Nat.ne_of_gt positive)

theorem maxBalance_le_maxWord : maxBalance ≤ maxWord := by decide

/-! ## Credit -/

variable (clock : latest < clockLimit)
include clock

/-- Each step by which intervals are counted has a result. -/
theorem earned_eq (h : Sized latest b) : earned now b = .ok (b.earned now) := by
  have upTo : b.creditedTo < clockLimit := Nat.lt_of_le_of_lt h.upTo clock
  unfold earned
  rw [add_of_clock upTo h.word]
  simp only [bind, Except.bind]
  split
  · -- less than an interval has passed
    rename_i later
    have none : (now - b.creditedTo) / b.interval = 0 := by
      refine Nat.div_eq_of_lt ?_
      have earns := h.earns
      unfold Instant at *
      omega
    unfold Bucket.earned
    rw [none]
    rfl
  · rename_i past
    have before : b.creditedTo ≤ now := by
      unfold Instant at *
      omega
    have ticks := divide_of_pos (x := now - b.creditedTo) h.earns
    simp only [subtract, if_pos before, ticks]
    rfl

/-- Credits have a result as long as the clock is in range. -/
theorem creditUnclipped_eq (h : Sized latest b) (reached : now ≤ latest) :
    creditUnclipped now b = .ok (b.creditUnclipped now) := by
  have ticks : b.earned now ≤ maxWord := Nat.le_trans (Nat.min_le_right _ _) maxBalance_le_maxWord
  have upTo := (h.toBounded.creditUnclipped now).upTo
  rw [Nat.max_eq_left reached] at upTo
  have sum : b.creditedTo + b.earned now * b.interval < productLimit := by
    have room : clockLimit ≤ productLimit := by decide
    have credited : (b.creditUnclipped now).creditedTo =
        b.creditedTo + b.earned now * b.interval := rfl
    unfold Instant at *
    omega
  unfold creditUnclipped
  rw [earned_eq clock h]
  simp only [bind, Except.bind]
  rw [multiply_of_words ticks h.word]
  simp only
  rw [add, if_pos sum, saturate_add h.least (Int.natCast_nonneg _)]
  rfl

theorem credit_eq (h : Sized latest b) (reached : now ≤ latest) :
    credit now b = .ok (b.credit now) := by
  unfold credit
  rw [creditUnclipped_eq clock h reached]
  rfl

omit clock in
/-- What is there can be taken without a loss. -/
theorem take_eq {tokens : Int} (enough : tokens < b.balance) (nonneg : 0 ≤ tokens)
    (most : b.balance ≤ maxBalance) : take tokens b = .ok { b with balance := b.balance - tokens } := by
  have below := minBalance_eq
  have fits : minBalance ≤ b.balance - tokens ∧ b.balance - tokens ≤ maxBalance := by omega
  unfold take
  simp only [subtractSigned, if_pos fits]
  rfl

omit clock in
/-- A withdrawal saturates where the checked one does. -/
theorem withdraw_eq (most : b.balance ≤ maxBalance) : withdraw n b = b.withdraw n := by
  unfold withdraw
  rw [saturate_sub most (Int.natCast_nonneg n)]
  rfl

/-! ## Operations -/

theorem instantGrab_eq (h : Sized latest b) (reached : now ≤ latest) (tokens : UInt64) :
    instantGrab now tokens b = .ok (b.instantGrab now tokens) := by
  have found := h.credit reached
  have within := credit_balance_le now b
  have same : (b.credit now).clip = b.credit now := clip_of_balance_le within
  unfold instantGrab Bucket.instantGrab
  simp only [credit_eq clock h reached, signed_toNat, bind, Except.bind]
  by_cases enough : (b.credit now).balance > amount tokens
  · have floor : max ((b.credit now).balance - amount tokens) minBalance =
        (b.credit now).balance - amount tokens := by
      have below := minBalance_eq
      omega
    have left : (b.credit now).withdraw (amount tokens) =
        { b.credit now with balance := (b.credit now).balance - amount tokens } := by
      unfold Bucket.withdraw
      rw [floor]
    have small : (b.credit now).balance - amount tokens ≤ (b.credit now).capacity := by
      rw [credit_capacity]
      omega
    have taken := take_eq enough (Int.natCast_nonneg _) found.most
    rw [if_pos enough, if_pos enough, left, taken]
    exact congrArg (fun b => Except.ok (b, true)) (clip_of_balance_le small)
  · rw [if_neg enough, if_neg enough, same]
    rfl

theorem forceGrab_eq (h : Sized latest b) (reached : now ≤ latest) (tokens : UInt64) :
    forceGrab now tokens b = .ok (b.forceGrab now tokens) := by
  unfold forceGrab
  rw [credit_eq clock h reached, signed_toNat]
  simp only [bind, Except.bind]
  rw [withdraw_eq (h.credit reached).most]
  rfl

omit clock in
theorem recycle_eq (h : Sized latest b) (tokens : UInt64) : recycle tokens b = b.recycle tokens := by
  unfold recycle
  rw [signed_toNat, saturate_add h.least (Int.natCast_nonneg _)]
  rfl

omit clock in
/-- The product is the only step of the scaling that can fail. -/
theorem rescale_eq {deadline : Instant} {old new : Nat} (positive : 1 ≤ old) :
    rescale now deadline old new =
      (MeteredFetch.rescale now deadline old new).mapError Defect.ofPanic := by
  unfold rescale MeteredFetch.rescale
  split
  · rfl
  · unfold multiply
    split
    · simp only [bind, Except.bind, divide_of_pos positive]
      rfl
    · rfl

omit clock in
/-- A new interval fails only with the product for the cursor. -/
theorem setInterval_eq {interval : Nat} (earns : 1 ≤ b.interval) :
    setInterval now interval b = (b.setInterval now interval).mapError Defect.ofPanic := by
  unfold setInterval Bucket.setInterval
  split
  · rw [rescale_eq earns]
    cases MeteredFetch.rescale now b.cursor b.interval interval <;> rfl
  · rfl

omit clock in
theorem change_eq {α : Type} {checked : Except FetchError α}
    {make : α → Except Defect (Bucket × List TaskId)} {make' : α → Except Panic (Bucket × List TaskId)}
    (same : ∀ x, make x = (make' x).mapError Defect.ofPanic) :
    change b checked make = (b.change checked make').mapError Defect.ofPanic := by
  unfold change Bucket.change
  cases checked with
  | error error =>
      rfl
  | ok x =>
      simp only [same]
      cases make' x <;> rfl

/-- Checked step by step, an operation does what it does unchecked. -/
theorem operate_eq (h : Sized latest b) (reached : now ≤ latest) (op : Operation) :
    operate now b op = (b.operate now op).mapError Defect.ofPanic := by
  cases op with
  | instantGrab tokens =>
      simp only [operate, instantGrab_eq clock h reached]
      rfl
  | forceGrab tokens =>
      simp only [operate, forceGrab_eq clock h reached]
      rfl
  | recycle tokens =>
      simp only [operate, recycle_eq h]
      rfl
  | credit =>
      simp only [operate, credit_eq clock h reached]
      rfl
  | changeInterval interval =>
      refine change_eq fun interval => ?_
      unfold changeInterval
      rw [credit_eq clock h reached]
      exact setInterval_eq h.earns
  | changeCapacity capacity =>
      refine change_eq fun capacity => ?_
      unfold changeCapacity
      rw [creditUnclipped_eq clock h reached]
      rfl
  | changeBoth interval capacity =>
      refine change_eq fun terms => ?_
      unfold changeBoth
      rw [creditUnclipped_eq clock h reached]
      simp only [bind, Except.bind]
      rw [setInterval_eq (b := b.creditUnclipped now) h.earns]
      unfold Bucket.changeBoth
      cases (b.creditUnclipped now).setInterval now terms.1 <;> rfl

/-! ## Callers -/

omit clock in
/-- A balance of tokens takes a time that is in range. -/
theorem delay_eq (word : b.interval ≤ maxWord) (small : n ≤ maxBalance) :
    delay b n = .ok (b.delay n) := by
  have positive : (max (n : Int) 0).toNat = n := by omega
  have product := multiply_of_words word (Nat.le_trans small maxBalance_le_maxWord)
  have room : b.interval * n < productLimit := by
    unfold multiply at product
    split at product
    · assumption
    · cases product
  have sum : b.interval * n / 1000000 + 1 < productLimit := by
    unfold productLimit at *
    omega
  have next : add (b.interval * n / 1000000) 1 = .ok (b.interval * n / 1000000 + 1) := if_pos sum
  have million : 1 ≤ 1000000 := by decide
  unfold delay Bucket.delay
  simp only [positive, product, divide_of_pos million, remainder_of_pos million, next, bind,
    Except.bind, pure, Except.pure]
  split
  · have up : (b.interval * n + 999999) / 1000000 = b.interval * n / 1000000 + 1 := by omega
    rw [up]
  · have down : (b.interval * n + 999999) / 1000000 = b.interval * n / 1000000 := by omega
    rw [down]

omit clock in
/-- What is lacking is found unless the opposite of the least balance would be needed for it. -/
theorem lacking_eq {balance : Int} (short : balance ≤ n) (small : n ≤ maxBalance)
    (least : minBalance ≤ balance) :
    lacking n balance = if balance = minBalance then .error .negate
      else .ok ((n - balance.toNat : Nat), ((-balance).toNat : Nat)) := by
  have below := minBalance_eq
  unfold lacking
  split
  · -- part of the chunk is there
    have fits : minBalance ≤ (n : Int) - balance ∧ (n : Int) - balance ≤ maxBalance := by omega
    have owed : ((n - balance.toNat : Nat) : Int) = n - balance := by omega
    have debt : (-balance).toNat = 0 := by omega
    rw [if_neg (by omega), owed, debt]
    simp only [subtractSigned, if_pos fits]
    rfl
  · have owed : n - balance.toNat = n := by omega
    split
    · have debt : ((-balance).toNat : Int) = -balance := by omega
      rw [owed, debt]
      unfold negate
      split
      · rw [if_neg (by omega)]
        rfl
      · rw [if_pos (by omega)]
        rfl
    · have debt : (-balance).toNat = 0 := by omega
      rw [if_neg (by omega), owed, debt]
      rfl

/-- To claim a chunk fails, if at all, like the claim that is not checked. -/
theorem claim_eq (h : Sized latest b) (reached : now ≤ latest) (small : n ≤ maxBalance) :
    claim now n b = (b.claim now n).mapError Defect.ofPanic := by
  have found := h.credit reached
  have below := minBalance_eq
  unfold claim Bucket.claim
  simp only [credit_eq clock h reached, signed_of_le small, bind, Except.bind]
  by_cases enough : (b.credit now).balance > n
  · have floor : max ((b.credit now).balance - n) minBalance = (b.credit now).balance - n := by omega
    rw [if_pos enough, if_pos enough, take_eq enough (Int.natCast_nonneg n) found.most]
    unfold Bucket.withdraw
    rw [floor]
    rfl
  · have short : (b.credit now).balance ≤ n := Int.not_lt.1 enough
    rw [if_neg enough, if_neg enough, lacking_eq short small found.least]
    by_cases worst : (b.credit now).balance = minBalance
    · rw [if_pos worst, if_pos worst]
      rfl
    · rw [if_neg worst, if_neg worst]
      generalize n - (b.credit now).balance.toNat = owed
      generalize (-(b.credit now).balance).toNat = debt
      have total : saturate ((owed : Int) + debt) = ((min (owed + debt) maxBalance : Nat) : Int) := by
        rw [saturate_add (by omega) (Int.natCast_nonneg _)]
        omega
      simp only [total, delay_eq (b := b.credit now) found.word (Nat.min_le_right _ _)]
      rfl

theorem draw_eq (h : Sized latest b) (reached : now ≤ latest) (small : n ≤ maxBalance) :
    draw now n b = (b.draw now n).mapError Defect.ofPanic := by
  unfold draw Bucket.draw
  rw [claim_eq clock h reached small]
  cases claimed : b.claim now n with
  | error panic =>
      rfl
  | ok r =>
      rcases r with ⟨b₁, _ | w⟩
      · rfl
      · have nothing : b₁.balance = 0 := by
          unfold Bucket.claim at claimed
          simp only at claimed
          split at claimed
          · cases claimed
          · split at claimed
            · cases claimed
            · cases claimed
              rfl
        have paid : withdraw w.owed b₁ = b₁.withdraw w.owed :=
          withdraw_eq (by rw [nothing]; decide)
        simp only [Except.mapError, bind, Except.bind, paid]
        split <;> rfl

theorem drawLast_eq {size : Nat} {remainder : Option Nat} (h : Sized latest b) (reached : now ≤ latest)
    (small : ∀ n ∈ remainder, n ≤ maxBalance) :
    drawLast now id size remainder b =
      (b.drawLast now id size remainder).mapError Defect.ofPanic := by
  cases remainder with
  | none =>
      rfl
  | some n =>
      simp only [drawLast, Bucket.drawLast, draw_eq clock h reached (small n rfl)]
      rcases b.draw now n with panic | ⟨b₁, _ | w⟩ <;> rfl

theorem drawWhole_eq {size whole : Nat} {remainder : Option Nat} (h : Sized latest b)
    (reached : now ≤ latest) (small : 0 < whole → size ≤ maxBalance)
    (last : ∀ n ∈ remainder, n ≤ maxBalance) :
    drawWhole now id size remainder whole b =
      (b.drawWhole now id size remainder whole).mapError Defect.ofPanic := by
  induction whole generalizing b with
  | zero =>
      exact drawLast_eq clock h reached last
  | succ k ih =>
      have part := small (Nat.succ_pos k)
      unfold drawWhole Bucket.drawWhole
      rw [draw_eq clock h reached part]
      cases drawn : b.draw now size with
      | error panic =>
          rfl
      | ok r =>
          rcases r with ⟨b₁, _ | w⟩
          · exact ih (h.draw reached drawn) fun _ => part
          · rfl

/-- Chunks fail, if at all, like those that are drawn without checks. -/
theorem drawAll_eq {c : Chunks} (h : Sized latest b) (reached : now ≤ latest)
    (small : ∀ n ∈ c.toList, n ≤ maxBalance) :
    drawAll now id c b = (b.drawAll now id c).mapError Defect.ofPanic := by
  refine drawWhole_eq clock h reached (fun some => small _ ?_) fun n last => small n ?_
  · exact List.mem_append_left _ (List.mem_replicate.2 ⟨Nat.ne_of_gt some, rfl⟩)
  · exact List.mem_append_right _ (Option.mem_toList.2 last)

omit clock in
theorem chunksOf_eq (positive : 1 ≤ b.capacity) (tokens : UInt64) :
    chunksOf tokens b = (b.chunksOf tokens).mapError Defect.ofPanic := by
  unfold chunksOf Bucket.chunksOf
  split
  · rfl
  · unfold split Chunks.split
    rw [if_neg (Nat.ne_of_gt positive), if_neg (Nat.ne_of_gt positive), divide_of_pos positive,
      remainder_of_pos positive]
    rfl

omit clock in
theorem reprice_eq {interval : Nat} (w : Wait) :
    reprice now interval w = (w.reprice now interval).mapError Defect.ofPanic := by
  unfold reprice Wait.reprice
  split
  · rename_i faster
    rw [rescale_eq (Nat.le_trans (Nat.succ_le_succ (Nat.zero_le _)) faster)]
    cases MeteredFetch.rescale now w.deadline w.pricedAt interval <;> rfl
  · rfl

/-- Checked step by step, the turn of a caller does what it does unchecked. -/
theorem turn_eq {c : Caller} (h : Sized latest b) (reached : now ≤ latest) (small : Small c) :
    turn now id b c = (c.turn now id b).mapError Defect.ofPanic := by
  cases c with
  | arriving tokens =>
      simp only [turn, Caller.turn, chunksOf_eq h.positive]
      cases split : b.chunksOf tokens with
      | error panic =>
          rfl
      | ok chunks =>
          exact drawAll_eq clock h reached fun n member =>
            Nat.le_trans (Nat.le_trans (le_of_mem_chunksOf split member) (Nat.min_le_right _ _)) h.fits
  | waiting wait rest =>
      rcases small with ⟨owed, small⟩
      have left : Sized latest (b.leave id) := { h with }
      simp only [turn, Caller.turn, reprice_eq]
      cases wait.reprice now (b.leave id).interval with
      | error panic =>
          rfl
      | ok w =>
          simp only [Except.mapError, bind, Except.bind, withdraw_eq left.most]
          split
          · exact drawAll_eq clock (left.withdraw w.owed) reached small
          · rfl

end Checked

/-! ## Runs -/

variable {capacity interval : UInt64} {initial : Int64} {start : Instant} {hs : List Moment}

/-- A defect of this kind comes from a panic. -/
theorem mapError_eq_error_iff {α : Type} {x : Except Panic α} {defect : Defect} :
    x.mapError Defect.ofPanic = .error defect ↔
      ∃ panic, x = .error panic ∧ defect = .ofPanic panic := by
  cases x with
  | error panic =>
      constructor
      · intro same
        cases same
        exact ⟨panic, rfl, rfl⟩
      · rintro ⟨_, same, rfl⟩
        cases same
        rfl
  | ok a =>
      exact ⟨nofun, fun ⟨_, never, _⟩ => nomatch never⟩

/-- In every run on a new bucket, whatever is done and whatever the clock shows, the next operation and
the next turn of every caller are computed step by step with no other defects than these: an operation
shortens the interval while what is left until the cursor, times the new interval, does not fit 128 bits;
a chunk of the caller finds a balance of the least value; or the caller prices its wait anew for a shorter
interval, and the same product for its own deadline does not fit 128 bits. In these cases there is a
defect, which is a panic, and otherwise the outcome is that of the bucket. -/
theorem defect_iff (made : create capacity interval initial start = .ok b)
    (history : History program (opening start b) hs e) (begun : start < clockLimit)
    (clock : ∀ m ∈ hs, m.1.now < clockLimit) (reached : e.now < clockLimit) :
    (∀ op,
      Checked.operate e.now e.shared op = (e.shared.operate e.now op).mapError .ofPanic ∧
        ∀ defect, Checked.operate e.now e.shared op = .error defect ↔
          defect = .multiply ∧ ∃ interval, op.Hastens e.shared interval ∧
            2 ^ 128 ≤ (e.shared.cursor - e.now) * interval) ∧
      ∀ id g, e.task? id = some g →
        Checked.turn e.now id e.shared g.caller =
            (g.caller.turn e.now id e.shared).mapError .ofPanic ∧
          ∀ defect, Checked.turn e.now id e.shared g.caller = .error defect ↔
            (defect = .negate ∧
                ∃ d ∈ g.caller.draws e.now id e.shared, d.found.balance = -2 ^ 63) ∨
              (defect = .multiply ∧ ∃ w rest, g.caller = .waiting w rest ∧
                e.shared.interval < w.pricedAt ∧
                2 ^ 128 ≤ (w.deadline - e.now) * e.shared.interval) := by
  have last : ∀ {t}, t < clockLimit → t ≤ clockLimit - 1 := Nat.le_pred_of_lt
  have measured := measured_of_history made history (last begun) fun m member => last (clock m member)
  have room : clockLimit - 1 < clockLimit := by decide
  constructor
  · intro op
    have same := Checked.operate_eq room measured.shared (last reached) op
    refine ⟨same, fun defect => ?_⟩
    rw [same, mapError_eq_error_iff]
    constructor
    · rintro ⟨panic, failed, rfl⟩
      rcases operate_eq_error_iff.1 failed with ⟨rfl, large⟩
      exact ⟨rfl, large⟩
    · rintro ⟨rfl, large⟩
      exact ⟨.multiply, operate_eq_error_iff.2 ⟨rfl, large⟩, rfl⟩
  · intro id g stands
    have small := measured.tasks g (List.mem_of_getElem? (getElem?_of_task? stands))
    have same : Checked.turn e.now id e.shared g.caller = _ :=
      Checked.turn_eq room measured.shared (last reached) small
    refine ⟨same, fun defect => ?_⟩
    rw [same, mapError_eq_error_iff]
    have panics : ∀ panic, g.caller.turn e.now id e.shared = .error panic ↔ _ :=
      fun panic => turn_eq_error_iff measured.shared.positive
    constructor
    · rintro ⟨panic, failed, rfl⟩
      rcases (panics panic).1 failed with ⟨rfl, worst⟩ | ⟨rfl, large⟩
      · exact .inl ⟨rfl, worst⟩
      · exact .inr ⟨rfl, large⟩
    · rintro (⟨rfl, worst⟩ | ⟨rfl, large⟩)
      · exact ⟨.negate, (panics _).2 (.inl ⟨rfl, worst⟩), rfl⟩
      · exact ⟨.multiply, (panics _).2 (.inr ⟨rfl, large⟩), rfl⟩

/-- A caller waits for the longest time that there is. -/
def strained : List Moment × State :=
  follow program (opening 0 ⟨0, 1099511627776, 9223372036854775808, 0, 0, []⟩)
    [.act (.grab 1073741824) (), .turn]

def bottomed : List Moment × State :=
  -- the bucket begins with the least balance there is
  follow program (opening 0 ⟨-9223372036854775808, 1, 1, 0, 0, []⟩) [.act (.grab 1) ()]

theorem strained_defect_iff :
    Checked.operate strained.2.now strained.2.shared (.changeInterval 4611686018427387904) =
        .error .multiply ∧
      (∀ defect, Checked.operate strained.2.now strained.2.shared
        (.changeInterval 9223372036854775808) ≠ .error defect) ∧
      Checked.turn bottomed.2.now 0 bottomed.2.shared (.arriving 1) = .error .negate := by
  have made : create 1099511627776 9223372036854775808 0 0 =
      .ok ⟨0, 1099511627776, 9223372036854775808, 0, 0, []⟩ := rfl
  have made' : create 1 1 (-9223372036854775808) 0 = .ok ⟨-9223372036854775808, 1, 1, 0, 0, []⟩ := rfl
  have faster := (defect_iff made (history_follow _ _) (by decide)
    (show ∀ m ∈ strained.1, m.1.now < clockLimit by decide) (by decide)).1
  have worst := (defect_iff made' (history_follow _ _) (by decide)
    (show ∀ m ∈ bottomed.1, m.1.now < clockLimit by decide) (by decide)).2
  refine ⟨((faster _).2 .multiply).2 ⟨rfl, 4611686018427387904, ⟨rfl, by decide⟩, by decide⟩, ?_,
    ((worst 0 (.start 1) rfl).2 .negate).2 (.inl ⟨rfl, by decide⟩)⟩
  intro defect failed
  rcases ((faster _).2 defect).1 failed with ⟨_, interval, ⟨checked, shorter⟩, _⟩
  cases checked
  exact absurd shorter (by decide)

end Bucket
end MeteredFetch
