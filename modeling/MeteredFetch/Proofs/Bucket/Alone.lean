import MeteredFetch.Proofs.Bucket.Elapsed
import MeteredFetch.Proofs.Bucket.Funds

/-!
# Alone — how long a caller waits that has a bucket to itself

A lone caller draws one chunk after another. Before each of them the balance is what it has left there
itself: a debt for the tokens that the wait before was for. Each wait is as long as the missing tokens
take to be earned, rounded up to the millisecond, so the debt has been earned when the next chunk is
drawn, and what was rounded up is in the balance then.

* `Bucket.Serves` — chunks are drawn and waited for until there are none left, as a relation;
* `Bucket.Underway` — what holds of a lone caller before each chunk, and `Bucket.Underway.taken`,
  `Bucket.Underway.held` — it does before the next one;
* `Bucket.serves_of_arrival`, `Bucket.serves_of_debt` — a lone caller is served, and when.
-/

namespace MeteredFetch
namespace Bucket

variable {b b' b₁ : Bucket} {id : TaskId} {now t time : Instant} {n : Nat}

/-! ## Being served -/

/-- Chunks are drawn from a moment on, until there are none left. At the end of each wait the tokens
that it was for are withdrawn. -/
inductive Serves (id : TaskId) : Instant → Bucket → Chunks → Instant → Bucket → Prop
  | done {t : Instant} {b : Bucket} {c : Chunks} : c.next? = none → Serves id t b c t b
  | taken {t time : Instant} {b b₁ b' : Bucket} {c rest : Chunks} {n : Nat} :
      c.next? = some (n, rest) → b.draw t n = .ok (b₁, none) → Serves id t b₁ rest time b' →
        Serves id t b c time b'
  | held {t time : Instant} {b b₁ b' : Bucket} {c rest : Chunks} {n : Nat} {w : Wait} :
      c.next? = some (n, rest) → b.draw t n = .ok (b₁, some w) →
        Serves id w.deadline (((b₁.join id).leave id).withdraw w.owed) rest time b' →
        Serves id t b c time b'

/-- Chunks are never done with before the moment at which they are begun. -/
theorem Serves.le {c : Chunks} (serves : Serves id t b c time b') : t ≤ time := by
  induction serves with
  | done _ =>
      exact Nat.le_refl _
  | taken _ _ _ ih =>
      exact ih
  | held _ drawn _ ih =>
      exact Nat.le_trans (Nat.le_of_lt (draw_eq_some drawn).2.1) ih

/-- The chunks that are drawn at once are all, or the last of them is waited for. -/
theorem Serves.drawAll {c : Chunks} (serves : Serves id t b c time b') :
    (b.drawAll t id c = .ok (b', none) ∧ time = t) ∨
      ∃ b₁ w rest, b.drawAll t id c = .ok (b₁, some (.waiting w rest)) ∧ t < w.deadline ∧
        w.pricedAt = b₁.interval ∧
        Serves id w.deadline ((b₁.leave id).withdraw w.owed) rest time b' := by
  induction serves with
  | done last =>
      exact .inl ⟨drawAll_of_none last, rfl⟩
  | taken first drawn _ ih =>
      rw [drawAll_of_next? first, drawn]
      exact ih
  | held first drawn later _ =>
      rcases draw_eq_some drawn with ⟨_, ahead, rfl, rfl⟩
      refine .inr ⟨_, _, _, ?_, ahead, ?_, later⟩
      · rw [drawAll_of_next? first, drawn]
        rfl
      · rfl

/-! ## Delays -/

@[simp]
theorem delay_zero (b : Bucket) : b.delay 0 = 0 := by
  simp [delay]

/-- A delay that need not be cut is rounded up by less than a millisecond. -/
theorem delay_le (b : Bucket) (n : Nat) : b.delay n ≤ b.interval * n + 999999 := by
  unfold delay
  omega

/-! ## What holds before each chunk -/

/-- The moment by which all that was withdrawn has been earned. It lies before the last credit if there
is something in the balance. -/
def settledAt (b : Bucket) : Int :=
  b.creditedTo - b.balance * b.interval

/-- A credit does not bring tokens forward. It may lose some to the capacity. -/
theorem settledAt_le_credit (range : b.capacity ≤ maxBalance) (now : Instant) :
    b.settledAt ≤ (b.credit now).settledAt := by
  have most : min (b.balance + b.earned now) (b.capacity : Int) ≤ b.balance + b.earned now :=
    Int.min_le_left _ _
  have product := Int.mul_le_mul_of_nonneg_right most (Int.natCast_nonneg b.interval)
  rw [Int.add_mul] at product
  rw [credit_eq range]
  unfold settledAt
  push_cast
  omega

/-- What is withdrawn has to be earned. -/
theorem settledAt_of_balance (creditedTo : b'.creditedTo = b.creditedTo)
    (interval : b'.interval = b.interval) (balance : b'.balance = b.balance - n) :
    b'.settledAt = b.settledAt + n * b.interval := by
  unfold settledAt
  rw [creditedTo, interval, balance, Int.sub_mul]
  omega

/-- If there is no debt, all that was withdrawn has been earned. -/
theorem settledAt_le (nonneg : 0 ≤ b.balance) : b.settledAt ≤ b.creditedTo := by
  have product := Int.mul_nonneg nonneg (Int.natCast_nonneg b.interval)
  unfold settledAt
  omega

/-- What holds of a lone caller before a chunk. It came at `start`, when tokens were credited up to
`credited` and `lack` more than the balance were asked for; `parts` chunks were to be drawn, and those
in `left` still are. -/
structure Underway (start credited : Instant) (lack : Int) (parts interval : Nat) (t : Instant)
    (b : Bucket) (left : List Nat) : Prop where
  rate : b.interval = interval
  earns : 1 ≤ interval
  range : b.capacity ≤ maxBalance
  free : b.cursor ≤ t
  upTo : b.creditedTo ≤ t
  clipped : b.balance ≤ b.capacity
  least : -(maxBalance : Int) ≤ b.balance
  settled : b.settledAt ≤ t
  small : ∀ n ∈ left, n ≤ maxBalance
  inTime : interval * lack.toNat ≤ maxWord * 1000000
  earliest : credited + lack * interval ≤ b.settledAt + left.sum * interval
  latest : ∃ waited waits : Nat, t ≤ start + interval * waited + 999999 * waits ∧ waits ≤ waited ∧
    waits + left.length ≤ parts ∧ waited + (left.sum - b.balance.toNat) ≤ lack.toNat

namespace Underway

variable {start credited : Instant} {lack : Int} {parts interval : Nat} {left : List Nat}

/-- What the caller owes has been earned by the time of the next chunk, so it finds no debt. -/
theorem credit_nonneg (h : Underway start credited lack parts interval t b left) :
    0 ≤ (b.credit t).balance := by
  have enough : -b.balance ≤ b.earned t := by
    rcases Int.le_total 0 b.balance with there | debt
    · omega
    · rcases Int.eq_ofNat_of_zero_le (Int.neg_nonneg_of_nonpos debt) with ⟨m, owed⟩
      have passed : m * b.interval ≤ t - b.creditedTo := by
        have settled := h.settled
        have upTo := h.upTo
        have balance : b.balance = -(m : Int) := by omega
        unfold settledAt at settled
        rw [balance, Int.neg_mul] at settled
        unfold Instant at *
        omega
      have ticks : m ≤ (t - b.creditedTo) / b.interval :=
        (Nat.le_div_iff_mul_le (h.rate ▸ h.earns)).2 passed
      have least := h.least
      unfold earned
      omega
  rw [credit_eq h.range]
  simp only
  omega

/-- A credit changes nothing of how far a lone caller has come. -/
theorem credit (h : Underway start credited lack parts interval t b left) :
    Underway start credited lack parts interval t (b.credit t) left := by
  have nonneg := h.credit_nonneg
  have clipped := h.clipped
  have more : b.balance ≤ (b.credit t).balance := by
    rw [credit_eq h.range]
    simp only
    omega
  have upTo : (b.credit t).creditedTo ≤ t := by
    have few : b.earned t ≤ (t - b.creditedTo) / b.interval := Nat.min_le_left _ _
    have passed : b.earned t * b.interval ≤ t - b.creditedTo :=
      (Nat.le_div_iff_mul_le (h.rate ▸ h.earns)).1 few
    have before := h.upTo
    have moved : (b.credit t).creditedTo = b.creditedTo + b.earned t * b.interval := rfl
    unfold Instant at *
    omega
  have later := settledAt_le_credit h.range t
  rcases h.latest with ⟨waited, waits, latest, each, fewer, rest⟩
  refine { h with
    upTo
    clipped := credit_balance_le t b
    least := Int.le_trans h.least more
    settled := ?_
    earliest := Int.le_trans h.earliest (Int.add_le_add_right later _)
    latest := ⟨waited, waits, latest, each, fewer, ?_⟩ }
  · exact Int.le_trans (settledAt_le nonneg) (Int.ofNat_le.2 upTo)
  · omega

/-- The tokens of a chunk are withdrawn. The moment by which they have been earned is put off as much as
there is less to be withdrawn later. -/
theorem earliest_of_withdrawn (h : Underway start credited lack parts interval t b (n :: left))
    (withdrawn : b'.settledAt = b.settledAt + n * b.interval) :
    credited + lack * interval ≤ b'.settledAt + left.sum * interval := by
  have before := h.earliest
  rw [List.sum_cons, Int.natCast_add, Int.add_mul] at before
  rw [withdrawn, h.rate]
  omega

/-- A chunk that is there is taken. -/
theorem taken (found : Underway start credited lack parts interval t (b.credit t) (n :: left))
    (drawn : b.draw t n = .ok (b₁, none)) :
    Underway start credited lack parts interval t b₁ left := by
  have positive : 0 < b.interval := found.rate ▸ found.earns
  rcases draw_eq_none positive drawn with ⟨enough, cursor, moved, rfl⟩
  have clipped := found.clipped
  have free : cursor ≤ t := by
    rcases moved with rfl | ⟨_, rfl⟩
    · exact found.free
    · exact Nat.le_refl _
  rcases found.latest with ⟨waited, waits, latest, each, fewer, rest⟩
  rw [List.sum_cons] at rest
  rw [List.length_cons] at fewer
  refine { found with
    free
    clipped := by simp only; omega
    least := by simp only; omega
    settled := ?_
    small := fun m member => found.small m (List.mem_cons_of_mem _ member)
    earliest := found.earliest_of_withdrawn (settledAt_of_balance rfl rfl rfl)
    latest := ⟨waited, waits, latest, each, by omega, by simp only; omega⟩ }
  exact Int.le_trans (settledAt_le (Int.sub_nonneg_of_le enough)) (Int.ofNat_le.2 found.upTo)

/-- A chunk that is not there is waited for. When the wait is over, what was missing is withdrawn. -/
theorem held {w : Wait}
    (found : Underway start credited lack parts interval t (b.credit t) (n :: left))
    (nonneg : 0 ≤ (b.credit t).balance) (drawn : b.draw t n = .ok (b₁, some w)) :
    Underway start credited lack parts interval w.deadline
      (((b₁.join id).leave id).withdraw w.owed) left := by
  rcases draw_eq_some drawn with ⟨short, ahead, same, rfl⟩
  have rate : b.interval = interval := found.rate
  have free : b.cursor ≤ t := found.free
  rcases found.latest with ⟨waited, waits, latest, each, fewer, rest⟩
  rw [List.sum_cons] at rest
  rw [List.length_cons] at fewer
  have small := found.small n List.mem_cons_self
  -- there is no debt, so what is missing is what is owed in the end
  have missing : min (Draw.missing ⟨t, b, n⟩) maxBalance = w.owed := by
    rw [same]
    simp only [Draw.missing, Draw.found]
    omega
  have owed : (w.owed : Int) = n - (b.credit t).balance := by
    rw [same]
    simp only
    omega
  have deadline : w.deadline = t + b.delay w.owed := by
    have queued : w.deadline = max b.cursor t + b.delay (min (Draw.missing ⟨t, b, n⟩) maxBalance) := by
      rw [same]
    rw [queued, missing, Nat.max_eq_right free]
  have some : 0 < w.owed := by
    refine Nat.pos_of_ne_zero fun none => ?_
    rw [none, delay_zero] at deadline
    exact absurd ahead (by rw [deadline]; exact Nat.lt_irrefl t)
  have inTime : b.interval * w.owed ≤ maxWord * 1000000 := by
    rw [rate]
    exact Nat.le_trans (Nat.mul_le_mul_left interval (by omega)) found.inTime
  have long : b.interval * w.owed ≤ b.delay w.owed := mul_le_delay (by omega)
  have short := delay_le b w.owed
  have balance : (((({ b.credit t with balance := 0, cursor := w.deadline } : Bucket).join id).leave
      id).withdraw w.owed).balance = (b.credit t).balance - n := by
    have least := minBalance_eq
    simp only [withdraw, leave, join]
    omega
  have later : t ≤ w.deadline := Nat.le_of_lt ahead
  refine { found with
    free := Nat.le_refl _
    upTo := Nat.le_trans found.upTo later
    clipped := ?_
    least := ?_
    settled := ?_
    small := fun m member => found.small m (List.mem_cons_of_mem _ member)
    earliest := found.earliest_of_withdrawn (settledAt_of_balance rfl rfl balance)
    latest := ⟨waited + w.owed, waits + 1, ?_, by omega, by omega, ?_⟩ }
  · rw [balance]
    simp only [withdraw, leave, join]
    omega
  · rw [balance]
    omega
  · -- the wait is long enough to earn what is owed
    have debt : (b.credit t).balance - n = -(w.owed : Int) := by omega
    have upTo := found.upTo
    change ((b.credit t).creditedTo : Int) - _ * (b.interval : Int) ≤ w.deadline
    rw [balance, debt, Int.neg_mul, Int.mul_comm, deadline]
    unfold Instant at *
    omega
  · -- it is rounded up by less than a millisecond
    rw [deadline, Nat.mul_add]
    rw [rate] at short
    unfold Instant at *
    omega
  · rw [balance]
    omega

/-- When all chunks have been drawn, the tokens have been earned, and no more time has passed than that
took, rounded up for each of the chunks. -/
theorem done (h : Underway start credited lack parts interval t b []) (came : start ≤ t)
    (some : 1 ≤ parts) :
    credited + lack * interval ≤ t ∧ t < start + interval * lack.toNat + parts * 1000000 ∧
      (lack ≤ 0 → t = start) := by
  have earliest := h.earliest
  have settled := h.settled
  rcases h.latest with ⟨waited, waits, latest, each, fewer, rest⟩
  have product : interval * waited ≤ interval * lack.toNat := Nat.mul_le_mul_left _ (by omega)
  simp only [List.sum_nil, List.length_nil] at earliest fewer
  refine ⟨by omega, ?_, fun enough => ?_⟩
  · unfold Instant at *
    omega
  · have none : waited = 0 := by omega
    rw [none, Nat.mul_zero] at latest
    unfold Instant at *
    omega

end Underway

/-! ## Lone callers -/

variable {start credited : Instant} {lack : Int} {parts interval : Nat}

/-- A caller on its way is served. -/
theorem Underway.serves (id : TaskId) {c : Chunks}
    (found : Underway start credited lack parts interval t (b.credit t) c.toList)
    (nonneg : 0 ≤ (b.credit t).balance) (came : start ≤ t) (some : 1 ≤ parts) :
    ∃ time b', Serves id t b c time b' ∧ start ≤ time ∧ credited + lack * interval ≤ time ∧
      time < start + interval * lack.toNat + parts * 1000000 ∧ (lack ≤ 0 → time = start) := by
  generalize same : c.toList = left at found
  induction left generalizing t b c with
  | nil =>
      exact ⟨t, b, .done (next?_of_toList_eq_nil same), came, found.done came some⟩
  | cons n left ih =>
      cases next : c.next? with
      | none =>
          rw [Chunks.toList_eq_nil_of_next? next] at same
          cases same
      | some first =>
          rcases first with ⟨m, rest⟩
          rw [Chunks.toList_of_next? next] at same
          cases same
          have above : (b.credit t).balance ≠ minBalance := by
            unfold minBalance
            omega
          have total : ∃ b₁ o, b.draw t n = .ok (b₁, o) := draw_total above
          rcases total with ⟨b₁, _ | w, drawn⟩
          · have later := found.taken drawn
            rcases ih later.credit_nonneg came rfl later.credit with ⟨time, b', serves, bounds⟩
            exact ⟨time, b', .taken next drawn serves, bounds⟩
          · have later : Underway start credited lack parts interval w.deadline
                (((b₁.join id).leave id).withdraw w.owed) rest.toList := found.held nonneg drawn
            have passed := Nat.le_trans came (Nat.le_of_lt (draw_eq_some drawn).2.1)
            rcases ih later.credit_nonneg passed rfl later.credit with ⟨time, b', serves, bounds⟩
            exact ⟨time, b', .held next drawn serves, bounds⟩

def chunkCount (b : Bucket) (tokens : UInt64) : Nat :=
  if tokens.toNat < b.capacity then 1 else (tokens.toNat + b.capacity - 1) / b.capacity

/-- The tokens that a withdrawal lacks when it begins, with any debt on top. -/
def shortfall (b : Bucket) (now : Instant) (tokens : UInt64) : Nat :=
  (tokens.toNat - (b.credit now).balance).toNat

/-- An amount is split into as many parts as are counted. -/
theorem length_chunksOf {tokens : UInt64} {c : Chunks} (positive : 1 ≤ b.capacity)
    (split : b.chunksOf tokens = .ok c) : c.toList.length = b.chunkCount tokens := by
  unfold chunksOf at split
  unfold chunkCount
  split at split
  · rename_i small
    cases split
    rw [if_pos small]
    rfl
  · rename_i large
    unfold Chunks.split at split
    split at split
    · cases split
    · cases split
      rw [if_neg large]
      -- the whole chunks do not count towards the remainder
      have parts := Nat.div_add_mod' tokens.toNat b.capacity
      have whole : (tokens.toNat + b.capacity - 1) / b.capacity =
          (tokens.toNat % b.capacity + b.capacity - 1) / b.capacity +
            tokens.toNat / b.capacity := by
        rw [← Nat.add_mul_div_right _ _ positive]
        congr 1
        omega
      have small := Nat.mod_lt tokens.toNat positive
      by_cases exact : tokens.toNat % b.capacity = 0
      · have none : (tokens.toNat % b.capacity + b.capacity - 1) / b.capacity = 0 :=
          Nat.div_eq_of_lt (by omega)
        rw [whole, none]
        simp [Chunks.toList, exact]
      · have one : (tokens.toNat % b.capacity + b.capacity - 1) / b.capacity = 1 :=
          Nat.div_eq_of_lt_le (by omega) (by omega)
        rw [whole, one]
        simp [Chunks.toList, exact, Nat.add_comm]

theorem chunkCount_pos (positive : 1 ≤ b.capacity) (tokens : UInt64) : 1 ≤ b.chunkCount tokens := by
  unfold chunkCount
  split
  · exact Nat.le_refl 1
  · exact Nat.div_pos (by omega) positive

/-- A caller whose only chunk finds a debt waits until both are earned. -/
theorem serves_of_debt (id : TaskId) {c : Chunks} (positive : 0 < b.interval) (free : b.cursor ≤ t)
    (only : c.toList = [n]) (debt : (b.credit t).balance < 0)
    (range : (n - (b.credit t).balance).toNat ≤ maxBalance) :
    ∃ time b', Serves id t b c time b' ∧ t < time ∧
      time = t + b.delay (n - (b.credit t).balance).toNat := by
  cases next : c.next? with
  | none =>
      rw [Chunks.toList_eq_nil_of_next? next] at only
      cases only
  | some first =>
      rcases first with ⟨m, rest⟩
      rw [Chunks.toList_of_next? next] at only
      rcases List.cons.inj only with ⟨rfl, nothing⟩
      have above : (b.credit t).balance ≠ minBalance := by
        have least := minBalance_eq
        omega
      have total : ∃ b₁ o, b.draw t m = .ok (b₁, o) := draw_total above
      rcases total with ⟨b₁, _ | w, drawn⟩
      · have enough := (draw_eq_none positive drawn).1
        omega
      · rcases draw_eq_some drawn with ⟨_, ahead, same, _⟩
        have missing : min (Draw.missing ⟨t, b, m⟩) maxBalance =
            (m - (b.credit t).balance).toNat := Nat.min_eq_left range
        have deadline : w.deadline = t + b.delay (m - (b.credit t).balance).toNat := by
          rw [← missing, same]
          simp only [Nat.max_eq_right free]
        exact ⟨_, _, .held next drawn (.done (next?_of_toList_eq_nil nothing)), ahead, deadline⟩

/-- A caller that has a bucket to itself, and finds no debt or needs one chunk only, is served. It is
not before what it lacks has been earned, and not later than that takes, rounded up for each chunk. -/
theorem serves_of_arrival (id : TaskId) {tokens : UInt64} {c : Chunks} (earns : 1 ≤ b.interval)
    (positive : 1 ≤ b.capacity) (range : b.capacity ≤ maxBalance) (free : b.cursor ≤ t)
    (upTo : (b.credit t).creditedTo ≤ t) (split : b.chunksOf tokens = .ok c)
    (apart : 0 ≤ (b.credit t).balance ∨
      b.chunkCount tokens = 1 ∧ b.shortfall t tokens ≤ maxBalance)
    (inTime : b.interval * b.shortfall t tokens ≤ maxWord * 1000000) :
    ∃ time b', Serves id t b c time b' ∧ t ≤ time ∧
      (b.credit t).creditedTo + b.interval * b.shortfall t tokens ≤ time ∧
      time < t + b.interval * b.shortfall t tokens + b.chunkCount tokens * 1000000 ∧
      (b.shortfall t tokens = 0 → time = t) := by
  have sum := sum_chunksOf split
  have length := length_chunksOf positive split
  have some := chunkCount_pos positive tokens
  -- a debt is waited for together with the only chunk; without one the chunks are drawn one by one
  rcases Int.lt_or_le (b.credit t).balance 0 with debt | nonneg
  · rcases apart with nonneg | ⟨one, few⟩
    · exact absurd nonneg (Int.not_le.2 debt)
    · rcases List.length_eq_one_iff.1 (length.trans one) with ⟨n, only⟩
      have whole : n = tokens.toNat := by
        rw [only, List.sum_singleton] at sum
        exact sum
      subst whole
      rcases serves_of_debt id earns free only debt few with ⟨time, b', serves, later, deadline⟩
      have long : b.interval * b.shortfall t tokens ≤ b.delay (b.shortfall t tokens) :=
        mul_le_delay (by omega)
      have short := delay_le b (b.shortfall t tokens)
      have same : time = t + b.delay (b.shortfall t tokens) := deadline
      refine ⟨time, b', serves, Nat.le_of_lt later, ?_, ?_, fun none => ?_⟩
      · unfold Instant at *
        omega
      · unfold Instant at *
        omega
      · rw [none, delay_zero] at same
        exact same
  · have found : Underway t (b.credit t).creditedTo (tokens.toNat - (b.credit t).balance)
        (b.chunkCount tokens) b.interval t (b.credit t) c.toList := by
      refine ⟨rfl, earns, range, free, upTo, credit_balance_le t b, by omega,
        Int.le_trans (settledAt_le nonneg) (Int.ofNat_le.2 upTo), fun n member => ?_, inTime, ?_,
        0, 0, Nat.le_refl _, Nat.le_refl _, by omega, by omega⟩
      · exact Nat.le_trans (Nat.le_trans (le_of_mem_chunksOf split member) (Nat.min_le_right _ _)) range
      · rw [sum, Int.sub_mul]
        change ((b.credit t).creditedTo : Int) + _ ≤
          (b.credit t).creditedTo - (b.credit t).balance * b.interval + _
        omega
    rcases found.serves id nonneg (Nat.le_refl t) some with
      ⟨time, b', serves, later, long, short, exact⟩
    have earliest : (b.credit t).creditedTo + b.interval * b.shortfall t tokens ≤ time := by
      rcases Int.le_total 0 (tokens.toNat - (b.credit t).balance) with lacks | enough
      · have lack : (tokens.toNat - (b.credit t).balance : Int) = b.shortfall t tokens := by
          unfold shortfall
          omega
        rw [lack, Int.mul_comm] at long
        exact_mod_cast long
      · have nothing : b.shortfall t tokens = 0 := Int.toNat_of_nonpos enough
        rw [nothing, Nat.mul_zero]
        exact Nat.le_trans upTo later
    exact ⟨time, b', serves, later, earliest, short, fun none => exact (Int.toNat_eq_zero.1 none)⟩

end Bucket
end MeteredFetch
