import MeteredFetch.Proofs.Bucket.Moves

/-!
# Books — where the tokens of a bucket come from and go to

As long as capacity and interval stay what they are, every token of a balance was there at the
beginning, was earned and credited, or was given back, and every token that is missing was taken
out or did not fit. Two things stand in the books besides: a chunk that finds a debt clears it, and
a withdrawal that would fall below the least balance stops there.

* `Bucket.net` — the balance less what was credited since a moment;
* `Bucket.overflow`, `Bucket.spare` — what a credit leaves out, and what a withdrawal leaves in;
* `Bucket.Draws.net`, `Caller.turn_net`, `Bucket.operate_net` — the books of chunks, of a turn and
  of an operation.
-/

namespace MeteredFetch
namespace Bucket

/-! ## Credits and withdrawals -/

def overflow (now : Instant) (b : Bucket) : Nat :=
  (b.balance + b.earned now - (b.credit now).balance).toNat

def spare (tokens : Nat) (b : Bucket) : Nat :=
  ((b.withdraw tokens).balance - (b.balance - tokens)).toNat

def credited (start : Instant) (b : Bucket) : Nat :=
  (b.creditedTo - start) / b.interval

/-- The balance less what was credited since a moment. -/
def net (start : Instant) (b : Bucket) : Int :=
  b.balance - b.credited start

/-- The terms of a bucket that was made at a moment: they stay what they are, and what was
credited lies between that moment and now. -/
structure Terms (capacity interval : Nat) (start now : Instant) (b : Bucket) : Prop where
  capacity : b.capacity = capacity
  interval : b.interval = interval
  since : start ≤ b.creditedTo
  upTo : b.creditedTo ≤ now

variable {capacity interval tokens : Nat} {start now : Instant} {b b' : Bucket}

/-- What was earned goes into the balance, except for what does not fit. -/
theorem balance_credit (now : Instant) (b : Bucket) :
    (b.credit now).balance + b.overflow now = b.balance + b.earned now := by
  have clipped : (b.credit now).balance ≤ b.balance + b.earned now := by
    simp only [credit, clip, creditUnclipped]
    omega
  unfold overflow
  omega

/-- A withdrawal takes its tokens, except for those that the balance cannot fall by. -/
theorem balance_withdraw (tokens : Nat) (b : Bucket) :
    (b.withdraw tokens).balance = b.balance - tokens + b.spare tokens := by
  have least : b.balance - tokens ≤ (b.withdraw tokens).balance := Int.le_max_left _ _
  unfold spare
  omega

/-- No interval is earned that has not passed. -/
theorem earned_mul_le (positive : 0 < b.interval) (now : Instant) :
    b.earned now * b.interval ≤ now - b.creditedTo := by
  have whole : b.earned now ≤ (now - b.creditedTo) / b.interval := Nat.min_le_left _ _
  exact (Nat.le_div_iff_mul_le positive).1 whole

/-- What was credited since the beginning grows by what a credit has earned. -/
theorem credited_credit (positive : 0 < b.interval) (since : start ≤ b.creditedTo) :
    (b.credit now).credited start = b.credited start + b.earned now := by
  have shifted : b.creditedTo + b.earned now * b.interval - start =
      b.creditedTo - start + b.earned now * b.interval := Nat.sub_add_comm since
  calc
    (b.credit now).credited start
        = (b.creditedTo + b.earned now * b.interval - start) / b.interval := rfl
    _ = (b.creditedTo - start + b.earned now * b.interval) / b.interval := by rw [shifted]
    _ = b.credited start + b.earned now := Nat.add_mul_div_right _ _ positive

/-- Apart from what does not fit, a credit adds nothing that is not accounted for. -/
theorem net_credit (now : Instant) (positive : 0 < b.interval) (since : start ≤ b.creditedTo) :
    (b.credit now).net start + b.overflow now = b.net start := by
  have balance := balance_credit now b
  unfold net
  rw [credited_credit positive since]
  omega

/-- Without a credit the net balance moves as the balance does. -/
theorem net_of_balance (start : Instant) (b b' : Bucket)
    (creditedTo : b'.creditedTo = b.creditedTo) (interval : b'.interval = b.interval) :
    b'.net start = b.net start + (b'.balance - b.balance) := by
  unfold net credited
  rw [creditedTo, interval]
  omega

namespace Terms

theorem of_eq (h : Terms capacity interval start now b) (sameCapacity : b'.capacity = b.capacity)
    (sameInterval : b'.interval = b.interval) (sameCredit : b'.creditedTo = b.creditedTo) :
    Terms capacity interval start now b' :=
  ⟨sameCapacity.trans h.capacity, sameInterval.trans h.interval, sameCredit ▸ h.since,
    sameCredit ▸ h.upTo⟩

theorem credit (positive : 0 < interval) (h : Terms capacity interval start now b) :
    Terms capacity interval start now (b.credit now) := by
  have bounded := earned_mul_le (by rw [h.interval]; exact positive) now
  have since := h.since
  have upTo := h.upTo
  refine ⟨h.capacity, h.interval, ?_, ?_⟩
  · exact Nat.le_trans since (Nat.le_add_right _ _)
  · change b.creditedTo + b.earned now * b.interval ≤ now
    unfold Instant at *
    omega

theorem later {now' : Instant} (h : Terms capacity interval start now b) (le : now ≤ now') :
    Terms capacity interval start now' b :=
  ⟨h.capacity, h.interval, h.since, Nat.le_trans h.upTo le⟩

end Terms

/-! ## Chunks -/

namespace Draw

/-- What the credit before a chunk leaves out. -/
def lost (d : Draw) : Nat :=
  d.bucket.overflow d.now

end Draw

def left (o : Option Caller) : Nat :=
  (o.map Caller.outstanding).getD 0

@[simp]
theorem left_none : left none = 0 := rfl

@[simp]
theorem left_some (c : Caller) : left (some c) = c.outstanding := rfl

/-- Whatever chunks take comes out of the balance, or is waited for, or was lost or cleared on the way.
-/
theorem Draws.net {id : TaskId} {c : Chunks} {ds : List Draw} {o : Option Caller}
    (drawn : Draws now id c b ds b' o) (positive : 0 < interval)
    (terms : Terms capacity interval start now b) :
    Terms capacity interval start now b' ∧ left o ≤ c.toList.sum ∧
      b'.net start + c.toList.sum + (ds.map Draw.lost).sum =
        b.net start + left o + (ds.map Draw.debt).sum := by
  -- chunk by chunk; the terms of the bucket are what makes a credit count in the net balance
  induction drawn with
  | done b last =>
      rw [Chunks.toList_eq_nil_of_next? last]
      exact ⟨terms, Nat.le_refl 0, by simp⟩
  | @taken c rest n b b₁ b' ds o first drawn _ ih =>
      have pos : 0 < b.interval := by
        rw [terms.interval]
        exact positive
      rcases draw_eq_none pos drawn with ⟨covered, cursor, _, same⟩
      have kept : Terms capacity interval start now b₁ :=
        (terms.credit positive).of_eq (by rw [same]) (by rw [same]) (by rw [same])
      rcases ih kept with ⟨terms', bounded, books⟩
      -- a credit leaves the net balance as it is, up to what is lost; then the chunk is taken
      have credit := net_credit now pos terms.since
      have taken := net_of_balance start (b.credit now) b₁ (by rw [same]) (by rw [same])
      have balance : b₁.balance = (b.credit now).balance - n := by rw [same]
      have noDebt : Draw.debt ⟨now, b, n⟩ = 0 := by
        simp only [Draw.debt, Draw.found]
        omega
      have lost : Draw.lost ⟨now, b, n⟩ = b.overflow now := rfl
      rw [Chunks.toList_of_next? first]
      refine ⟨terms', ?_, ?_⟩
      · simp only [List.sum_cons]
        omega
      · simp only [List.sum_cons, List.map_cons, noDebt, lost]
        omega
  | @held c rest n b b₁ w first drawn =>
      have pos : 0 < b.interval := by
        rw [terms.interval]
        exact positive
      rcases draw_eq_some drawn with ⟨short, _, same, rfl⟩
      have owed : w.owed = n - (b.credit now).balance.toNat := by rw [same]
      -- what there is goes to the chunk, and a debt goes away for nothing
      have credit := net_credit now pos terms.since
      have emptied := net_of_balance start (b.credit now)
        (({ b.credit now with balance := 0, cursor := w.deadline } : Bucket).join id) rfl rfl
      have debt : Draw.debt ⟨now, b, n⟩ = (-(b.credit now).balance).toNat := rfl
      have lost : Draw.lost ⟨now, b, n⟩ = b.overflow now := rfl
      rw [Chunks.toList_of_next? first]
      refine ⟨(terms.credit positive).of_eq rfl rfl rfl, ?_, ?_⟩
      · simp only [left_some, Caller.outstanding, List.sum_cons]
        omega
      · simp only [left_some, Caller.outstanding, List.sum_cons, List.map_cons, List.map_nil,
          List.sum_nil, debt, lost]
        simp only [join] at emptied ⊢
        omega

end Bucket

/-! ## Turns of a caller -/

theorem Wait.owed_of_reprice {w w' : Wait} {now : Instant} {interval : Nat}
    (h : w.reprice now interval = .ok w') : w'.owed = w.owed := by
  unfold Wait.reprice at h
  split at h
  · rcases ok_of_bind h with ⟨deadline, _, rest⟩
    cases rest
    rfl
  · cases h
    rfl

namespace Caller

open Bucket

/-- What the withdrawal after a wait leaves in because the balance can fall no further. -/
def spared (now : Instant) (b : Bucket) (c : Caller) : Nat :=
  ((c.over? now b).map fun wait => b.spare wait.owed).getD 0

/-- The balance of a turn: what a caller has taken, what it still wants, and what was lost or cleared.
-/
theorem turn_net {capacity interval : Nat} {start now : Instant} {id : TaskId} {b b' : Bucket}
    {c : Caller} {o : Option Caller} (positive : 0 < interval)
    (terms : Terms capacity interval start now b) (h : c.turn now id b = .ok (b', o)) :
    Terms capacity interval start now b' ∧ left o ≤ c.outstanding ∧
      b'.net start + c.outstanding + ((c.draws now id b).map Draw.lost).sum =
        b.net start + left o + ((c.draws now id b).map Draw.debt).sum + c.spared now b := by
  rcases turn_cases h with ⟨tokens, chunks, rfl, split, early, drawn⟩ |
    ⟨wait, rest, w, rfl, repriced, _, expired, drawn⟩ |
    ⟨wait, rest, w, rfl, repriced, _, early, nothing, rfl, rfl⟩
  · -- it begins with its chunks
    rcases drawn.net positive terms with ⟨terms', bounded, books⟩
    have none : spared now b (.arriving tokens) = 0 := by simp [spared, early]
    rw [sum_chunksOf split] at bounded books
    refine ⟨terms', bounded, ?_⟩
    have asked : outstanding (.arriving tokens) = tokens.toNat := rfl
    rw [none, asked, books]
    simp
  · -- the wait is over, and it goes on with the chunks that are left
    have paid := net_of_balance start b ((b.leave id).withdraw w.owed) rfl rfl
    have balance : ((b.leave id).withdraw w.owed).balance = b.balance - w.owed + b.spare w.owed :=
      balance_withdraw w.owed b
    rcases drawn.net positive (terms.of_eq rfl rfl rfl) with ⟨terms', bounded, books⟩
    have owed : outstanding (.waiting wait rest) = w.owed + rest.toList.sum := by
      rw [Wait.owed_of_reprice repriced]
      rfl
    have spare : spared now b (.waiting wait rest) = b.spare w.owed := by simp [spared, expired]
    rw [owed, spare]
    refine ⟨terms', by omega, ?_⟩
    omega
  · -- it waits on
    have same := net_of_balance start b ((b.leave id).join id) rfl rfl
    have none : spared now b (.waiting wait rest) = 0 := by simp [spared, early]
    have owed : left (some (.waiting w rest)) = outstanding (.waiting wait rest) := by
      simp [outstanding, Wait.owed_of_reprice repriced]
    rw [none, nothing, owed, same]
    refine ⟨terms.of_eq rfl rfl rfl, Nat.le_refl _, ?_⟩
    simp [join, leave]

end Caller

/-! ## Operations -/

namespace Bucket
namespace Operation

def taken : Operation → Answer → Nat
  | .instantGrab tokens, .taken true => tokens.toNat
  | .forceGrab tokens, _ => tokens.toNat
  | _, _ => 0

def returned : Operation → Nat
  | .recycle tokens => tokens.toNat
  | _ => 0

/-- What an operation leaves out because the bucket is full. -/
def lost (now : Instant) (b : Bucket) : Operation → Nat
  | .recycle tokens => (b.balance + tokens.toNat - (b.recycle tokens).balance).toNat
  | _ => b.overflow now

/-- What a forced withdrawal leaves in because the balance can fall no further. -/
def spared (now : Instant) (b : Bucket) : Operation → Nat
  | .forceGrab tokens =>
      ((b.forceGrab now tokens).balance - ((b.credit now).balance - tokens.toNat)).toNat
  | _ => 0

end Operation

theorem amount_le (tokens : UInt64) : amount tokens ≤ tokens.toNat :=
  Nat.min_le_left _ _

/-- A forced withdrawal takes its tokens, except for those that the balance cannot fall by. -/
theorem balance_forceGrab (now : Instant) (tokens : UInt64) (b : Bucket) :
    (b.forceGrab now tokens).balance =
      (b.credit now).balance - tokens.toNat + (Operation.forceGrab tokens).spared now b := by
  have part := amount_le tokens
  have clipped := credit_balance_le now b
  have least : minBalance ≤ 0 := by decide
  have kept : (b.credit now).balance - tokens.toNat ≤ (b.forceGrab now tokens).balance := by
    refine Int.le_min.2 ⟨?_, ?_⟩
    · refine Int.le_trans ?_ (Int.le_max_left _ _)
      omega
    · simp only [withdraw, credit_capacity]
      omega
  simp only [Operation.spared]
  omega

/-- What is given back goes into the balance, except for what does not fit. -/
theorem balance_recycle (tokens : UInt64) (now : Instant) (b : Bucket) :
    (b.recycle tokens).balance + (Operation.recycle tokens).lost now b =
      b.balance + tokens.toNat := by
  have part := amount_le tokens
  have kept : (b.recycle tokens).balance ≤ b.balance + amount tokens :=
    Int.le_trans (Int.min_le_left _ _) (Int.min_le_left _ _)
  simp only [Operation.lost]
  omega

/-- Tokens that are granted at once were there, so they fit the range of balances. -/
theorem balance_instantGrab (now : Instant) (tokens : UInt64) {b : Bucket}
    (fits : b.capacity ≤ maxBalance) :
    (b.instantGrab now tokens).1.balance =
      (b.credit now).balance -
        (Operation.instantGrab tokens).taken (.taken (b.instantGrab now tokens).2) := by
  have clipped := credit_balance_le now b
  by_cases enough : (b.credit now).balance > amount tokens
  · have granted : b.instantGrab now tokens = ((b.credit now).withdraw (amount tokens), true) :=
      if_pos enough
    have whole : amount tokens = tokens.toNat := by
      unfold amount at enough ⊢
      omega
    have least : minBalance ≤ (b.credit now).balance - tokens.toNat := by
      unfold minBalance
      omega
    rw [granted, whole]
    exact Int.max_eq_left least
  · have refused : b.instantGrab now tokens = (b.credit now, false) := if_neg enough
    rw [refused]
    simp [Operation.taken]

/-- The balance of an operation, for those that leave capacity and interval alone. -/
theorem operate_net {capacity interval : Nat} {start now : Instant} {b b' : Bucket}
    {op : Operation} {woken : List TaskId} {answer : Answer} (fits : capacity ≤ maxBalance)
    (positive : 0 < interval) (terms : Terms capacity interval start now b)
    (steady : op.isSteady = true) (h : b.operate now op = .ok (b', woken, answer)) :
    woken = [] ∧ Terms capacity interval start now b' ∧
      b'.net start + op.taken answer + op.lost now b =
        b.net start + op.returned + op.spared now b := by
  -- every operation but the return of tokens credits first
  have pos : 0 < b.interval := by
    rw [terms.interval]
    exact positive
  have credit := net_credit now pos terms.since
  have credited := terms.credit positive
  cases op with
  | instantGrab tokens =>
      obtain ⟨rfl, rfl, rfl⟩ : (b.instantGrab now tokens).1 = b' ∧ [] = woken ∧
          .taken (b.instantGrab now tokens).2 = answer := by simpa [operate] using h
      have balance := balance_instantGrab now tokens (b := b)
        (by rw [terms.capacity]; exact fits)
      have same : (b.instantGrab now tokens).1.creditedTo = (b.credit now).creditedTo ∧
          (b.instantGrab now tokens).1.interval = (b.credit now).interval ∧
          (b.instantGrab now tokens).1.capacity = (b.credit now).capacity := by
        unfold instantGrab
        simp only
        split <;> exact ⟨rfl, rfl, rfl⟩
      have net := net_of_balance start _ _ same.1 same.2.1
      refine ⟨rfl, credited.of_eq same.2.2 same.2.1 same.1, ?_⟩
      simp only [Operation.lost, Operation.returned, Operation.spared]
      omega
  | forceGrab tokens =>
      cases h
      have balance := balance_forceGrab now tokens b
      have net := net_of_balance start (b.credit now) (b.forceGrab now tokens) rfl rfl
      refine ⟨rfl, credited.of_eq rfl rfl rfl, ?_⟩
      simp only [Operation.taken, Operation.lost, Operation.returned]
      omega
  | recycle tokens =>
      cases h
      have balance := balance_recycle tokens now b
      have net := net_of_balance start b (b.recycle tokens) rfl rfl
      refine ⟨rfl, terms.of_eq rfl rfl rfl, ?_⟩
      simp only [Operation.taken, Operation.returned, Operation.spared]
      omega
  | credit =>
      cases h
      refine ⟨rfl, credited, ?_⟩
      simp only [Operation.taken, Operation.lost, Operation.returned, Operation.spared]
      omega
  | _ =>
      cases steady

end Bucket
end MeteredFetch
