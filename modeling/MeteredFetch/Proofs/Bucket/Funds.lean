import MeteredFetch.Proofs.Bucket.Overlap

/-!
# Funds — a caller that has a bucket to itself

If nobody else draws on a bucket while a caller waits, what the caller waits for has been earned by
the end of the wait, and is in the balance or can be credited. The wait then leaves no debt behind,
and whatever was granted had been there, or had been earned or given back.

* `Bucket.Funded` — what was granted, with what a credit would offer, keeps to a bound;
* `Bucket.Secured` — what a caller waits for is there when the wait is over;
* `Bucket.Funds` — a bucket is funded, or it secures the wait of the one caller that it has;
* `Bucket.Draws.funds`, `Bucket.Funds.turn` — chunks and turns of this caller keep it so.
-/

namespace MeteredFetch
namespace Bucket

/-! ## Funded buckets -/

/-- However late a bucket is credited, what was granted and what can be taken from the balance then
come to no more than a bound and what was credited since a moment. -/
def Funded (start now : Instant) (granted : Nat) (bound : Int) (b : Bucket) : Prop :=
  ∀ time, now ≤ time → granted + (b.credit time).cover start ≤ bound

variable {capacity interval limit granted granted' n : Nat} {bound : Int}
  {start now now' : Instant} {b b' : Bucket} {w : Wait}

namespace Funded

/-- A bucket whose balance covers what was granted is funded. -/
theorem of_cover (positive : 0 < interval) (terms : Terms capacity interval start now b)
    (h : granted + b.cover start ≤ bound) : Funded start now granted bound b := by
  intro time _
  have credit := cover_credit time (by rw [terms.interval]; exact positive) terms.since
  omega

/-- What is funded now is funded later. -/
theorem later (h : Funded start now granted bound b) (le : now ≤ now') :
    Funded start now' granted bound b :=
  fun time reached => h time (Nat.le_trans le reached)

theorem mono (h : Funded start now granted bound b) (le : granted' ≤ granted) :
    Funded start now granted' bound b := by
  intro time reached
  have found := h time reached
  omega

/-- A credit moves tokens from what is to come to what is there. -/
theorem credit (positive : 0 < interval) (terms : Terms capacity interval start now b)
    (h : Funded start now granted bound b) : Funded start now granted bound (b.credit now) :=
  of_cover positive (terms.credit positive) (h now (Nat.le_refl now))

/-- Tokens that are given back raise the bound by as many. -/
theorem recycle (h : Funded start now granted bound b) (tokens : UInt64) :
    Funded start now granted (bound + tokens.toNat) (b.recycle tokens) := by
  intro time reached
  have before := h time reached
  have part := amount_le tokens
  have same : (b.recycle tokens).earned time = b.earned time := rfl
  -- the capacity may take away some of what is given back, but it never adds to it
  have balance : ((b.recycle tokens).credit time).balance ≤
      (b.credit time).balance + tokens.toNat := by
    simp only [Bucket.credit, clip, creditUnclipped, same]
    simp only [Bucket.recycle, clip]
    omega
  have cover := cover_of_balance start (b.credit time) ((b.recycle tokens).credit time) rfl rfl
  omega

/-- What was granted keeps to the bound and to what was earned. -/
theorem granted_le (positive : 0 < interval) (terms : Terms capacity interval start now b)
    (h : Funded start now granted bound b) : (granted : Int) ≤ bound + ticks interval start now := by
  have credited := terms.credit positive
  have found := h now (Nat.le_refl now)
  have fewer : (b.credit now).credited start ≤ ticks interval start now := by
    unfold Bucket.credited
    rw [credited.interval]
    exact Nat.div_le_div_right (Nat.sub_le_sub_right credited.upTo start)
  unfold cover at found
  omega

end Funded

/-! ## Secured waits -/

/-- What is credited now is not earned later. -/
theorem earned_le_add (b : Bucket) (now time : Instant) :
    b.earned time ≤ b.earned now + (b.credit now).earned time := by
  have rest : (time - (b.creditedTo + b.earned now * b.interval)) / b.interval =
      (time - b.creditedTo) / b.interval - b.earned now := by
    rw [Nat.sub_add_eq, Nat.mul_comm, Nat.sub_mul_div]
  have left : (b.credit now).earned time =
      min ((time - b.creditedTo) / b.interval - b.earned now) maxBalance := by
    rw [← rest]
    rfl
  have whole : b.earned time = min ((time - b.creditedTo) / b.interval) maxBalance := rfl
  rw [left, whole]
  generalize (time - b.creditedTo) / b.interval = n
  omega

/-- Chunks up to a limit are within reach of a bucket: it can hold as many tokens, and they are
earned in a time that can be waited for. -/
structure InReach (capacity interval limit : Nat) : Prop where
  positive : 0 < interval
  range : capacity ≤ maxBalance
  small : limit ≤ capacity
  inTime : interval * limit ≤ maxWord * 1000000

/-- There is no debt, and what a caller waits for is there when the wait is over. -/
structure Secured (start now : Instant) (limit granted : Nat) (bound : Int) (b : Bucket)
    (w : Wait) : Prop where
  priced : w.pricedAt = b.interval
  small : w.owed ≤ limit
  nonneg : 0 ≤ b.balance
  clipped : b.balance ≤ b.capacity
  covered : granted + b.cover start ≤ bound
  earned : ∀ time, now ≤ time → w.deadline ≤ time → (w.owed : Int) ≤ b.balance + b.earned time

namespace Secured

/-- It makes no difference who else is to be woken. -/
theorem congr (h : Secured start now limit granted bound b w) (waiters : List TaskId) :
    Secured start now limit granted bound { b with waiters } w :=
  ⟨h.priced, h.small, h.nonneg, h.clipped, h.covered, h.earned⟩

theorem later (h : Secured start now limit granted bound b w) (le : now ≤ now') :
    Secured start now' limit granted bound b w :=
  ⟨h.priced, h.small, h.nonneg, h.clipped, h.covered,
    fun time reached => h.earned time (Nat.le_trans le reached)⟩

/-- A credit brings forward what is earned anyway, unless the bucket is full; then there is enough
for the wait. -/
theorem credit (reach : InReach capacity interval limit)
    (terms : Terms capacity interval start now b)
    (h : Secured start now limit granted bound b w) :
    Secured start now limit granted bound (b.credit now) w := by
  have positive : 0 < b.interval := by
    rw [terms.interval]
    exact reach.positive
  have cover := cover_credit now positive terms.since
  have nonneg := h.nonneg
  have clipped := h.clipped
  have covered := h.covered
  have small := h.small
  have enough := reach.small
  have range := reach.range
  rw [← terms.capacity] at enough range
  refine ⟨h.priced, h.small, ?_, credit_balance_le now b, by omega, ?_⟩
  · simp only [Bucket.credit, clip, creditUnclipped]
    omega
  · -- if the credit is clipped, the whole capacity is there, and the wait is for no more than that
    intro time reached past
    have awaited := h.earned time reached past
    have less := earned_le_add b now time
    have balance : (b.credit now).balance =
        min (min (b.balance + b.earned now) maxBalance) b.capacity := rfl
    omega

theorem recycle (reach : InReach capacity interval limit)
    (terms : Terms capacity interval start now b)
    (h : Secured start now limit granted bound b w) (tokens : UInt64) :
    Secured start now limit granted (bound + tokens.toNat) (b.recycle tokens) w := by
  have part := amount_le tokens
  have nonneg := h.nonneg
  have clipped := h.clipped
  have covered := h.covered
  have range := reach.range
  rw [← terms.capacity] at range
  have balance : (b.recycle tokens).balance =
      min (min (b.balance + amount tokens) maxBalance) b.capacity := rfl
  have cover := cover_of_balance start b (b.recycle tokens) rfl rfl
  refine ⟨h.priced, h.small, by omega, Int.min_le_right _ _, by omega, ?_⟩
  intro time reached past
  have awaited := h.earned time reached past
  have same : (b.recycle tokens).earned time = b.earned time := rfl
  omega

/-- The wait is over. What it is for is withdrawn, and what was earned meanwhile makes up for it. -/
theorem pay (reach : InReach capacity interval limit)
    (terms : Terms capacity interval start now b)
    (h : Secured start now limit granted bound b w) (past : w.deadline ≤ now) :
    Funded start now (granted + w.owed) bound (b.withdraw w.owed) := by
  have positive : 0 < b.interval := by
    rw [terms.interval]
    exact reach.positive
  have nonneg := h.nonneg
  have covered := h.covered
  have small := h.small
  have enough := reach.small
  have range := reach.range
  -- the balance was not negative, so the withdrawal is not cut off at the least balance
  have least : minBalance = -maxBalance - 1 := by decide
  have floor : max (b.balance - w.owed) minBalance = b.balance - w.owed :=
    Int.max_eq_left (by omega)
  intro time reached
  have awaited := h.earned time reached (Nat.le_trans past reached)
  have credited : ((b.withdraw w.owed).credit time).credited start =
      b.credited start + b.earned time := credited_credit positive terms.since
  have balance : ((b.withdraw w.owed).credit time).balance =
      min (min (max (b.balance - w.owed) minBalance + b.earned time) maxBalance) b.capacity := rfl
  unfold cover at covered ⊢
  omega

end Secured

/-! ## Chunks -/

/-- A wait for more tokens is long enough for fewer. -/
theorem mul_le_delay_of_le {m : Nat} (le : n ≤ m)
    (inTime : b.interval * n ≤ maxWord * 1000000) : b.interval * n ≤ b.delay m := by
  have rounded : ∀ time, time ≤ (time + 999999) / 1000000 * 1000000 := by
    intro time
    omega
  have longer : b.interval * n ≤ b.interval * m := Nat.mul_le_mul_left _ le
  unfold delay
  rw [← Nat.mul_min_mul_right]
  exact Nat.le_min.2 ⟨Nat.le_trans longer (rounded _), inTime⟩

/-- A chunk that is there is granted out of the balance. -/
theorem Funded.draw_none (positive : 0 < interval) (terms : Terms capacity interval start now b)
    (h : Funded start now granted bound b) (drawn : b.draw now n = .ok (b', none)) :
    Terms capacity interval start now b' ∧ Funded start now (granted + n) bound b' := by
  rcases draw_eq_none (by rw [terms.interval]; exact positive) drawn with
    ⟨enough, cursor, _, same⟩
  have kept : Terms capacity interval start now b' :=
    (terms.credit positive).of_eq (by rw [same]) (by rw [same]) (by rw [same])
  refine ⟨kept, of_cover positive kept ?_⟩
  have found := h now (Nat.le_refl now)
  have taken := cover_of_balance start (b.credit now) b' (by rw [same]) (by rw [same])
  have balance : b'.balance = (b.credit now).balance - n := by rw [same]
  omega

/-- A chunk that has to be waited for is granted what there is, and the rest is earned by the end of
the wait. A debt that is found prolongs the wait. -/
theorem Funded.draw_some (reach : InReach capacity interval limit)
    (terms : Terms capacity interval start now b) (small : n ≤ limit)
    (h : Funded start now granted bound b) (drawn : b.draw now n = .ok (b', some w)) :
    w.owed ≤ n ∧ Secured start now limit (granted + (n - w.owed)) bound b' w := by
  rcases draw_eq_some drawn with ⟨short, _, same, after⟩
  have found := h now (Nat.le_refl now)
  have emptied := cover_of_balance start (b.credit now) b' (by rw [after]) (by rw [after])
  have balance : b'.balance = 0 := by rw [after]
  have owed : w.owed = n - (b.credit now).balance.toNat := by rw [same]
  have upTo := (terms.credit reach.positive).upTo
  have holds := reach.small
  have range := reach.range
  have rate : b.interval = interval := terms.interval
  refine ⟨by omega, by rw [same, after]; rfl, by omega, by omega, by omega, by omega, ?_⟩
  intro time _ past
  -- what is owed is missing, with any debt on top
  have missing : w.owed ≤ min (Draw.missing ⟨now, b, n⟩) maxBalance := by
    simp only [Draw.missing, Draw.found]
    omega
  have inTime : b.interval * w.owed ≤ maxWord * 1000000 := by
    rw [rate]
    exact Nat.le_trans (Nat.mul_le_mul_left interval (by omega)) reach.inTime
  have long := mul_le_delay_of_le missing inTime
  have deadline : w.deadline =
      max b.cursor now + b.delay (min (Draw.missing ⟨now, b, n⟩) maxBalance) := by rw [same]
  have whole : w.owed ≤ (time - (b.credit now).creditedTo) / b.interval := by
    refine (Nat.le_div_iff_mul_le (by rw [rate]; exact reach.positive)).2 ?_
    rw [Nat.mul_comm]
    unfold Instant at *
    omega
  have earned : b'.earned time =
      min ((time - (b.credit now).creditedTo) / b.interval) maxBalance := by
    rw [after]
    rfl
  omega

/-! ## The caller of a bucket -/

/-- A bucket is funded, or it secures the wait of the one caller that it has. -/
inductive Funds (start now : Instant) (limit granted : Nat) (bound : Int) (b : Bucket) :
    Option Caller → Prop
  | free : Funded start now granted bound b → Funds start now limit granted bound b none
  | waits {w : Wait} {rest : Chunks} : Secured start now limit granted bound b w →
      (∀ n ∈ rest.toList, n ≤ limit) →
        Funds start now limit granted bound b (some (.waiting w rest))

variable {id : TaskId} {o : Option Caller}

/-- What keeps a bucket funded and its waits secured. -/
theorem Funds.map {bound' : Int} (h : Funds start now limit granted bound b o)
    (funded : Funded start now granted bound b → Funded start now' granted bound' b')
    (secured : ∀ {w : Wait}, Secured start now limit granted bound b w →
      Secured start now' limit granted bound' b' w) :
    Funds start now' limit granted bound' b' o := by
  cases h with
  | free found =>
      exact .free (funded found)
  | waits found small =>
      exact .waits (secured found) small

/-- A bucket that secures a wait is funded for now. -/
theorem Funds.funded (positive : 0 < interval) (terms : Terms capacity interval start now b)
    (h : Funds start now limit granted bound b o) : Funded start now granted bound b := by
  cases h with
  | free found =>
      exact found
  | waits found small =>
      exact .of_cover positive terms found.covered

/-- Chunks within reach are granted out of what the bucket is funded with, or the last of them is
secured. -/
theorem Draws.funds {c : Chunks} {ds : List Draw} (reach : InReach capacity interval limit)
    (drawn : Draws now id c b ds b' o) (terms : Terms capacity interval start now b)
    (small : ∀ n ∈ c.toList, n ≤ limit) (h : Funded start now granted bound b) :
    ∃ granted', granted ≤ granted' ∧ granted' + left o = granted + c.toList.sum ∧
      Funds start now limit granted' bound b' o := by
  -- the bound stays, and what was granted grows by every chunk, up to one that is waited for
  induction drawn generalizing granted with
  | done b last =>
      rw [Chunks.toList_eq_nil_of_next? last]
      exact ⟨granted, Nat.le_refl granted, rfl, .free h⟩
  | @taken c rest n b b₁ b' ds o first drawn _ ih =>
      rw [Chunks.toList_of_next? first] at small ⊢
      rcases h.draw_none reach.positive terms drawn with ⟨kept, funded⟩
      rcases ih kept (fun m member => small m (List.mem_cons_of_mem n member)) funded with
        ⟨granted', more, total, funds⟩
      refine ⟨granted', Nat.le_of_add_right_le more, ?_, funds⟩
      rw [List.sum_cons, ← Nat.add_assoc]
      exact total
  | @held c rest n b b₁ w first drawn =>
      rw [Chunks.toList_of_next? first] at small ⊢
      rcases h.draw_some reach terms (small n (List.mem_cons_self ..)) drawn with ⟨part, secured⟩
      refine ⟨granted + (n - w.owed), Nat.le_add_right _ _, ?_, .waits (secured.congr _)
        fun m member => small m (List.mem_cons_of_mem n member)⟩
      simp only [left_some, Caller.outstanding, List.sum_cons]
      omega

/-- A part is no larger than the whole, nor than the capacity. -/
theorem le_of_mem_chunksOf {tokens : UInt64} {c : Chunks} (h : b.chunksOf tokens = .ok c)
    (member : n ∈ c.toList) : n ≤ min tokens.toNat b.capacity := by
  unfold chunksOf at h
  split at h
  · rename_i small
    cases h
    have same : n = tokens.toNat := by simpa [Chunks.single, Chunks.toList] using member
    omega
  · rename_i large
    unfold Chunks.split at h
    split at h
    · cases h
    · rename_i positive
      cases h
      rcases List.mem_append.1 member with whole | last
      · have same : n = b.capacity := (List.mem_replicate.1 whole).2
        omega
      · have remainder := Nat.mod_lt tokens.toNat (Nat.pos_of_ne_zero positive)
        have same := Option.mem_toList.1 last
        simp only at same
        split at same
        · cases same
        · cases same
          omega

/-- Whoever begins to withdraw tokens finds a funded bucket. -/
theorem Funded.arrive {tokens : UInt64}
    (reach : InReach capacity interval (min tokens.toNat capacity))
    (terms : Terms capacity interval start now b) (h : Funded start now granted bound b)
    (turned : (Caller.arriving tokens).turn now id b = .ok (b', o)) :
    ∃ granted', granted ≤ granted' ∧ granted' + left o = granted + tokens.toNat ∧
      Funds start now (min tokens.toNat capacity) granted' bound b' o := by
  rcases ok_of_bind turned with ⟨chunks, split, drawn⟩
  rcases draws_of_drawAll drawn with ⟨ds, drawn⟩
  have small : ∀ n ∈ chunks.toList, n ≤ min tokens.toNat capacity := by
    intro n member
    rw [← terms.capacity]
    exact le_of_mem_chunksOf split member
  have funds := drawn.funds reach terms small h
  rw [sum_chunksOf split] at funds
  exact funds

/-- Whoever waits goes on when the wait is over, in a bucket that is funded. -/
theorem Funds.turn {c : Caller} (reach : InReach capacity interval limit)
    (terms : Terms capacity interval start now b)
    (h : Funds start now limit granted bound b (some c))
    (turned : c.turn now id b = .ok (b', o)) :
    ∃ granted', granted ≤ granted' ∧ granted' + left o = granted + c.outstanding ∧
      Funds start now limit granted' bound b' o := by
  cases h with
  | @waits wait rest secured small =>
      -- the wait is priced at the interval in force, so another look does not shorten it
      have unchanged : ∀ {w : Wait}, wait.reprice now b.interval = .ok w → wait = w :=
        fun repriced => eq_of_reprice secured.priced repriced
      rcases Caller.turn_cases turned with ⟨_, _, arriving, _⟩ |
        ⟨_, _, w, waiting, repriced, past, _, drawn⟩ |
        ⟨_, _, w, waiting, repriced, _, _, _, rfl, rfl⟩
      · cases arriving
      · cases waiting
        cases unchanged repriced
        have stands : Secured start now limit granted bound (b.leave id) wait := secured.congr _
        have kept : Terms capacity interval start now (b.leave id) := terms.of_eq rfl rfl rfl
        have paid := stands.pay reach kept past
        rcases drawn.funds reach (terms.of_eq rfl rfl rfl) small paid with
          ⟨granted', more, total, funds⟩
        refine ⟨granted', Nat.le_of_add_right_le more, ?_, funds⟩
        simp only [Caller.outstanding]
        omega
      · cases waiting
        cases unchanged repriced
        exact ⟨granted, Nat.le_refl granted, rfl, .waits (secured.congr _) small⟩

end Bucket
end MeteredFetch
