import MeteredFetch.Proofs.Bucket.Conservation
import MeteredFetch.Proofs.Bucket.Steps

/-!
# Elapsed — credit depends on elapsed time only

A credit adds the whole intervals since the last one, and keeps the part that has passed of the next
interval. So it makes no difference how often a bucket is credited on the way to a moment, and a
credit that is put into a run is made up for by the next one that the run makes itself.

* `Bucket.credit_later`, `Bucket.credit_earlier` — of two credits the later one counts;
* `Bucket.credit_recycle` — tokens may be returned before a credit or after it;
* `Bucket.Ahead` — a bucket that was credited already with part of what another one has still to be
  credited with, and `Bucket.Ahead.operate` — no operation tells the two apart;
* `Bucket.readings` — what is seen of calls that are made one after another;
* `Bucket.credit_of_elapsed` — credits at any moments are one credit at the latest of them, and
  credits that are put into a run change nothing that is seen of the other calls.
-/

namespace MeteredFetch
namespace Bucket

open Executor

variable {b b' : Bucket} {now t t' : Instant}

/-! ## Two credits -/

def pending (b : Bucket) (now : Instant) : Nat :=
  ticks b.interval b.creditedTo now

theorem pending_mono (b : Bucket) (le : t' ≤ t) : b.pending t' ≤ b.pending t :=
  Nat.div_le_div_right (Nat.sub_le_sub_right le b.creditedTo)

/-- In the range of balances all intervals are earned. -/
theorem earned_of_pending (few : b.pending now < 2 ^ 63) : b.earned now = b.pending now :=
  Nat.min_eq_left (Nat.le_of_lt_succ few)

/-- A credit of a bucket whose capacity is in the range of balances. -/
theorem credit_eq (range : b.capacity ≤ maxBalance) (now : Instant) :
    b.credit now =
      { b with
        balance := min (b.balance + b.earned now) b.capacity
        creditedTo := b.creditedTo + b.earned now * b.interval } := by
  have clipped : min (min (b.balance + b.earned now) (maxBalance : Int)) b.capacity =
      min (b.balance + b.earned now) b.capacity := by omega
  unfold credit clip creditUnclipped
  rw [clipped]

/-- What was credited is not credited again. -/
theorem pending_credit (few : b.pending t' < 2 ^ 63) (t : Instant) :
    (b.credit t').pending t = b.pending t - b.pending t' := by
  have whole := earned_of_pending few
  unfold pending ticks at whole ⊢
  calc
    (t - (b.creditedTo + b.earned t' * b.interval)) / b.interval
        = (t - b.creditedTo - b.interval * b.earned t') / b.interval := by
          rw [← Nat.sub_sub, Nat.mul_comm]
    _ = (t - b.creditedTo) / b.interval - b.earned t' := Nat.sub_mul_div _ _ _
    _ = (t - b.creditedTo) / b.interval - (t' - b.creditedTo) / b.interval := by rw [whole]

/-- After a credit there is no more to be credited than before. -/
theorem pending_credit_le (b : Bucket) (t' t : Instant) : (b.credit t').pending t ≤ b.pending t :=
  Nat.div_le_div_right (Nat.sub_le_sub_left (Nat.le_add_right _ _) t)

/-- A later credit makes up for an earlier one. -/
theorem credit_later (range : b.capacity ≤ maxBalance) (le : t' ≤ t)
    (few : b.pending t < 2 ^ 63) : (b.credit t').credit t = b.credit t := by
  have fewer : b.pending t' ≤ b.pending t := pending_mono b le
  have first := pending_credit (Nat.lt_of_le_of_lt fewer few) t
  have rest : (b.credit t').earned t = b.pending t - b.pending t' := by
    rw [← first]
    exact earned_of_pending (by omega)
  have sum : b.pending t' + (b.pending t - b.pending t') = b.pending t := Nat.add_sub_of_le fewer
  have balance : min (min (b.balance + b.pending t') (b.capacity : Int) +
      (b.pending t - b.pending t' : Nat)) b.capacity = min (b.balance + b.pending t) b.capacity := by
    omega
  have creditedTo : b.creditedTo + b.pending t' * b.interval +
      (b.pending t - b.pending t') * b.interval = b.creditedTo + b.pending t * b.interval := by
    rw [Nat.add_assoc, ← Nat.add_mul, sum]
  rw [credit_eq (b := b.credit t') range, rest, credit_eq range, credit_eq range,
    earned_of_pending few, earned_of_pending (Nat.lt_of_le_of_lt fewer few), balance, creditedTo]

/-- After a credit nothing is left for an earlier moment. -/
theorem credit_earlier (range : b.capacity ≤ maxBalance) (le : t' ≤ t)
    (few : b.pending t < 2 ^ 63) : (b.credit t).credit t' = b.credit t := by
  have nothing : (b.credit t).pending t' = 0 := by
    rw [pending_credit few]
    exact Nat.sub_eq_zero_of_le (pending_mono b le)
  have none : (b.credit t).earned t' = 0 := by
    rw [earned_of_pending (by omega), nothing]
  have full : min (b.credit t).balance ((b.credit t).capacity : Int) = (b.credit t).balance :=
    Int.min_eq_left (credit_balance_le t b)
  rw [credit_eq (b := b.credit t) range, none, Int.natCast_zero, Int.add_zero, full, Nat.zero_mul,
    Nat.add_zero]

/-- Tokens may be returned before a credit or after it. -/
theorem credit_recycle (range : b.capacity ≤ maxBalance) (now : Instant) (tokens : UInt64) :
    (b.recycle tokens).credit now = (b.credit now).recycle tokens := by
  have earned : (b.recycle tokens).earned now = b.earned now := rfl
  have balance : min (min (min (b.balance + amount tokens) (maxBalance : Int)) b.capacity +
      b.earned now) b.capacity =
        min (min (min (b.balance + b.earned now) (b.capacity : Int) + amount tokens) maxBalance)
          b.capacity := by omega
  rw [credit_eq (b := b.recycle tokens) range, credit_eq range, earned]
  unfold recycle clip
  simp only [balance]

/-! ## Credits at any moments -/

variable {instants : List Instant}

/-- Credits at earlier moments do not show in a credit at a later one. -/
theorem credit_foldl (range : b.capacity ≤ maxBalance) (le : ∀ t' ∈ instants, t' ≤ t)
    (few : b.pending t < 2 ^ 63) :
    (instants.foldl (fun b now => b.credit now) b).credit t = b.credit t := by
  induction instants generalizing b with
  | nil =>
      rfl
  | cons first rest ih =>
      have early : first ≤ t := le first List.mem_cons_self
      have later : ∀ t' ∈ rest, t' ≤ t := fun t' member => le t' (List.mem_cons_of_mem _ member)
      have left := pending_credit (Nat.lt_of_le_of_lt (pending_mono b early) few) t
      calc
        ((rest.foldl (fun b now => b.credit now) (b.credit first)).credit t)
            = (b.credit first).credit t := ih (b := b.credit first) range later (by omega)
        _ = b.credit t := credit_later range early few

/-- Credits at moments before the last credit change nothing. -/
theorem foldl_credit (range : b.capacity ≤ maxBalance) (le : ∀ t' ∈ instants, t' ≤ t)
    (few : b.pending t < 2 ^ 63) :
    instants.foldl (fun b now => b.credit now) (b.credit t) = b.credit t := by
  induction instants with
  | nil =>
      rfl
  | cons first rest ih =>
      rw [List.foldl_cons, credit_earlier range (le first List.mem_cons_self) few]
      exact ih fun t' member => le t' (List.mem_cons_of_mem _ member)

/-- Of credits at any moments, in any order, the latest one counts. -/
theorem foldl_credit_eq (range : b.capacity ≤ maxBalance) (member : t ∈ instants)
    (le : ∀ t' ∈ instants, t' ≤ t) (few : b.pending t < 2 ^ 63) :
    instants.foldl (fun b now => b.credit now) b = b.credit t := by
  rcases List.append_of_mem member with ⟨before, after, rfl⟩
  have early : ∀ t' ∈ before, t' ≤ t := fun t' there => le t' (List.mem_append_left _ there)
  have late : ∀ t' ∈ after, t' ≤ t := fun t' there =>
    le t' (List.mem_append_right _ (List.mem_cons_of_mem _ there))
  rw [List.foldl_append, List.foldl_cons, credit_foldl range early few]
  exact foldl_credit range late few

/-! ## Operations on two buckets -/

theorem capacity_setInterval {interval : Nat} {woken : List TaskId}
    (h : b.setInterval now interval = .ok (b', woken)) : b'.capacity = b.capacity := by
  unfold setInterval at h
  split at h
  · rcases ok_of_bind h with ⟨cursor, _, rest⟩
    cases rest
    rfl
  · cases h
    rfl

namespace Operation

/-- Whether an operation takes or returns tokens, credits what was earned, or changes the interval
only. -/
def isPlain : Operation → Bool
  | .instantGrab _ | .forceGrab _ | .recycle _ | .credit | .changeInterval _ => true
  | .changeCapacity _ | .changeBoth _ _ => false

/-- Whether an operation begins with a credit. A change that is refused does nothing. -/
def isCrediting : Operation → Bool
  | .recycle _ => false
  | .changeInterval interval => decide (interval.toNat ≠ 0)
  | .instantGrab _ | .forceGrab _ | .credit | .changeCapacity _ | .changeBoth _ _ => true

end Operation

/-- The second bucket was credited already with part of what the first one is credited with from a
moment on. -/
structure Ahead (now : Instant) (b b' : Bucket) : Prop where
  range : b.capacity ≤ maxBalance
  capacity : b'.capacity = b.capacity
  pending : ∀ t, b'.pending t ≤ b.pending t
  credit : ∀ {t}, now ≤ t → b.pending t < 2 ^ 63 → b'.credit t = b.credit t

namespace Ahead

theorem refl (range : b.capacity ≤ maxBalance) (now : Instant) : Ahead now b b :=
  ⟨range, rfl, fun _ => Nat.le_refl _, fun _ _ => rfl⟩

/-- A bucket that is ahead stays ahead as time passes. -/
theorem later (h : Ahead now b b') (le : now ≤ t) : Ahead t b b' :=
  ⟨h.range, h.capacity, h.pending, fun after few => h.credit (Nat.le_trans le after) few⟩

/-- The second bucket is credited once more. -/
theorem step (h : Ahead now b b') : Ahead now b (b'.credit now) := by
  have range : b'.capacity ≤ maxBalance := h.capacity ▸ h.range
  refine ⟨h.range, h.capacity, fun t => ?_, fun {t} after few => ?_⟩
  · exact Nat.le_trans (pending_credit_le b' now t) (h.pending t)
  · rw [credit_later range after (Nat.lt_of_le_of_lt (h.pending t) few)]
    exact h.credit after few

/-- Tokens that are given back go to both buckets alike. -/
theorem recycle (h : Ahead now b b') (tokens : UInt64) :
    Ahead now (b.recycle tokens) (b'.recycle tokens) := by
  have range : b'.capacity ≤ maxBalance := h.capacity ▸ h.range
  refine ⟨h.range, h.capacity, h.pending, fun {t} after few => ?_⟩
  rw [credit_recycle h.range, credit_recycle range, h.credit after few]

/-- No operation tells the two buckets apart. -/
theorem operate (h : Ahead now b b') {op : Operation} (plain : op.isPlain = true)
    (few : op.isCrediting = true → b.pending now < 2 ^ 63) :
    (∃ panic, b.operate now op = .error panic ∧ b'.operate now op = .error panic) ∨
      ∃ c c' woken woken' answer, b.operate now op = .ok (c, woken, answer) ∧
        b'.operate now op = .ok (c', woken', answer) ∧ Ahead now c c' ∧
        (op = .credit → c'.balance = c.balance) := by
  have same : op.isCrediting = true → b'.credit now = b.credit now := fun credits =>
    h.credit (Nat.le_refl now) (few credits)
  -- what begins with a credit does the same to both
  have crediting : b'.operate now op = b.operate now op →
      (∀ {c woken answer}, b.operate now op = .ok (c, woken, answer) → c.capacity ≤ maxBalance) →
      (∃ panic, b.operate now op = .error panic ∧ b'.operate now op = .error panic) ∨
        ∃ c c' woken woken' answer, b.operate now op = .ok (c, woken, answer) ∧
          b'.operate now op = .ok (c', woken', answer) ∧ Ahead now c c' ∧
          (op = .credit → c'.balance = c.balance) := by
    intro equal capacity
    cases operated : b.operate now op with
    | error panic =>
        exact .inl ⟨panic, rfl, equal.trans operated⟩
    | ok r =>
        rcases r with ⟨c, woken, answer⟩
        exact .inr ⟨c, c, woken, woken, answer, rfl, equal.trans operated,
          refl (capacity operated) now, fun _ => rfl⟩
  cases op with
  | instantGrab tokens =>
      refine crediting ?_ fun {c woken answer} operated => ?_
      · simp only [Bucket.operate, instantGrab, same rfl]
      · simp only [Bucket.operate, instantGrab] at operated
        split at operated <;> cases operated <;> exact h.range
  | forceGrab tokens =>
      refine crediting ?_ fun {c woken answer} operated => ?_
      · simp only [Bucket.operate, forceGrab, same rfl]
      · cases operated
        exact h.range
  | recycle tokens =>
      exact .inr ⟨_, _, _, _, _, rfl, rfl, h.recycle tokens, fun other => by cases other⟩
  | credit =>
      refine crediting ?_ fun {c woken answer} operated => ?_
      · simp only [Bucket.operate, same rfl]
      · cases operated
        exact h.range
  | changeInterval interval =>
      cases checked : checkInterval interval with
      | error refused =>
          refine .inr ⟨b, b', [], [], .refused refused, ?_, ?_, h, fun other => by cases other⟩
          · simp only [Bucket.operate, change, checked]
          · simp only [Bucket.operate, change, checked]
      | ok interval' =>
          refine crediting ?_ fun {c woken answer} operated => ?_
          · have nonzero : interval.toNat ≠ 0 := by
              intro zero
              simp [checkInterval, zero] at checked
            simp only [Bucket.operate, checked, changeInterval, same (decide_eq_true nonzero)]
            rfl
          · simp only [Bucket.operate, change, checked] at operated
            rcases ok_of_bind operated with ⟨⟨c₁, woken₁⟩, changed, rest⟩
            cases rest
            rw [capacity_setInterval changed]
            exact h.range
  | changeCapacity capacity =>
      cases plain
  | changeBoth interval capacity =>
      cases plain

end Ahead

/-! ## Calls -/

structure Call where
  now : Instant
  operation : Operation
  /-- Whether it was put into a run that does without it. -/
  extra : Bool := false
  deriving DecidableEq, Repr

/-- What is seen of a call: the answer to it, and the balance after a credit. -/
structure Reading where
  call : Call
  answer : Answer
  balance : Option Int
  deriving DecidableEq, Repr

def call (e : State) (c : Call) : Except Panic (State × Reading) := do
  let (e, answer) ← (e.setClock c.now).act program (.operate c.operation)
  return (e, ⟨c, answer, if c.operation = .credit then some e.shared.balance else none⟩)

/-- What is seen of calls that are made one after another. A defect ends them. -/
def readings : State → List Call → Except Panic (List Reading)
  | _, [] => .ok []
  | e, c :: rest => do
      let (e, reading) ← call e c
      return reading :: (← readings e rest)

/-- Whether the whole intervals since the last credit are in the range of balances whenever a call
begins with a credit. -/
def isTimely : State → List Call → Bool
  | _, [] => true
  | e, c :: rest =>
      (!c.operation.isCrediting || decide (e.shared.pending c.now < 2 ^ 63)) &&
        match call e c with
        | .ok (e, _) => isTimely e rest
        | .error _ => true

/-- Whether a call is of the kinds that credits do not show in, and a credit if it was put in. -/
def Call.isSound (c : Call) : Bool :=
  c.operation.isPlain && (!c.extra || c.operation == .credit)

variable {e e' : State}

theorem perform_setClock (e : State) (c : Call) :
    program.perform (e.setClock c.now).now (e.setClock c.now).tasks.length
      (.operate c.operation) (e.setClock c.now).shared =
        e.shared.perform c.now (.operate c.operation) := by
  rw [(setClock_alike e c.now).now, (setClock_alike e c.now).shared]
  rfl

/-- A call that ends in a defect ends the run. -/
theorem call_of_error {c : Call} {panic : Panic}
    (h : e.shared.operate c.now c.operation = .error panic) : call e c = .error panic := by
  unfold call Executor.act
  rw [perform_setClock]
  simp only [perform, h, bind, Except.bind]

/-- A call operates on the bucket. -/
theorem call_of_ok {c : Call} {woken : List TaskId} {answer : Answer}
    (h : e.shared.operate c.now c.operation = .ok (b, woken, answer)) :
    ∃ e', e'.shared = b ∧ call e c =
      .ok (e', ⟨c, answer, if c.operation = .credit then some b.balance else none⟩) := by
  have shared : (({ e.setClock c.now with shared := b } : State).carryOutAll program
      (woken.map .wake)).shared = b := (carryOutAll_wake woken _).shared
  refine ⟨_, shared, ?_⟩
  unfold call Executor.act
  rw [perform_setClock]
  simp only [perform, h, bind, Except.bind, pure, Except.pure, shared]

/-- No call tells two buckets apart if one is ahead of the other. -/
theorem Ahead.call {c : Call} (h : Ahead c.now e.shared e'.shared)
    (plain : c.operation.isPlain = true)
    (few : c.operation.isCrediting = true → e.shared.pending c.now < 2 ^ 63) :
    (∃ panic, call e c = .error panic ∧ call e' c = .error panic) ∨
      ∃ e₁ e₁' r, call e c = .ok (e₁, r) ∧ call e' c = .ok (e₁', r) ∧ r.call = c ∧
        Ahead c.now e₁.shared e₁'.shared := by
  rcases h.operate plain few with ⟨panic, failed, failed'⟩ |
    ⟨b, b', woken, woken', answer, done, done', ahead, balance⟩
  · exact .inl ⟨panic, call_of_error failed, call_of_error failed'⟩
  · rcases call_of_ok done with ⟨e₁, rfl, called⟩
    rcases call_of_ok done' with ⟨e₁', rfl, called'⟩
    refine .inr ⟨e₁, e₁', _, called, ?_, rfl, ahead⟩
    rw [called']
    by_cases credit : c.operation = .credit
    · rw [balance credit]
    · rw [if_neg credit, if_neg credit]

/-! ## Credits that are put in -/

/-- What is seen of the calls that a run makes itself is what is seen without the credits that were
put in, also if the bucket is ahead at first. -/
theorem Ahead.readings {calls : List Call} (h : Ahead now e.shared e'.shared)
    (sound : ∀ c ∈ calls, c.isSound = true) (after : ∀ c ∈ calls, now ≤ c.now)
    (forward : calls.Pairwise fun c c' => c.now ≤ c'.now)
    (timely : isTimely e (calls.filter fun c => !c.extra) = true) :
    (readings e' calls).map (List.filter fun r => !r.call.extra) =
      readings e (calls.filter fun c => !c.extra) := by
  induction calls generalizing now e e' with
  | nil =>
      rfl
  | cons c rest ih =>
      rcases List.pairwise_cons.1 forward with ⟨first, later⟩
      have sound' : ∀ c ∈ rest, c.isSound = true := fun c member =>
        sound c (List.mem_cons_of_mem _ member)
      have own := sound c List.mem_cons_self
      have there := h.later (after c List.mem_cons_self)
      simp only [Call.isSound, Bool.and_eq_true, Bool.or_eq_true, Bool.not_eq_true', beq_iff_eq]
        at own
      cases put : c.extra with
      | true =>
          -- a credit that is put in leaves the bucket further ahead
          have credit : c.operation = .credit := by simpa [put] using own.2
          have without : (c :: rest).filter (fun c => !c.extra) =
              rest.filter fun c => !c.extra := by simp [put]
          have done : e'.shared.operate c.now c.operation =
              .ok (e'.shared.credit c.now, [], .done) := by rw [credit]; rfl
          rcases call_of_ok done with ⟨e₁, same, called⟩
          have ahead : Ahead c.now e.shared e₁.shared := same ▸ there.step
          rw [without] at timely ⊢
          rw [← ih ahead sound' first later timely]
          cases seen : Bucket.readings e₁ rest <;>
            simp [Bucket.readings, called, seen, bind, Except.bind, pure, Except.pure, Except.map,
              put]
      | false =>
          have kept : (c :: rest).filter (fun c => !c.extra) =
              c :: rest.filter fun c => !c.extra := by simp [put]
          rw [kept] at timely ⊢
          simp only [isTimely, Bool.and_eq_true] at timely
          have few : c.operation.isCrediting = true → e.shared.pending c.now < 2 ^ 63 := by
            intro credits
            simpa [credits] using timely.1
          rcases there.call own.1 few with ⟨panic, failed, failed'⟩ |
            ⟨e₁, e₁', r, called, called', rfl, ahead⟩
          · simp [Bucket.readings, failed, failed', bind, Except.bind, Except.map]
          · have remaining := timely.2
            rw [called] at remaining
            have rest' := ih ahead sound' first later remaining
            simp only [Bucket.readings, called, called', bind, Except.bind, pure, Except.pure]
            rw [← rest']
            cases seen : Bucket.readings e₁' rest <;> simp [Except.map, put]

/-- Credit depends on elapsed time only. Credits at any moments in any order are one credit at the
latest of them, as long as the whole intervals up to that moment are in the range of balances. It adds
these, as far as the bucket holds them, and keeps the part that has passed of the next one. So credits
that are put into a run of calls while the clock does not go back change no answer to the other calls
and no balance that is read after a credit; whether a call ends in a defect is not changed either. -/
theorem credit_of_elapsed (e : State) (range : e.shared.capacity ≤ maxBalance) :
    (∀ (instants : List Instant) (latest : Instant), latest ∈ instants →
        (∀ t ∈ instants, t ≤ latest) → e.shared.pending latest < 2 ^ 63 →
        instants.foldl (fun b now => b.credit now) e.shared = e.shared.credit latest ∧
          (e.shared.credit latest).balance =
            min (e.shared.balance + e.shared.pending latest) e.shared.capacity ∧
          (e.shared.credit latest).creditedTo =
            e.shared.creditedTo + e.shared.pending latest * e.shared.interval) ∧
      ∀ calls : List Call, (∀ c ∈ calls, c.isSound = true) →
        (calls.Pairwise fun c c' => c.now ≤ c'.now) →
        isTimely e (calls.filter fun c => !c.extra) = true →
        (readings e calls).map (List.filter fun r => !r.call.extra) =
          readings e (calls.filter fun c => !c.extra) := by
  refine ⟨?_, ?_⟩
  · intro instants latest member le few
    refine ⟨foldl_credit_eq range member le few, ?_, ?_⟩
    · rw [credit_eq range, earned_of_pending few]
    · rw [credit_eq range, earned_of_pending few]
  · intro calls sound forward timely
    exact (Ahead.refl range 0).readings sound (fun c _ => Nat.zero_le c.now) forward timely

def indebted : State :=
  opening 0 ⟨-2, 100, 10, 0, 0, []⟩

def padded : List Call :=
  -- three tokens are asked for twice, with credits put in before, between and after
  [⟨12, .credit, true⟩, ⟨35, .instantGrab 3, false⟩, ⟨41, .credit, true⟩, ⟨47, .recycle 3, false⟩,
    ⟨55, .changeInterval 5, false⟩, ⟨58, .credit, true⟩, ⟨64, .instantGrab 3, false⟩,
    ⟨66, .credit, false⟩, ⟨90, .credit, true⟩]

theorem indebted_credit_of_elapsed :
    (([35, 12, 27].foldl (fun b now => b.credit now) indebted.shared =
          indebted.shared.credit 35 ∧
        (indebted.shared.credit 35).balance = 1 ∧ (indebted.shared.credit 35).creditedTo = 30) ∧
      (readings indebted padded).map (List.filter fun r => !r.call.extra) =
        readings indebted (padded.filter fun c => !c.extra)) := by
  have range : indebted.shared.capacity ≤ maxBalance := by decide
  have elapsed := credit_of_elapsed indebted range
  have few : indebted.shared.pending 35 < 2 ^ 63 := by decide
  have sound : ∀ c ∈ padded, c.isSound = true := by decide
  have forward : padded.Pairwise fun c c' => c.now ≤ c'.now := by decide
  have timely : isTimely indebted (padded.filter fun c => !c.extra) = true := by decide
  exact ⟨elapsed.1 [35, 12, 27] 35 (by decide) (by decide) few,
    elapsed.2 padded sound forward timely⟩

end Bucket
end MeteredFetch
