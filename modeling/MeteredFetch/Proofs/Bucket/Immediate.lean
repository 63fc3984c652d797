import MeteredFetch.Proofs.Bucket.Elapsed

/-!
# Immediate — tokens that are taken at once, if there are more of them

An immediate withdrawal looks at what the bucket holds after a credit, and takes an amount if the
bucket holds more than that. So a bucket from which nobody takes otherwise is never emptied, and what
was taken stays below what was there, was earned and was returned.

* `Bucket.amount_lt_iff` — an amount that is too large for a balance is never taken;
* `Bucket.act_instantGrab` — when an immediate withdrawal is granted, and what it leaves;
* `Bucket.Moment.isImmediate` — the moves of a run in which tokens are taken at once or not at all;
* `Bucket.balance_add_taken_le`, `Bucket.instant_grabs_within` — the bound of such a run, which is strict
  once something was granted.
-/

namespace MeteredFetch
namespace Bucket

open Executor

variable {b : Bucket} {now : Instant} {tokens : UInt64} {e e' : State} {hs : List Moment}

/-! ## One withdrawal -/

/-- An amount beyond the range of balances stands for the largest balance, which no balance exceeds. -/
theorem amount_lt_iff {balance : Int} (most : balance ≤ maxBalance) :
    (amount tokens : Int) < balance ↔ (tokens.toNat : Int) < balance := by
  unfold amount
  omega

/-- What the bucket holds after a credit, as long as the intervals that have passed can be counted. -/
theorem balance_credit_of_few (range : b.capacity ≤ maxBalance) (few : b.pending now < 2 ^ 63) :
    (b.credit now).balance = min (b.capacity : Int) (b.balance + b.pending now) := by
  rw [credit_eq range, earned_of_pending few, Int.min_comm]

/-- A withdrawal is granted if the credited balance exceeds the amount, and leaves something then. If it
is refused, it was a credit. -/
theorem instantGrab_cases (now : Instant) (tokens : UInt64) (b : Bucket) :
    ((amount tokens : Int) < (b.credit now).balance ∧ (b.instantGrab now tokens).2 = true ∧
        1 ≤ (b.instantGrab now tokens).1.balance) ∨
      ((b.credit now).balance ≤ amount tokens ∧ b.instantGrab now tokens = (b.credit now, false)) := by
  by_cases enough : (amount tokens : Int) < (b.credit now).balance
  · have granted : b.instantGrab now tokens = ((b.credit now).withdraw (amount tokens), true) :=
      if_pos enough
    have left : (b.credit now).balance - amount tokens ≤
        ((b.credit now).withdraw (amount tokens)).balance := Int.le_max_left _ _
    rw [granted]
    exact .inl ⟨enough, rfl, Int.le_trans (by omega) left⟩
  · exact .inr ⟨Int.not_lt.1 enough, if_neg enough⟩

theorem act_instantGrab_eq (e : State) (tokens : UInt64) :
    e.act program (.operate (.instantGrab tokens)) =
      .ok ({ e with shared := (e.shared.instantGrab e.now tokens).1 },
        .taken (e.shared.instantGrab e.now tokens).2) := by
  have operated : e.shared.operate e.now (.instantGrab tokens) =
      .ok ((e.shared.instantGrab e.now tokens).1, [],
        .taken (e.shared.instantGrab e.now tokens).2) := rfl
  exact act_of_operate operated

/-- An immediate withdrawal is granted exactly if the amount is less than the capacity and less than the
balance with what was earned since the last credit. It leaves at least one token. A refused one leaves
what a credit leaves. -/
theorem act_instantGrab (range : e.shared.capacity ≤ maxBalance)
    (few : e.shared.pending e.now < 2 ^ 63) (tokens : UInt64) :
    ∃ e' granted, e.act program (.operate (.instantGrab tokens)) = .ok (e', .taken granted) ∧
      (granted = true ↔ (tokens.toNat : Int) <
        min (e.shared.capacity : Int) (e.shared.balance + e.shared.pending e.now)) ∧
      (granted = true → 1 ≤ e'.shared.balance) ∧
      (granted = false → e.act program (.operate .credit) = .ok (e', .done)) := by
  have most : (e.shared.credit e.now).balance ≤ maxBalance :=
    Int.le_trans (credit_balance_le e.now e.shared) (Int.ofNat_le.2 range)
  have held := balance_credit_of_few range few
  refine ⟨{ e with shared := (e.shared.instantGrab e.now tokens).1 },
    (e.shared.instantGrab e.now tokens).2, act_instantGrab_eq e tokens, ?_⟩
  rw [← held, ← amount_lt_iff most]
  rcases instantGrab_cases e.now tokens e.shared with ⟨enough, granted, left⟩ | ⟨short, refused⟩
  · refine ⟨⟨fun _ => enough, fun _ => granted⟩, fun _ => left, fun denied => ?_⟩
    rw [granted] at denied
    cases denied
  · have denied : (e.shared.instantGrab e.now tokens).2 = false := by rw [refused]
    refine ⟨⟨fun granted => ?_, fun enough => absurd enough (Int.not_lt.2 short)⟩,
      fun granted => ?_, fun _ => ?_⟩
    · rw [denied] at granted
      cases granted
    · rw [denied] at granted
      cases granted
    · have credited : e.shared.operate e.now .credit =
          .ok (e.shared.credit e.now, [], .done) := rfl
      rw [refused]
      exact act_of_operate credited

/-! ## Runs -/

/-- Whether an operation takes tokens at once if they are there, returns some, or credits. -/
def Operation.isImmediate : Operation → Bool
  | .instantGrab _ | .recycle _ | .credit => true
  | .forceGrab _ | .changeInterval _ | .changeCapacity _ | .changeBoth _ _ => false

namespace Moment

/-- Whether tokens are taken at once or not at all, capacity and interval stay what they are, and no
time runs back. -/
def isImmediate (m : Moment) : Bool :=
  match m.2 with
  | .act (.operate op) _ => op.isImmediate
  | .clock time => decide (m.1.now ≤ time)
  | .act (.grab _) _ | .turn | .kill _ => false

def grants (m : Moment) : Bool :=
  match m.2 with
  | .act (.operate (.instantGrab _)) (.taken granted) => granted
  | _ => false

end Moment

/-- In such a run no debt is cleared, and no withdrawal falls short of what it takes. -/
theorem steady_of_isImmediate {m : Moment} (immediate : Moment.isImmediate m = true) :
    Moment.isSteady m = true ∧ Moment.cleared m = 0 ∧ Moment.spared m = 0 := by
  rcases m with ⟨e, l⟩
  cases l with
  | act action answer =>
      cases action with
      | operate op =>
          cases op with
          | instantGrab tokens => exact ⟨rfl, rfl, rfl⟩
          | recycle tokens => exact ⟨rfl, rfl, rfl⟩
          | credit => exact ⟨rfl, rfl, rfl⟩
          | _ => cases immediate
      | grab tokens => cases immediate
  | turn => cases immediate
  | clock time => exact ⟨immediate, rfl, rfl⟩
  | kill task => cases immediate

/-- What is taken at a moment was granted at it. -/
theorem taken_of_not_grants {m : Moment} (immediate : Moment.isImmediate m = true)
    (denied : Moment.grants m = false) : Moment.taken m = 0 := by
  rcases m with ⟨e, l⟩
  cases l with
  | act action answer =>
      cases action with
      | operate op =>
          cases op with
          | instantGrab tokens =>
              cases answer with
              | taken granted =>
                  cases denied
                  rfl
              | _ => rfl
          | recycle tokens => rfl
          | credit => rfl
          | _ => cases immediate
      | grab tokens => rfl
  | _ => rfl

/-- A withdrawal that is granted leaves something. -/
theorem pos_of_grants {l : Label Action Answer} (step : Step program e l e')
    (granted : Moment.grants (e, l) = true) : 1 ≤ e'.shared.balance := by
  cases step with
  | @act _ action answer acted =>
      cases action with
      | grab tokens => cases granted
      | operate op =>
          cases op with
          | instantGrab tokens =>
              have done := act_instantGrab_eq e tokens
              rcases Prod.mk.inj (Except.ok.inj (done.symm.trans acted)) with ⟨rfl, rfl⟩
              rcases instantGrab_cases e.now tokens e.shared with ⟨_, _, left⟩ | ⟨_, refused⟩
              · exact left
              · simp only [Moment.grants, refused] at granted
                cases granted
          | _ => cases granted
  | turn _ => cases granted
  | clock time => cases granted
  | kill task => cases granted

/-- No time runs back. -/
theorem now_le_of_isImmediate {l : Label Action Answer} (step : Step program e l e')
    (immediate : Moment.isImmediate (e, l) = true) : e.now ≤ e'.now := by
  cases step with
  | @act _ action answer acted =>
      cases action with
      | operate op =>
          rcases operate_alike acted with ⟨b, woken, _, alike⟩
          exact Nat.le_of_eq alike.now.symm
      | grab tokens => cases immediate
  | turn _ => cases immediate
  | clock time =>
      rw [(setClock_alike e time).now]
      exact of_decide_eq_true immediate
  | kill task => cases immediate

variable {capacity interval : UInt64} {initial : Int64} {start : Instant}

/-- What is there and what was taken was there at first, or was earned, or was returned. -/
theorem balance_add_taken_le (made : create capacity interval initial start = .ok b)
    (history : History program (opening start b) hs e)
    (immediate : ∀ m ∈ hs, Moment.isImmediate m = true) :
    e.shared.balance + along Moment.taken hs ≤
      initial.toInt + ticks interval.toNat start e.now + along Moment.returned hs := by
  have books := balance_add_withdrawn made history fun m member =>
    (steady_of_isImmediate (immediate m member)).1
  have cleared : along Moment.cleared hs = 0 := along_eq_zero fun m member =>
    (steady_of_isImmediate (immediate m member)).2.1
  have spared : along Moment.spared hs = 0 := along_eq_zero fun m member =>
    (steady_of_isImmediate (immediate m member)).2.2
  unfold withdrawn at books
  omega

/-- The bound is strict as soon as something was granted, since that left a token. -/
theorem taken_lt (made : create capacity interval initial start = .ok b)
    (history : History program (opening start b) hs e)
    (immediate : ∀ m ∈ hs, Moment.isImmediate m = true) (some : ∃ m ∈ hs, Moment.grants m = true) :
    (along Moment.taken hs : Int) <
      initial.toInt + ticks interval.toNat start e.now + along Moment.returned hs := by
  -- the last move was granted, or nothing was taken in it
  induction history with
  | refl =>
      rcases some with ⟨m, never, _⟩
      cases never
  | @tail hs l e e' before step ih =>
      have last : Moment.isImmediate (e, l) = true := immediate _ (by simp)
      cases granted : Moment.grants (e, l) with
      | true =>
          have bound := balance_add_taken_le made (before.tail step) immediate
          have left := pos_of_grants step granted
          omega
      | false =>
          have earlier : ∃ m ∈ hs, Moment.grants m = true := by
            rcases some with ⟨m, member, grants⟩
            rcases List.mem_append.1 member with old | new
            · exact ⟨m, old, grants⟩
            · cases List.mem_singleton.1 new
              rw [granted] at grants
              cases grants
          have bound := ih (fun m member => immediate m (List.mem_append_left _ member)) earlier
          have nothing := taken_of_not_grants last granted
          have later : ticks interval.toNat start e.now ≤ ticks interval.toNat start e'.now :=
            Nat.div_le_div_right (Nat.sub_le_sub_right (now_le_of_isImmediate step last) start)
          simp only [along_snoc, nothing]
          omega

/-- Immediate withdrawals never overspend. In every run in which tokens are taken at once, returned and
credited, a withdrawal is granted exactly if its amount is less than the capacity and than the balance
with the intervals that have passed since the last credit (fewer than a balance can count). A granted one
leaves at least one token, and a refused one what a credit leaves. Once something was granted, all that
was granted is less than what was there at first, was earned since and was returned. -/
theorem instant_grabs_within (made : create capacity interval initial start = .ok b)
    (history : History program (opening start b) hs e)
    (immediate : ∀ m ∈ hs, Moment.isImmediate m = true) :
    (e.shared.pending e.now < 2 ^ 63 → ∀ tokens : UInt64,
        ∃ e' granted, e.act program (.operate (.instantGrab tokens)) = .ok (e', .taken granted) ∧
          (granted = true ↔ (tokens.toNat : Int) <
            min (capacity.toNat : Int) (e.shared.balance + e.shared.pending e.now)) ∧
          (granted = true → 1 ≤ e'.shared.balance) ∧
          (granted = false → e.act program (.operate .credit) = .ok (e', .done))) ∧
      ((∃ m ∈ hs, Moment.grants m = true) →
        (along Moment.taken hs : Int) <
          initial.toInt + ticks interval.toNat start e.now + along Moment.returned hs) := by
  rcases create_eq_ok made with ⟨_, fits, positive⟩
  have steady : ∀ m ∈ hs, Moment.isSteady m = true := fun m member =>
    (steady_of_isImmediate (immediate m member)).1
  have sound := (ledger_of_history fits positive (sound_opening made) history steady).1
  have terms := sound.shared.capacity
  refine ⟨fun few tokens => ?_, taken_lt made history immediate⟩
  have grab := act_instantGrab (terms ▸ fits) few tokens
  rw [terms] at grab
  exact grab

def sparing : List Moment × State :=
  follow program (opening 0 ⟨-2, 8, 10, 0, 0, []⟩)
    -- first the debt is earned back; the last amount is beyond the range of balances
    [.act (.operate (.instantGrab 0)) (), .clock 95, .act (.operate (.instantGrab 5)) (),
      .act (.operate (.instantGrab 3)) (), .act (.operate (.recycle 4)) (),
      .act (.operate (.instantGrab 0xffffffffffffffff)) (), .clock 100]

theorem sparing_instant_grabs_within :
    create 8 10 (-2) 0 = .ok ⟨-2, 8, 10, 0, 0, []⟩ ∧
      (∀ m ∈ sparing.1, Moment.isImmediate m = true) ∧
      (∃ m ∈ sparing.1, Moment.grants m = true) ∧
      (∃ e' granted, sparing.2.act program (.operate (.instantGrab 6)) = .ok (e', .taken granted) ∧
        (granted = true ↔ (6 : Int) < min 8 (6 + 1))) ∧
      (along Moment.taken sparing.1 : Int) <
        -2 + ticks 10 0 sparing.2.now + along Moment.returned sparing.1 := by
  have made : create 8 10 (-2) 0 = .ok ⟨-2, 8, 10, 0, 0, []⟩ := rfl
  have immediate : ∀ m ∈ sparing.1, Moment.isImmediate m = true := by decide
  have some : ∃ m ∈ sparing.1, Moment.grants m = true := by decide
  rcases instant_grabs_within made (history_follow _ _) immediate with ⟨calls, bound⟩
  rcases calls (by decide) 6 with ⟨e', granted, acted, exactly, _⟩
  exact ⟨made, immediate, some, ⟨e', granted, acted, exactly⟩, bound some⟩

end Bucket
end MeteredFetch
