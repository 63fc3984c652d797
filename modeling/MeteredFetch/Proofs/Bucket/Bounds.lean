import MeteredFetch.Proofs.Bucket.Conservation
import MeteredFetch.Proofs.Bucket.Steps

/-!
# Bounds — what no operation and no caller breaks

Some operations credit without looking at the capacity, some withdraw without looking at the balance,
and the capacity itself moves. A caller takes what it has waited for after others have done all of this.
Still the balance is limited by the capacity from the first moment on at which somebody saw to it.

* `Bucket.Bounded` — the bounds that hold all the time: those of capacity and interval, and that nothing
  was credited ahead of time;
* `Bucket.Keeps` — a change keeps to the bounds, and to the capacity if it did before;
* `Bucket.keeps_of_operate`, `Bucket.keeps_of_turn` — every operation and every turn of a caller keeps
  to them;
* `Bucket.Moment.limits` — the moments from which on the balance is limited in any case;
* `Bucket.balance_le_capacity` — the bounds of a run.
-/

namespace MeteredFetch
namespace Bucket

open Executor

/-! ## The bounds -/

/-- Capacity and interval are in their range, and tokens were credited for no time after `latest`. -/
structure Bounded (latest : Instant) (b : Bucket) : Prop where
  positive : 1 ≤ b.capacity
  fits : b.capacity ≤ maxBalance
  earns : 1 ≤ b.interval
  upTo : b.creditedTo ≤ latest

def Within (b : Bucket) : Prop :=
  b.balance ≤ b.capacity

variable {latest now : Instant} {b b' : Bucket}

theorem within_clip (b : Bucket) : Within b.clip :=
  Int.min_le_right _ _

/-- A credit brings the balance back under the capacity. -/
theorem within_credit (now : Instant) (b : Bucket) : Within (b.credit now) :=
  credit_balance_le now b

/-- A balance that was withdrawn from is smaller, or it is a debt. -/
theorem Within.withdraw (h : Within b) (tokens : Nat) : Within (b.withdraw tokens) := by
  have debt : minBalance ≤ 0 := by decide
  unfold Within at *
  simp only [Bucket.withdraw]
  omega

namespace Bounded

theorem mono {latest' : Instant} (h : Bounded latest b) (le : latest ≤ latest') :
    Bounded latest' b :=
  { h with upTo := Nat.le_trans h.upTo le }

/-- The moment up to which tokens were credited only moves by whole intervals that have passed. -/
theorem creditUnclipped (h : Bounded latest b) (now : Instant) :
    Bounded (max latest now) (b.creditUnclipped now) := by
  refine { h with upTo := ?_ }
  -- it is credited for whole intervals, which lie within the time that has passed
  have few : b.earned now ≤ (now - b.creditedTo) / b.interval := Nat.min_le_left _ _
  have passed : b.earned now * b.interval ≤ now - b.creditedTo :=
    (Nat.le_div_iff_mul_le h.earns).1 few
  have before := h.upTo
  simp only [Bucket.creditUnclipped]
  unfold Instant at *
  omega

theorem clip (h : Bounded latest b) : Bounded latest b.clip :=
  { h with }

/-- A credit dates the bucket no later than the moment at which it is made. -/
theorem credit (h : Bounded latest b) (now : Instant) : Bounded (max latest now) (b.credit now) :=
  (h.creditUnclipped now).clip

theorem withdraw (h : Bounded latest b) (tokens : Nat) : Bounded latest (b.withdraw tokens) :=
  { h with }

theorem setCapacity {capacity : Nat} (h : Bounded latest b) (positive : 1 ≤ capacity)
    (fits : capacity ≤ maxBalance) : Bounded latest (b.setCapacity capacity) :=
  { h with positive, fits }

/-- A new interval keeps the bounds, if it earns anything at all. -/
theorem setInterval {interval : Nat} {woken : List TaskId} (h : Bounded latest b)
    (earns : 1 ≤ interval) (set : b.setInterval now interval = .ok (b', woken)) :
    Bounded latest b' := by
  unfold Bucket.setInterval at set
  split at set
  · rcases ok_of_bind set with ⟨cursor, _, rest⟩
    cases rest
    exact { h with earns }
  · cases set
    exact { h with earns }

end Bounded

theorem interval_of_setInterval {interval : Nat} {woken : List TaskId}
    (h : b.setInterval now interval = .ok (b', woken)) :
    b'.interval = interval ∧ b'.creditedTo = b.creditedTo := by
  unfold setInterval at h
  split at h
  · rcases ok_of_bind h with ⟨cursor, _, rest⟩
    cases rest
    exact ⟨rfl, rfl⟩
  · cases h
    exact ⟨rfl, rfl⟩

theorem Within.setInterval {interval : Nat} {woken : List TaskId} (h : Within b)
    (set : b.setInterval now interval = .ok (b', woken)) : Within b' := by
  unfold Bucket.setInterval at set
  split at set
  · rcases ok_of_bind set with ⟨cursor, _, rest⟩
    cases rest
    exact h
  · cases set
    exact h

/-- One bucket follows another within the bounds, with no time credited after `latest`. The balance is
limited by the capacity if it was before, and in any case if `limits` says so. -/
structure Keeps (latest : Instant) (limits : Prop) (b b' : Bucket) : Prop where
  bounded : Bounded latest b'
  within : limits ∨ Within b → Within b'

namespace Keeps

variable {limits : Prop}

theorem of_within (bounded : Bounded latest b') (within : Within b') : Keeps latest limits b b' :=
  ⟨bounded, fun _ => within⟩

/-- The balance is as it was, and was not looked at. -/
theorem of_same (bounded : Bounded latest b') (idle : ¬ limits) (balance : b'.balance = b.balance)
    (capacity : b'.capacity = b.capacity) : Keeps latest limits b b' := by
  refine ⟨bounded, fun either => ?_⟩
  have before : Within b := either.resolve_left idle
  unfold Within at *
  omega

end Keeps

/-! ## Operations -/

/-- A capacity that is not refused is in its range. -/
theorem of_checkCapacity {capacity : UInt64} {n : Nat} (h : checkCapacity capacity = .ok n) :
    1 ≤ n ∧ n ≤ maxBalance := by
  unfold checkCapacity at h
  split at h
  · rename_i inRange
    cases h
    exact inRange
  · cases h

theorem of_checkInterval {interval : UInt64} {n : Nat} (h : checkInterval interval = .ok n) :
    1 ≤ n := by
  unfold checkInterval at h
  split at h
  · cases h
  · rename_i nonzero
    cases h
    exact Nat.pos_of_ne_zero nonzero

theorem eq_of_checkInterval {q : UInt64} {n : Nat} (h : checkInterval q = .ok n) : n = q.toNat := by
  unfold checkInterval at h
  split at h <;> cases h
  rfl

namespace Operation

/-- Whether an operation reads the clock, given its answer. What is returned is not dated, and a
change is refused before the clock is read. -/
def reads : Operation → Answer → Bool
  | .recycle _, _ => false
  | _, .refused _ => false
  | _, _ => true

end Operation

namespace Answer

def isDone : Answer → Bool
  | .refused _ => false
  | .done | .taken _ | .changed => true

end Answer

/-- A change is refused, and everything is as it was, or it is made with arguments that were checked. -/
theorem change_cases {α : Type} {checked : Except FetchError α} {answer : Answer}
    {make : α → Except Panic (Bucket × List TaskId)} {woken : List TaskId}
    (h : b.change checked make = .ok (b', woken, answer)) :
    (∃ error, answer = .refused error ∧ b' = b) ∨
      (answer = .changed ∧ ∃ x, checked = .ok x ∧ make x = .ok (b', woken)) := by
  unfold change at h
  cases checked with
  | error e =>
      cases h
      exact .inl ⟨e, rfl, rfl⟩
  | ok x =>
      rcases ok_of_bind h with ⟨⟨b₁, woken₁⟩, made, rest⟩
      cases rest
      exact .inr ⟨rfl, x, rfl, made⟩

/-- Whatever is done, it is refused, or it sees to it that the balance is limited. -/
theorem keeps_of_operate {op : Operation} {woken : List TaskId} {answer : Answer}
    (h : Bounded latest b) (operated : b.operate now op = .ok (b', woken, answer)) :
    Keeps (if op.reads answer then max latest now else latest) (answer.isDone = true) b b' := by
  have refused : ∀ {op : Operation} {error : FetchError},
      Keeps (if op.reads (.refused error) then max latest now else latest)
        (Answer.isDone (.refused error) = true) b b := by
    intro op error
    have unread : op.reads (.refused error) = false := by cases op <;> rfl
    rw [unread]
    exact .of_same h Bool.false_ne_true rfl rfl
  cases op with
  | instantGrab tokens =>
      simp only [operate, instantGrab] at operated
      split at operated
      · cases operated
        exact .of_within ((h.credit now).withdraw _) ((within_credit now b).withdraw _)
      · cases operated
        exact .of_within (h.credit now) (within_credit now b)
  | forceGrab tokens =>
      cases operated
      exact .of_within ((h.credit now).withdraw _).clip (within_clip _)
  | recycle tokens =>
      cases operated
      exact .of_within (Bounded.clip { h with }) (within_clip _)
  | credit =>
      cases operated
      exact .of_within (h.credit now) (within_credit now b)
  | changeInterval interval =>
      rcases change_cases operated with ⟨error, rfl, rfl⟩ | ⟨rfl, n, checked, made⟩
      · exact refused
      · exact .of_within ((h.credit now).setInterval (of_checkInterval checked) made)
          ((within_credit now b).setInterval made)
  | changeCapacity capacity =>
      rcases change_cases operated with ⟨error, rfl, rfl⟩ | ⟨rfl, n, checked, made⟩
      · exact refused
      · cases made
        rcases of_checkCapacity checked with ⟨positive, fits⟩
        exact .of_within ((h.creditUnclipped now).setCapacity positive fits) (within_clip _)
  | changeBoth interval capacity =>
      rcases change_cases operated with ⟨error, rfl, rfl⟩ | ⟨rfl, ⟨i, n⟩, checked, made⟩
      · exact refused
      · -- the interval is changed first, and the balance limited by the new capacity at the end
        rcases ok_of_bind checked with ⟨i, earns, checked⟩
        rcases ok_of_bind checked with ⟨n, inRange, checked⟩
        cases checked
        rcases ok_of_bind made with ⟨⟨b₁, woken₁⟩, set, rest⟩
        cases rest
        rcases of_checkCapacity inRange with ⟨positive, fits⟩
        have paced := (h.creditUnclipped now).setInterval (of_checkInterval earns) set
        exact .of_within (paced.setCapacity positive fits) (within_clip _)

/-! ## Turns -/

/-- A chunk is credited for before it is taken or waited for. What it leaves is no more than what it has
found. -/
theorem keeps_of_draw {tokens : Nat} {o : Option Wait} (h : Bounded latest b)
    (drawn : b.draw now tokens = .ok (b', o)) : Bounded (max latest now) b' ∧ Within b' := by
  have found := within_credit now b
  have credited := h.credit now
  unfold Within at found
  cases o with
  | none =>
      rcases draw_eq_none h.earns drawn with ⟨_, cursor, _, rfl⟩
      refine ⟨{ credited with }, ?_⟩
      unfold Within
      simp only
      omega
  | some w =>
      rcases draw_eq_some drawn with ⟨_, _, _, rfl⟩
      exact ⟨{ credited with }, Int.natCast_nonneg _⟩

/-- Chunks keep the bounds, and any chunk at all brings the balance under the capacity. -/
theorem Draws.keeps {id : TaskId} {c : Chunks} {ds : List Draw} {o : Option Caller}
    (drawn : Draws now id c b ds b' o) (h : Bounded latest b) :
    Keeps (max latest now) (ds ≠ []) b b' := by
  induction drawn generalizing latest with
  | done b last =>
      exact .of_same (h.mono (Nat.le_max_left _ _)) (fun some => some rfl) rfl rfl
  | taken first drawn _ ih =>
      -- the chunks that follow find a balance that is limited
      rcases keeps_of_draw h drawn with ⟨bounded, within⟩
      have later := ih bounded
      rw [Nat.max_assoc, Nat.max_self] at later
      exact .of_within later.bounded (later.within (.inr within))
  | held first drawn =>
      rcases keeps_of_draw h drawn with ⟨bounded, within⟩
      exact .of_within { bounded with } within

/-- Whatever was done while a caller was asleep, its turn keeps to the bounds. The tokens that it has
waited for are taken from the balance as it is. -/
theorem keeps_of_turn {id : TaskId} {c : Caller} {o : Option Caller} (h : Bounded latest b)
    (turned : c.turn now id b = .ok (b', o)) :
    Keeps (max latest now) (c.draws now id b ≠ []) b b' := by
  rcases Caller.turn_cases turned with ⟨tokens, chunks, _, _, _, drawn⟩ |
    ⟨wait, rest, w, _, _, _, _, drawn⟩ | ⟨wait, rest, w, _, _, _, _, undrawn, rfl, _⟩
  · exact drawn.keeps h
  · have paid : Bounded latest ((b.leave id).withdraw w.owed) := { h with }
    have left := drawn.keeps paid
    refine ⟨left.bounded, fun either => left.within (either.imp_right fun within => ?_)⟩
    exact Within.withdraw (b := b.leave id) within w.owed
  · rw [undrawn]
    have later := h.mono (Nat.le_max_left latest now)
    exact .of_same { later with } (fun some => some rfl) rfl rfl

/-! ## Runs -/

namespace Moment

/-- Whether the clock is read at a moment. A turn of a caller reads it, whether or not it waits on. -/
def reads (m : Moment) : Bool :=
  match m.2 with
  | .act (.operate op) answer => op.reads answer
  | .turn => m.1.next?.isSome
  | .act (.grab _) _ | .clock _ | .kill _ => false

/-- Whether the bucket is credited, given tokens back or changed at a moment. -/
def limits (m : Moment) : Bool :=
  match m.2 with
  | .act (.operate _) answer => answer.isDone
  | .turn => m.draws != []
  | .act (.grab _) _ | .clock _ | .kill _ => false

end Moment

/-- The latest instant that was read from the clock, the beginning included. -/
def latestReading (start : Instant) (hs : List Moment) : Instant :=
  ((hs.filter Moment.reads).map fun m => m.1.now).foldl max start

/-- A moment counts for the latest reading only if the clock is read then. -/
theorem latestReading_snoc (start : Instant) (hs : List Moment) (m : Moment) :
    latestReading start (hs ++ [m]) =
      if m.reads then max (latestReading start hs) m.1.now else latestReading start hs := by
  unfold latestReading
  rw [List.filter_append, List.map_append, List.foldl_append]
  by_cases reads : m.reads = true
  · simp [reads]
  · simp [reads]

variable {e e' : State}

/-- Every move keeps to the bounds. -/
theorem keeps_of_step {l : Label Action Answer} (h : Bounded latest e.shared)
    (step : Step program e l e') :
    Keeps (if Moment.reads (e, l) then max latest e.now else latest) (Moment.limits (e, l) = true)
      e.shared e'.shared := by
  have idle : ∀ {e' : State}, e'.shared = e.shared →
      Keeps latest (false = true) e.shared e'.shared := by
    intro e' same
    rw [same]
    exact .of_same h Bool.false_ne_true rfl rfl
  cases step with
  | turn turned =>
      rcases turn_alike turned with ⟨nobody, alike⟩ | ⟨id, g, b, o, next, looked, alike⟩
      · have silent : Moment.draws (e, .turn) = [] := by simp [Moment.draws, nobody]
        simpa [Moment.reads, Moment.limits, nobody, silent] using idle alike.shared
      · have drawn : Moment.draws (e, .turn) = g.caller.draws e.now id e.shared := by
          simp [Moment.draws, next]
        rw [alike.shared]
        simpa [Moment.reads, Moment.limits, next, drawn] using keeps_of_turn h looked
  | clock time =>
      exact idle (setClock_alike e time).shared
  | kill task =>
      -- who is dropped only leaves the list of those to be woken
      have rest : Bounded latest (e.kill program task).shared ∧
          (e.kill program task).shared.balance = e.shared.balance ∧
          (e.kill program task).shared.capacity = e.shared.capacity := by
        rw [kill_eq]
        unfold Executor.drop
        split
        · exact ⟨h, rfl, rfl⟩
        · exact ⟨{ h with }, rfl, rfl⟩
      exact .of_same rest.1 Bool.false_ne_true rest.2.1 rest.2.2
  | @act _ action answer acted =>
      cases action with
      | operate op =>
          rcases operate_alike acted with ⟨b, woken, operated, alike⟩
          rw [alike.shared]
          exact keeps_of_operate h operated
      | grab tokens =>
          exact idle (grab_alike acted).shared

variable {capacity interval : UInt64} {initial : Int64} {start : Instant} {hs : List Moment}

/-- What every move keeps to, every run keeps to. -/
theorem keeps_of_history (h : Bounded start e.shared) (history : History program e hs e') :
    Keeps (latestReading start hs) (∃ m ∈ hs, m.limits = true) e.shared e'.shared := by
  induction history with
  | refl =>
      exact .of_same h (fun ⟨m, member, _⟩ => by cases member) rfl rfl
  | @tail hs l e' e'' _ step ih =>
      have last := keeps_of_step ih.bounded step
      rw [latestReading_snoc]
      refine ⟨last.bounded, fun limited => last.within ?_⟩
      -- the last move limits the balance, or it was limited before
      rcases limited with ⟨m, member, limits⟩ | first
      · rcases List.mem_append.1 member with earlier | own
        · exact .inr (ih.within (.inl ⟨m, earlier, limits⟩))
        · rw [List.mem_singleton.1 own] at limits
          exact .inl limits
      · exact .inr (ih.within (.inr first))

/-- A bucket is within its bounds when it is made. -/
theorem bounded_of_create (made : create capacity interval initial start = .ok b) :
    Bounded start b := by
  rcases ok_of_bind made with ⟨c, inRange, made⟩
  rcases ok_of_bind made with ⟨i, earns, made⟩
  cases made
  rcases of_checkCapacity inRange with ⟨positive, fits⟩
  exact ⟨positive, fits, of_checkInterval earns, Nat.le_refl start⟩

/-- In every run on a new bucket capacity and interval stay in their range, and no tokens are credited
for a time that nobody has seen. The balance is no more than the capacity if it was not at first, or
else from the first moment on at which something is credited, given back or changed. -/
theorem balance_le_capacity (made : create capacity interval initial start = .ok b)
    (history : History program (opening start b) hs e) :
    (1 ≤ e.shared.capacity ∧ e.shared.capacity ≤ 2 ^ 63 - 1) ∧ 1 ≤ e.shared.interval ∧
      e.shared.creditedTo ≤ latestReading start hs ∧
      ((initial.toInt ≤ capacity.toNat ∨ ∃ m ∈ hs, m.limits = true) →
        e.shared.balance ≤ e.shared.capacity) := by
  have kept := keeps_of_history (bounded_of_create made) history
  have first : initial.toInt ≤ capacity.toNat → Within b := by
    rcases create_eq_ok made with ⟨rfl, _, _⟩
    exact id
  exact ⟨⟨kept.bounded.positive, kept.bounded.fits⟩, kept.bounded.earns, kept.bounded.upTo,
    fun limited => kept.within (limited.symm.imp_right first)⟩

def lowered : List Moment × State :=
  follow program (opening 5 ⟨500, 100, 10, 5, 5, []⟩)
    -- a change is refused; then the capacity is lowered while a caller waits, and the clock set back
    [.act (.operate (.changeCapacity 0)) (), .act (.grab 450) (), .turn, .clock 2000000,
      .act (.operate (.changeBoth 3 50)) (), .clock 0, .turn, .clock 3000000, .turn,
      .act (.operate (.recycle 90)) ()]

theorem lowered_balance_le_capacity :
    create 100 10 500 5 = .ok ⟨500, 100, 10, 5, 5, []⟩ ∧
      (∃ m ∈ lowered.1, m.limits = true) ∧
      (1 ≤ lowered.2.shared.capacity ∧ lowered.2.shared.capacity ≤ 2 ^ 63 - 1) ∧
      1 ≤ lowered.2.shared.interval ∧
      lowered.2.shared.creditedTo ≤ latestReading 5 lowered.1 ∧
      lowered.2.shared.balance ≤ lowered.2.shared.capacity := by
  have made : create 100 10 500 5 = .ok ⟨500, 100, 10, 5, 5, []⟩ := rfl
  have limited : ∃ m ∈ lowered.1, Moment.limits m = true := by decide
  rcases balance_le_capacity made (history_follow _ _) with ⟨range, earns, upTo, within⟩
  exact ⟨made, limited, range, earns, upTo, within (.inr limited)⟩

end Bucket
end MeteredFetch
