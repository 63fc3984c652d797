import MeteredFetch.Proofs.Bucket.Bounds
import MeteredFetch.Proofs.Bucket.Funds

/-!
# Sized — numbers that fit their types

Balances are signed 64-bit numbers, amounts, capacities and intervals unsigned ones. Sums stop at the
ends of the range of balances, capacities and intervals are checked when they are changed, and a chunk is
no larger than the capacity that it was split by. So all numbers of a run stay in their types.

* `Bucket.Sized` — the numbers of a bucket fit their types, up to a latest reading of the clock;
* `Bucket.Small` — so do those of a caller;
* `Bucket.sized_of_operate`, `Bucket.sized_of_turn` — operations and turns keep it so;
* `Bucket.measured_of_history` — it is so in every run.
-/

namespace MeteredFetch
namespace Bucket

open Executor

variable {latest now : Instant} {b b' : Bucket} {id : TaskId} {n : Nat} {e e' : State}

/-! ## Numbers that fit their types -/

/-- The numbers of a bucket fit their types, and tokens were credited for no time after `latest`. -/
structure Sized (latest : Instant) (b : Bucket) : Prop extends Bounded latest b where
  word : b.interval ≤ maxWord
  least : minBalance ≤ b.balance
  most : b.balance ≤ maxBalance

namespace Sized

/-- A credit fits, whatever has passed since the last one. -/
theorem creditUnclipped (h : Sized latest b) (reached : now ≤ latest) :
    Sized latest (b.creditUnclipped now) := by
  have bounded := h.toBounded.creditUnclipped now
  rw [Nat.max_eq_left reached] at bounded
  have least := h.least
  have below := minBalance_eq
  refine { bounded with word := h.word, least := ?_, most := Int.min_le_right _ _ }
  simp only [Bucket.creditUnclipped]
  omega

theorem clip (h : Sized latest b) : Sized latest b.clip := by
  have least := h.least
  have most := h.most
  have below := minBalance_eq
  refine { h.toBounded.clip with word := h.word, least := ?_, most := ?_ } <;>
  · simp only [Bucket.clip]
    omega

theorem credit (h : Sized latest b) (reached : now ≤ latest) : Sized latest (b.credit now) :=
  (h.creditUnclipped reached).clip

/-- A withdrawal fits, since the balance falls no further than to the least one. -/
theorem withdraw (h : Sized latest b) (tokens : Nat) : Sized latest (b.withdraw tokens) := by
  have most := h.most
  have below := minBalance_eq
  refine { h.toBounded.withdraw tokens with
    word := h.word
    least := Int.le_max_right _ _
    most := ?_ }
  simp only [Bucket.withdraw]
  omega

theorem setCapacity {capacity : Nat} (h : Sized latest b) (positive : 1 ≤ capacity)
    (fits : capacity ≤ maxBalance) : Sized latest (b.setCapacity capacity) :=
  clip { h with positive, fits }

/-- A shorter interval brings the cursor forward, so that it still fits. -/
theorem setInterval {q : UInt64} {interval : Nat} {woken : List TaskId} (h : Sized latest b)
    (checked : checkInterval q = .ok interval)
    (set : b.setInterval now interval = .ok (b', woken)) : Sized latest b' := by
  have bounded := h.toBounded.setInterval (of_checkInterval checked) set
  have word : interval ≤ maxWord := by
    rw [eq_of_checkInterval checked]
    exact Nat.le_of_lt_succ q.toNat_lt
  have same : b'.balance = b.balance := by
    unfold Bucket.setInterval at set
    split at set
    · rcases ok_of_bind set with ⟨_, _, rest⟩
      cases rest
      rfl
    · cases set
      rfl
  exact { bounded with
    word := (interval_of_setInterval set).1.trans_le word
    least := same ▸ h.least
    most := same ▸ h.most }

/-- What a chunk leaves behind fits again. -/
theorem draw {o : Option Wait} (h : Sized latest b) (reached : now ≤ latest)
    (drawn : b.draw now n = .ok (b', o)) : Sized latest b' := by
  have bounded := (keeps_of_draw h.toBounded drawn).1
  rw [Nat.max_eq_left reached] at bounded
  have found := h.credit reached
  have most := found.most
  have below := minBalance_eq
  cases o with
  | none =>
      rcases draw_eq_none h.earns drawn with ⟨enough, cursor, _, rfl⟩
      exact { bounded with
        word := h.word
        least := by simp only; omega
        most := by simp only; omega }
  | some w =>
      rcases draw_eq_some drawn with ⟨_, _, _, rfl⟩
      have floor : minBalance ≤ 0 := by decide
      exact { bounded with word := h.word, least := floor, most := Int.natCast_nonneg _ }

end Sized

/-- What a caller waits for and what it has still to draw are no more than a balance can be. -/
def Small : Caller → Prop
  | .arriving _ => True
  | .waiting wait rest => wait.owed ≤ maxBalance ∧ ∀ n ∈ rest.toList, n ≤ maxBalance

/-! ## Runs -/

/-- The numbers of a bucket fit their types after every operation. -/
theorem sized_of_operate {op : Operation} {woken : List TaskId} {answer : Answer}
    (h : Sized latest b) (reached : now ≤ latest)
    (operated : b.operate now op = .ok (b', woken, answer)) : Sized latest b' := by
  cases op with
  | instantGrab tokens =>
      simp only [operate, instantGrab] at operated
      split at operated
      · cases operated
        exact (h.credit reached).withdraw _
      · cases operated
        exact h.credit reached
  | forceGrab tokens =>
      cases operated
      exact ((h.credit reached).withdraw _).clip
  | recycle tokens =>
      cases operated
      have least := h.least
      have below := minBalance_eq
      refine Sized.clip { h with least := ?_, most := Int.min_le_right _ _ }
      simp only
      omega
  | credit =>
      cases operated
      exact h.credit reached
  | changeInterval q =>
      rcases change_cases operated with ⟨_, _, rfl⟩ | ⟨_, n, checked, made⟩
      · exact h
      · exact (h.credit reached).setInterval checked made
  | changeCapacity c =>
      rcases change_cases operated with ⟨_, _, rfl⟩ | ⟨_, n, checked, made⟩
      · exact h
      · cases made
        rcases of_checkCapacity checked with ⟨positive, fits⟩
        exact (h.creditUnclipped reached).setCapacity positive fits
  | changeBoth q c =>
      rcases change_cases operated with ⟨_, _, rfl⟩ | ⟨_, ⟨i, n⟩, checked, made⟩
      · exact h
      · rcases ok_of_bind checked with ⟨i, earns, checked⟩
        rcases ok_of_bind checked with ⟨n, inRange, checked⟩
        cases checked
        rcases ok_of_bind made with ⟨⟨b₁, woken₁⟩, set, rest⟩
        cases rest
        rcases of_checkCapacity inRange with ⟨positive, fits⟩
        exact ((h.creditUnclipped reached).setInterval earns set).setCapacity positive fits

/-- What is left of chunks that a balance can hold is no more than that. -/
theorem Draws.sized {c : Chunks} {ds : List Draw} {o : Option Caller}
    (drawn : Draws now id c b ds b' o) (h : Sized latest b) (reached : now ≤ latest)
    (small : ∀ n ∈ c.toList, n ≤ maxBalance) : Sized latest b' ∧ ∀ c', o = some c' → Small c' := by
  induction drawn with
  | done b last =>
      exact ⟨h, nofun⟩
  | taken first drawn _ ih =>
      rw [Chunks.toList_of_next? first] at small
      exact ih (h.draw reached drawn) fun n member => small n (List.mem_cons_of_mem _ member)
  | held first drawn =>
      rw [Chunks.toList_of_next? first] at small
      have left := h.draw reached drawn
      refine ⟨{ left with }, fun c' same => ?_⟩
      cases same
      rcases draw_eq_some drawn with ⟨_, _, rfl, _⟩
      exact ⟨Nat.le_trans (Nat.sub_le _ _) (small _ List.mem_cons_self),
        fun n member => small n (List.mem_cons_of_mem _ member)⟩

/-- A turn leaves numbers that fit, and so does the caller that waits on. -/
theorem sized_of_turn {c : Caller} {o : Option Caller} (h : Sized latest b) (reached : now ≤ latest)
    (small : Small c) (turned : c.turn now id b = .ok (b', o)) :
    Sized latest b' ∧ ∀ c', o = some c' → Small c' := by
  rcases Caller.turn_cases turned with ⟨tokens, chunks, rfl, split, _, drawn⟩ |
    ⟨wait, rest, w, rfl, _, _, _, drawn⟩ | ⟨wait, rest, w, rfl, repriced, _, _, _, rfl, rfl⟩
  · exact drawn.sized h reached fun n member =>
      Nat.le_trans (Nat.le_trans (le_of_mem_chunksOf split member) (Nat.min_le_right _ _)) h.fits
  · have left : Sized latest (b.leave id) := { h with }
    exact drawn.sized (left.withdraw w.owed) reached small.2
  · refine ⟨{ h with }, fun c' same => ?_⟩
    cases same
    exact ⟨(Wait.owed_of_reprice repriced).trans_le small.1, small.2⟩

abbrev Measured (latest : Instant) (e : State) : Prop :=
  Holds (Sized latest) (fun g : Grab => Small g.caller) e

/-- No move leaves a number that does not fit. -/
theorem measured_of_step {l : Label Action Answer} (h : Measured latest e) (reached : e.now ≤ latest)
    (step : Step program e l e') : Measured latest e' := by
  cases step with
  | turn turned =>
      rcases turn_alike turned with ⟨_, alike⟩ | ⟨id, g, b, o, next, looked, alike⟩
      · exact h.of_alike alike
      · have stands := List.mem_of_getElem? (task?_of_next? next)
        rcases sized_of_turn h.shared reached (h.tasks g stands) looked with ⟨sized, small⟩
        refine Holds.of_alike ⟨sized, forall_task_set h.tasks fun x left => ?_⟩ alike
        rcases Option.map_eq_some_iff.1 left with ⟨c, same, rfl⟩
        exact small c same
  | clock time =>
      have set : Measured latest { e with now := time } := ⟨h.shared, h.tasks⟩
      exact set.of_alike (setClock_alike e time)
  | kill task =>
      exact h.drop (fun _ _ _ sized => { sized with }) task
  | @act _ action answer acted =>
      cases action with
      | operate op =>
          rcases operate_alike acted with ⟨b, woken, operated, alike⟩
          have left : Measured latest { e with shared := b } :=
            ⟨sized_of_operate h.shared reached operated, h.tasks⟩
          exact left.of_alike alike
      | grab tokens =>
          cases grab_eq acted
          refine ⟨h.shared, fun g member => ?_⟩
          rcases List.mem_append.1 member with old | new
          · exact h.tasks g old
          · cases List.mem_singleton.1 new
            trivial

variable {capacity interval : UInt64} {initial : Int64} {start : Instant} {hs : List Moment}

/-- All numbers fit their types in every run whose clock is in range. -/
theorem measured_of_history (made : create capacity interval initial start = .ok b)
    (history : History program (opening start b) hs e) (begun : start ≤ latest)
    (reached : ∀ m ∈ hs, m.1.now ≤ latest) : Measured latest e := by
  refine history.invariant (I := fun _ => Measured latest) (A := fun m => m.1.now ≤ latest)
    (fun measured step early => measured_of_step measured early step) reached ?_
  have bounded := (bounded_of_create made).mono begun
  refine ⟨{ bounded with word := ?_, least := ?_, most := ?_ }, fun g member => nomatch member⟩
  · rcases create_eq_ok made with ⟨rfl, _, _⟩
    exact Nat.le_of_lt_succ interval.toNat_lt
  · rcases create_eq_ok made with ⟨rfl, _, _⟩
    exact initial.le_toInt
  · rcases create_eq_ok made with ⟨rfl, _, _⟩
    exact initial.toInt_le

end Bucket
end MeteredFetch
