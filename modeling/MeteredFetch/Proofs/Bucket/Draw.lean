import Mathlib.Algebra.GroupWithZero.Nat
import MeteredFetch.Bucket.Operation
import MeteredFetch.Proofs.Executor.Step

/-!
# Draw — the chunks that come to a bucket

A turn of a caller draws one chunk after another, until one of them has to be waited for. Each
chunk comes to the bucket at some moment and finds it in some state.

* `Bucket.Draw` — a chunk and the bucket that it finds;
* `Bucket.draw_eq_none`, `Bucket.draw_eq_some` — what drawing one chunk does;
* `Bucket.Draws` — drawing chunks until one has to be waited for, as a relation;
* `Caller.turn_cases` — what a turn of a caller does;
* `Caller.draws` — the chunks that a turn draws, as a list.
-/

namespace MeteredFetch
namespace Bucket

/-! ## One chunk -/

structure Draw where
  /-- When it comes. -/
  now : Instant
  /-- The bucket, before what was earned is credited. -/
  bucket : Bucket
  tokens : Nat
  deriving DecidableEq, Repr

namespace Draw

def found (d : Draw) : Bucket :=
  d.bucket.credit d.now

/-- The debt that the chunk finds. A chunk that finds one waits, and clears the debt first. -/
def debt (d : Draw) : Nat :=
  (-d.found.balance).toNat

/-- What the balance lacks for the chunk, with any debt on top. -/
def missing (d : Draw) : Nat :=
  (d.tokens - d.found.balance).toNat

end Draw

variable {b b' : Bucket} {now : Instant} {tokens : Nat}

theorem minBalance_eq : minBalance = -maxBalance - 1 := by decide

/-- No tokens are earned in no time. -/
theorem delay_pos {n : Nat} (positive : 0 < b.interval) (h : 0 < n) : 0 < b.delay n := by
  unfold delay
  have product : 0 < b.interval * n := Nat.mul_pos positive h
  have millis : 0 < (b.interval * n + 999999) / 1000000 := Nat.div_pos (by omega) (by omega)
  have least : 0 < min ((b.interval * n + 999999) / 1000000) maxWord :=
    Nat.lt_min.2 ⟨millis, by decide⟩
  exact Nat.mul_pos least (by decide)

/-- A chunk is taken at once only if the balance covers it. -/
theorem draw_eq_none (positive : 0 < b.interval) (h : b.draw now tokens = .ok (b', none)) :
    (tokens : Int) ≤ (b.credit now).balance ∧
      ∃ cursor, (cursor = b.cursor ∨ b.cursor ≤ now ∧ cursor = now) ∧
        b' = { b.credit now with balance := (b.credit now).balance - tokens, cursor } := by
  rcases ok_of_bind h with ⟨⟨claimed, wait⟩, claim, rest⟩
  unfold Bucket.claim at claim
  simp only at claim
  split at claim
  · -- the balance exceeds the chunk
    rename_i enough
    cases claim
    cases rest
    refine ⟨by omega, b.cursor, .inl rfl, ?_⟩
    have floor : minBalance ≤ (b.credit now).balance - tokens := by
      unfold minBalance
      omega
    simp [withdraw, Int.max_eq_left floor]
  · split at claim
    · cases claim
    · -- the wait is over as soon as it begins, so there is nothing to be waited for
      rename_i short _
      cases claim
      simp only at rest
      split at rest
      · rename_i expired
        cases rest
        simp only [credit_cursor] at expired
        generalize missed : min (tokens - (b.credit now).balance.toNat +
          (-(b.credit now).balance).toNat) maxBalance = m at expired
        have nothing : m = 0 := by
          rcases Nat.eq_zero_or_pos m with zero | pos
          · exact zero
          · have later : 0 < (b.credit now).delay m := delay_pos (by simpa using positive) pos
            unfold Instant at *
            omega
        have full : 0 < maxBalance := by decide
        have exact : (b.credit now).balance = tokens := by omega
        have passed : max b.cursor now + (b.credit now).delay m = now ∧ b.cursor ≤ now := by
          unfold Instant at *
          omega
        have owed : tokens - (b.credit now).balance.toNat = 0 := by omega
        refine ⟨by omega, now, .inr ⟨passed.2, rfl⟩, ?_⟩
        have floor : max (0 : Int) minBalance = 0 := by decide
        simp [withdraw, passed.1, exact, floor]
      · cases rest

/-- A chunk is drawn unless it finds the least balance. -/
theorem draw_total (above : (b.credit now).balance ≠ minBalance) :
    ∃ b' o, b.draw now tokens = .ok (b', o) := by
  have claimed : ∃ r, b.claim now tokens = .ok r := by
    unfold claim
    simp only [if_neg above]
    split <;> exact ⟨_, rfl⟩
  rcases claimed with ⟨⟨b₁, _ | w⟩, claimed⟩
  · unfold draw
    rw [claimed]
    exact ⟨_, _, rfl⟩
  · unfold draw
    rw [claimed]
    by_cases past : w.deadline ≤ now
    · exact ⟨_, _, if_pos past⟩
    · exact ⟨_, _, if_neg past⟩

/-- A chunk that has to be waited for takes what there is, clears any debt and moves the cursor
on by what the missing tokens take to be earned. -/
theorem draw_eq_some {w : Wait} (h : b.draw now tokens = .ok (b', some w)) :
    (b.credit now).balance ≤ tokens ∧ now < w.deadline ∧
      w = ⟨tokens - (b.credit now).balance.toNat,
        max b.cursor now + b.delay (min (Draw.missing ⟨now, b, tokens⟩) maxBalance), b.interval⟩ ∧
      b' = { b.credit now with balance := 0, cursor := w.deadline } := by
  rcases ok_of_bind h with ⟨⟨claimed, wait⟩, claim, rest⟩
  unfold Bucket.claim at claim
  simp only at claim
  split at claim
  · cases claim
    cases rest
  · split at claim
    · cases claim
    · rename_i short _
      cases claim
      simp only at rest
      split at rest
      · cases rest
      · rename_i ahead
        have missing : tokens - (b.credit now).balance.toNat + (-(b.credit now).balance).toNat =
            Draw.missing ⟨now, b, tokens⟩ := by
          simp only [Draw.missing, Draw.found]
          omega
        cases rest
        refine ⟨by omega, Nat.lt_of_not_le ahead, ?_, rfl⟩
        simp only [missing, credit_cursor, credit_interval]
        rfl

/-! ## Chunks until one has to be waited for -/

/-- Chunks are drawn in order, each when the bucket is as the one before has left it, until one
has to be waited for. -/
inductive Draws (now : Instant) (id : TaskId) :
    Chunks → Bucket → List Draw → Bucket → Option Caller → Prop
  | done {c : Chunks} (b : Bucket) : c.next? = none → Draws now id c b [] b none
  | taken {c rest : Chunks} {n : Nat} {b b' b'' : Bucket} {ds : List Draw} {o : Option Caller} :
      c.next? = some (n, rest) → b.draw now n = .ok (b', none) →
        Draws now id rest b' ds b'' o → Draws now id c b (⟨now, b, n⟩ :: ds) b'' o
  | held {c rest : Chunks} {n : Nat} {b b' : Bucket} {w : Wait} :
      c.next? = some (n, rest) → b.draw now n = .ok (b', some w) →
        Draws now id c b [⟨now, b, n⟩] (b'.join id) (some (.waiting w rest))

theorem next?_of_toList_eq_nil {c : Chunks} (empty : c.toList = []) : c.next? = none := by
  cases next : c.next? with
  | none =>
      rfl
  | some first =>
      rw [Chunks.toList_of_next? next] at empty
      cases empty

/-- The first chunk is drawn, and then the others unless it has to be waited for. -/
theorem drawAll_of_next? {id : TaskId} {c rest : Chunks} {n : Nat}
    (first : c.next? = some (n, rest)) :
    b.drawAll now id c = do
      match ← b.draw now n with
      | (b, none) => b.drawAll now id rest
      | (b, some wait) => return (b.join id, some (.waiting wait rest)) := by
  rcases c with ⟨size, whole, remainder⟩
  cases whole with
  | zero =>
      cases remainder with
      | none =>
          cases first
      | some r =>
          cases first
          rfl
  | succ k =>
      cases first
      rfl

theorem drawAll_of_none {id : TaskId} {c : Chunks} (last : c.next? = none) :
    b.drawAll now id c = .ok (b, none) := by
  rcases c with ⟨size, whole, remainder⟩
  cases whole with
  | zero =>
      cases remainder with
      | none =>
          rfl
      | some r =>
          cases last
  | succ k =>
      cases last

/-- The last chunk is drawn as one of a list. -/
theorem draws_of_drawLast {id : TaskId} {size : Nat} {remainder : Option Nat} {o : Option Caller}
    (h : b.drawLast now id size remainder = .ok (b', o)) :
    ∃ ds, Draws now id ⟨size, 0, remainder⟩ b ds b' o := by
  cases remainder with
  | none =>
      cases h
      exact ⟨[], .done b rfl⟩
  | some tokens =>
      rcases ok_of_bind h with ⟨⟨b₁, wait⟩, drawn, rest⟩
      cases wait with
      | none =>
          cases rest
          exact ⟨_, .taken rfl drawn (.done _ rfl)⟩
      | some w =>
          cases rest
          exact ⟨_, .held rfl drawn⟩

theorem draws_of_drawWhole {id : TaskId} {size : Nat} {remainder : Option Nat} {whole : Nat}
    {o : Option Caller} (h : b.drawWhole now id size remainder whole = .ok (b', o)) :
    ∃ ds, Draws now id ⟨size, whole, remainder⟩ b ds b' o := by
  induction whole generalizing b with
  | zero =>
      exact draws_of_drawLast h
  | succ n ih =>
      rcases ok_of_bind h with ⟨⟨b₁, wait⟩, drawn, rest⟩
      cases wait with
      | none =>
          rcases ih rest with ⟨ds, later⟩
          exact ⟨_, .taken rfl drawn later⟩
      | some w =>
          cases rest
          exact ⟨_, .held rfl drawn⟩

/-- What a turn draws are the chunks of a list, one after another. -/
theorem draws_of_drawAll {id : TaskId} {c : Chunks} {o : Option Caller}
    (h : b.drawAll now id c = .ok (b', o)) : ∃ ds, Draws now id c b ds b' o :=
  draws_of_drawWhole h

/-- The chunks of a list that are drawn at a moment. -/
def drawsOf (now : Instant) : List Nat → Bucket → List Draw
  | [], _ => []
  | n :: rest, b =>
      ⟨now, b, n⟩ ::
        match b.draw now n with
        | .ok (b, none) => drawsOf now rest b
        | .ok (_, some _) | .error _ => []

/-- Which chunks are drawn depends on the bucket, the moment and the list only. -/
theorem drawsOf_eq {id : TaskId} {c : Chunks} {ds : List Draw} {o : Option Caller}
    (h : Draws now id c b ds b' o) : drawsOf now c.toList b = ds := by
  induction h with
  | done b last =>
      rw [Chunks.toList_eq_nil_of_next? last]
      rfl
  | taken first drawn _ ih =>
      rw [Chunks.toList_of_next? first]
      simp [drawsOf, drawn, ih]
  | held first drawn =>
      rw [Chunks.toList_of_next? first]
      simp [drawsOf, drawn]

/-! ## Chunks and amounts -/

/-- An amount can be split whenever the capacity is positive. -/
theorem chunksOf_total (positive : 1 ≤ b.capacity) (tokens : UInt64) :
    ∃ c, b.chunksOf tokens = .ok c := by
  unfold chunksOf Chunks.split
  split
  · exact ⟨_, rfl⟩
  · rw [if_neg (Nat.ne_of_gt positive)]
    exact ⟨_, rfl⟩

/-- No token is lost in the split. -/
theorem sum_chunksOf {amount : UInt64} {c : Chunks} (h : b.chunksOf amount = .ok c) :
    c.toList.sum = amount.toNat := by
  unfold chunksOf at h
  split at h
  · cases h
    simp [Chunks.single, Chunks.toList]
  · unfold Chunks.split at h
    split at h
    · cases h
    · cases h
      have whole := Nat.div_add_mod' amount.toNat b.capacity
      by_cases exact : amount.toNat % b.capacity = 0
      · simp only [Chunks.toList, exact, if_true, Option.toList_none, List.append_nil,
          List.sum_replicate_nat]
        omega
      · simp only [Chunks.toList, exact, if_false, Option.toList_some, List.sum_append_nat,
          List.sum_replicate_nat, List.sum_singleton]
        exact whole

end Bucket

namespace Caller

open Bucket

/-! ## Turns of a caller -/

def outstanding : Caller → Nat
  | .arriving tokens => tokens.toNat
  | .waiting wait rest => wait.owed + rest.toList.sum

/-- The wait that a turn finds over, as it is priced then. -/
def over? (now : Instant) (b : Bucket) : Caller → Option Wait
  | .arriving _ => none
  | .waiting wait _ =>
      match wait.reprice now b.interval with
      | .ok wait => if wait.deadline ≤ now then some wait else none
      | .error _ => none

def draws (now : Instant) (id : TaskId) (b : Bucket) : Caller → List Draw
  | .arriving tokens =>
      match b.chunksOf tokens with
      | .ok chunks => drawsOf now chunks.toList b
      | .error _ => []
  | .waiting wait rest =>
      match Caller.over? now b (.waiting wait rest) with
      | some wait => drawsOf now rest.toList ((b.leave id).withdraw wait.owed)
      | none => []

/-- A caller begins with its chunks, or its wait is over and it goes on with those that are left,
or it waits on. -/
theorem turn_cases {now : Instant} {id : TaskId} {b b' : Bucket} {c : Caller} {o : Option Caller}
    (h : c.turn now id b = .ok (b', o)) :
    (∃ tokens chunks, c = .arriving tokens ∧ b.chunksOf tokens = .ok chunks ∧
        c.over? now b = none ∧ Draws now id chunks b (c.draws now id b) b' o) ∨
      (∃ wait rest w, c = .waiting wait rest ∧ wait.reprice now b.interval = .ok w ∧
        w.deadline ≤ now ∧ c.over? now b = some w ∧
        Draws now id rest ((b.leave id).withdraw w.owed) (c.draws now id b) b' o) ∨
      (∃ wait rest w, c = .waiting wait rest ∧ wait.reprice now b.interval = .ok w ∧
        now < w.deadline ∧ c.over? now b = none ∧ c.draws now id b = [] ∧
        b' = (b.leave id).join id ∧ o = some (.waiting w rest)) := by
  cases c with
  | arriving tokens =>
      rcases ok_of_bind h with ⟨chunks, split, drawn⟩
      rcases draws_of_drawAll drawn with ⟨ds, drawn⟩
      -- it has drawn nothing yet
      refine .inl ⟨tokens, chunks, rfl, split, rfl, ?_⟩
      have same : Caller.draws now id b (.arriving tokens) = ds := by
        simp [Caller.draws, split, drawsOf_eq drawn]
      rw [same]
      exact drawn
  | waiting wait rest =>
      rcases ok_of_bind h with ⟨w, repriced, looked⟩
      have priced : wait.reprice now b.interval = .ok w := repriced
      -- the deadline decides, as it is after the wait was priced anew
      by_cases past : w.deadline ≤ now
      · rw [if_pos past] at looked
        rcases draws_of_drawAll looked with ⟨ds, drawn⟩
        have expired : Caller.over? now b (.waiting wait rest) = some w := by
          simp [over?, priced, past]
        refine .inr (.inl ⟨wait, rest, w, rfl, priced, past, expired, ?_⟩)
        have same : Caller.draws now id b (.waiting wait rest) = ds := by
          simp [Caller.draws, expired, drawsOf_eq drawn]
        rw [same]
        exact drawn
      · rw [if_neg past] at looked
        cases looked
        have waits : Caller.over? now b (.waiting wait rest) = none := by
          simp [over?, priced, past]
        exact .inr (.inr ⟨wait, rest, w, rfl, priced, Nat.lt_of_not_le past, waits,
          by simp [Caller.draws, waits], rfl, rfl⟩)

end Caller
end MeteredFetch
