import MeteredFetch.Proofs.Bucket.Steps

/-!
# Unlisted — who is to be woken makes no difference to anybody else

The list of those to be woken is read when tokens begin to be earned faster, and only to wake them. So if
a task is taken off the list, operations and the turns of the others do what they do with it.

* `Bucket.leave_leave`, `Bucket.join_leave`, `Bucket.leave_join` — leaving the list and joining it;
* `Bucket.draw_leave`, `Bucket.turn_leave` — chunks, and the turns of other tasks;
* `Bucket.operate_leave` — operations, which wake the others.
-/

namespace MeteredFetch
namespace Bucket

open Executor

variable {b : Bucket} {now : Instant} {id n : TaskId}

/-! ## Leaving and joining -/

theorem leave_leave (b : Bucket) (id n : TaskId) : (b.leave id).leave n = (b.leave n).leave id := by
  simp only [leave, List.filter_comm (· != n)]

theorem leave_self (b : Bucket) (id : TaskId) : (b.leave id).leave id = b.leave id := by
  simp only [leave, List.filter_filter, Bool.and_self]

theorem join_leave (b : Bucket) (ne : n ≠ id) : (b.leave id).join n = (b.join n).leave id := by
  simp only [leave, join, List.filter_append, List.filter_comm (· != n)]
  simp [ne]

/-- Who joins the list and leaves it again was not there. -/
theorem leave_join (b : Bucket) (id : TaskId) : (b.join id).leave id = b.leave id := by
  simp [leave, join, List.filter_append, List.filter_filter]

/-- Whoever is not on the list can leave it without a trace. -/
theorem leave_of_notMem (absent : id ∉ b.waiters) : b.leave id = b := by
  have all : b.waiters.filter (· != id) = b.waiters := by
    refine List.filter_eq_self.2 fun n member => ?_
    have ne : n ≠ id := by
      rintro rfl
      exact absent member
    simpa using ne
  unfold leave
  rw [all]

/-! ## Chunks and turns -/

def aside {α : Type} (id : TaskId) (r : Bucket × α) : Bucket × α :=
  (r.1.leave id, r.2)

/-- A chunk is drawn alike, whoever is on the list. -/
theorem draw_leave (now : Instant) (tokens : Nat) (b : Bucket) (id : TaskId) :
    (b.leave id).draw now tokens = (b.draw now tokens).map (aside id) := by
  have credited : (b.leave id).credit now = (b.credit now).leave id := rfl
  unfold draw claim
  simp only [credited]
  generalize b.credit now = b
  by_cases enough : b.balance > tokens
  · have enough' : (b.leave id).balance > tokens := enough
    simp only [if_pos enough, if_pos enough']
    rfl
  · have short : ¬ (b.leave id).balance > tokens := enough
    simp only [if_neg enough, if_neg short]
    by_cases least : b.balance = minBalance
    · have least' : (b.leave id).balance = minBalance := least
      simp only [if_pos least, if_pos least']
      rfl
    · have above : ¬ (b.leave id).balance = minBalance := least
      simp only [if_neg least, if_neg above, bind, Except.bind]
      have same : max (b.leave id).cursor now + (b.leave id).delay
          (min (tokens - (b.leave id).balance.toNat + (-(b.leave id).balance).toNat) maxBalance) =
          max b.cursor now + b.delay
            (min (tokens - b.balance.toNat + (-b.balance).toNat) maxBalance) := rfl
      rw [same]
      split <;> rfl

/-- The last chunk is drawn alike whoever else is on the list. -/
theorem drawLast_leave (ne : n ≠ id) (size : Nat) (remainder : Option Nat) (b : Bucket) :
    (b.leave id).drawLast now n size remainder =
      (b.drawLast now n size remainder).map (aside id) := by
  cases remainder with
  | none =>
      rfl
  | some tokens =>
      simp only [drawLast, draw_leave]
      rcases b.draw now tokens with panic | ⟨b₁, _ | w⟩
      · rfl
      · rfl
      · simp only [Except.map, aside, bind, Except.bind, pure, Except.pure, join_leave b₁ ne]

theorem drawWhole_leave (ne : n ≠ id) (size : Nat) (remainder : Option Nat) (whole : Nat) (b : Bucket) :
    (b.leave id).drawWhole now n size remainder whole =
      (b.drawWhole now n size remainder whole).map (aside id) := by
  induction whole generalizing b with
  | zero =>
      exact drawLast_leave ne size remainder b
  | succ k ih =>
      simp only [drawWhole, draw_leave]
      rcases b.draw now size with panic | ⟨b₁, _ | w⟩
      · rfl
      · exact ih b₁
      · simp only [Except.map, aside, bind, Except.bind, pure, Except.pure, join_leave b₁ ne]

/-- All chunks are drawn alike whoever else is on the list. -/
theorem drawAll_leave (ne : n ≠ id) (chunks : Chunks) (b : Bucket) :
    (b.leave id).drawAll now n chunks = (b.drawAll now n chunks).map (aside id) :=
  drawWhole_leave ne chunks.size chunks.remainder chunks.whole b

/-- Whether a task is to be woken makes no difference to the turn of another one. -/
theorem turn_leave (ne : n ≠ id) (c : Caller) (b : Bucket) :
    c.turn now n (b.leave id) = (c.turn now n b).map (aside id) := by
  cases c with
  | arriving tokens =>
      have chunks : (b.leave id).chunksOf tokens = b.chunksOf tokens := rfl
      simp only [Caller.turn, chunks]
      rcases b.chunksOf tokens with panic | chunks
      · rfl
      · exact drawAll_leave ne chunks b
  | waiting w rest =>
      have interval : ((b.leave id).leave n).interval = (b.leave n).interval := rfl
      simp only [Caller.turn, interval]
      rcases w.reprice now (b.leave n).interval with panic | w'
      · rfl
      · by_cases past : w'.deadline ≤ now
        · have paid : ((b.leave id).leave n).withdraw w'.owed =
              ((b.leave n).withdraw w'.owed).leave id := by
            rw [leave_leave]
            rfl
          simp only [bind, Except.bind, if_pos past, paid]
          exact drawAll_leave ne rest ((b.leave n).withdraw w'.owed)
        · simp only [bind, Except.bind, if_neg past, leave_leave b id n, join_leave (b.leave n) ne]
          rfl

/-! ## Operations -/

def asideOf (id : TaskId) (r : Operated) : Operated :=
  (r.1.leave id, r.2.1.filter (· != id), r.2.2)

/-- A new interval calls the same callers, except for the one that is off the list. -/
theorem setInterval_leave (now : Instant) (interval : Nat) (b : Bucket) (id : TaskId) :
    (b.leave id).setInterval now interval =
      (b.setInterval now interval).map fun r => (r.1.leave id, r.2.filter (· != id)) := by
  have same : (b.leave id).interval = b.interval := rfl
  have cursor : (b.leave id).cursor = b.cursor := rfl
  simp only [setInterval, same, cursor]
  by_cases faster : interval < b.interval
  · simp only [if_pos faster]
    cases rescale now b.cursor b.interval interval <;> rfl
  · simp only [if_neg faster]
    rfl

/-- Whether a task is to be woken makes no difference to an operation, which wakes the others. -/
theorem operate_leave (now : Instant) (op : Operation) (b : Bucket) (id : TaskId) :
    (b.leave id).operate now op = (b.operate now op).map (asideOf id) := by
  have credited : (b.leave id).credit now = (b.credit now).leave id := rfl
  cases op with
  | instantGrab tokens =>
      simp only [operate, instantGrab, credited]
      by_cases enough : (b.credit now).balance > amount tokens
      · have enough' : ((b.credit now).leave id).balance > amount tokens := enough
        simp only [if_pos enough, if_pos enough']
        rfl
      · have short : ¬ ((b.credit now).leave id).balance > amount tokens := enough
        simp only [if_neg enough, if_neg short]
        rfl
  | changeInterval q =>
      simp only [operate, change]
      cases checkInterval q with
      | error refused =>
          rfl
      | ok interval =>
          simp only [changeInterval, credited, setInterval_leave]
          cases (b.credit now).setInterval now interval <;> rfl
  | changeCapacity c =>
      simp only [operate, change]
      cases checkCapacity c <;> rfl
  | changeBoth q c =>
      have unclipped : (b.leave id).creditUnclipped now = (b.creditUnclipped now).leave id := rfl
      simp only [operate, change]
      cases checkInterval q with
      | error refused =>
          rfl
      | ok interval =>
          cases checkCapacity c with
          | error refused =>
              rfl
          | ok capacity =>
              simp only [bind, Except.bind, pure, Except.pure, changeBoth, unclipped,
                setInterval_leave]
              cases (b.creditUnclipped now).setInterval now interval <;> rfl
  | _ =>
      rfl

end Bucket
end MeteredFetch
