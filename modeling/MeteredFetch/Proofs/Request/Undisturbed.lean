import Mathlib.Data.ENat.Lattice
import MeteredFetch.Proofs.Request.Onward

/-!
# Undisturbed — requests that nobody disturbs

If nobody cancels a request and its scheduler always takes it in, the answers to its lookups decide what
becomes of it. It is tried until an answer ends it whatever its budget, or the budget is used up.

* `Response.isFinal` — whether an answer ends a request whatever its budget, and `firstFinal` is the
  number of the first such answer;
* `Request.lookups` — how many lookups are made for a request that is tried until it ends;
* `Request.tried` — the request after a number of failures, and `Request.ended` after its last lookup;
* `Request.conclude_of_lt`, `Request.conclude_of_eq` — what an attempt comes to that is not the last one,
  or is.
-/

namespace MeteredFetch

/-! ## Answers -/

/-- Whether an answer ends a request whatever its budget: it is a block, or the failure that stands for
cancellation. -/
def Response.isFinal : Response → Bool
  | .block _ => true
  | .fault f => f.failure == .cancelled

/-- The outcome of an attempt that ends its request with this answer. -/
def Response.ending : Response → Outcome
  | .block _ => .succeeded
  | .fault f => if f.failure = .cancelled then .cancelled else .failed f.failure

def Response.status : Response → Status
  | .block _ => .succeeded
  | .fault f => if f.failure = .cancelled then .cancelled else .failed f.failure

def Response.notice : Response → Notice
  | .block data => .delivered data
  | .fault f => .failed f.failure

variable {answers : Nat → Response} {n : Nat}

/-- The number of the first answer that ends a request whatever its budget, counting from one. -/
noncomputable def firstFinal (answers : Nat → Response) : ℕ∞ :=
  ⨅ k, ⨅ _ : (answers k).isFinal = true, ((k + 1 : Nat) : ℕ∞)

/-- An answer is before the first final one if none up to it is final. -/
theorem lt_firstFinal_iff :
    (n : ℕ∞) < firstFinal answers ↔ ∀ k < n, (answers k).isFinal = false := by
  have next : (n : ℕ∞) < firstFinal answers ↔ ((n + 1 : Nat) : ℕ∞) ≤ firstFinal answers := by
    rw [Nat.cast_add, Nat.cast_one, ENat.add_one_le_iff (ENat.natCast_ne_top n)]
  rw [next, firstFinal]
  simp only [le_iInf_iff, Nat.cast_le, Nat.add_le_add_iff_right]
  constructor
  · intro h k lt
    cases final : (answers k).isFinal with
    | false =>
        rfl
    | true =>
        exact absurd (h k final) (Nat.not_le.2 lt)
  · intro h k final
    refine Nat.le_of_not_lt fun lt => ?_
    cases final.symm.trans (h k lt)

/-- How many of the first lookups failed otherwise than by cancellation. -/
def failures (answers : Nat → Response) (n : Nat) : Nat :=
  (List.range n).countP fun k => !(answers k).isFinal

theorem failures_succ : failures answers (n + 1) =
    failures answers n + if (answers n).isFinal then 0 else 1 := by
  unfold failures
  rw [List.range_succ, List.countP_append, List.countP_singleton]
  cases (answers n).isFinal <;> rfl

/-- Up to the first final answer every lookup has failed. -/
theorem failures_of_lt (lt : (n : ℕ∞) < firstFinal answers) : failures answers n = n := by
  have all : ∀ k ∈ List.range n, (!(answers k).isFinal) = true := by
    intro k member
    rw [lt_firstFinal_iff.1 lt k (List.mem_range.1 member)]
    rfl
  exact (List.countP_eq_length.2 all).trans List.length_range

/-! ## Budgets -/

/-- How many lookups a budget allows, the one of the first attempt included. -/
def Retries.attempts : Retries → ℕ∞
  | .limited most => most + 1
  | .unlimited => ⊤

/-- A budget allows one more lookup exactly if it permits one more retry. -/
theorem Retries.lt_attempts_iff {retries : Retries} :
    (n : ℕ∞) < retries.attempts ↔ retries.permits n = true := by
  cases retries with
  | limited most =>
      have cast : (n : ℕ∞) < most + 1 ↔ n < most + 1 := by
        rw [← Nat.cast_one, ← Nat.cast_add, Nat.cast_lt]
      simp only [Retries.attempts, cast, Retries.permits, Nat.lt_succ_iff, decide_eq_true_eq]
  | unlimited =>
      simp [Retries.attempts, Retries.permits]

namespace Request

/-- How many lookups are made for a request that is tried until it ends. There is no end to them if the
budget is unlimited and no answer ends the request. -/
noncomputable def lookups (r : Request) (answers : Nat → Response) : ℕ∞ :=
  min r.retries.attempts (firstFinal answers)

/-! ## The request on its way -/

/-- A request that was made and nothing more. Its budget is small enough to be counted up to. -/
structure IsFresh (r : Request) : Prop where
  status : r.status = .idle
  retryCount : r.retryCount = 0
  wanted : r.cancelled = false
  unreported : r.reported = false
  small : ∀ most, r.retries = .limited most → most < maxRetryCount

/-- A request that was made is fresh, and asks for what it was made for. -/
theorem isFresh_of_create {key : Key} {budget : Int32} {settings : Settings} {group : Group}
    {r : Request} (made : create key budget settings group = .ok r) :
    r.IsFresh ∧ r.key = key ∧ r.settings = settings := by
  rcases isOpen_of_create made with ⟨_, _, _, small⟩
  rcases ok_of_bind made with ⟨retries, _, rest⟩
  rcases ok_of_bind rest with ⟨s, _, rest⟩
  cases rest
  exact ⟨⟨rfl, rfl, rfl, rfl, small⟩, rfl, rfl⟩

/-- A request that was scheduled, and scheduled again after each of some failures. -/
def tried (r : Request) (n : Nat) : Request :=
  { r with status := .scheduled, retryCount := min n maxRetryCount }

/-- A request after its last lookup, which came after some others. -/
def ended (r : Request) (answers : Nat → Response) (n : Nat) : Request :=
  { r with
    status := (answers n).status
    retryCount := min (failures answers (n + 1)) maxRetryCount
    reported := true }

namespace IsFresh

variable {r : Request}

/-- A fresh request is taken in by a scheduler that accepts everything. -/
theorem schedule (fresh : r.IsFresh) :
    r.schedule (.ok .accepting) = (r.tried 0, .accepted) := by
  have count : min 0 maxRetryCount = r.retryCount :=
    (Nat.zero_min maxRetryCount).trans fresh.retryCount.symm
  unfold Request.schedule tried
  rw [count]
  simp [fresh.status, fresh.unreported, Status.isTerminal, Reception.accepting]

/-- A request that was tried some times is searched for again. -/
theorem beginSend (fresh : r.IsFresh) (n : Nat) :
    (r.tried n).beginSend = .lookup { r.tried n with status := .inFlight } := by
  simp [Request.beginSend, tried, settled?, fresh.wanted]

/-- A retry is allowed as it would be if there were no limit to what is counted. -/
theorem permits (fresh : r.IsFresh) (n : Nat) :
    r.retries.permits (min n maxRetryCount) = r.retries.permits n := by
  cases budget : r.retries with
  | limited most =>
      have small := fresh.small most budget
      simp only [Retries.permits, decide_eq_decide]
      omega
  | unlimited =>
      rfl

/-- What a failure comes to for a request whose response has just arrived. -/
theorem retry (fresh : r.IsFresh) {failure : Failure} (genuine : failure ≠ .cancelled) (n : Nat) :
    ({ r.tried n with status := .inFlight } : Request).retry (.ok .accepting) failure =
      if r.retries.permits (n + 1) then
        { request := r.tried (n + 1)
          outcome := .ok (.retrying (min (n + 1) maxRetryCount))
          registered := true }
      else
        ({ r with status := .inFlight, retryCount := min (n + 1) maxRetryCount } : Request).endFailed
          failure := by
  have count : min (min n maxRetryCount + 1) maxRetryCount = min (n + 1) maxRetryCount := by omega
  rw [← fresh.permits (n + 1)]
  unfold Request.retry
  simp only [settled?, tried, genuine, fresh.wanted, Bool.false_eq_true, or_self, if_false, count]
  split
  · simp [Request.schedule, fresh.unreported, Reception.accepting, keep]
  · rfl

end IsFresh

/-! ## Attempts -/

/-- An attempt that is not the last one has its request scheduled again. -/
theorem conclude_of_lt {r : Request} (fresh : r.IsFresh)
    (lt : ((n + 1 : Nat) : ℕ∞) < r.lookups answers) :
    ({ r.tried n with status := .inFlight } : Request).conclude (.ok .accepting) (answers n) =
      { request := r.tried (n + 1)
        outcome := .ok (.retrying (min (n + 1) maxRetryCount))
        registered := true } := by
  rcases lt_min_iff.1 lt with ⟨allowed, early⟩
  have goesOn := lt_firstFinal_iff.1 early n (Nat.lt_succ_self n)
  cases answer : answers n with
  | block data =>
      rw [answer] at goesOn
      cases goesOn
  | fault f =>
      have genuine : f.failure ≠ .cancelled := by
        rw [answer] at goesOn
        exact ne_of_beq_false goesOn
      exact (fresh.retry genuine n).trans (if_pos (Retries.lt_attempts_iff.1 allowed))

/-- The last attempt ends its request with the answer to its lookup. -/
theorem conclude_of_eq {r : Request} (fresh : r.IsFresh)
    (last : ((n + 1 : Nat) : ℕ∞) = r.lookups answers) :
    ({ r.tried n with status := .inFlight } : Request).conclude (.ok .accepting) (answers n) =
      { request := r.ended answers n
        outcome := .ok (answers n).ending
        notice := some (answers n).notice } := by
  have before : (n : ℕ∞) < firstFinal answers := by
    refine lt_of_lt_of_le (Nat.cast_lt.2 (Nat.lt_succ_self n)) ?_
    rw [last]
    exact min_le_right _ _
  have count := failures_of_lt before
  have counted : failures answers (n + 1) = n + if (answers n).isFinal then 0 else 1 := by
    rw [failures_succ, count]
  unfold ended
  rw [counted]
  cases answer : answers n with
  | block data =>
      simp [conclude, endSucceeded, tried, fresh.wanted, Response.isFinal, Response.ending,
        Response.status, Response.notice]
  | fault f =>
      by_cases cancelled : f.failure = .cancelled
      · simp [conclude, Request.retry, settled?, endCancelled, tried, fresh.unreported, cancelled,
          Response.isFinal, Response.ending, Response.status, Response.notice]
      · -- nothing but the budget keeps it from being tried again
        have spent : ¬ r.retries.permits (n + 1) = true := by
          intro allowed
          have more : ((n + 1 : Nat) : ℕ∞) < firstFinal answers := by
            refine lt_firstFinal_iff.2 fun k le => ?_
            rcases Nat.lt_succ_iff_lt_or_eq.1 le with lt | rfl
            · exact lt_firstFinal_iff.1 before k lt
            · rw [answer]
              exact beq_false_of_ne cancelled
          exact absurd last (ne_of_lt (lt_min (Retries.lt_attempts_iff.2 allowed) more))
        refine ((fresh.retry cancelled n).trans (if_neg spent)).trans ?_
        simp [endFailed, Response.isFinal, Response.ending, Response.status, Response.notice, cancelled]

end Request
end MeteredFetch
