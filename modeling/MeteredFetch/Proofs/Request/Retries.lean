import MeteredFetch.Proofs.Request.Registration

/-!
# Retries — how far attempts count

A retry is counted before it is known whether it is allowed. One that the budget does not allow ends the
request, so the count goes one beyond the budget at most. A request may get another outcome later, or
lose the one that it has by being cancelled, but it never becomes one that a retry is counted for.

* `Request.WithinBudget` — a request whose count is within its budget, or one beyond it for good;
* `Request.exhausts` — whether an attempt fails a request because its budget is used up;
* `Request.Counts` — what an attempt counts, and `Request.counts_conclude`,
  `Request.counts_of_concluded` say that no attempt does otherwise.
-/

namespace MeteredFetch
namespace Request

variable {r r' : Request} {most : Nat} {c : Conclusion} {route : Except FetchError Reception}

/-! ## Budgets -/

/-- The count is at most one beyond the budget. If it is, no retry will be counted, since the request has
an outcome or is cancelled. -/
structure WithinBudget (most : Nat) (r : Request) : Prop where
  budget : r.retries = .limited most
  small : most < maxRetryCount
  count : r.retryCount ≤ most + 1
  spent : r.retryCount = most + 1 → r.settled? ≠ none ∨ r.cancelled = true

/-- A request counts no retry on its way. -/
theorem Onward.withinBudget (h : Onward r r') (within : r.WithinBudget most) :
    r'.WithinBudget most := by
  refine ⟨h.retries.trans within.budget, within.small, ?_, ?_⟩
  · rw [h.retryCount]
    exact within.count
  · rw [h.retryCount, h.settled]
    exact fun beyond => (within.spent beyond).imp_right h.cancelled

/-- The count of a request that a retry is counted for is within the budget, and small enough to be
counted on. -/
theorem WithinBudget.counted (h : r.WithinBudget most) (unsettled : r.settled? = none)
    (wanted : r.cancelled = false) :
    r.retryCount ≤ most ∧ r.counted.retryCount = r.retryCount + 1 := by
  have within : r.retryCount ≠ most + 1 := by
    intro beyond
    rcases h.spent beyond with settled | cancelled
    · exact settled unsettled
    · cases wanted.symm.trans cancelled
  have count := h.count
  have small := h.small
  simp only [Request.counted]
  omega

/-! ## Attempts -/

/-- Whether an attempt fails a request that had no outcome, and not because its scheduler is closed. -/
def exhausts (route : Except FetchError Reception) (response : Response) (r : Request) : Bool :=
  match response with
  | .block _ => false
  | .fault fault =>
      r.settled?.isNone && r.registration? route fault.failure != some (.refused .closed) &&
        match (r.retry route fault.failure).outcome with
        | .ok (.failed _) => true
        | _ => false

/-- What an attempt counts. A retry that the request is scheduled for has a number that was not counted
before, and the count goes beyond the budget only if `exhausts` says so. -/
structure Counts (most : Nat) (exhausts : Bool) (r : Request) (c : Conclusion) : Prop where
  within : c.request.WithinBudget most
  count : r.retryCount ≤ c.request.retryCount
  number : ∀ n, c.outcome = .ok (.retrying n) →
    r.retryCount < n ∧ n ≤ most ∧ n = c.request.retryCount
  beyond : c.request.retryCount = most + 1 ↔ r.retryCount = most + 1 ∨ exhausts = true

/-- Nothing is counted, and a request that no retry is counted for stays so. -/
theorem WithinBudget.counts (h : r.WithinBudget most) (budget : c.request.retries = r.retries)
    (count : c.request.retryCount = r.retryCount)
    (stays : r.settled? ≠ none ∨ r.cancelled = true →
      c.request.settled? ≠ none ∨ c.request.cancelled = true)
    (ends : ∀ n, c.outcome ≠ .ok (.retrying n)) : Counts most false r c := by
  refine ⟨⟨budget.trans h.budget, h.small, ?_, ?_⟩, Nat.le_of_eq count.symm, ?_, ?_⟩
  · rw [count]
    exact h.count
  · rw [count]
    exact fun beyond => stays (h.spent beyond)
  · exact fun n retrying => absurd retrying (ends n)
  · simp [count]

theorem settled_ne_retrying {outcome : Outcome} (h : r.settled? = some outcome) (n : Nat) :
    outcome ≠ .retrying n := by
  unfold settled? at h
  split at h <;> cases h <;> nofun

/-- A request that has its outcome is not counted again. -/
theorem counts_keep {outcome : Outcome} (h : r.WithinBudget most)
    (settled : r.settled? = some outcome) : Counts most false r (r.keep outcome) := by
  refine h.counts rfl rfl id ?_
  rintro n same
  exact settled_ne_retrying settled n (Except.ok.inj same)

/-- A request loses its outcome only to being cancelled. -/
theorem counts_endCancelled (h : r.WithinBudget most)
    (stopped : r.settled? = none ∨ r.cancelled = true) : Counts most false r r.endCancelled := by
  refine h.counts rfl rfl (fun spent => .inr ?_) nofun
  rcases stopped with unsettled | cancelled
  · exact spent.resolve_left fun settled => settled unsettled
  · exact cancelled

/-- A success counts no retry. -/
theorem counts_endSucceeded (h : r.WithinBudget most) (block : Bytes) :
    Counts most false r (r.endSucceeded block) := by
  unfold endSucceeded
  split
  · rename_i cancelled
    exact counts_endCancelled h (.inr cancelled)
  · refine h.counts rfl rfl (fun _ => .inl ?_) nofun
    simp [settled?]

/-- What a retry that is allowed counts, however its scheduler treats the request. -/
theorem counts_enter (h : r.WithinBudget most) (unsettled : r.settled? = none)
    (wanted : r.cancelled = false) (allowed : r.retries.permits r.counted.retryCount = true)
    (onward : r.counted.Onward r') (registration : Registration) :
    Counts most false r (r'.enter registration) := by
  rcases h.counted unsettled wanted with ⟨few, next⟩
  rw [h.budget] at allowed
  have permitted : r.counted.retryCount ≤ most := of_decide_eq_true allowed
  have count : r'.retryCount = r.retryCount + 1 := onward.retryCount.trans next
  have within : ∀ {x : Request}, x.retries = r'.retries → x.retryCount = r'.retryCount →
      x.WithinBudget most := by
    intro x budget same
    refine ⟨budget.trans (onward.retries.trans h.budget), h.small, ?_, fun beyond => ?_⟩ <;> omega
  -- the scheduler only decides what is made of the retry
  have entered : ∀ c : Conclusion, c.request.retries = r'.retries →
      c.request.retryCount = r'.retryCount →
      (∀ n, c.outcome = .ok (.retrying n) → n = r'.retryCount) → Counts most false r c := by
    intro c budget same numbered
    refine ⟨within budget same, ?_, fun n retrying => ?_, ?_⟩
    · omega
    · have number := numbered n retrying
      omega
    · rw [same, count]
      constructor
      · omega
      · rintro (beyond | none)
        · omega
        · cases none
  cases registration with
  | refused e =>
      by_cases closed : e = .closed
      · subst closed
        exact entered _ rfl rfl nofun
      · rw [enter_refused closed]
        exact entered _ rfl rfl nofun
  | _ =>
      refine entered _ rfl rfl fun n retrying => ?_
      cases retrying
      rfl

/-- A retry counts one more, or finds the budget used up and fails the request. -/
theorem counts_retry (h : r.WithinBudget most) (route : Except FetchError Reception) (fault : Fault) :
    Counts most (r.exhausts route (.fault fault)) r (r.retry route fault.failure) := by
  rcases retry_cases route fault.failure r with ⟨outcome, settled, same⟩ | ⟨unsettled, stopped, same⟩ |
    ⟨unsettled, _, wanted, spent, same⟩ |
    ⟨r', registration, unsettled, genuine, wanted, allowed, scheduled, same⟩
  · have kept : r.exhausts route (.fault fault) = false := by simp [exhausts, settled]
    rw [same, kept]
    exact counts_keep h settled
  · have ended : r.exhausts route (.fault fault) = false := by simp [exhausts, same, endCancelled]
    rw [same, ended]
    exact counts_endCancelled h (.inl unsettled)
  · -- the budget is used up
    have failed : r.exhausts route (.fault fault) = true := by
      simp [exhausts, same, unsettled, registration?, spent, endFailed]
    rw [same, failed]
    rcases h.counted unsettled wanted with ⟨few, next⟩
    rw [h.budget] at spent
    have beyond : most < r.counted.retryCount := Nat.lt_of_not_le (of_decide_eq_false spent)
    have count : (r.counted.endFailed fault.failure).request.retryCount = most + 1 := by
      change r.counted.retryCount = most + 1
      omega
    refine ⟨⟨h.budget, h.small, Nat.le_of_eq count, fun _ => .inl ?_⟩, ?_, fun n retrying => ?_, ?_⟩
    · simp [endFailed, settled?]
    · omega
    · cases retrying
    · simp [count]
  · have onward : r.counted.Onward r' := by
      simpa [scheduled] using onward_schedule route r.counted
    have asks : r.registration? route fault.failure = some registration := by
      simp [registration?, unsettled, genuine, wanted, allowed, scheduled]
    have going : r.exhausts route (.fault fault) = false := by
      cases registration with
      | refused e =>
          by_cases closed : e = .closed
          · simp [exhausts, asks, closed]
          · simp [exhausts, same, enter_refused closed]
      | _ =>
          simp [exhausts, same, enter, keep]
    rw [same, going]
    exact counts_enter h unsettled wanted allowed onward registration

/-- What the end of an attempt counts. -/
theorem counts_conclude (h : r.WithinBudget most) (route : Except FetchError Reception)
    (response : Response) : Counts most (r.exhausts route response) r (r.conclude route response) := by
  cases response with
  | block block =>
      exact counts_endSucceeded h block
  | fault fault =>
      exact counts_retry h route fault

/-- An attempt that ends before it has searched counts no retry. -/
theorem counts_of_concluded (h : r.WithinBudget most) (begins : r.beginSend = .concluded c) :
    Counts most false r c := by
  unfold beginSend at begins
  split at begins
  · rename_i outcome settled
    cases begins
    exact counts_keep h settled
  · rename_i unsettled
    split at begins
    · cases begins
      exact counts_endCancelled h (.inl unsettled)
    · cases begins

/-- A new request has used up nothing of its budget. -/
theorem withinBudget_of_create {key : Key} {budget : Int32} {settings : Settings} {group : Group}
    (made : create key budget settings group = .ok r) (limited : r.retries = .limited most) :
    r.retryCount = 0 ∧ r.WithinBudget most := by
  rcases isOpen_of_create made with ⟨_, first, _, small⟩
  refine ⟨first, limited, small most limited, ?_, ?_⟩ <;> omega

end Request
end MeteredFetch
