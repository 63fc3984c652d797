import MeteredFetch.Proofs.Request.Onward

/-!
# Registration — what a retry asks of the scheduler

A retry that is allowed asks the scheduler to take the request in once more. The scheduler may
cancel the request first, and it may refuse it. A request that is cancelled and has no outcome then
ends as cancelled, with one exception: it is ended with a failure if the scheduler has cancelled it
and says that it is closed.

* `Request.registration?` — what becomes of the registration that a retry asks for;
* `Request.Retried` — what a retry comes to, as a relation;
* `Request.IsRevoked` — a request that is cancelled and has no outcome;
* `Request.IsRevoked.conclude`, `Request.IsRevoked.beginSend` — all attempts end it as cancelled;
* `Request.isForsaken` — the exception, and `Request.failed_of_isForsaken`,
  `Request.unsettled_of_not_isForsaken` say what comes of it and that there is no other.
-/

namespace MeteredFetch
namespace Request

variable {r r' : Request} {route : Except FetchError Reception} {failure : Failure}

/-! ## Retries -/

/-- What becomes of the registration that a retry asks for. None is asked for if the request has an
outcome or is cancelled, if the failure stands for cancellation, or if the budget is used up. -/
def registration? (route : Except FetchError Reception) (failure : Failure) (r : Request) :
    Option Registration :=
  if r.settled?.isNone && !r.cancelled && failure != .cancelled &&
      r.retries.permits r.counted.retryCount then
    some (r.counted.schedule route).2
  else none

inductive Retried (route : Except FetchError Reception) (failure : Failure) (r : Request) :
    Conclusion → Prop
  | kept {outcome : Outcome} : r.settled? = some outcome → r.registration? route failure = none →
      Retried route failure r (r.keep outcome)
  | stopped : r.settled? = none → (failure = .cancelled ∨ r.cancelled = true) →
      r.registration? route failure = none → Retried route failure r r.endCancelled
  | exhausted : r.settled? = none → r.cancelled = false → r.registration? route failure = none →
      Retried route failure r (r.counted.endFailed failure)
  | asked {r' : Request} {registration : Registration} : r.settled? = none → r.cancelled = false →
      r.registration? route failure = some registration →
      r.counted.schedule route = (r', registration) → r.counted.Onward r' →
      Retried route failure r (r'.enter registration)

/-- The cases of a retry, with what becomes of the registration in each. -/
theorem retried (route : Except FetchError Reception) (failure : Failure) (r : Request) :
    Retried route failure r (r.retry route failure) := by
  rcases retry_cases route failure r with ⟨outcome, settled, same⟩ | ⟨unsettled, stopped, same⟩ |
    ⟨unsettled, _, wanted, spent, same⟩ |
    ⟨r', registration, unsettled, genuine, wanted, allowed, scheduled, same⟩
  · rw [same]
    exact .kept settled (by simp [registration?, settled])
  · rw [same]
    refine .stopped unsettled stopped ?_
    rcases stopped with told | cancelled
    · simp [registration?, told]
    · simp [registration?, cancelled]
  · rw [same]
    exact .exhausted unsettled wanted (by simp [registration?, spent])
  · rw [same]
    have onward : r.counted.Onward r' := by
      simpa [scheduled] using onward_schedule route r.counted
    refine .asked unsettled wanted ?_ scheduled onward
    simp [registration?, unsettled, genuine, wanted, allowed, scheduled]

/-! ## Cancelled requests -/

structure IsRevoked (r : Request) : Prop where
  cancelled : r.cancelled = true
  unsettled : r.settled? = none

/-- A request that was revoked is not revived on its way. -/
theorem Onward.isRevoked (h : Onward r r') (revoked : r.IsRevoked) : r'.IsRevoked :=
  ⟨h.cancelled revoked.cancelled, h.settled.trans revoked.unsettled⟩

theorem isRevoked_endCancelled (cancelled : r.cancelled = true) :
    r.endCancelled.request.IsRevoked :=
  ⟨cancelled, rfl⟩

/-- Nothing else is told when a request is ended as cancelled. -/
theorem notice_endCancelled {notice : Notice} (h : r.endCancelled.notice = some notice) :
    notice = .failed .cancelled := by
  unfold endCancelled at h
  simp only at h
  split at h
  · cases h
  · cases h
    rfl

namespace IsRevoked

/-- A revoked request is not searched for any more. -/
theorem beginSend (h : r.IsRevoked) : r.beginSend = .concluded r.endCancelled := by
  unfold Request.beginSend
  rw [h.unsettled]
  simp [h.cancelled]

/-- Whatever a lookup answers, and however the scheduler treats the request. -/
theorem conclude (h : r.IsRevoked) (route : Except FetchError Reception) (response : Response) :
    r.conclude route response = r.endCancelled := by
  cases response with
  | block block =>
      simp [Request.conclude, endSucceeded, h.cancelled]
  | fault fault =>
      unfold Request.conclude Request.retry
      rw [h.unsettled]
      simp [h.cancelled]

end IsRevoked

/-- The end of an attempt at a request without outcome gives it one, or tells nobody anything but
that it is cancelled. -/
theorem settles_or_cancels (unsettled : r.settled? = none) (route : Except FetchError Reception)
    (response : Response) :
    (r.conclude route response).request.settled? ≠ none ∨
      ∀ notice, (r.conclude route response).notice = some notice →
        notice = .failed .cancelled := by
  cases response with
  | block block =>
      unfold conclude endSucceeded
      simp only
      split
      · exact .inr fun notice => notice_endCancelled
      · exact .inl (by simp [settled?])
  | fault fault =>
      change (r.retry route fault.failure).request.settled? ≠ none ∨
        ∀ notice, (r.retry route fault.failure).notice = some notice → notice = .failed .cancelled
      have came := retried route fault.failure r
      generalize r.retry route fault.failure = c at came ⊢
      have silent : ∀ {c : Conclusion}, c.notice = none →
          ∀ notice, c.notice = some notice → notice = .failed .cancelled := by
        intro c none notice said
        cases none.symm.trans said
      cases came with
      | kept settled _ =>
          cases settled.symm.trans unsettled
      | stopped _ _ _ =>
          exact .inr fun notice => notice_endCancelled
      | exhausted _ _ _ =>
          exact .inl (by simp [endFailed, settled?])
      | @asked r' registration _ _ _ _ _ =>
          cases registration with
          | refused e =>
              by_cases closed : e = .closed
              · subst closed
                exact .inl (by simp [enter, endFailed, settled?])
              · rw [enter_refused closed]
                exact .inr (silent rfl)
          | _ =>
              exact .inr (silent rfl)

/-! ## Schedulers that cancel -/

/-- Whether the scheduler cancels the request that it is to take in. -/
def isCancelledBy : Except FetchError Reception → Bool
  | .ok reception => reception.cancels
  | .error _ => false

/-- Only its scheduler can cancel a request that it is asked to take in. -/
theorem cancelled_schedule {registration : Registration}
    (h : r.schedule route = (r', registration)) :
    r'.cancelled = (r.cancelled || decide (registration ≠ .ended) && isCancelledBy route) := by
  unfold schedule at h
  cases route with
  | error e =>
      cases h
      simp [isCancelledBy]
  | ok reception =>
      simp only at h
      split at h
      · cases h
        simp
      · -- neither marking the request nor taking its status back touches the flag
        have marked : (if r.status = .idle ∨ r.status = .inFlight then
            { r with status := .scheduled } else r).cancelled = r.cancelled := by
          split <;> rfl
        generalize (if r.status = .idle ∨ r.status = .inFlight then
          { r with status := .scheduled } else r) = r₁ at h marked
        have received : (if reception.cancels = true then r₁.cancel else r₁).cancelled =
            (r.cancelled || reception.cancels) := by
          cases cancels : reception.cancels with
          | false =>
              simpa using marked
          | true =>
              simp [cancel]
        generalize (if reception.cancels = true then r₁.cancel else r₁) = r₂ at h received
        split at h
        · cases h
          simpa [isCancelledBy] using received
        · cases h
          split <;> simpa [isCancelledBy] using received

/-- Whether an attempt asks a scheduler to take the request in that cancels it and says that it is
closed. -/
def isForsaken (route : Except FetchError Reception) (response : Response) (r : Request) : Bool :=
  match response with
  | .block _ => false
  | .fault fault =>
      r.registration? route fault.failure == some (.refused .closed) && isCancelledBy route

/-- The request is cancelled and fails all the same. -/
theorem failed_of_isForsaken {response : Response} (h : r.isForsaken route response = true) :
    (r.conclude route response).request.cancelled = true ∧
      (r.conclude route response).request.status = .failed .internalError ∧
      (r.conclude route response).notice = some (.failed .internalError) := by
  cases response with
  | block block =>
      cases h
  | fault fault =>
      have parts : r.registration? route fault.failure = some (.refused .closed) ∧
          isCancelledBy route = true := by
        simpa [isForsaken] using h
      change (r.retry route fault.failure).request.cancelled = true ∧
        (r.retry route fault.failure).request.status = .failed .internalError ∧
        (r.retry route fault.failure).notice = some (.failed .internalError)
      have came := retried route fault.failure r
      generalize r.retry route fault.failure = c at came ⊢
      cases came with
      | @asked r' registration _ _ asks scheduled _ =>
          cases asks.symm.trans parts.1
          have flag := cancelled_schedule scheduled
          rw [parts.2] at flag
          exact ⟨flag.trans (by simp), rfl, rfl⟩
      | kept _ none =>
          cases none.symm.trans parts.1
      | stopped _ _ none =>
          cases none.symm.trans parts.1
      | exhausted _ _ none =>
          cases none.symm.trans parts.1

/-- In every other attempt that a request is cancelled in, it gets no outcome and nobody is told
anything. -/
theorem unsettled_of_not_isForsaken {response : Response} (unsettled : r.settled? = none)
    (wanted : r.cancelled = false) (h : r.isForsaken route response = false)
    (cancelled : (r.conclude route response).request.cancelled = true) :
    (r.conclude route response).request.settled? = none ∧
      (r.conclude route response).notice = none := by
  cases response with
  | block block =>
      simp [conclude, endSucceeded, wanted] at cancelled
  | fault fault =>
      change (r.retry route fault.failure).request.settled? = none ∧
        (r.retry route fault.failure).notice = none
      change (r.retry route fault.failure).request.cancelled = true at cancelled
      have came := retried route fault.failure r
      generalize r.retry route fault.failure = c at came cancelled ⊢
      cases came with
      | kept settled _ =>
          cases settled.symm.trans unsettled
      | stopped _ _ _ =>
          cases wanted.symm.trans cancelled
      | exhausted _ _ _ =>
          cases wanted.symm.trans cancelled
      | @asked r' registration _ _ asks scheduled onward =>
          have kept : r'.settled? = none := onward.settled.trans unsettled
          have flag := cancelled_schedule scheduled
          cases registration with
          | refused e =>
              by_cases closed : e = .closed
              · -- the scheduler has not cancelled it, and nobody else has
                subst closed
                have before : r'.cancelled = true := cancelled
                have spared : isCancelledBy route = false := by
                  simpa [isForsaken, asks] using h
                rw [before, spared] at flag
                change true = (r.cancelled || _ && false) at flag
                simp [wanted] at flag
              · rw [enter_refused closed]
                exact ⟨kept, rfl⟩
          | _ =>
              exact ⟨kept, rfl⟩

end Request
end MeteredFetch
