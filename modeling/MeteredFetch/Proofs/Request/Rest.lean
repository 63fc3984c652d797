import MeteredFetch.Proofs.Request.Onward

/-!
# Rest — requests that are over

A request that was reported is over if it has an outcome, or if it was cancelled by a call. Whatever
is done with it then, it stays where it is. A request that is reported as cancelled because a lookup
said so is not over: the next attempt looks its key up once more.

* `Request.IsOver` — nothing more is to come of a request;
* `Request.Rests` — an attempt leaves its request where it is, and nobody hears of it;
* `Request.schedule_of_isOver`, `Request.beginSend_of_isOver`, `Request.rests_retry` — a request that
  is over rests, and `Request.isOver_of_stays` — no other does;
* `Request.Discloses` — an attempt that reports a request ends it for good or says that it is
  cancelled.
-/

namespace MeteredFetch
namespace Request

def IsOver (r : Request) : Prop :=
  r.reported = true ∧ (r.settled? ≠ none ∨ r.status = .cancelled ∧ r.cancelled = true)

/-- Neither the status nor the number of retries changes, and nothing that was noted is taken
back. -/
structure Stays (r r' : Request) : Prop where
  status : r'.status = r.status
  retryCount : r'.retryCount = r.retryCount
  reported : r'.reported = r.reported
  cancelled : r.cancelled = true → r'.cancelled = true

theorem Stays.refl (r : Request) : Stays r r :=
  ⟨rfl, rfl, rfl, id⟩

theorem Stays.trans {r r' r'' : Request} (h : Stays r r') (h' : Stays r' r'') : Stays r r'' :=
  ⟨h'.status.trans h.status, h'.retryCount.trans h.retryCount, h'.reported.trans h.reported,
    fun cancelled => h'.cancelled (h.cancelled cancelled)⟩

/-- A request that stays keeps its outcome. -/
theorem Stays.settled {r r' : Request} (h : Stays r r') : r'.settled? = r.settled? := by
  unfold settled?
  rw [h.status]

/-- A request that stays is over if it was before. -/
theorem Stays.isOver {r r' : Request} (h : Stays r r') (ended : r.IsOver) : r'.IsOver := by
  refine ⟨h.reported.trans ended.1, ?_⟩
  rcases ended.2 with settled | ⟨status, cancelled⟩
  · rw [h.settled]
    exact .inl settled
  · exact .inr ⟨h.status.trans status, h.cancelled cancelled⟩

/-! ## Requests that are over -/

variable {r : Request}

/-- What is over has a status that says so. -/
theorem IsOver.isTerminal (h : r.IsOver) : r.status.isTerminal = true := by
  rcases h.2 with settled | ⟨status, _⟩
  · unfold settled? at settled
    cases status : r.status <;> simp_all [Status.isTerminal]
  · rw [status]
    rfl

/-- Cancelling a request that is over changes nothing of interest. -/
theorem stays_cancel (h : r.IsOver) : Stays r r.cancel := by
  have ended : ¬ (r.status = .idle ∨ r.status = .scheduled) := by
    have terminal := h.isTerminal
    rintro (idle | scheduled)
    · simp [idle, Status.isTerminal] at terminal
    · simp [scheduled, Status.isTerminal] at terminal
  exact ⟨if_neg ended, rfl, rfl, fun _ => rfl⟩

/-- A request that is over is not registered. -/
theorem schedule_of_isOver (h : r.IsOver) (route : Except FetchError Reception) :
    r.schedule route = (r, .ended) ∨ ∃ e, r.schedule route = (r, .refused e) := by
  unfold schedule
  cases route with
  | error e =>
      exact .inr ⟨e, rfl⟩
  | ok reception =>
      simp [h.isTerminal, h.1]

/-- An attempt leaves its request as it is. Nobody is told anything, and it is not registered. -/
structure Rests (r : Request) (c : Conclusion) : Prop where
  request : c.request = r
  notice : c.notice = none
  registered : c.registered = false

theorem rests_keep (r : Request) (outcome : Outcome) : Rests r (r.keep outcome) :=
  ⟨rfl, rfl, rfl⟩

/-- To end a request as cancelled once more changes nothing. -/
theorem rests_endCancelled (reported : r.reported = true) (status : r.status = .cancelled) :
    Rests r r.endCancelled := by
  refine ⟨?_, ?_, rfl⟩
  · unfold endCancelled
    rw [← status, ← reported]
  · simp [endCancelled, reported]

/-- Nothing is looked up for a request that is over. -/
theorem beginSend_of_isOver (h : r.IsOver) : ∃ c, r.beginSend = .concluded c ∧ Rests r c := by
  unfold beginSend
  cases settled : r.settled? with
  | some outcome =>
      exact ⟨_, rfl, rests_keep r outcome⟩
  | none =>
      rcases h.2 with outcome | ⟨status, cancelled⟩
      · exact absurd settled outcome
      · exact ⟨r.endCancelled, by simp [cancelled], rests_endCancelled h.1 status⟩

/-- A request that is over is not tried again. -/
theorem rests_retry (h : r.IsOver) (route : Except FetchError Reception) (failure : Failure) :
    Rests r (r.retry route failure) := by
  unfold retry
  cases settled : r.settled? with
  | some outcome =>
      exact rests_keep r outcome
  | none =>
      rcases h.2 with outcome | ⟨status, cancelled⟩
      · exact absurd settled outcome
      · simp only [cancelled, or_true, if_true]
        exact rests_endCancelled h.1 status

/-- A response is thrown away if it arrives for a request that is over and has no outcome. -/
theorem rests_conclude (h : r.IsOver) (unsettled : r.settled? = none)
    (route : Except FetchError Reception) (response : Response) :
    Rests r (r.conclude route response) := by
  cases response with
  | block block =>
      rcases h.2 with outcome | ⟨status, cancelled⟩
      · exact absurd unsettled outcome
      · simp only [conclude, endSucceeded, cancelled, if_true]
        exact rests_endCancelled h.1 status
  | fault fault =>
      exact rests_retry h route fault.failure

/-- Only a request that is over stays as it is when the next attempt ends at once. -/
theorem isOver_of_stays (reported : r.reported = true) {c : Conclusion}
    (begins : r.beginSend = .concluded c) (stays : Stays r c.request) : r.IsOver := by
  refine ⟨reported, ?_⟩
  unfold beginSend at begins
  split at begins
  · rename_i outcome settled
    exact .inl (by simp [settled])
  · split at begins
    · rename_i cancelled
      cases begins
      exact .inr ⟨stays.status.symm, cancelled⟩
    · cases begins

/-! ## Reports -/

/-- An attempt that reports a request ends it for good, or it says that the request is cancelled. -/
def Discloses (c : Conclusion) : Prop :=
  c.request.reported = true → c.request.IsOver ∨ c.notice = some (.failed .cancelled)

theorem discloses_of_onward {r r' : Request} (unreported : r.reported = false) (h : Onward r r')
    (outcome : Except FetchError Outcome) (registered : Bool) :
    Discloses { request := r', outcome, registered } := by
  intro reported
  have before : r'.reported = false := h.reported.trans unreported
  rw [before] at reported
  cases reported

theorem discloses_endCancelled (unreported : r.reported = false) : Discloses r.endCancelled := by
  intro _
  exact .inr (by simp [endCancelled, unreported])

/-- A failure that is told is for good. -/
theorem discloses_endFailed (r : Request) (failure : Failure) :
    Discloses (r.endFailed failure) := by
  intro _
  exact .inl ⟨rfl, .inl (by simp [endFailed, settled?])⟩

/-- A retry tells nothing but an end. -/
theorem discloses_retry (unreported : r.reported = false) (route : Except FetchError Reception)
    (failure : Failure) : Discloses (r.retry route failure) := by
  rcases retry_cases route failure r with ⟨outcome, _, same⟩ | ⟨_, _, same⟩ |
    ⟨_, _, _, _, same⟩ | ⟨r', registration, _, _, _, _, scheduled, same⟩
  · rw [same]
    exact discloses_of_onward unreported (.refl r) _ false
  · rw [same]
    exact discloses_endCancelled unreported
  · rw [same]
    exact discloses_endFailed r.counted failure
  · rw [same]
    have onward : r.counted.Onward r' := by
      simpa [scheduled] using onward_schedule route r.counted
    have counted : r.counted.reported = false := unreported
    cases registration with
    | ended =>
        exact discloses_of_onward counted onward _ false
    | accepted =>
        exact discloses_of_onward counted onward _ true
    | refused e =>
        by_cases closed : e = .closed
        · subst closed
          exact discloses_endFailed r' .internalError
        · rw [enter_refused closed]
          exact discloses_of_onward counted onward _ false

/-- An attempt tells nothing but an end or a cancellation. -/
theorem discloses_conclude (unreported : r.reported = false) (route : Except FetchError Reception)
    (response : Response) : Discloses (r.conclude route response) := by
  cases response with
  | block block =>
      unfold conclude endSucceeded
      simp only
      split
      · exact discloses_endCancelled unreported
      · intro _
        exact .inl ⟨rfl, .inl (by simp [settled?])⟩
  | fault fault =>
      exact discloses_retry unreported route fault.failure

theorem discloses_of_concluded (unreported : r.reported = false) {c : Conclusion}
    (h : r.beginSend = .concluded c) : Discloses c := by
  unfold beginSend at h
  split at h
  · cases h
    exact discloses_of_onward unreported (.refl r) _ false
  · split at h
    · cases h
      exact discloses_endCancelled unreported
    · cases h

end Request
end MeteredFetch
