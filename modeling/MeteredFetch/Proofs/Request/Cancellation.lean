import MeteredFetch.Proofs.Request.Onward

/-!
# Cancellation — attempts heed that a request was cancelled

A request that was cancelled stays so. An attempt at it delivers nothing, and an attempt says that a
request is cancelled only if nothing was said of it before.

* `Request.Heeds` — an attempt heeds this;
* `Request.heeds_conclude`, `Request.heeds_of_concluded`, `Request.heeds_retry` — all attempts do,
  whatever the lookup answers and however the scheduler treats the request.
-/

namespace MeteredFetch
namespace Request

structure Heeds (r : Request) (c : Conclusion) : Prop where
  cancelled : r.cancelled = true → c.request.cancelled = true
  wanted : ∀ block, c.notice = some (.delivered block) → c.request.cancelled = false
  first : c.notice = some (.failed .cancelled) → r.reported = false

/-- Nobody is told anything of a request that goes on. -/
theorem heeds_of_onward {r r' : Request} (h : Onward r r') (outcome : Except FetchError Outcome)
    (registered : Bool) : Heeds r { request := r', outcome, registered } := by
  refine ⟨h.cancelled, ?_, ?_⟩
  · intro block told
    cases told
  · intro told
    cases told

/-- Counting a retry makes no difference. -/
theorem Heeds.of_counted {r : Request} {c : Conclusion} (h : Heeds r.counted c) : Heeds r c :=
  ⟨h.cancelled, h.wanted, h.first⟩

/-- Ending a request as cancelled delivers nothing and leaves it cancelled. -/
theorem heeds_endCancelled (r : Request) : Heeds r r.endCancelled := by
  cases reported : r.reported with
  | false =>
      refine ⟨id, ?_, fun _ => reported⟩
      intro block told
      simp [endCancelled, reported] at told
  | true =>
      -- it was said before how the request ended
      refine ⟨id, ?_, ?_⟩
      · intro block told
        simp [endCancelled, reported] at told
      · intro told
        simp [endCancelled, reported] at told

/-- A failure delivers nothing, and does not speak of a cancellation. -/
theorem heeds_endFailed (r : Request) {failure : Failure} (genuine : failure ≠ .cancelled) :
    Heeds r (r.endFailed failure) := by
  refine ⟨id, ?_, ?_⟩
  · intro block told
    cases told
  · intro told
    cases told
    exact absurd rfl genuine

/-- A block that comes after the cancellation is not delivered. -/
theorem heeds_endSucceeded (r : Request) (block : Bytes) : Heeds r (r.endSucceeded block) := by
  unfold endSucceeded
  split
  · exact heeds_endCancelled r
  · rename_i wanted
    refine ⟨id, ?_, ?_⟩
    · intro block told
      simpa using wanted
    · intro told
      cases told

/-- A cancelled request is not tried again. -/
theorem heeds_retry (route : Except FetchError Reception) (failure : Failure) (r : Request) :
    Heeds r (r.retry route failure) := by
  rcases retry_cases route failure r with ⟨outcome, _, same⟩ | ⟨_, _, same⟩ |
    ⟨_, genuine, _, _, same⟩ | ⟨r', registration, _, _, _, _, scheduled, same⟩
  · rw [same]
    exact heeds_of_onward (.refl r) _ false
  · rw [same]
    exact heeds_endCancelled r
  · rw [same]
    exact (heeds_endFailed r.counted genuine).of_counted
  · rw [same]
    have onward : r.counted.Onward r' := by
      simpa [scheduled] using onward_schedule route r.counted
    -- the scheduler may have cancelled it, but it says nothing
    apply Heeds.of_counted
    cases registration with
    | ended =>
        exact heeds_of_onward onward _ false
    | accepted =>
        exact heeds_of_onward onward _ true
    | refused e =>
        by_cases closed : e = .closed
        · subst closed
          have failed : Heeds r' (r'.endFailed .internalError) :=
            heeds_endFailed r' (by decide)
          exact ⟨fun cancelled => failed.cancelled (onward.cancelled cancelled), failed.wanted,
            fun told => onward.reported.symm.trans (failed.first told)⟩
        · rw [enter_refused closed]
          exact heeds_of_onward onward _ false

/-- Whatever the response, the end of an attempt heeds a cancellation. -/
theorem heeds_conclude (route : Except FetchError Reception) (response : Response) (r : Request) :
    Heeds r (r.conclude route response) := by
  cases response with
  | block block =>
      exact heeds_endSucceeded r block
  | fault fault =>
      exact heeds_retry route fault.failure r

/-- An attempt that ends before it has searched heeds a cancellation as well. -/
theorem heeds_of_concluded {r : Request} {c : Conclusion} (h : r.beginSend = .concluded c) :
    Heeds r c := by
  unfold beginSend at h
  split at h
  · cases h
    exact heeds_of_onward (.refl r) _ false
  · split at h
    · cases h
      exact heeds_endCancelled r
    · cases h

end Request
end MeteredFetch
