import MeteredFetch.Proofs.Request.Registration

/-!
# Handover — where requests are when an attempt has ended

When an attempt has ended, its request was taken in by its scheduler once more, or it goes no further
and its consumer was told so. There is one way around this: a scheduler that is asked to take the
request in may refuse it for another reason than being closed.

* `Request.end?` — what a request ended with;
* `Outcome.IsTold` — a consumer was told what a request ended with;
* `Request.IsAccounted` — what a request ended with is what its consumer was told, and
  `Request.isAccounted_conclude` says that attempts keep it so;
* `Request.isSpurned` — the way around;
* `Request.Placed`, `Request.Spurned` — what becomes of a request in either case, and
  `Request.placed_conclude`, `Request.spurned_conclude` say that nothing else does.
-/

namespace MeteredFetch

/-- What a request ended with is among what its consumer was told. -/
def Outcome.IsTold (about : List Notice) : Outcome → Prop
  | .succeeded => ∃ block, .delivered block ∈ about
  | .failed failure => .failed failure ∈ about
  | .cancelled => .failed .cancelled ∈ about
  | .retrying _ => False

/-- What a consumer was told is not untold. -/
theorem Outcome.IsTold.mono {about about' : List Notice} {outcome : Outcome}
    (h : outcome.IsTold about) (more : ∀ n ∈ about, n ∈ about') : outcome.IsTold about' := by
  cases outcome with
  | succeeded =>
      rcases h with ⟨block, member⟩
      exact ⟨block, more _ member⟩
  | retrying attempt =>
      exact h
  | _ =>
      exact more _ h

namespace Request

def end? (r : Request) : Option Outcome :=
  match r.status with
  | .succeeded => some .succeeded
  | .failed failure => some (.failed failure)
  | .cancelled => some .cancelled
  | .idle | .scheduled | .inFlight => none

theorem end?_of_settled {r : Request} {outcome : Outcome} (h : r.settled? = some outcome) :
    r.end? = some outcome := by
  unfold settled? at h
  unfold end?
  cases status : r.status <;> simp_all

/-- A request without an outcome has ended only if it was cancelled. -/
theorem end?_of_unsettled {r : Request} (h : r.settled? = none) (status : r.status ≠ .cancelled) :
    r.end? = none := by
  unfold settled? at h
  unfold end?
  cases known : r.status <;> simp_all

variable {r r' : Request} {route : Except FetchError Reception} {about : List Notice}

/-! ## Accounts -/

/-- What a request ended with is what its consumer was told. One that was reported and has no outcome
was reported as cancelled. -/
structure IsAccounted (about : List Notice) (r : Request) : Prop where
  settled : ∀ outcome, r.settled? = some outcome → outcome.IsTold about
  reported : r.settled? = none → r.reported = true → .failed .cancelled ∈ about

/-- A request that goes on has still been told of what it ended with. -/
theorem Onward.isAccounted (h : Onward r r') (accounted : r.IsAccounted about) :
    r'.IsAccounted about := by
  refine ⟨?_, ?_⟩
  · rw [h.settled]
    exact accounted.settled
  · rw [h.settled, h.reported]
    exact accounted.reported

/-- A request that ends as cancelled has said so, now or before. -/
theorem isAccounted_endCancelled (accounted : r.IsAccounted about) (unsettled : r.settled? = none) :
    r.endCancelled.request.IsAccounted (r.endCancelled.notice.toList ++ about) ∧
      Outcome.cancelled.IsTold (r.endCancelled.notice.toList ++ about) := by
  have told : .failed .cancelled ∈ r.endCancelled.notice.toList ++ about := by
    cases reported : r.reported with
    | true =>
        exact List.mem_append_right _ (accounted.reported unsettled reported)
    | false =>
        simp [endCancelled, reported]
  refine ⟨⟨fun outcome settled => ?_, fun _ _ => told⟩, told⟩
  cases settled

/-- A request that fails says so. -/
theorem isAccounted_endFailed (r : Request) (failure : Failure) (about : List Notice) :
    (r.endFailed failure).request.IsAccounted ((r.endFailed failure).notice.toList ++ about) := by
  refine ⟨fun outcome settled => ?_, fun unsettled => ?_⟩
  · cases settled
    exact List.mem_cons_self
  · cases unsettled

theorem isAccounted_endSucceeded (accounted : r.IsAccounted about) (unsettled : r.settled? = none)
    (block : Bytes) : (r.endSucceeded block).request.IsAccounted
      ((r.endSucceeded block).notice.toList ++ about) := by
  unfold endSucceeded
  split
  · exact (isAccounted_endCancelled accounted unsettled).1
  · refine ⟨fun outcome settled => ?_, fun none => ?_⟩
    · cases settled
      exact ⟨block, List.mem_cons_self⟩
    · cases none

/-- A retry says what it ended its request with, if it has. -/
theorem isAccounted_enter (accounted : r.IsAccounted about) (registration : Registration) :
    (r.enter registration).request.IsAccounted
      ((r.enter registration).notice.toList ++ about) := by
  cases registration with
  | refused e =>
      by_cases closed : e = .closed
      · subst closed
        exact isAccounted_endFailed r .internalError about
      · rw [enter_refused closed]
        exact accounted
  | _ =>
      exact accounted

/-- Attempts keep accounts, unless a block arrives for a request that has an outcome. -/
theorem isAccounted_conclude {response : Response} (accounted : r.IsAccounted about)
    (timely : r.settled? = none ∨ ∃ fault, response = .fault fault) :
    (r.conclude route response).request.IsAccounted
      ((r.conclude route response).notice.toList ++ about) := by
  cases response with
  | block block =>
      rcases timely with unsettled | ⟨fault, same⟩
      · exact isAccounted_endSucceeded accounted unsettled block
      · cases same
  | fault fault =>
      change (r.retry route fault.failure).request.IsAccounted
        ((r.retry route fault.failure).notice.toList ++ about)
      have came := retried route fault.failure r
      generalize r.retry route fault.failure = c at came ⊢
      cases came with
      | kept _ _ =>
          exact accounted
      | stopped unsettled _ _ =>
          exact (isAccounted_endCancelled accounted unsettled).1
      | exhausted _ _ _ =>
          exact isAccounted_endFailed r.counted fault.failure about
      | asked _ _ _ _ onward =>
          have counted : r.counted.IsAccounted about := ⟨accounted.settled, accounted.reported⟩
          exact isAccounted_enter (onward.isAccounted counted) _

/-- An attempt that ends before it has searched leaves the consumer informed. -/
theorem isAccounted_of_concluded {c : Conclusion} (accounted : r.IsAccounted about)
    (h : r.beginSend = .concluded c) : c.request.IsAccounted (c.notice.toList ++ about) := by
  unfold beginSend at h
  split at h
  · cases h
    exact accounted
  · rename_i unsettled
    split at h
    · cases h
      exact (isAccounted_endCancelled accounted unsettled).1
    · cases h

/-! ## Places -/

/-- A request was taken in by its scheduler, or it has ended and its consumer was told so. -/
inductive Placed (about : List Notice) (c : Conclusion) : Prop
  | registered {attempt : Nat} : c.outcome = .ok (.retrying attempt) → c.registered = true →
      Placed about c
  | ended {outcome : Outcome} : c.registered = false → c.request.end? = some outcome →
      outcome.IsTold (c.notice.toList ++ about) →
      (c.outcome = .ok outcome ∨ ∃ attempt, c.outcome = .ok (.retrying attempt)) → Placed about c

/-- A request was refused by its scheduler, which its consumer was not told. It has ended, and its
consumer was told so, only if that was before and it is cancelled now. -/
structure Spurned (r : Request) (about : List Notice) (c : Conclusion) : Prop where
  outcome : ∃ e, c.outcome = .error e ∧ e ≠ .closed
  registered : c.registered = false
  notice : c.notice = none
  ended : (∃ outcome, c.request.end? = some outcome ∧ outcome.IsTold about) ↔
    c.request.status = .cancelled ∧ r.reported = true

/-- Whether an attempt asks a scheduler to take the request in that refuses it for another reason than
being closed. -/
def isSpurned (route : Except FetchError Reception) (response : Response) (r : Request) : Bool :=
  match response with
  | .block _ => false
  | .fault fault =>
      match r.registration? route fault.failure with
      | some (.refused e) => e != .closed
      | _ => false

/-- A request whose outcome is known needs no scheduler, and its consumer knows. -/
theorem placed_keep {outcome : Outcome} (accounted : r.IsAccounted about)
    (settled : r.settled? = some outcome) : Placed about (r.keep outcome) :=
  .ended rfl (end?_of_settled settled) (accounted.settled outcome settled) (.inl rfl)

theorem placed_endCancelled (accounted : r.IsAccounted about) (unsettled : r.settled? = none) :
    Placed about r.endCancelled :=
  .ended rfl rfl (isAccounted_endCancelled accounted unsettled).2 (.inl rfl)

theorem placed_endFailed (r : Request) (failure : Failure) (about : List Notice) :
    Placed about (r.endFailed failure) :=
  .ended rfl rfl List.mem_cons_self (.inl rfl)

theorem placed_of_concluded {c : Conclusion} (accounted : r.IsAccounted about)
    (h : r.beginSend = .concluded c) : Placed about c := by
  unfold beginSend at h
  split at h
  · rename_i outcome settled
    cases h
    exact placed_keep accounted settled
  · rename_i unsettled
    split at h
    · cases h
      exact placed_endCancelled accounted unsettled
    · cases h

/-- A request that is not registered since it has ended has ended as cancelled, and was reported. -/
theorem cancelled_of_ended (unsettled : r.settled? = none) (h : r.schedule route = (r', .ended)) :
    r' = r ∧ r.status = .cancelled ∧ r.reported = true := by
  unfold schedule at h
  cases route with
  | error e =>
      cases h
  | ok reception =>
      simp only at h
      split at h
      · rename_i ended
        cases h
        rw [Bool.and_eq_true] at ended
        refine ⟨rfl, ?_, ended.2⟩
        have terminal := ended.1
        unfold settled? at unsettled
        cases status : r.status <;> simp_all [Status.isTerminal]
      · split at h <;> cases h

/-- Unless its scheduler spurns the request, an attempt leaves it in good hands. -/
theorem placed_conclude {response : Response} (accounted : r.IsAccounted about)
    (timely : r.settled? = none ∨ ∃ fault, response = .fault fault)
    (taken : r.isSpurned route response = false) : Placed about (r.conclude route response) := by
  cases response with
  | block block =>
      rcases timely with unsettled | ⟨fault, same⟩
      · unfold conclude endSucceeded
        simp only
        split
        · exact placed_endCancelled accounted unsettled
        · exact .ended rfl rfl ⟨block, List.mem_cons_self⟩ (.inl rfl)
      · cases same
  | fault fault =>
      change Placed about (r.retry route fault.failure)
      have came := retried route fault.failure r
      generalize r.retry route fault.failure = c at came ⊢
      cases came with
      | kept settled _ =>
          exact placed_keep accounted settled
      | stopped unsettled _ _ =>
          exact placed_endCancelled accounted unsettled
      | exhausted _ _ _ =>
          exact placed_endFailed r.counted fault.failure about
      | @asked r' registration unsettled _ asks scheduled onward =>
          cases registration with
          | accepted =>
              exact .registered rfl rfl
          | ended =>
              -- it was reported as cancelled before, and goes no further
              have pending : r.counted.settled? = none := unsettled
              rcases cancelled_of_ended pending scheduled with ⟨rfl, status, reported⟩
              have cancelled : r.counted.end? = some .cancelled := by simp [end?, status]
              exact .ended rfl cancelled (accounted.reported unsettled reported) (.inr ⟨_, rfl⟩)
          | refused e =>
              have closed : e = .closed := by simpa [isSpurned, asks] using taken
              subst closed
              exact placed_endFailed r' .internalError about

/-- After a refusal the status is what it was before, unless the scheduler has cancelled the
request. -/
theorem spurned_conclude {response : Response} (accounted : r.IsAccounted about)
    (heard : ∀ n ∈ about, r.reported = true) (spurned : r.isSpurned route response = true) :
    Spurned r about (r.conclude route response) := by
  cases response with
  | block block =>
      cases spurned
  | fault fault =>
      change Spurned r about (r.retry route fault.failure)
      have came := retried route fault.failure r
      generalize r.retry route fault.failure = c at came ⊢
      cases came with
      | kept _ none =>
          simp [isSpurned, none] at spurned
      | stopped _ _ none =>
          simp [isSpurned, none] at spurned
      | exhausted _ _ none =>
          simp [isSpurned, none] at spurned
      | @asked r' registration unsettled _ asks scheduled onward =>
          cases registration with
          | refused e =>
              have other : e ≠ .closed := by simpa [isSpurned, asks] using spurned
              have none : r'.settled? = none := onward.settled.trans unsettled
              rw [enter_refused other]
              refine ⟨⟨e, rfl, other⟩, rfl, rfl, ?_, ?_⟩
              · rintro ⟨outcome, ended, told⟩
                -- an end without a result is a cancellation: either it was there before, or there is
                -- none
                by_cases status : r'.status = .cancelled
                · refine ⟨status, ?_⟩
                  have same : r'.end? = some .cancelled := by simp [end?, status]
                  cases ended.symm.trans same
                  exact heard _ told
                · cases (end?_of_unsettled none status).symm.trans ended
              · rintro ⟨status, reported⟩
                have same : r'.end? = some .cancelled := by
                  have cancelled : r'.status = .cancelled := status
                  simp [end?, cancelled]
                exact ⟨_, same, accounted.reported unsettled reported⟩
          | _ =>
              simp [isSpurned, asks] at spurned

/-- A scheduler that has taken a request in refuses none. -/
theorem reception_of_accepted {r' : Request} (accepted : r.schedule route = (r', .accepted)) :
    ∃ reception, route = .ok reception ∧ reception.refusal = none := by
  unfold schedule at accepted
  cases route with
  | error e =>
      cases accepted
  | ok reception =>
      refine ⟨reception, rfl, ?_⟩
      simp only at accepted
      split at accepted
      · cases accepted
      · split at accepted
        · rename_i accepts
          exact accepts
        · cases accepted

/-- Only a scheduler that accepts has taken the request in. -/
theorem reception_of_registered {response : Response}
    (registered : (r.conclude route response).registered = true) :
    ∃ reception, route = .ok reception ∧ reception.refusal = none := by
  cases response with
  | block block =>
      unfold conclude endSucceeded at registered
      simp only at registered
      split at registered <;> cases registered
  | fault fault =>
      change (r.retry route fault.failure).registered = true at registered
      have came := retried route fault.failure r
      generalize r.retry route fault.failure = c at came registered
      cases came with
      | @asked r' registration _ _ _ scheduled _ =>
          cases registration with
          | accepted =>
              exact reception_of_accepted scheduled
          | refused e =>
              cases e <;> cases registered
          | ended =>
              cases registered
      | _ =>
          cases registered

/-- An attempt that ends at once registers nothing. -/
theorem registered_of_concluded {c : Conclusion} (begins : r.beginSend = .concluded c) :
    c.registered = false := by
  unfold beginSend at begins
  split at begins
  · cases begins
    rfl
  · split at begins
    · cases begins
      rfl
    · cases begins

end Request
end MeteredFetch
