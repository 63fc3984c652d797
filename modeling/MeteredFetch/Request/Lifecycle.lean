import MeteredFetch.Lookup
import MeteredFetch.Request.Basic
import MeteredFetch.Scheduler

/-!
# Lifecycle — how requests go their way

Every step is a function of the request alone. What it means for others is returned: what the
consumer is told, and whether the request was registered with its scheduler.

* `Request.cancel` keeps a request from being sent again; a lookup in flight goes on, and its
  result is thrown away;
* `Request.schedule` registers a request;
* `Request.beginSend` and `Request.conclude` stand before and after a lookup;
* `Request.retry` schedules a request again as long as its budget allows.
-/

namespace MeteredFetch

/-- What an attempt leaves behind. -/
structure Conclusion where
  request : Request
  outcome : Except FetchError Outcome
  /-- What the consumer is told. -/
  notice : Option Notice := none
  /-- Whether the request was registered with its scheduler. -/
  registered : Bool := false

inductive Registration
  /-- The request had ended and was not registered. -/
  | ended
  /-- The scheduler took the request in. -/
  | accepted
  /-- The request was not taken in. -/
  | refused (error : FetchError)
  deriving DecidableEq, Repr

inductive Opening
  /-- Nothing is to be looked up. -/
  | concluded (conclusion : Conclusion)
  /-- The key is to be looked up. -/
  | lookup (request : Request)

namespace Request

/-- Keeps the request from being sent again. -/
def cancel (r : Request) : Request :=
  { r with
    cancelled := true
    status := if r.status = .idle ∨ r.status = .scheduled then .cancelled else r.status }

/-! ## Ends -/

def keep (r : Request) (outcome : Outcome) : Conclusion :=
  { request := r, outcome := .ok outcome }

/-- Ends the request as cancelled, and says so unless an end was reported before. -/
def endCancelled (r : Request) : Conclusion :=
  { request := { r with status := .cancelled, reported := true }
    outcome := .ok .cancelled
    notice := if r.reported then none else some (.failed .cancelled) }

def endFailed (r : Request) (failure : Failure) : Conclusion :=
  { request := { r with status := .failed failure, reported := true }
    outcome := .ok (.failed failure)
    notice := some (.failed failure) }

/-- Ends the request with a block, unless it was cancelled meanwhile. -/
def endSucceeded (r : Request) (block : Bytes) : Conclusion :=
  if r.cancelled then r.endCancelled
  else
    { request := { r with status := .succeeded, reported := true }
      outcome := .ok .succeeded
      notice := some (.delivered block) }

/-! ## Scheduling -/

/-- Registers the request, given how its scheduler treats it. A request that has ended and was
reported is not registered again; after a refusal the status is what it was before. -/
def schedule (route : Except FetchError Reception) (r : Request) : Request × Registration :=
  match route with
  | .error e => (r, .refused e)
  | .ok reception =>
      if r.status.isTerminal && r.reported then (r, .ended)
      else
        let previous := r.status
        let r :=
          if previous = .idle ∨ previous = .inFlight then { r with status := .scheduled } else r
        let r := if reception.cancels then r.cancel else r
        match reception.refusal with
        | none => (r, .accepted)
        | some e =>
            -- the status is taken back, unless the scheduler has changed it
            (if r.status = .scheduled then { r with status := previous } else r, .refused e)

/-- The largest number of retries that is counted. -/
def maxRetryCount : Nat := 0xffffffff

/-- Schedules the request again after a failure, if it is not cancelled and the budget allows.
If the scheduler has stopped, the request fails. -/
def retry (route : Except FetchError Reception) (failure : Failure) (r : Request) : Conclusion :=
  match r.settled? with
  | some outcome => r.keep outcome
  | none =>
      if failure = .cancelled ∨ r.cancelled then r.endCancelled
      else
        -- the retry is counted even if it is not allowed
        let attempt := min (r.retryCount + 1) maxRetryCount
        let r := { r with retryCount := attempt }
        if r.retries.permits attempt then
          match r.schedule route with
          | (r, .ended) => r.keep (.retrying attempt)
          | (r, .accepted) => { r.keep (.retrying attempt) with registered := true }
          | (r, .refused .closed) => r.endFailed .internalError
          | (r, .refused e) => { request := r, outcome := .error e }
        else r.endFailed failure

/-! ## Sending -/

/-- Begins an attempt. Nothing is looked up for a request that succeeded, failed or was
cancelled. -/
def beginSend (r : Request) : Opening :=
  match r.settled? with
  | some outcome => .concluded (r.keep outcome)
  | none =>
      if r.cancelled then .concluded r.endCancelled
      else .lookup { r with status := .inFlight }

def conclude (route : Except FetchError Reception) (response : Response) (r : Request) :
    Conclusion :=
  match response with
  | .block block => r.endSucceeded block
  | .fault fault => r.retry route fault.failure

end Request
end MeteredFetch
