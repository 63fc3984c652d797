import MeteredFetch.Failure
import MeteredFetch.Group
import MeteredFetch.Request.Retries
import MeteredFetch.Settings

/-!
# Request — the wish for the data behind a key

A request is idle, is scheduled, has a lookup in flight, and then either ends or is scheduled
again. It ends by success, by failure or by cancellation.

* `Status` is where a request is on this way, `Outcome` is what an attempt came to;
* `Request` is a request, and `Request.create` makes one.
-/

namespace MeteredFetch

inductive Status
  | idle
  | scheduled
  | inFlight
  | succeeded
  | failed (failure : Failure)
  | cancelled
  deriving DecidableEq, Repr

/-- Whether a request goes no further. -/
def Status.isTerminal : Status → Bool
  | .succeeded | .failed _ | .cancelled => true
  | .idle | .scheduled | .inFlight => false

/-- What an attempt came to. -/
inductive Outcome
  /-- The block was delivered. -/
  | succeeded
  /-- The request was scheduled for the retry with this number. -/
  | retrying (attempt : Nat)
  /-- The failure was reported. -/
  | failed (failure : Failure)
  /-- The request is cancelled. -/
  | cancelled
  deriving DecidableEq, Repr

/-- What a consumer is told about a request. -/
inductive Notice
  | delivered (block : Bytes)
  | failed (failure : Failure)
  deriving DecidableEq, Repr

structure Request where
  key : Key
  retries : Retries
  settings : Settings
  group : Group
  status : Status := .idle
  /-- How many retries were counted, allowed or not. -/
  retryCount : Nat := 0
  cancelled : Bool := false
  /-- Whether the consumer was told how the request ended. -/
  reported : Bool := false
  deriving DecidableEq, Repr

namespace Request

def destination (r : Request) : Except FetchError SchedulerId :=
  r.group.bindings.get r.key.family

/-- A request of a group. The budget has to be valid, and the group needs a scheduler for the
family of the key. -/
def create (key : Key) (budget : Int32) (settings : Settings) (group : Group) :
    Except FetchError Request := do
  let retries ← Retries.ofBudget budget
  let _ ← group.bindings.get key.family
  return { key, retries, settings, group }

/-- Whether the request need not be sent any more. -/
def isFinished (r : Request) : Bool :=
  r.cancelled

/-- The outcome of a request that succeeded or failed. -/
def settled? (r : Request) : Option Outcome :=
  match r.status with
  | .succeeded => some .succeeded
  | .failed failure => some (.failed failure)
  | _ => none

end Request
end MeteredFetch
