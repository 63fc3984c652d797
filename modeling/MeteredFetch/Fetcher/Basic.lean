import MeteredFetch.Dispatcher.Basic
import MeteredFetch.Request.Lifecycle

/-!
# Fetcher — requests, schedulers, dispatchers, one bucket and one lookup

The state that the tasks of a fetching service share.

* `Fetcher` is this state. The dispatcher with a number takes requests out of the scheduler with
  the same number; schedulers without a dispatcher are emptied from outside;
* `Fetcher.Job` is where a task stands, and `Fetcher.Result` is how it ended;
* `Fetcher.adopt` carries over what an attempt did to its request.
-/

namespace MeteredFetch

/-- What the tasks of a fetching service share. -/
structure Fetcher where
  bucket : Bucket
  groups : List Group := []
  lookup : Lookup := {}
  schedulers : List Scheduler := []
  dispatchers : List Dispatcher := []
  /-- The requests that were made, by number. -/
  requests : List Request := []
  /-- Whether the groups, the requests and the schedulers were let go from outside. -/
  forgotten : Bool := false
  /-- What the consumer was told, the latest first. -/
  notices : List (RequestId × Notice) := []
  /-- The searches that were made, the latest first. -/
  calls : List Call := []
  deriving DecidableEq, Repr

namespace Fetcher

/-! ## Tasks -/

/-- How far an attempt to send a request has come. -/
inductive Sending
  | fresh
  /-- The response is fixed and on its way. -/
  | awaiting (response : Response)
  deriving DecidableEq, Repr

/-- Where a task stands. -/
inductive Job
  /-- Withdraws tokens. -/
  | grab (tokens : UInt64) (caller : Caller)
  /-- Sends a request. -/
  | send (request : RequestId) (stage : Sending)
  /-- Retries a request after a failure. -/
  | retry (request : RequestId) (failure : Failure)
  /-- Sends a request for a dispatcher. -/
  | dispatch (dispatcher : Nat) (dispatch : Dispatch) (stage : Sending)
  /-- Dispatches requests. -/
  | serve (dispatcher : Nat) (chosen : Option Chosen)
  deriving DecidableEq, Repr

inductive Result
  | granted (tokens : UInt64)
  | attempted (request : RequestId) (outcome : Except FetchError Outcome)
  | dispatched (dispatcher : Nat) (dispatch : Dispatch) (outcome : Except FetchError Outcome)
  | stopped (dispatcher : Nat)

abbrev Effects := List (Effect Job)

/-! ## Making a fetcher -/

/-- A fetcher with schedulers that are emptied from outside. Nothing draws on its bucket. -/
def ofSchedulers (groups : List Group) (blocks : List (Key × Bytes))
    (schedulers : List Scheduler) : Fetcher :=
  { bucket := .unused, groups, lookup := .ofBlocks blocks, schedulers }

/-- A fetcher with dispatchers of given costs that draw on one bucket, each with a scheduler of
its own. -/
def ofDispatchers (bucket : Bucket) (groups : List Group) (blocks : List (Key × Bytes))
    (costs : List UInt64) : Fetcher :=
  { bucket, groups
    lookup := .ofBlocks blocks
    schedulers := costs.map fun _ => {}
    dispatchers := costs.map fun cost => { cost } }

/-! ## Parts -/

def setRequest (f : Fetcher) (id : RequestId) (r : Request) : Fetcher :=
  { f with requests := f.requests.set id r }

def modifyScheduler (f : Fetcher) (id : SchedulerId) (change : Scheduler → Scheduler) : Fetcher :=
  { f with schedulers := f.schedulers.modify id change }

def modifyDispatcher (f : Fetcher) (id : Nat) (change : Dispatcher → Dispatcher) : Fetcher :=
  { f with dispatchers := f.dispatchers.modify id change }

def isCancelled (f : Fetcher) (id : RequestId) : Bool :=
  (f.requests[id]?).any (·.cancelled)

def priority (f : Fetcher) (id : RequestId) : Priority :=
  ((f.requests[id]?).map (·.group.priority)).getD default

def cancelRequest (f : Fetcher) (id : RequestId) : Fetcher :=
  { f with requests := f.requests.modify id Request.cancel }

/-- How the scheduler of a request treats it. A scheduler that does not exist is closed. -/
def route (f : Fetcher) (r : Request) : Except FetchError Reception := do
  let id ← r.destination
  return ((f.schedulers[id]?).map (·.reception)).getD .closed

def enlist (f : Fetcher) (id : RequestId) (r : Request) : Fetcher × Effects :=
  match r.destination with
  | .error _ => (f, [])
  | .ok s =>
      (f.modifyScheduler s (·.push id),
        ((f.schedulers[s]?).bind (·.listener)).toList.map .wake)

/-- Carries over what an attempt did to its request: its state, what the consumer is told, and
whether it was registered. -/
def adopt (f : Fetcher) (id : RequestId) (c : Conclusion) : Fetcher × Effects :=
  let f := f.setRequest id c.request
  let f := { f with notices := c.notice.toList.map (fun n => (id, n)) ++ f.notices }
  if c.registered then f.enlist id c.request else (f, [])

/-- A dispatcher is at work no more: its queue is dropped and takes nothing in. -/
def retire (f : Fetcher) (dispatcher : Nat) : Fetcher :=
  (f.modifyDispatcher dispatcher Dispatcher.retire).modifyScheduler dispatcher Scheduler.retire

end Fetcher
end MeteredFetch
