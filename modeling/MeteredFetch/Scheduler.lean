import MeteredFetch.Executor.Basic
import MeteredFetch.FetchError

/-!
# Scheduler — queues of requests

A scheduler takes requests in, and somebody takes them out again in the same order.

* `Reception` is how a scheduler treats a request that is registered with it;
* `Scheduler` is the queue, with whoever listens for its mail.
-/

namespace MeteredFetch

/-- The number of a request, in the order in which requests were made. -/
abbrev RequestId := Nat

/-- How a scheduler treats a request that is registered with it. -/
structure Reception where
  /-- It cancels the request first. -/
  cancels : Bool := false
  /-- It does not take the request in, and says why. -/
  refusal : Option FetchError := none
  deriving DecidableEq, Repr, Inhabited

namespace Reception

def accepting : Reception := {}

def closed : Reception := { refusal := some .closed }

end Reception

structure Scheduler where
  /-- The requests that wait to be taken out, the oldest first. -/
  waiting : List RequestId := []
  reception : Reception := .accepting
  /-- Whether its reception can be changed from outside. -/
  adjustable : Bool := false
  /-- The task to be woken by the next request. -/
  listener : Option TaskId := none
  /-- Whether nobody is left who could register a request. -/
  abandoned : Bool := false
  deriving DecidableEq, Repr, Inhabited

namespace Scheduler

def push (s : Scheduler) (request : RequestId) : Scheduler :=
  { s with waiting := s.waiting ++ [request] }

@[simp]
theorem waiting_push (s : Scheduler) (request : RequestId) :
    (s.push request).waiting = s.waiting ++ [request] := rfl

def pop (s : Scheduler) : Scheduler × Option RequestId :=
  ({ s with waiting := s.waiting.tail }, s.waiting.head?)

def adjust (s : Scheduler) (reception : Reception) : Scheduler :=
  if s.adjustable then { s with reception } else s

/-- The queue when nobody takes requests out any more. -/
def retire (s : Scheduler) : Scheduler :=
  { s with waiting := [], reception := .closed, listener := none }

end Scheduler
end MeteredFetch
