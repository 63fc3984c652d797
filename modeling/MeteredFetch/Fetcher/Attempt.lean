import MeteredFetch.Fetcher.Basic

/-!
# Attempt — sending and retrying a request

An attempt looks the key up once. The response is fixed when the search begins; it may arrive
later.

* `Fetcher.search` makes the search of an attempt;
* `Fetcher.send` is the turn of an attempt, `Fetcher.retry` that of a retry.
-/

namespace MeteredFetch
namespace Fetcher

abbrev Attempted (τ : Type) := Fetcher × Effects × Next τ (Except FetchError Outcome)

def finish {τ : Type} (f : Fetcher) (id : RequestId) (c : Conclusion) : Attempted τ :=
  let (f, effects) := f.adopt id c
  (f, effects, .finish c.outcome)

def arrive (f : Fetcher) (id : RequestId) (r : Request) (response : Response) :
    Attempted Sending :=
  f.finish id (r.conclude (f.route r) response)

/-- Makes the search of an attempt: records it, fixes the response, and cancels the requests
that a search for this key is to cancel. -/
def search (f : Fetcher) (task : TaskId) (id : RequestId) (r : Request) : Fetcher × Response :=
  let (lookup, response) := f.lookup.respond r.key r.settings.localOnly
  let call : Call := ⟨task, id, r.key, r.settings⟩
  let f := { f with lookup, calls := call :: f.calls }
  -- the response is fixed by now; the cancellations come before it arrives
  let matched := lookup.hook.filter fun other => (f.requests[other]?).any (·.key == r.key)
  (matched.foldl cancelRequest f, response)

def await (f : Fetcher) (now : Instant) (task : TaskId) (id : RequestId) (response : Response) :
    Attempted Sending :=
  if f.lookup.gated then
    ({ f with lookup := f.lookup.hold task }, [], .wait (.awaiting response) none)
  else if 0 < f.lookup.latency then
    (f, [], .wait (.awaiting response) (some (now + f.lookup.latency)))
  else
    match f.requests[id]? with
    | some r => f.arrive id r response
    | none => (f, [], .finish (.error .closed))

/-- The turn of an attempt to send a request. One whose response is on its way takes its next
turn when it has arrived. -/
def send (f : Fetcher) (now : Instant) (task : TaskId) (id : RequestId) (stage : Sending) :
    Attempted Sending :=
  match f.requests[id]?, stage with
  | none, _ => (f, [], .finish (.error .closed))
  | some r, .awaiting response => f.arrive id r response
  | some r, .fresh =>
      match r.beginSend with
      | .concluded c => f.finish id c
      | .lookup r =>
          let (f, response) := (f.setRequest id r).search task id r
          f.await now task id response

def retry (f : Fetcher) (id : RequestId) (failure : Failure) :
    Fetcher × Effects × Except FetchError Outcome :=
  match f.requests[id]? with
  | none => (f, [], .error .closed)
  | some r =>
      let c := r.retry (f.route r) failure
      let (f, effects) := f.adopt id c
      (f, effects, c.outcome)

end Fetcher
end MeteredFetch
