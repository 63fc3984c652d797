import MeteredFetch.Fetcher.Attempt

/-!
# Turn — the turns of the tasks

* `Fetcher.serve` is the turn of a dispatcher: it pays for the request it has chosen, takes in
  its mail, and sends what waits as far as the bucket allows;
* `Fetcher.settle` accounts for the outcome of a dispatch;
* `Fetcher.turn` is the turn of any task.
-/

namespace MeteredFetch
namespace Fetcher

abbrev Turned := Turn Fetcher Job Result

/-- Takes in the mail and sends what waits, after the dispatches that were made before. With
nothing left, the dispatcher listens for mail, or stops if none can come any more. -/
def serveQueue (f : Fetcher) (now : Instant) (task : TaskId) (id : Nat) (d : Dispatcher)
    (queue : Scheduler) (paid : List Dispatch) : Except Panic Turned := do
  -- nothing arrives during a turn, so the mail is taken in once
  let d := d.enqueueAll (queue.waiting.map fun r => (f.priority r, r))
  let served ← Dispatcher.serve now task d.cost f.isCancelled d.pending f.bucket
  let dispatches := paid ++ served.dispatches
  let effects := dispatches.map fun x => Effect.spawn (.dispatch id x .fresh)
  let f := { f with bucket := served.bucket }
  let f := f.modifyDispatcher id fun _ => d.record dispatches served.pending
  let f := f.modifyScheduler id fun s => { s with waiting := [], listener := none }
  match served.chosen with
  | some chosen => return ⟨f, effects, .wait (.serve id (some chosen)) chosen.caller.alarm⟩
  | none =>
      -- everything was sent, and the queue is empty
      if queue.abandoned then return ⟨f.retire id, effects, .finish (.stopped id)⟩
      else
        let f := f.modifyScheduler id fun s => { s with listener := some task }
        return ⟨f, effects, .wait (.serve id none) none⟩

def serve (f : Fetcher) (now : Instant) (task : TaskId) (id : Nat) (chosen : Option Chosen) :
    Except Panic Turned :=
  match f.dispatchers[id]?, f.schedulers[id]?, chosen with
  | some d, some queue, none => f.serveQueue now task id d queue []
  | some d, some queue, some chosen => do
      let (bucket, caller) ← chosen.caller.turn now task f.bucket
      let f := { f with bucket }
      match caller with
      | some caller =>
          return ⟨f, [], .wait (.serve id (some { chosen with caller })) caller.alarm⟩
      | none => f.serveQueue now task id d queue [⟨chosen.request, true⟩]
  | _, _, _ => .ok ⟨f, [], .finish (.stopped id)⟩

/-- Accounts for the outcome of a dispatch. Tokens that were withdrawn for a request that turned
out to be cancelled are given back. -/
def settle (f : Fetcher) (id : Nat) (x : Dispatch) (outcome : Except FetchError Outcome) :
    Fetcher :=
  let f := f.modifyDispatcher id (·.count outcome)
  match outcome, f.dispatchers[id]? with
  | .ok .cancelled, some d =>
      if x.charged then { f with bucket := f.bucket.recycle d.cost } else f
  | _, _ => f

def turn (now : Instant) (task : TaskId) (job : Job) (f : Fetcher) : Except Panic Turned :=
  match job with
  | .grab tokens caller => do
      let (bucket, caller) ← caller.turn now task f.bucket
      let f := { f with bucket }
      match caller with
      | some caller => return ⟨f, [], .wait (.grab tokens caller) caller.alarm⟩
      | none => return ⟨f, [], .finish (.granted tokens)⟩
  | .send request stage =>
      let (f, effects, next) := f.send now task request stage
      .ok ⟨f, effects, next.map (.send request) (.attempted request)⟩
  | .retry request failure =>
      let (f, effects, outcome) := f.retry request failure
      .ok ⟨f, effects, .finish (.attempted request outcome)⟩
  | .dispatch id x stage =>
      let (f, effects, next) := f.send now task x.request stage
      let f :=
        match next with
        | .finish outcome => f.settle id x outcome
        | .wait _ _ => f
      .ok ⟨f, effects, next.map (.dispatch id x) (.dispatched id x)⟩
  | .serve id chosen => f.serve now task id chosen

end Fetcher
end MeteredFetch
