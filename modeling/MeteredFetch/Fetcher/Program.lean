import MeteredFetch.Fetcher.Action

/-!
# Program — the fetcher as a program of tasks

A scheduler can be reached as long as it is held from outside, or as long as some request is held
whose group binds it. When it can no longer be reached, no request will come to it any more.

* `Fetcher.held` lists the requests that something holds;
* `Fetcher.isReachable` says whether a scheduler can be reached;
* `Fetcher.program` is the program.
-/

namespace MeteredFetch
namespace Fetcher

def Job.held : Job → List RequestId
  | .grab _ _ => []
  | .send request _ => [request]
  | .retry request _ => [request]
  | .dispatch _ x _ => [x.request]
  | .serve _ chosen => chosen.toList.map (·.request)

/-- The requests that are held by a task, a queue, a dispatcher or the lookup. -/
def held (f : Fetcher) (tasks : List (Option Job)) : List RequestId :=
  tasks.flatMap (fun t => (t.map Job.held).getD [])
    ++ f.schedulers.flatMap (·.waiting)
    ++ f.dispatchers.flatMap (fun d => d.pending.map (·.request))
    ++ f.lookup.hook

/-- Whether a request could still be registered with a scheduler. -/
def isReachable (f : Fetcher) (tasks : List (Option Job)) (id : SchedulerId) : Bool :=
  !f.forgotten || (f.held tasks).any fun r =>
    (f.requests[r]?).any fun r => r.group.bindings.serves id

/-- Notes which schedulers can be reached no longer, and names their listeners. -/
def sweep (tasks : List (Option Job)) (f : Fetcher) : Fetcher × List TaskId :=
  if f.forgotten then
    -- each scheduler is lost once, and stays lost
    let lost := (List.range f.schedulers.length).filter fun id =>
      !(f.schedulers[id]?).any (·.abandoned) && !f.isReachable tasks id
    (lost.foldl (fun f id => f.modifyScheduler id fun s => { s with abandoned := true }) f,
      lost.flatMap fun id => ((f.schedulers[id]?).bind (·.listener)).toList)
  else (f, [])

/-- What dropping a task leaves behind. A dropped caller no longer waits, a dropped attempt gives
up its place among the responses kept back, and a dropped dispatcher drops its queue. -/
def dropJob (task : TaskId) (job : Job) (f : Fetcher) : Fetcher :=
  match job with
  | .grab _ _ => { f with bucket := f.bucket.leave task }
  | .send _ _ | .dispatch _ _ _ => { f with lookup := f.lookup.forgo task }
  | .retry _ _ => f
  | .serve id _ => { f.retire id with bucket := f.bucket.leave task }

def program : Program Fetcher Job Result Action Answer where
  turn := turn
  perform := perform
  drop := dropJob
  sweep := sweep

end Fetcher
end MeteredFetch
