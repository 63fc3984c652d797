import MeteredFetch.Bucket.Operation
import MeteredFetch.Fetcher.Turn

/-!
# Action — what can be done with a fetcher from outside

* `Fetcher.Action` lists it, and `Fetcher.perform` does it.

Once the groups, the requests and the schedulers were let go, nothing can be done with them.
-/

namespace MeteredFetch
namespace Fetcher

inductive Action
  /-- Makes a request of a group. -/
  | create (group : Nat) (key : Key) (budget : Int32) (settings : Settings)
  | schedule (request : RequestId)
  | cancel (request : RequestId)
  /-- Starts a task that sends a request. -/
  | send (request : RequestId)
  /-- Starts a task that retries a request after a failure. -/
  | retry (request : RequestId) (failure : Failure)
  /-- Takes the oldest request out of a scheduler. -/
  | pop (scheduler : SchedulerId)
  /-- Changes how a scheduler treats requests. -/
  | adjust (scheduler : SchedulerId) (reception : Reception)
  /-- Lays down the block for a key. -/
  | insert (key : Key) (block : Bytes)
  /-- Lays down one response for a key. -/
  | script (key : Key) (response : Response)
  /-- Names the requests that a search for their key cancels. -/
  | hook (requests : List RequestId)
  /-- Opens or shuts the gate that keeps responses back. -/
  | gate (shut : Bool)
  /-- Lets a response arrive that was kept back. -/
  | release (number : Nat)
  /-- Sets how long a response takes. -/
  | setLatency (latency : Nat)
  /-- Starts a dispatcher. -/
  | start (dispatcher : Nat)
  /-- Drops a dispatcher, at work or not. -/
  | abort (dispatcher : Nat)
  /-- Lets the groups, the requests and the schedulers go. -/
  | forget
  /-- Performs an operation on the bucket. -/
  | operate (operation : Bucket.Operation)
  /-- Starts a task that withdraws tokens. -/
  | grab (tokens : UInt64)
  deriving DecidableEq, Repr

inductive Answer
  /-- It was done. -/
  | done
  /-- Whether there was something to be done. -/
  | found (value : Bool)
  /-- A request was made and got this number. -/
  | created (request : RequestId)
  /-- The request is registered, or has ended and need not be. -/
  | accepted
  | refused (error : FetchError)
  /-- The request that was taken out. -/
  | popped (request : Option RequestId)
  /-- The answer of the bucket. -/
  | bucket (answer : Bucket.Answer)
  deriving DecidableEq, Repr

abbrev Reacted := Reaction Fetcher Job Answer

def request? (f : Fetcher) (id : RequestId) : Option Request :=
  if f.forgotten then none else f.requests[id]?

def create (f : Fetcher) (group : Nat) (key : Key) (budget : Int32) (settings : Settings) :
    Reacted :=
  match if f.forgotten then none else f.groups[group]? with
  | none => ⟨f, [], .done⟩
  | some g =>
      match Request.create key budget settings g with
      | .error e => ⟨f, [], .refused e⟩
      | .ok r => ⟨{ f with requests := f.requests ++ [r] }, [], .created f.requests.length⟩

def schedule (f : Fetcher) (id : RequestId) : Reacted :=
  match f.request? id with
  | none => ⟨f, [], .done⟩
  | some r =>
      match r.schedule (f.route r) with
      | (r, .ended) => ⟨f.setRequest id r, [], .accepted⟩
      | (r, .refused e) => ⟨f.setRequest id r, [], .refused e⟩
      | (r, .accepted) =>
          let (f, effects) := (f.setRequest id r).enlist id r
          ⟨f, effects, .accepted⟩

def startJob (f : Fetcher) (id : RequestId) (job : Job) : Reacted :=
  match f.request? id with
  | none => ⟨f, [], .done⟩
  | some _ => ⟨f, [.spawn job], .done⟩

def pop (f : Fetcher) (id : SchedulerId) : Reacted :=
  match if f.forgotten then none else f.schedulers[id]? with
  | none => ⟨f, [], .popped none⟩
  | some s => ⟨f.modifyScheduler id fun _ => s.pop.1, [], .popped s.pop.2⟩

def release (f : Fetcher) (number : Nat) : Reacted :=
  let (lookup, task) := f.lookup.release number
  ⟨{ f with lookup }, task.toList.map .wake, .found task.isSome⟩

/-- Starts a dispatcher, whose task will have the given number. -/
def start (f : Fetcher) (task : TaskId) (id : Nat) : Reacted :=
  match (f.dispatchers[id]?).map Dispatcher.standing with
  | some .idle =>
      ⟨f.modifyDispatcher id fun d => { d with standing := .running task },
        [.spawn (.serve id none)], .found true⟩
  | _ => ⟨f, [], .found false⟩

def abort (f : Fetcher) (id : Nat) : Reacted :=
  match (f.dispatchers[id]?).map Dispatcher.standing with
  | some .idle => ⟨f.retire id, [], .found true⟩
  | some (.running task) => ⟨f, [.drop task], .found true⟩
  | _ => ⟨f, [], .found false⟩

/-- The reaction to an action; the first task that it starts will have the number `task`. -/
def perform (now : Instant) (task : TaskId) (action : Action) (f : Fetcher) :
    Except Panic Reacted :=
  match action with
  | .create group key budget settings => .ok (f.create group key budget settings)
  | .schedule id => .ok (f.schedule id)
  | .cancel id =>
      .ok ⟨if f.forgotten then f else f.cancelRequest id, [], .done⟩
  | .send id => .ok (f.startJob id (.send id .fresh))
  | .retry id failure => .ok (f.startJob id (.retry id failure))
  | .pop id => .ok (f.pop id)
  | .adjust id reception => .ok ⟨f.modifyScheduler id (·.adjust reception), [], .done⟩
  | .insert key block => .ok ⟨{ f with lookup := f.lookup.insert key block }, [], .done⟩
  | .script key response => .ok ⟨{ f with lookup := f.lookup.script key response }, [], .done⟩
  | .hook requests =>
      .ok ⟨{ f with lookup := { f.lookup with hook := if f.forgotten then [] else requests } },
        [], .done⟩
  | .gate shut => .ok ⟨{ f with lookup := { f.lookup with gated := shut } }, [], .done⟩
  | .release number => .ok (f.release number)
  | .setLatency latency => .ok ⟨{ f with lookup := { f.lookup with latency } }, [], .done⟩
  | .start id => .ok (f.start task id)
  | .abort id => .ok (f.abort id)
  | .forget => .ok ⟨{ f with forgotten := true }, [], .done⟩
  | .operate operation => do
      let (bucket, woken, answer) ← f.bucket.operate now operation
      return ⟨{ f with bucket }, woken.map .wake, .bucket answer⟩
  | .grab tokens => .ok ⟨f, [.spawn (.grab tokens (.arriving tokens))], .done⟩

end Fetcher
end MeteredFetch
