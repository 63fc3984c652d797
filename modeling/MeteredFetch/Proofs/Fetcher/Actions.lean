import MeteredFetch.Fetcher.Program
import MeteredFetch.Proofs.Executor.Step

/-!
# Actions — what an action comes to

Each action changes one part of the shared state or starts one task, if it does anything. What an
action leaves alone can be read off the cases, without a look at how the action is carried out.

* `Fetcher.Does` — what an action comes to, as a relation, and `Fetcher.does` says that
  `Fetcher.perform` does nothing else.
-/

namespace MeteredFetch
namespace Fetcher

open Executor

inductive Does (f : Fetcher) (now : Instant) (task : TaskId) : Action → Reacted → Prop
  /-- What was asked for does not exist, was let go, or has no use. -/
  | nothing {action : Action} {answer : Answer} : (∀ id, action ≠ .schedule id) →
      Does f now task action ⟨f, [], answer⟩
  | created {group : Nat} {key : Key} {budget : Int32} {settings : Settings} {g : Group}
      {x : Request} : f.forgotten = false → Request.create key budget settings g = .ok x →
      Does f now task (.create group key budget settings)
        ⟨{ f with requests := f.requests ++ [x] }, [], .created f.requests.length⟩
  /-- What this comes to depends on the request. -/
  | scheduled {id : RequestId} : Does f now task (.schedule id) (f.schedule id)
  | cancelled {id : RequestId} : f.forgotten = false →
      Does f now task (.cancel id) ⟨f.cancelRequest id, [], .done⟩
  | sends {id : RequestId} : f.forgotten = false →
      Does f now task (.send id) ⟨f, [.spawn (.send id .fresh)], .done⟩
  | retries {id : RequestId} {failure : Failure} : f.forgotten = false →
      Does f now task (.retry id failure) ⟨f, [.spawn (.retry id failure)], .done⟩
  | grabs {tokens : UInt64} :
      Does f now task (.grab tokens) ⟨f, [.spawn (.grab tokens (.arriving tokens))], .done⟩
  | popped {s : SchedulerId} {q : Scheduler} : f.forgotten = false → f.schedulers[s]? = some q →
      Does f now task (.pop s) ⟨f.modifyScheduler s fun _ => q.pop.1, [], .popped q.pop.2⟩
  | adjusted {s : SchedulerId} {reception : Reception} :
      Does f now task (.adjust s reception) ⟨f.modifyScheduler s (·.adjust reception), [], .done⟩
  | scripted {key : Key} {response : Response} :
      Does f now task (.script key response)
        ⟨{ f with lookup := f.lookup.script key response }, [], .done⟩
  | hooked {requests : List RequestId} :
      Does f now task (.hook requests)
        ⟨{ f with lookup := { f.lookup with hook := if f.forgotten then [] else requests } },
          [], .done⟩
  /-- Searches change in some other way, and at most a task is woken. -/
  | tuned {action : Action} {lookup : Lookup} {effects : Effects} {answer : Answer} :
      (∀ id, action ≠ .schedule id) → lookup.hook = f.lookup.hook →
      lookup.scripted = f.lookup.scripted → Waking effects →
      Does f now task action ⟨{ f with lookup }, effects, answer⟩
  | started {d : Nat} {x : Dispatcher} : f.dispatchers[d]? = some x → x.standing = .idle →
      Does f now task (.start d)
        ⟨f.modifyDispatcher d fun x => { x with standing := .running task },
          [.spawn (.serve d none)], .found true⟩
  | retired {d : Nat} {x : Dispatcher} : f.dispatchers[d]? = some x → x.standing = .idle →
      Does f now task (.abort d) ⟨f.retire d, [], .found true⟩
  /-- A dispatcher that is at work is dropped with its task. -/
  | aborted {d : Nat} {x : Dispatcher} {number : TaskId} : f.dispatchers[d]? = some x →
      x.standing = .running number →
      Does f now task (.abort d) ⟨f, [.drop number], .found true⟩
  | forgot : Does f now task .forget ⟨{ f with forgotten := true }, [], .done⟩
  | operated {operation : Bucket.Operation} {bucket : Bucket} {woken : List TaskId}
      {answer : Bucket.Answer} : f.bucket.operate now operation = .ok (bucket, woken, answer) →
      Does f now task (.operate operation) ⟨{ f with bucket }, woken.map .wake, .bucket answer⟩

variable {f : Fetcher} {now : Instant} {task : TaskId} {action : Action} {r : Reacted}

/-- Whoever has a request in hand has not let it go. -/
theorem forgotten_of_request? {id : RequestId} {x : Request} (found : f.request? id = some x) :
    f.forgotten = false := by
  unfold request? at found
  split at found
  · cases found
  · rename_i held
    exact Bool.eq_false_iff.2 held

/-- A task for a request is started as long as the request was not let go. -/
theorem startJob_cases (f : Fetcher) (id : RequestId) (job : Job) :
    f.startJob id job = ⟨f, [], .done⟩ ∨
      f.forgotten = false ∧ f.startJob id job = ⟨f, [.spawn job], .done⟩ := by
  unfold startJob
  split
  · exact .inl rfl
  · rename_i found
    exact .inr ⟨forgotten_of_request? found, rfl⟩

/-- A request is made, unless budget, group or scheduler are missing for it. -/
theorem does_create (f : Fetcher) (group : Nat) (key : Key) (budget : Int32)
    (settings : Settings) : Does f now task (.create group key budget settings)
      (f.create group key budget settings) := by
  unfold Fetcher.create
  split
  · exact .nothing nofun
  · rename_i g there
    split
    · exact .nothing nofun
    · rename_i x made
      split at there
      · cases there
      · rename_i held
        exact .created (Bool.eq_false_iff.2 held) made

/-- The oldest request leaves the queue, if it has one. -/
theorem does_pop (f : Fetcher) (s : SchedulerId) : Does f now task (.pop s) (f.pop s) := by
  unfold Fetcher.pop
  split
  · exact .nothing nofun
  · rename_i q there
    split at there
    · cases there
    · rename_i held
      exact .popped (Bool.eq_false_iff.2 held) there

/-- A dispatcher is started only once. -/
theorem does_start (f : Fetcher) (d : Nat) : Does f now task (.start d) (f.start task d) := by
  unfold Fetcher.start
  split
  · rename_i idle
    rcases Option.map_eq_some_iff.1 idle with ⟨x, found, standing⟩
    exact .started found standing
  · exact .nothing nofun

/-- A dispatcher is dropped with its task, if it has been started. -/
theorem does_abort (f : Fetcher) (d : Nat) : Does f now task (.abort d) (f.abort d) := by
  unfold Fetcher.abort
  split
  · rename_i idle
    rcases Option.map_eq_some_iff.1 idle with ⟨x, found, standing⟩
    exact .retired found standing
  · rename_i running
    rcases Option.map_eq_some_iff.1 running with ⟨x, found, standing⟩
    exact .aborted found standing
  · exact .nothing nofun

/-- Every action comes to one of the cases. -/
theorem does (performed : f.perform now task action = .ok r) : Does f now task action r := by
  cases action with
  | create group key budget settings =>
      cases performed
      exact does_create f group key budget settings
  | schedule id =>
      cases performed
      exact .scheduled
  | cancel id =>
      cases performed
      split
      · exact .nothing nofun
      · rename_i held
        exact .cancelled (Bool.eq_false_iff.2 held)
  | send id =>
      cases performed
      rcases startJob_cases f id (.send id .fresh) with same | ⟨held, same⟩
      · rw [same]
        exact .nothing nofun
      · rw [same]
        exact .sends held
  | retry id failure =>
      cases performed
      rcases startJob_cases f id (.retry id failure) with same | ⟨held, same⟩
      · rw [same]
        exact .nothing nofun
      · rw [same]
        exact .retries held
  | pop s =>
      cases performed
      exact does_pop f s
  | adjust s reception =>
      cases performed
      exact .adjusted
  | script key response =>
      cases performed
      exact .scripted
  | hook requests =>
      cases performed
      exact .hooked
  | release number =>
      cases performed
      exact .tuned nofun rfl rfl (.map_wake _)
  | insert _ _ | gate _ | setLatency _ =>
      cases performed
      exact .tuned nofun rfl rfl .nil
  | start d =>
      cases performed
      exact does_start f d
  | abort d =>
      cases performed
      exact does_abort f d
  | forget =>
      cases performed
      exact .forgot
  | operate operation =>
      rcases ok_of_bind performed with ⟨⟨bucket, woken, answer⟩, operated, rest⟩
      cases rest
      exact .operated operated
  | grab tokens =>
      cases performed
      exact .grabs

end Fetcher
end MeteredFetch
