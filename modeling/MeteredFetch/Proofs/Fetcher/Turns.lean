import MeteredFetch.Proofs.Fetcher.Attempts
import MeteredFetch.Proofs.Fetcher.Serving

/-!
# Turns — what the turns of tasks have in common

A turn of an attempt does the same whoever makes the attempt, but for what a dispatcher books. A
retry ends at once, and a withdrawal has to do with the bucket only.

* `Job.attempt?`, `Result.attempt?` — the attempt that a task makes, and the one that has ended;
* `Fetcher.Turns`, `Fetcher.turns` — the turn of a task, by what the task does;
* `Fetcher.turn_of_attempt` — the turn of an attempt, whoever makes it;
* `Fetcher.settle_same` — what a dispatcher books changes no queue.
-/

namespace MeteredFetch

/-- A dispatcher apart from what it has counted. -/
def Dispatcher.plain (x : Dispatcher) : Dispatcher :=
  { x with metrics := {} }

namespace Fetcher

open Executor

/-- The attempt that a task makes, and how far it has come. -/
def Job.attempt? : Job → Option (RequestId × Sending)
  | .send request stage => some (request, stage)
  | .dispatch _ x stage => some (x.request, stage)
  | .grab _ _ | .retry _ _ | .serve _ _ => none

/-- The attempt that has ended with a task, and what it came to. -/
def Result.attempt? : Result → Option (RequestId × Except FetchError Outcome)
  | .attempted request outcome => some (request, outcome)
  | .dispatched _ x outcome => some (x.request, outcome)
  | .granted _ | .stopped _ => none

variable {f : Fetcher} {now : Instant} {task : TaskId} {job : Job} {t : Turned}

/-- A dispatcher that accounts for an outcome is otherwise as before. -/
theorem settle_same (f : Fetcher) (d : Nat) (x : Dispatch) (outcome : Except FetchError Outcome) :
    ∃ bucket dispatchers, f.settle d x outcome = { f with bucket, dispatchers } ∧
      dispatchers.map Dispatcher.plain = f.dispatchers.map Dispatcher.plain := by
  have kept : (f.dispatchers.modify d (·.count outcome)).map Dispatcher.plain =
      f.dispatchers.map Dispatcher.plain :=
    map_modify_of_eq Dispatcher.plain (·.count outcome) (fun _ => rfl) f.dispatchers d
  unfold settle
  simp only
  split
  · split
    · exact ⟨_, _, rfl, kept⟩
    · exact ⟨_, _, rfl, kept⟩
  · exact ⟨_, _, rfl, kept⟩

theorem pending_of_plain {ds ds' : List Dispatcher}
    (same : ds'.map Dispatcher.plain = ds.map Dispatcher.plain) :
    ds'.map (·.pending) = ds.map (·.pending) := by
  have view : ∀ ds : List Dispatcher,
      ds.map (·.pending) = (ds.map Dispatcher.plain).map (·.pending) := by
    intro ds
    rw [List.map_map]
    rfl
  rw [view ds', view ds, same]

/-! ## Cases -/

inductive Turns (f : Fetcher) (now : Instant) (task : TaskId) : Job → Turned → Prop
  | granted {tokens : UInt64} {caller : Caller} {bucket : Bucket} :
      Turns f now task (.grab tokens caller) ⟨{ f with bucket }, [], .finish (.granted tokens)⟩
  | waits {tokens : UInt64} {caller caller' : Caller} {bucket : Bucket} :
      Turns f now task (.grab tokens caller)
        ⟨{ f with bucket }, [], .wait (.grab tokens caller') caller'.alarm⟩
  /-- What a dispatcher books comes on top of what the attempt does. -/
  | attempts {job : Job} {request : RequestId} {stage : Sending} {toJob : Sending → Job}
      {toResult : Except FetchError Outcome → Result} {bucket : Bucket}
      {dispatchers : List Dispatcher} :
      job.attempt? = some (request, stage) →
      (∀ stage, (toJob stage).attempt? = some (request, stage)) →
      (∀ outcome, (toResult outcome).attempt? = some (request, outcome)) →
      dispatchers.map Dispatcher.plain =
        (f.send now task request stage).1.dispatchers.map Dispatcher.plain →
      Turns f now task job
        ⟨{ (f.send now task request stage).1 with bucket, dispatchers },
          (f.send now task request stage).2.1,
          (f.send now task request stage).2.2.map toJob toResult⟩
  | retries {request : RequestId} {failure : Failure} :
      Turns f now task (.retry request failure)
        ⟨(f.retry request failure).1, (f.retry request failure).2.1,
          .finish (.attempted request (f.retry request failure).2.2)⟩
  | serves {d : Nat} {chosen : Option Chosen} {t : Turned} :
      Serves f d chosen t → Turns f now task (.serve d chosen) t

/-- An attempt from what it leaves, before a dispatcher books it. -/
theorem Turns.of_send {g : Fetcher} {request : RequestId} {stage : Sending} {effects : Effects}
    {next : Next Sending (Except FetchError Outcome)} {toJob : Sending → Job}
    {toResult : Except FetchError Outcome → Result} {bucket : Bucket}
    {dispatchers : List Dispatcher} (sent : f.send now task request stage = (g, effects, next))
    (attempt : job.attempt? = some (request, stage))
    (jobs : ∀ stage, (toJob stage).attempt? = some (request, stage))
    (results : ∀ outcome, (toResult outcome).attempt? = some (request, outcome))
    (kept : dispatchers.map Dispatcher.plain = g.dispatchers.map Dispatcher.plain) :
    Turns f now task job ⟨{ g with bucket, dispatchers }, effects, next.map toJob toResult⟩ := by
  obtain rfl : (f.send now task request stage).1 = g := by rw [sent]
  obtain rfl : (f.send now task request stage).2.1 = effects := by rw [sent]
  obtain rfl : (f.send now task request stage).2.2 = next := by rw [sent]
  exact .attempts attempt jobs results kept

/-- Every turn is one of these. -/
theorem turns (turned : f.turn now task job = .ok t) : Turns f now task job t := by
  cases job with
  | grab tokens caller =>
      rcases ok_of_bind turned with ⟨⟨bucket, caller'⟩, _, rest⟩
      cases caller' with
      | some caller' =>
          cases rest
          exact .waits
      | none =>
          cases rest
          exact .granted
  | send request stage =>
      simp only [turn] at turned
      generalize sent : f.send now task request stage = result at turned
      rcases result with ⟨g, effects, next⟩
      cases turned
      exact .of_send sent rfl (fun _ => rfl) (fun _ => rfl) rfl
  | retry request failure =>
      cases turned
      exact .retries
  | dispatch d x stage =>
      simp only [turn] at turned
      generalize sent : f.send now task x.request stage = result at turned
      rcases result with ⟨g, effects, next⟩
      cases next with
      | wait stage' alarm =>
          cases turned
          exact .of_send sent rfl (fun _ => rfl) (fun _ => rfl) rfl
      | finish outcome =>
          rcases settle_same g d x outcome with ⟨bucket, dispatchers, same, kept⟩
          simp only [same] at turned
          cases turned
          exact .of_send sent rfl (fun _ => rfl) (fun _ => rfl) kept
  | serve d chosen =>
      exact .serves (serves turned)

/-- A turn of an attempt is the same whoever makes it, but for what a dispatcher books. -/
theorem turn_of_attempt {request : RequestId} {stage : Sending}
    (attempt : job.attempt? = some (request, stage)) (turned : f.turn now task job = .ok t) :
    ∃ (bucket : Bucket) (dispatchers : List Dispatcher) (toJob : Sending → Job)
      (toResult : Except FetchError Outcome → Result),
      t = ⟨{ (f.send now task request stage).1 with bucket, dispatchers },
        (f.send now task request stage).2.1,
        (f.send now task request stage).2.2.map toJob toResult⟩ ∧
      ∀ outcome, (toResult outcome).attempt? = some (request, outcome) := by
  cases turns turned with
  | attempts made _ results _ =>
      cases made.symm.trans attempt
      exact ⟨_, _, _, _, rfl, results⟩
  | _ =>
      cases attempt

end Fetcher
end MeteredFetch
