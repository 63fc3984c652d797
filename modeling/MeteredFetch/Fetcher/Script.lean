import MeteredFetch.Executor.Session
import MeteredFetch.Fetcher.Program

/-!
# Script — scripted runs of a fetcher

* `Fetcher.Script` is a fetcher and a list of steps;
* `Fetcher.Script.play` carries the steps out and records what is seen after each.
-/

namespace MeteredFetch
namespace Fetcher

namespace Script

inductive Step
  /-- Carries out a command. -/
  | command (command : Command Action)
  /-- Up to `limit` times, takes the oldest request out of a scheduler and sends it. -/
  | drain (scheduler : SchedulerId) (limit : Nat)
  /-- Shows a request. -/
  | request (request : RequestId)
  /-- Shows a group. -/
  | group (group : Nat)
  /-- Shows the metrics of a dispatcher. -/
  | metrics (dispatcher : Nat)
  deriving DecidableEq, Repr

inductive Shown
  | reply (reply : Reply Answer)
  | sent (requests : List RequestId)
  | request (request : Option Request)
  | group (group : Option Group)
  | lines (lines : List String)
  deriving DecidableEq, Repr

structure State where
  session : Session Fetcher Job Result
  /-- Whether somebody hears what the consumer is told. -/
  heard : Bool
  /-- How many notices were recorded. -/
  noticesSeen : Nat := 0
  /-- How many searches were recorded. -/
  callsSeen : Nat := 0

structure Entry where
  shown : Shown
  time : Instant
  ended : List (Report Result)
  bucket : Bucket
  /-- The requests, until they are let go. -/
  requests : List Request
  /-- What the consumer was told since the last step. -/
  notices : List (Key × Notice)
  /-- The searches made since the last step. -/
  calls : List Call
  /-- How many requests wait in each scheduler. -/
  waiting : List Nat
  metrics : List Metrics
  alive : List Bool

/-! ## Steps -/

/-- Up to `limit` times, takes the oldest request out of a scheduler and sends it. -/
def drain (scheduler : SchedulerId) :
    Nat → Session Fetcher Job Result → Except Panic (Session Fetcher Job Result × List RequestId)
  | 0, s => .ok (s, [])
  | limit + 1, s => do
      let (executor, answer) ← s.executor.act program (.pop scheduler)
      let s := { s with executor }
      match answer with
      | .popped (some request) =>
          let (s, _) ← s.launch program (.send request)
          let s ← s.settle program false
          let (s, requests) ← drain scheduler limit s
          return (s, request :: requests)
      | _ => return (s, [])

def label (dispatcher : Nat) : String :=
  "a" ++ toString dispatcher

def perform (s : Session Fetcher Job Result) :
    Step → Except Panic (Session Fetcher Job Result × Shown)
  | .command command => do
      let (s, reply) ← s.perform program command
      return (s, .reply reply)
  | .drain scheduler limit => do
      let (s, requests) ← drain scheduler limit s
      return (s, .sent requests)
  | .request id => .ok (s, .request (s.shared.request? id))
  | .group id => .ok (s, .group (s.shared.groups[id]?))
  | .metrics id =>
      .ok (s, .lines (((s.shared.dispatchers[id]?).map fun d =>
        d.metrics.exposition (label id)).getD []))

/-- The first entries of a list that grows at the front, the oldest first. -/
def since {α : Type} (seen : Nat) (entries : List α) : List α :=
  (entries.take (entries.length - seen)).reverse

def observe (s : State) (shown : Shown) : State × Entry :=
  let (session, ended) := s.session.report
  let f := session.shared
  let notices := (since s.noticesSeen f.notices).filterMap fun n =>
    if s.heard then (f.requests[n.1]?).map fun r => (r.key, n.2) else none
  ({ s with session, noticesSeen := f.notices.length, callsSeen := f.calls.length },
    { shown, ended, notices
      time := session.executor.now
      bucket := f.bucket
      requests := if f.forgotten then [] else f.requests
      calls := since s.callsSeen f.calls
      waiting := f.schedulers.map (·.waiting.length)
      metrics := f.dispatchers.map (·.metrics)
      alive := f.dispatchers.map (·.isAlive) })

def step (s : State) (step : Step) (hold : Bool) : Except Panic (State × Entry) := do
  let (session, shown) ← perform s.session step
  let session ← session.settle program hold
  return observe { s with session } shown

def playFrom : State → List (Step × Bool) → List (Except Panic Entry)
  | _, [] => []
  | s, (next, hold) :: rest =>
      match step s next hold with
      | .error panic => [.error panic]
      | .ok (s, entry) => .ok entry :: playFrom s rest

end Script

structure Script where
  fetcher : Fetcher
  /-- The clock at the beginning. -/
  start : Instant
  /-- Whether somebody hears what the consumer is told. -/
  heard : Bool
  /-- The steps, each with whether what follows from it is held. -/
  steps : List (Script.Step × Bool)

def Script.play (script : Script) : List (Except Panic Script.Entry) :=
  Script.playFrom { session := .start script.start script.fetcher, heard := script.heard }
    script.steps

end Fetcher
end MeteredFetch
