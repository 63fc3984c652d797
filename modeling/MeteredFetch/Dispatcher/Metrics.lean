import MeteredFetch.Request.Basic

/-!
# Metrics — what a dispatcher counts

* `Metrics.count` counts the outcome of a dispatch;
* `Metrics.exposition` writes the metrics as lines of text.
-/

namespace MeteredFetch

structure Metrics where
  /-- Requests that wait to be dispatched, at present. -/
  queued : Nat := 0
  /-- Dispatches. -/
  dispatched : Nat := 0
  /-- Dispatches that delivered a block. -/
  succeeded : Nat := 0
  /-- Dispatches after which the request was scheduled again. -/
  retried : Nat := 0
  /-- Dispatches that failed for good. -/
  failed : Nat := 0
  /-- Dispatches of cancelled requests. -/
  cancelled : Nat := 0
  deriving DecidableEq, Repr, Inhabited

namespace Metrics

/-- Counts the outcome of a dispatch. An attempt that was refused counts as failed. -/
def count (m : Metrics) : Except FetchError Outcome → Metrics
  | .ok .succeeded => { m with succeeded := m.succeeded + 1 }
  | .ok (.retrying _) => { m with retried := m.retried + 1 }
  | .ok (.failed _) => { m with failed := m.failed + 1 }
  | .ok .cancelled => { m with cancelled := m.cancelled + 1 }
  | .error _ => { m with failed := m.failed + 1 }

def toList (m : Metrics) : List Nat :=
  [m.queued, m.dispatched, m.succeeded, m.retried, m.failed, m.cancelled]

def lines (name kind help suffix : String) (value : Nat) : List String :=
  ["# HELP " ++ name ++ " " ++ help ++ ".",
   "# TYPE " ++ name ++ " " ++ kind,
   name ++ suffix ++ " " ++ toString value]

def counter (name help : String) (value : Nat) : List String :=
  lines name "counter" help "_total" value

/-- The lines for all metrics of the dispatcher with a label. -/
def exposition (label : String) (m : Metrics) : List String :=
  lines (label ++ "_queued") "gauge" "Current number of requests waiting to be dispatched" ""
      m.queued
    ++ counter (label ++ "_dispatched") "Number of requests dispatched" m.dispatched
    ++ counter (label ++ "_succeeded") "Number of dispatches that delivered a block" m.succeeded
    ++ counter (label ++ "_retried") "Number of dispatches that were scheduled again" m.retried
    ++ counter (label ++ "_failed") "Number of dispatches that exhausted their retries" m.failed
    ++ counter (label ++ "_cancelled") "Number of dispatches that found the request cancelled"
      m.cancelled

end Metrics
end MeteredFetch
