import MeteredFetch.Bucket.Caller
import MeteredFetch.Dispatcher.Metrics
import MeteredFetch.Scheduler

/-!
# Dispatcher — sending requests by urgency, within a budget

A dispatcher takes requests out of a queue and sends them one after another, the most urgent
first and the oldest first within a class. For each it withdraws its cost from a bucket, and it
waits if need be. A request that is cancelled by then costs nothing.

* `Pending.insert` keeps the requests that wait in the order in which they go;
* `Dispatcher.serve` goes through them as far as the bucket allows.
-/

namespace MeteredFetch

/-! ## Requests that wait -/

structure Pending where
  priority : Priority
  /-- The number of requests that arrived at the dispatcher before it. -/
  arrival : Nat
  request : RequestId
  deriving DecidableEq, Repr

namespace Pending

/-- Whether a request goes before another: by class, then by arrival. -/
def before (x y : Pending) : Bool :=
  decide (x.priority.rank < y.priority.rank) ||
    (x.priority == y.priority && decide (x.arrival < y.arrival))

def insert (x : Pending) : List Pending → List Pending
  | [] => [x]
  | y :: rest => if x.before y then x :: y :: rest else y :: insert x rest

/-- A queue into which a request was put has this request more and is otherwise the same. -/
theorem insert_perm (x : Pending) (queue : List Pending) : (insert x queue).Perm (x :: queue) := by
  induction queue with
  | nil => exact List.Perm.refl _
  | cons y rest ih =>
      unfold insert
      split
      · exact List.Perm.refl _
      · exact (ih.cons y).trans (List.Perm.swap x y rest)

/-- A class that is more urgent goes first, and within a class whatever arrived first. -/
theorem before_iff (x y : Pending) :
    x.before y = true ↔
      x.priority.rank < y.priority.rank ∨ (x.priority = y.priority ∧ x.arrival < y.arrival) := by
  simp [before]

theorem before_trans {x y z : Pending} (h : x.before y = true) (h' : y.before z = true) :
    x.before z = true := by
  rw [before_iff] at h h' ⊢
  rcases h with lt | ⟨same, lt⟩
  · rcases h' with lt' | ⟨same', _⟩
    · exact Or.inl (Nat.lt_trans lt lt')
    · exact Or.inl (same' ▸ lt)
  · rcases h' with lt' | ⟨same', lt'⟩
    · exact Or.inl (same ▸ lt')
    · exact Or.inr ⟨same.trans same', Nat.lt_trans lt lt'⟩

/-- Of two requests with different arrivals, one goes before the other. -/
theorem before_of_not_before {x y : Pending} (ne : x.arrival ≠ y.arrival)
    (h : ¬ x.before y = true) : y.before x = true := by
  rw [before_iff] at h ⊢
  rcases Nat.lt_trichotomy y.priority.rank x.priority.rank with lt | same | gt
  · exact Or.inl lt
  · have same := Priority.rank_injective same
    refine Or.inr ⟨same, ?_⟩
    have notEarlier : ¬ x.arrival < y.arrival := fun lt => h (Or.inr ⟨same.symm, lt⟩)
    exact Nat.lt_of_le_of_ne (Nat.le_of_not_lt notEarlier) (Ne.symm ne)
  · exact absurd (Or.inl gt) h

/-- A queue stays in the order in which its requests go. -/
theorem pairwise_insert {x : Pending} {queue : List Pending}
    (fresh : ∀ y ∈ queue, x.arrival ≠ y.arrival)
    (h : queue.Pairwise fun y z => y.before z = true) :
    (insert x queue).Pairwise fun y z => y.before z = true := by
  induction queue with
  | nil => exact List.pairwise_singleton _ _
  | cons y rest ih =>
      obtain ⟨first, later⟩ := List.pairwise_cons.1 h
      unfold insert
      split
      · rename_i before
        refine List.pairwise_cons.2 ⟨?_, h⟩
        intro z member
        rcases List.mem_cons.1 member with rfl | old
        · exact before
        · exact before_trans before (first z old)
      · rename_i notBefore
        refine List.pairwise_cons.2 ⟨?_, ih (fun z member => fresh z (by simp [member])) later⟩
        intro z member
        rcases List.mem_cons.1 ((insert_perm x rest).mem_iff.1 member) with rfl | old
        · exact before_of_not_before (fresh y (by simp)) notBefore
        · exact first z old

end Pending

/-! ## Dispatchers -/

inductive Standing
  /-- It was not started. -/
  | idle
  /-- It is at work in a task. -/
  | running (task : TaskId)
  /-- It has ended or was dropped. -/
  | gone
  deriving DecidableEq, Repr

structure Dispatcher where
  /-- What a dispatch costs. -/
  cost : UInt64
  standing : Standing := .idle
  /-- The requests that wait to be dispatched, the next one first. -/
  pending : List Pending := []
  /-- How many requests have arrived. -/
  arrivals : Nat := 0
  metrics : Metrics := {}
  deriving DecidableEq, Repr

/-- A request that was chosen, and the withdrawal that it waits for. -/
structure Chosen where
  request : RequestId
  caller : Caller
  deriving DecidableEq, Repr

structure Dispatch where
  request : RequestId
  /-- Whether the cost was withdrawn for it. -/
  charged : Bool
  deriving DecidableEq, Repr

namespace Dispatcher

def isAlive (d : Dispatcher) : Bool :=
  d.standing != .gone

def enqueue (d : Dispatcher) (priority : Priority) (request : RequestId) : Dispatcher :=
  { d with
    pending := Pending.insert ⟨priority, d.arrivals, request⟩ d.pending
    arrivals := d.arrivals + 1 }

def enqueueAll (d : Dispatcher) (arriving : List (Priority × RequestId)) : Dispatcher :=
  arriving.foldl (fun d x => d.enqueue x.1 x.2) d

/-- What is left after going through the requests that wait. -/
structure Served where
  bucket : Bucket
  /-- The requests to be sent, in order. -/
  dispatches : List Dispatch
  /-- The requests that wait on. -/
  pending : List Pending
  /-- The request that tokens are waited for. -/
  chosen : Option Chosen
  deriving DecidableEq, Repr

/-- Goes through the requests that wait, until tokens have to be waited for. -/
def serve (now : Instant) (task : TaskId) (cost : UInt64) (cancelled : RequestId → Bool) :
    List Pending → Bucket → Except Panic Served
  | [], b => .ok ⟨b, [], [], none⟩
  | x :: rest, b =>
      if cancelled x.request then do
        let served ← serve now task cost cancelled rest b
        return { served with dispatches := ⟨x.request, false⟩ :: served.dispatches }
      else do
        match ← (Caller.arriving cost).turn now task b with
        | (b, some caller) => return ⟨b, [], rest, some ⟨x.request, caller⟩⟩
        | (b, none) =>
            let served ← serve now task cost cancelled rest b
            return { served with dispatches := ⟨x.request, true⟩ :: served.dispatches }

def record (d : Dispatcher) (dispatches : List Dispatch) (pending : List Pending) : Dispatcher :=
  { d with
    pending
    metrics :=
      { d.metrics with
        queued := pending.length
        dispatched := d.metrics.dispatched + dispatches.length } }

def count (d : Dispatcher) (outcome : Except FetchError Outcome) : Dispatcher :=
  { d with metrics := d.metrics.count outcome }

/-- The dispatcher when it is at work no more, with nothing waiting. What it counted stays. -/
def retire (d : Dispatcher) : Dispatcher :=
  { d with standing := .gone, pending := [] }

end Dispatcher
end MeteredFetch
