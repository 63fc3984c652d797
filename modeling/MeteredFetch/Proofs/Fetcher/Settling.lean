import MeteredFetch.Proofs.Fetcher.Budget
import MeteredFetch.Proofs.Fetcher.Holdings
import MeteredFetch.Proofs.Fetcher.Searches

/-!
# Settling — the turns of a dispatch, and what they do to the bucket

A dispatch has two turns at most. It leaves the bucket alone until its last turn, which accounts for
the outcome: tokens that were withdrawn are given back exactly if the request is cancelled.

* `Fetcher.Moment.isTurnBy`, `Fetcher.Moment.isBelated` — the turns of a task, and first turns that
  come when the request has succeeded or failed;
* `Fetcher.Retains`, `Fetcher.Refunds` — a task leaves the bucket alone, or gives tokens back once;
* `Fetcher.Dispatched`, `Fetcher.dispatched_of_turn` — what a turn of a dispatch comes to;
* `Fetcher.Leads`, `Fetcher.leads_of_step` — what a move leaves that is the turn of a task, and
  `Fetcher.calls_of_other` and others say what a move leaves alone that is not.
-/

namespace MeteredFetch
namespace Fetcher

open Executor

variable {f : Fetcher} {now : Instant} {task n : TaskId} {job : Job} {t : Turned} {d : Nat}
  {x : Dispatch} {e e' : State} {l : Label Action Answer} {m : Moment} {hs : List Moment}
  {cost tokens : UInt64} {outcome : Except FetchError Outcome}

/-! ## What a task does to the bucket -/

def Moment.isTurnBy (n : TaskId) (m : Moment) : Bool :=
  match m.2, m.1.next? with
  | .turn, some (number, _) => number == n
  | _, _ => false

/-- Whether a move is the first turn of a dispatch, and its request has succeeded or failed by then. -/
def Moment.isBelated (n : TaskId) (m : Moment) : Bool :=
  match m.2, m.1.next? with
  | .turn, some (number, .dispatch _ x .fresh) =>
      number == n && ((m.1.shared.requests[x.request]?).bind Request.settled?).isSome
  | _, _ => false

def Moment.bucket (m : Moment) : Bucket :=
  (Executor.Moment.after program m).shared.bucket

/-- No turn of a task changes the bucket. -/
def Retains (n : TaskId) (hs : List Moment) : Prop :=
  ∀ m ∈ hs, Moment.isTurnBy n m = true → m.bucket = m.1.shared.bucket

/-- One turn of a task gives tokens back, and no other turn of it changes the bucket. -/
def Refunds (tokens : UInt64) (n : TaskId) (hs : List Moment) : Prop :=
  ∃ before m after, hs = before ++ m :: after ∧ Moment.isTurnBy n m = true ∧
    m.bucket = m.1.shared.bucket.recycle tokens ∧ Retains n (before ++ after)

/-- The turn of a task is a turn that goes to it. -/
theorem isTurnBy_iff :
    Moment.isTurnBy n (e, l) = true ↔ l = .turn ∧ ∃ job, e.next? = some (n, job) := by
  unfold Moment.isTurnBy
  constructor
  · intro turn
    split at turn
    · rename_i number job same next
      exact ⟨same, job, by rw [next, eq_of_beq turn]⟩
    · cases turn
  · rintro ⟨rfl, job, next⟩
    simp [next]

theorem isBelated_of_other (other : Moment.isTurnBy n m = false) :
    Moment.isBelated n m = false := by
  unfold Moment.isBelated
  split
  · rename_i turn next
    simp only [Moment.isTurnBy, turn, next] at other
    rw [other, Bool.false_and]
  · rfl

theorem isBelated_of_next {r : Request} (next : e.next? = some (n, .dispatch d x .fresh))
    (found : e.shared.requests[x.request]? = some r) :
    Moment.isBelated n (e, .turn) = r.settled?.isSome := by
  simp [Moment.isBelated, next, found]

/-- The bucket after a move is that of the state that it leads to. -/
theorem bucket_of_step (step : Step program e l e') : Moment.bucket (e, l) = e'.shared.bucket := by
  unfold Moment.bucket
  rw [after_of_step step]

theorem Retains.snoc (h : Retains n hs)
    (same : Moment.isTurnBy n m = true → m.bucket = m.1.shared.bucket) :
    Retains n (hs ++ [m]) :=
  List.forall_mem_append.2 ⟨h, List.forall_mem_singleton.2 same⟩

/-- A turn of somebody else does not count. -/
theorem Retains.other (h : Retains n hs) (other : Moment.isTurnBy n m = false) :
    Retains n (hs ++ [m]) := by
  apply h.snoc
  intro own
  rw [other] at own
  cases own

/-- A turn of somebody else gives nothing back for this task. -/
theorem Refunds.other (h : Refunds tokens n hs) (other : Moment.isTurnBy n m = false) :
    Refunds tokens n (hs ++ [m]) := by
  rcases h with ⟨before, m', after, rfl, turn, given, rest⟩
  refine ⟨before, m', after ++ [m], by simp, turn, given, ?_⟩
  rw [← List.append_assoc]
  exact rest.other other

theorem Retains.refunds (h : Retains n hs) (turn : Moment.isTurnBy n m = true)
    (given : m.bucket = m.1.shared.bucket.recycle tokens) : Refunds tokens n (hs ++ [m]) :=
  ⟨hs, m, [], rfl, turn, given, by rwa [List.append_nil]⟩

/-! ## Turns -/

/-- The end of a dispatch gives back what was paid for it, exactly if its request is cancelled. -/
structure Settles (cost : UInt64) (x : Dispatch) (outcome : Except FetchError Outcome)
    (b b' : Bucket) : Prop where
  given : x.charged = true → outcome = .ok .cancelled → b' = b.recycle cost
  kept : x.charged = false ∨ outcome ≠ .ok .cancelled → b' = b

/-- What is given back depends on the outcome of the dispatch alone. -/
theorem settles (price : f.price? d = some cost) (x : Dispatch)
    (outcome : Except FetchError Outcome) :
    Settles cost x outcome f.bucket (f.settle d x outcome).bucket := by
  rcases Option.map_eq_some_iff.1 price with ⟨y, found, rfl⟩
  have counted : (f.modifyDispatcher d (·.count outcome)).dispatchers[d]? =
      some (y.count outcome) := by
    simp [modifyDispatcher, found]
  -- nothing but a cancellation reaches the branch that gives back
  by_cases cancelled : outcome = .ok .cancelled
  · subst cancelled
    have settled : (f.settle d x (.ok .cancelled)).bucket =
        if x.charged then f.bucket.recycle y.cost else f.bucket := by
      unfold settle
      simp only [counted]
      split <;> rfl
    rw [settled]
    refine ⟨fun charged _ => by rw [if_pos charged], ?_⟩
    rintro (free | other)
    · simp [free]
    · exact absurd rfl other
  · have settled : (f.settle d x outcome).bucket = f.bucket := by
      unfold settle
      simp only
      split
      · exact absurd rfl cancelled
      · rfl
    exact ⟨fun _ same => absurd same cancelled, fun _ => settled⟩

inductive Dispatched (f : Fetcher) (n : TaskId) (d : Nat) (x : Dispatch) (cost : UInt64) (r : Request) :
    Sending → Turned → Prop
  /-- It has searched and awaits the response. -/
  | awaits {t : Turned} {call : Call} {response : Response} : r.settled? = none → call.task = n →
      t.shared.calls = call :: f.calls → t.shared.bucket = f.bucket →
      standing t.next = some (.dispatch d x (.awaiting response)) →
      Dispatched f n d x cost r .fresh t
  /-- Nothing is to be searched for. -/
  | spared {t : Turned} {outcome : Except FetchError Outcome} :
      (r.settled?.isSome = true ↔ outcome ≠ .ok .cancelled) → t.shared.calls = f.calls →
      Settles cost x outcome f.bucket t.shared.bucket →
      t.next = .finish (.dispatched d x outcome) → Dispatched f n d x cost r .fresh t
  /-- It has searched, and the response is there at once. -/
  | answered {t : Turned} {call : Call} {outcome : Except FetchError Outcome} :
      r.settled? = none → call.task = n → t.shared.calls = call :: f.calls →
      Settles cost x outcome f.bucket t.shared.bucket →
      t.next = .finish (.dispatched d x outcome) → Dispatched f n d x cost r .fresh t
  /-- The response that was awaited is there. -/
  | arrived {t : Turned} {response : Response} {outcome : Except FetchError Outcome} :
      t.shared.calls = f.calls → Settles cost x outcome f.bucket t.shared.bucket →
      t.next = .finish (.dispatched d x outcome) →
      Dispatched f n d x cost r (.awaiting response) t

/-- An attempt for which nothing is to be searched ends as its request has ended, or as cancelled. -/
theorem outcome_of_concluded {r : Request} {c : Conclusion} (begins : r.beginSend = .concluded c) :
    r.settled?.isSome = true ↔ c.outcome ≠ .ok .cancelled := by
  unfold Request.beginSend at begins
  cases ended : r.settled? with
  | some outcome =>
      simp only [ended] at begins
      cases begins
      refine ⟨fun _ => ?_, fun _ => rfl⟩
      rintro cancelled
      cases cancelled
      unfold Request.settled? at ended
      split at ended <;> cases ended
  | none =>
      simp only [ended] at begins
      split at begins
      · cases begins
        simp [Request.endCancelled]
      · cases begins

/-- The cases of the turn of a dispatch. -/
theorem dispatched_of_turn {r : Request} {stage : Sending} (price : f.price? d = some cost)
    (found : f.requests[x.request]? = some r)
    (turned : f.turn now n (.dispatch d x stage) = .ok t) : Dispatched f n d x cost r stage t := by
  have same := send_same f now n x.request stage
  have sent := sends f now n x.request stage
  simp only [turn] at turned
  generalize f.send now n x.request stage = result at same sent turned
  -- what the end of an attempt leaves when its outcome was accounted for
  have closes : ∀ {g : Fetcher} (outcome : Except FetchError Outcome), g.bucket = f.bucket ∧
      g.dispatchers = f.dispatchers → (g.settle d x outcome).calls = g.calls ∧
        Settles cost x outcome f.bucket (g.settle d x outcome).bucket := by
    intro g outcome kept
    rcases settle_same g d x outcome with ⟨_, _, settled, _⟩
    refine ⟨by rw [settled], ?_⟩
    rw [← kept.1]
    apply settles
    rw [← price, price?, kept.2, price?]
  have searched : ∀ {r' : Request}, r.beginSend = .lookup r' → r.settled? = none :=
    fun begins => (Request.onward_of_lookup begins).2.1
  cases sent with
  | missing gone =>
      -- the request exists
      cases gone.symm.trans found
  | @concluded _ c found' begins =>
      cases found'.symm.trans found
      cases turned
      rcases closes _ same with ⟨calls, settled⟩
      exact .spared (outcome_of_concluded begins) (calls.trans (calls_adopt f x.request c)) settled
        rfl
  | arrived found' =>
      cases found'.symm.trans found
      cases turned
      rcases closes _ same with ⟨calls, settled⟩
      exact .arrived (calls.trans (calls_adopt f x.request _)) settled rfl
  | awaits held found' begins after =>
      cases found'.symm.trans found
      cases turned
      exact .awaits (searched begins) rfl after.calls same.1 rfl
  | answered found' begins after there onward =>
      cases found'.symm.trans found
      cases turned
      rcases closes _ same with ⟨calls, settled⟩
      exact .answered (searched begins) rfl
        ((calls.trans (calls_adopt _ x.request _)).trans after.calls) settled rfl

/-- Only a dispatch ends as one. -/
theorem job_of_dispatched (turned : f.turn now task job = .ok t)
    (ended : t.next = .finish (.dispatched d x outcome)) : ∃ stage, job = .dispatch d x stage := by
  cases job with
  | grab tokens caller =>
      rcases ok_of_bind turned with ⟨⟨bucket, caller'⟩, _, rest⟩
      cases caller' <;> cases rest <;> cases ended
  | send request stage =>
      simp only [turn] at turned
      generalize f.send now task request stage = result at turned
      rcases result with ⟨g, effects, next⟩
      cases turned
      cases next <;> cases ended
  | retry request failure =>
      cases turned
      cases ended
  | dispatch d' x' stage =>
      simp only [turn] at turned
      generalize f.send now task x'.request stage = result at turned
      rcases result with ⟨g, effects, next⟩
      cases turned
      cases next with
      | wait stage' alarm =>
          cases ended
      | finish outcome' =>
          cases ended
          exact ⟨stage, rfl⟩
  | serve d' chosen =>
      cases attempt?_of_serve turned ended

/-! ## Moves -/

structure Leads (n : TaskId) (e : State) (t : Turned) (e' : State) : Prop where
  turn : Moment.isTurnBy n (e, .turn) = true
  bucket : Moment.bucket (e, .turn) = t.shared.bucket
  calls : e'.shared.calls = t.shared.calls
  stands : e'.tasks[n]? = some (standing t.next)
  finished : e'.finished = e.recorded n t.next

/-- A move that is the turn of a task leads to what the turn leaves. -/
theorem leads_of_step (next : e.next? = some (n, job)) (step : Step program e .turn e') :
    ∃ t, e.shared.turn e.now n job = .ok t ∧ Leads n e t e' := by
  have inside := (List.getElem?_eq_some_iff.1 (task?_of_next? next)).1
  rcases (moves_of_step step).of_next rfl next with ⟨t, went, left⟩
  refine ⟨t, went, isTurnBy_iff.2 ⟨rfl, job, next⟩, ?_, left.shared.unchanged.calls,
    left.stands inside, left.finished⟩
  rcases left.shared with ⟨schedulers, same, _⟩
  rw [bucket_of_step step, same]

/-- Only in its own turns does a task search. -/
theorem calls_of_other (other : Moment.isTurnBy n (e, l) = false) (step : Step program e l e') :
    n ∈ e'.shared.calls.map (·.task) ↔ n ∈ e.shared.calls.map (·.task) := by
  rcases calls_of_step step with same | ⟨call, job, turn, next, _, _, more⟩
  · rw [same]
  · have ne : n ≠ call.task := by
      rintro rfl
      rw [isTurnBy_iff.2 ⟨turn, job, next⟩] at other
      cases other
    rw [more, List.map_cons, List.mem_cons]
    simp [ne]

/-- Only in its own turns does a task end. -/
theorem finished_of_other (other : Moment.isTurnBy n (e, l) = false) (step : Step program e l e')
    {c : Completion Result} (member : c ∈ e'.finished) (own : c.task = n) : c ∈ e.finished := by
  rcases mem_finished_of_step step member with old | ⟨job, t, turn, next, _⟩
  · exact old
  · rw [own] at next
    rw [isTurnBy_iff.2 ⟨turn, job, next⟩] at other
    cases other

/-- A task that stands after the turn of somebody else stood there before. -/
theorem stands_of_other (other : Moment.isTurnBy n (e, l) = false) (inside : n < e.tasks.length)
    (step : Step program e l e') (stands : e'.tasks[n]? = some (some job)) :
    e.tasks[n]? = some (some job) := by
  cases arises_of_step step stands with
  | stays old _ =>
      exact old
  | goesOn turn next _ =>
      rw [isTurnBy_iff.2 ⟨turn, _, next⟩] at other
      cases other
  | acted _ later _ =>
      exact absurd inside (Nat.not_lt_of_le later)
  | sent sends _ =>
      exact absurd inside (Nat.not_lt_of_le (stands_of_sends step sends).1)

/-- A number that no task has got has no turn. -/
theorem isTurnBy_of_length_le (l : Label Action Answer) (outside : e.tasks.length ≤ n) :
    Moment.isTurnBy n (e, l) = false := by
  rw [← Bool.not_eq_true, isTurnBy_iff]
  rintro ⟨_, job, next⟩
  have inside := (List.getElem?_eq_some_iff.1 (task?_of_next? next)).1
  exact Nat.not_lt_of_le outside inside

end Fetcher
end MeteredFetch
