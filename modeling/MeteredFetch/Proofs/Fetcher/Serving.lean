import Mathlib.Data.List.Perm.Basic
import MeteredFetch.Fetcher.Program
import MeteredFetch.Proofs.Executor.Step

/-!
# Serving — what a turn of a dispatcher does with its requests

A dispatcher takes in its mail, sends some requests, may choose one that tokens are waited for, and
leaves the rest waiting. No request is lost or copied on the way.

* `Dispatcher.requests_of_serve` — going through the queue splits it;
* `Dispatcher.requests_of_enqueueAll` — arriving requests join those that wait;
* `Fetcher.sweep_same` — a sweep leaves the mail as it is;
* `Fetcher.Serves` — what a turn of a dispatcher comes to, as a relation.
-/

namespace MeteredFetch

/-! ## Queues -/

namespace Dispatcher

/-- The requests that are sent, the one that is chosen and those that wait on are those that waited
before, in their order. -/
theorem requests_of_serve {now : Instant} {task : TaskId} {cost : UInt64}
    {cancelled : RequestId → Bool} {pending : List Pending} {b : Bucket} {served : Served}
    (h : serve now task cost cancelled pending b = .ok served) :
    served.dispatches.map (·.request) ++ served.chosen.toList.map (·.request) ++
        served.pending.map (·.request) = pending.map (·.request) ∧
      (served.chosen = none → served.pending = []) := by
  -- along the queue; the bucket is another one after every withdrawal
  induction pending generalizing b served with
  | nil =>
      cases h
      exact ⟨rfl, fun _ => rfl⟩
  | cons x rest ih =>
      unfold serve at h
      split at h
      · rcases ok_of_bind h with ⟨later, went, same⟩
        cases same
        rcases ih went with ⟨split, last⟩
        exact ⟨by simpa using split, last⟩
      · rcases ok_of_bind h with ⟨⟨b', caller⟩, _, next⟩
        cases caller with
        | some caller =>
            cases next
            exact ⟨by simp, fun chosen => by cases chosen⟩
        | none =>
            rcases ok_of_bind next with ⟨later, went, same⟩
            cases same
            rcases ih went with ⟨split, last⟩
            exact ⟨by simpa using split, last⟩

/-- Requests that arrive join those that wait. -/
theorem requests_of_enqueueAll (d : Dispatcher) (arriving : List (Priority × RequestId)) :
    ((d.enqueueAll arriving).pending.map (·.request)).Perm
      (arriving.map Prod.snd ++ d.pending.map (·.request)) := by
  induction arriving generalizing d with
  | nil =>
      exact .refl _
  | cons x rest ih =>
      have joined : ((d.enqueue x.1 x.2).pending.map (·.request)).Perm
          (x.2 :: d.pending.map (·.request)) :=
        (Pending.insert_perm ⟨x.1, d.arrivals, x.2⟩ d.pending).map (·.request)
      have later := (ih (d.enqueue x.1 x.2)).trans (joined.append_left (rest.map Prod.snd))
      exact later.trans List.perm_middle

end Dispatcher

theorem modify_eq_set {α : Type} {xs : List α} {i : Nat} {x : α} (h : xs[i]? = some x)
    (change : α → α) : xs.modify i change = xs.set i (change x) := by
  refine List.ext_getElem? fun j => ?_
  rw [List.getElem?_modify, List.getElem?_set]
  by_cases here : i = j
  · subst here
    have inside : i < xs.length := (List.getElem?_eq_some_iff.1 h).1
    rw [h]
    simp [inside]
  · simp [here]

theorem modify_modify_eq_set {α : Type} {xs : List α} {i : Nat} {x : α} (h : xs[i]? = some x)
    (change change' : α → α) :
    (xs.modify i change).modify i change' = xs.set i (change' (change x)) := by
  have inside : i < xs.length := (List.getElem?_eq_some_iff.1 h).1
  have there : (xs.set i (change x))[i]? = some (change x) := by simp [inside]
  rw [modify_eq_set h, modify_eq_set there, List.set_set]

/-- A change that cannot be seen through a view. -/
theorem map_modify_of_eq {α β : Type} (view : α → β) (change : α → α)
    (same : ∀ x, view (change x) = view x) (xs : List α) (i : Nat) :
    (xs.modify i change).map view = xs.map view := by
  refine List.ext_getElem? fun j => ?_
  simp only [List.getElem?_map, List.getElem?_modify]
  cases xs[j]? with
  | none =>
      rfl
  | some x =>
      simp only [Option.map_some]
      split <;> simp [same]

namespace Fetcher

/-! ## Sweeps -/

/-- What a scheduler does with requests: those that wait, and how others are treated. -/
def mail (s : Scheduler) : List RequestId × Reception × Bool :=
  (s.waiting, s.reception, s.adjustable)

/-- A sweep changes nothing but schedulers, and not what they do with requests. -/
theorem sweep_same (tasks : List (Option Job)) (f : Fetcher) :
    ∃ schedulers, (sweep tasks f).1 = { f with schedulers } ∧
      schedulers.map mail = f.schedulers.map mail := by
  have abandon : ∀ (lost : List SchedulerId) (f : Fetcher), ∃ schedulers,
      lost.foldl (fun f id => f.modifyScheduler id fun s => { s with abandoned := true }) f =
        { f with schedulers } ∧ schedulers.map mail = f.schedulers.map mail := by
    intro lost
    induction lost with
    | nil =>
        intro f
        exact ⟨f.schedulers, rfl, rfl⟩
    | cons id rest ih =>
        intro f
        rcases ih (f.modifyScheduler id fun s => { s with abandoned := true }) with
          ⟨schedulers, same, kept⟩
        have marked := map_modify_of_eq mail
          (fun s : Scheduler => { s with abandoned := true }) (fun _ => rfl) f.schedulers id
        exact ⟨schedulers, same, kept.trans marked⟩
  unfold sweep
  split
  · -- nobody can register a request with some of them any more
    exact abandon _ f
  · exact ⟨f.schedulers, rfl, rfl⟩

/-! ## Turns of a dispatcher -/

def sendAll (id : Nat) (dispatches : List Dispatch) : Effects :=
  dispatches.map fun x => .spawn (.dispatch id x .fresh)

inductive Serves (f : Fetcher) (id : Nat) : Option Chosen → Turned → Prop
  | missing {chosen : Option Chosen} :
      f.dispatchers[id]? = none ∨ f.schedulers[id]? = none →
        Serves f id chosen ⟨f, [], .finish (.stopped id)⟩
  | waits {chosen : Chosen} {caller : Caller} {bucket : Bucket} {alarm : Option Instant} :
      Serves f id (some chosen)
        ⟨{ f with bucket }, [], .wait (.serve id (some { chosen with caller })) alarm⟩
  | served {chosen : Option Chosen} (chosen' : Option Chosen) {d d' : Dispatcher}
      {queue queue' : Scheduler} {bucket : Bucket} {dispatches : List Dispatch}
      {next : Next Job Result} :
      f.dispatchers[id]? = some d → f.schedulers[id]? = some queue →
        queue'.waiting = [] →
        (queue'.reception = queue.reception ∨ queue'.reception = .closed) →
        queue'.adjustable = queue.adjustable →
        (dispatches.map (·.request) ++ chosen'.toList.map (·.request) ++
            d'.pending.map (·.request)).Perm
          (chosen.toList.map (·.request) ++ queue.waiting ++ d.pending.map (·.request)) →
        (Executor.standing next = some (.serve id chosen') ∨
          Executor.standing next = none ∧ chosen' = none) →
        Serves f id chosen
          ⟨{ f with
              bucket
              dispatchers := f.dispatchers.set id d'
              schedulers := f.schedulers.set id queue' }, sendAll id dispatches, next⟩

/-- A dispatcher that goes through its queue loses no request and doubles none. -/
theorem serves_of_serveQueue {f : Fetcher} {now : Instant} {task : TaskId} {id : Nat}
    {d : Dispatcher} {queue : Scheduler} {chosen : Option Chosen} {paid : List Dispatch}
    {t : Turned} (dispatcher : f.dispatchers[id]? = some d)
    (scheduler : f.schedulers[id]? = some queue)
    (before : paid.map (·.request) = chosen.toList.map (·.request))
    (h : f.serveQueue now task id d queue paid = .ok t) : Serves f id chosen t := by
  rcases ok_of_bind h with ⟨served, went, rest⟩
  rcases Dispatcher.requests_of_serve went with ⟨split, last⟩
  have joined := Dispatcher.requests_of_enqueueAll d (queue.waiting.map fun r => (f.priority r, r))
  have mail : (queue.waiting.map fun r => (f.priority r, r)).map Prod.snd = queue.waiting := by
    simp [Function.comp_def]
  rw [mail, ← split] at joined
  -- what was paid for goes first, and is the request that was chosen before
  have kept : ((paid ++ served.dispatches).map (·.request) ++
        served.chosen.toList.map (·.request) ++ served.pending.map (·.request)).Perm
      (chosen.toList.map (·.request) ++ queue.waiting ++ d.pending.map (·.request)) := by
    rw [← before]
    simpa using joined.append_left (paid.map (·.request))
  cases choice : served.chosen with
  | some c =>
      simp only [choice] at rest kept
      cases rest
      simp only [modifyDispatcher, modifyScheduler, modify_eq_set dispatcher,
        modify_eq_set scheduler]
      exact .served (some c) dispatcher scheduler rfl (.inl rfl) rfl kept (.inl rfl)
  | none =>
      simp only [choice] at rest kept
      have empty := last choice
      rw [empty] at kept
      split at rest
      · -- nothing can come any more
        cases rest
        simp only [retire, modifyDispatcher, modifyScheduler, modify_modify_eq_set dispatcher,
          modify_modify_eq_set scheduler]
        exact .served none dispatcher scheduler rfl (.inr rfl) rfl kept
          (.inr ⟨rfl, rfl⟩)
      · cases rest
        simp only [modifyDispatcher, modifyScheduler, modify_eq_set dispatcher,
          modify_modify_eq_set scheduler]
        refine .served none dispatcher scheduler rfl (.inl rfl) rfl ?_ (.inl rfl)
        simpa [Dispatcher.record, empty] using kept

/-- The cases of the turn of a dispatcher. -/
theorem serves {f : Fetcher} {now : Instant} {task : TaskId} {id : Nat} {chosen : Option Chosen}
    {t : Turned} (h : f.serve now task id chosen = .ok t) : Serves f id chosen t := by
  unfold serve at h
  split at h
  · rename_i d queue dispatcher scheduler
    exact serves_of_serveQueue dispatcher scheduler rfl h
  · rename_i d queue chosen dispatcher scheduler
    rcases ok_of_bind h with ⟨⟨bucket, caller⟩, _, rest⟩
    cases caller with
    | some caller =>
        cases rest
        exact .waits
    | none =>
        have after : Serves { f with bucket } id (some chosen) t :=
          serves_of_serveQueue dispatcher scheduler rfl rest
        cases after with
        | missing gone =>
            rcases gone with gone | gone
            · exact absurd (dispatcher.symm.trans gone) (by simp)
            · exact absurd (scheduler.symm.trans gone) (by simp)
        | waits =>
            exact .waits
        | served chosen' dispatcher' scheduler' empty reception adjustable kept next =>
            exact .served chosen' dispatcher' scheduler' empty reception adjustable kept next
  · rename_i chosen _ _ _ first later
    cases h
    refine .missing ?_
    cases dispatcher : f.dispatchers[id]? with
    | none =>
        exact .inl rfl
    | some d =>
        cases scheduler : f.schedulers[id]? with
        | none =>
            exact .inr rfl
        | some queue =>
            -- both are known, so this is one of the cases above
            exfalso
            cases stage : chosen with
            | none =>
                exact first d queue dispatcher scheduler stage
            | some c =>
                exact later d queue c dispatcher scheduler stage

end Fetcher
end MeteredFetch
