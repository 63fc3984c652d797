import MeteredFetch.Proofs.Fetcher.Deeds

/-!
# Labour — what a turn of a dispatcher makes of its record and its queue

A dispatcher that has its turn still waits for tokens, or it takes in all of its mail and sends what the
bucket allows. It counts what it has sent and what waits on. In the end it waits for tokens or for mail,
or it stops, for which its queue must be empty and abandoned.

* `Fetcher.Worked` — what a dispatcher leaves that has gone through its queue;
* `Fetcher.Labours`, `Fetcher.labours` — every turn of a dispatcher comes to one of the three.
-/

namespace MeteredFetch
namespace Fetcher

open Executor Deed

/-- What a dispatcher with a record and a queue leaves when it has gone through all that was `there` in a
turn and waits for tokens for `chosen'`, given what it has done. -/
structure Worked (there : List Pending) (d : Nat) (next : TaskId) (x : Dispatcher) (queue : Scheduler)
    (chosen : Option Chosen) (t : Turned) (ds : List Deed) (chosen' : Option Chosen) (x' : Dispatcher)
    (queue' : Scheduler) (dispatches : List Dispatch) : Prop where
  dispatcher : t.shared.dispatchers[d]? = some x'
  scheduler : t.shared.schedulers[d]? = some queue'
  effects : t.effects = sendAll d dispatches
  takings : takings ds ++ x'.pending = there
  sendings : sendings ds = dispatches.zipIdx next
  orderly : Orderly (chosen.map (·.request)) ds (chosen'.map (·.request))
  arrivals : x'.arrivals = x.arrivals + queue.waiting.length
  metrics : x'.metrics =
    { x.metrics with
      queued := x'.pending.length
      dispatched := x.metrics.dispatched + dispatches.length }
  mail : queue'.waiting = []

inductive Labours (f : Fetcher) (task : TaskId) (d : Nat) (next : TaskId) (x : Dispatcher)
    (queue : Scheduler) (chosen : Option Chosen) (t : Turned) (ds : List Deed) : Prop
  /-- It still waits for tokens. -/
  | still {c c' : Chosen} : chosen = some c → ds = [] → t.shared.dispatchers = f.dispatchers →
      t.shared.schedulers = f.schedulers → t.effects = [] →
      standing t.next = some (.serve d (some c')) → c'.request = c.request →
      Labours f task d next x queue chosen t ds
  /-- It has gone through its queue, and waits for tokens or listens for mail. -/
  | waits {chosen' : Option Chosen} {x' : Dispatcher} {queue' : Scheduler}
      {dispatches : List Dispatch} :
      Worked (f.intake x queue).pending d next x queue chosen t ds chosen' x' queue' dispatches →
      standing t.next = some (.serve d chosen') → x'.standing = x.standing →
      queue'.abandoned = queue.abandoned →
      (chosen' = none → queue.abandoned = false ∧ queue'.listener = some task) →
      Labours f task d next x queue chosen t ds
  /-- It has gone through its queue, and stops since nothing is left and nothing will come. -/
  | stops {x' : Dispatcher} {queue' : Scheduler} {dispatches : List Dispatch} :
      Worked (f.intake x queue).pending d next x queue chosen t ds none x' queue' dispatches →
      t.next = .finish (.stopped d) → queue.abandoned = true → x'.standing = .gone →
      x'.pending = [] → queue'.abandoned = true → Labours f task d next x queue chosen t ds

variable {f : Fetcher} {now : Instant} {task next : TaskId} {d : Nat} {chosen : Option Chosen}
  {t : Turned} {x : Dispatcher} {queue : Scheduler}

/-- A dispatcher that goes through its queue counts what it sends and how many are left. -/
theorem labours_of_serveQueue {paid : List Dispatch} (before : List Deed)
    (dispatcher : f.dispatchers[d]? = some x) (scheduler : f.schedulers[d]? = some queue)
    (first : Orderly (chosen.map (·.request)) before none) (silent : takings before = [])
    (sent : sendings before = paid.zipIdx next)
    (h : f.serveQueue now task d x queue paid = .ok t) :
    Labours f task d next x queue chosen t
      (before ++ Dispatcher.deeds now task x.cost f.isCancelled (next + paid.length)
        (f.intake x queue).pending f.bucket) := by
  rcases ok_of_bind h with ⟨served, went, rest⟩
  have folded : x.enqueueAll (queue.waiting.map fun r => (f.priority r, r)) = f.intake x queue := rfl
  simp only [folded] at went rest
  have intake := intake_eq f x queue
  have cost : (f.intake x queue).cost = x.cost := by rw [intake]
  rw [cost] at went
  have last := (Dispatcher.requests_of_serve went).2
  have logged := Dispatcher.logged went (next + paid.length)
  generalize Dispatcher.deeds now task x.cost f.isCancelled (next + paid.length)
    (f.intake x queue).pending f.bucket = ds at logged ⊢
  have takes : takings (before ++ ds) ++ served.pending = (f.intake x queue).pending := by
    rw [takings_append, silent, List.nil_append, logged.takings]
  have sends : sendings (before ++ ds) = (paid ++ served.dispatches).zipIdx next := by
    rw [sendings_append, sent, logged.sendings, List.zipIdx_append, Nat.add_comm]
  have orderly : Orderly (chosen.map (·.request)) (before ++ ds)
      (served.chosen.map (·.request)) := first.append logged.drawn.orderly
  -- what is recorded does not depend on how the turn ends
  have arrivals : (f.intake x queue).arrivals = x.arrivals + queue.waiting.length := by rw [intake]
  have counted : (f.intake x queue).metrics = x.metrics := by rw [intake]
  have stays : (f.intake x queue).standing = x.standing := by rw [intake]
  cases choice : served.chosen with
  | some c =>
      simp only [choice] at rest orderly
      have worked : Worked (f.intake x queue).pending d next x queue chosen t (before ++ ds) (some c)
          ((f.intake x queue).record (paid ++ served.dispatches) served.pending)
          { queue with waiting := [], listener := none } (paid ++ served.dispatches) := by
        cases rest
        refine ⟨?_, ?_, rfl, takes, sends, orderly, arrivals, ?_, rfl⟩
        · simp [modifyDispatcher, modifyScheduler, dispatcher]
        · simp [modifyDispatcher, modifyScheduler, scheduler]
        · simp [Dispatcher.record, counted]
      exact .waits worked (by cases rest; rfl) stays rfl (by simp)
  | none =>
      simp only [choice] at rest orderly
      have empty := last choice
      split at rest
      · rename_i abandoned
        have worked : Worked (f.intake x queue).pending d next x queue chosen t (before ++ ds) none
            ((f.intake x queue).record (paid ++ served.dispatches) served.pending).retire
            (Scheduler.retire { queue with waiting := [], listener := none })
            (paid ++ served.dispatches) := by
          cases rest
          refine ⟨?_, ?_, rfl, ?_, sends, orderly, arrivals, ?_, rfl⟩
          · simp [modifyDispatcher, modifyScheduler, dispatcher, retire]
          · simp [modifyDispatcher, modifyScheduler, scheduler, retire]
          · rw [← takes, empty]
            rfl
          · simp [Dispatcher.record, Dispatcher.retire, counted, empty]
        exact .stops worked (by cases rest; rfl) abandoned rfl rfl abandoned
      · rename_i reachable
        have worked : Worked (f.intake x queue).pending d next x queue chosen t (before ++ ds) none
            ((f.intake x queue).record (paid ++ served.dispatches) served.pending)
            { queue with waiting := [], listener := some task } (paid ++ served.dispatches) := by
          cases rest
          refine ⟨?_, ?_, rfl, takes, sends, orderly, arrivals, ?_, rfl⟩
          · simp [modifyDispatcher, modifyScheduler, dispatcher]
          · simp [modifyDispatcher, modifyScheduler, scheduler]
          · simp [Dispatcher.record, counted]
        exact .waits worked (by cases rest; rfl) stays rfl fun _ => ⟨by simpa using reachable, rfl⟩

/-- Every turn of a dispatcher that exists, and that has a queue, comes to one of the three. -/
theorem labours (dispatcher : f.dispatchers[d]? = some x) (scheduler : f.schedulers[d]? = some queue)
    (h : f.serve now task d chosen = .ok t) (next : TaskId) :
    Labours f task d next x queue chosen t (f.deeds now task next d chosen) := by
  unfold serve at h
  unfold deeds
  simp only [dispatcher, scheduler] at h ⊢
  cases chosen with
  | none =>
      exact labours_of_serveQueue [] dispatcher scheduler .nil rfl rfl h
  | some c =>
      rcases ok_of_bind h with ⟨⟨bucket, caller⟩, turned, rest⟩
      simp only [turned]
      cases caller with
      | some caller =>
          cases rest
          exact .still rfl rfl rfl rfl rfl rfl rfl
      | none =>
          -- the tokens are there, and the request that they are for goes first
          have went : ({ f with bucket } : Fetcher).serveQueue now task d x queue
              [⟨c.request, true⟩] = .ok t := rest
          have paid : Orderly ((some c).map (·.request))
              [.pays x.cost, .sends ⟨c.request, true⟩ next] none := .pays .nil
          cases labours_of_serveQueue (f := { f with bucket })
            [.pays x.cost, .sends ⟨c.request, true⟩ next] dispatcher scheduler paid rfl rfl went with
          | still own nothing dispatchers schedulers effects goesOn same =>
              cases nothing
          | waits worked goesOn stays abandoned listens =>
              exact .waits worked goesOn stays abandoned listens
          | stops worked ended abandoned gone empty left =>
              exact .stops worked ended abandoned gone empty left

end Fetcher
end MeteredFetch
