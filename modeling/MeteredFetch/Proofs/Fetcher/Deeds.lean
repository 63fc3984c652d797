import MeteredFetch.Proofs.Dispatcher.Deeds
import MeteredFetch.Proofs.Dispatcher.Queue
import MeteredFetch.Proofs.Fetcher.Desk

/-!
# Deeds — what the dispatchers of a run do

What a dispatcher does is written down over a whole run. It does one thing after another, whatever
happens around it: it takes no request before the last one that it took was paid for or spared, and
sent.

* `Fetcher.deeds` — what a turn of a dispatcher does, `Moment.deeds` what it does in a move, and
  `Fetcher.log` what it does in a run;
* `Fetcher.Serving`, `Fetcher.serving` — what a turn makes of what a dispatcher has before it;
* `Fetcher.Ledger`, `Fetcher.ledger_of_history` — the log of a run is in order, and leaves the
  request that tokens are waited for.
-/

namespace MeteredFetch
namespace Fetcher

open Executor Deed

/-! ## Queues -/

def classified (f : Fetcher) (ids : List RequestId) : List (Priority × RequestId) :=
  ids.map fun r => (f.priority r, r)

def Desk.queue (f : Fetcher) (k : Desk) : List Pending :=
  Pending.insertAll (Pending.number k.arrivals (f.classified k.inbox)) k.pending

def intake (f : Fetcher) (x : Dispatcher) (queue : Scheduler) : Dispatcher :=
  x.enqueueAll (f.classified queue.waiting)

/-- Mail is numbered in the order in which it came, and put into the queue. -/
theorem intake_eq (f : Fetcher) (x : Dispatcher) (queue : Scheduler) :
    f.intake x queue =
      { x with
        pending := Pending.insertAll
          (Pending.number x.arrivals (f.classified queue.waiting)) x.pending
        arrivals := x.arrivals + queue.waiting.length } := by
  unfold intake
  rw [Dispatcher.enqueueAll_eq]
  simp [classified]

/-! ## Turns -/

/-- What a turn of a dispatcher does, where `next` is the number of the next task that is started. It
sends the request that it has chosen first, when the tokens for it are there. -/
def deeds (f : Fetcher) (now : Instant) (task next : TaskId) (d : Nat) (chosen : Option Chosen) :
    List Deed :=
  match f.dispatchers[d]?, f.schedulers[d]? with
  | some x, some queue =>
      let pending := (f.intake x queue).pending
      match chosen with
      | none => Dispatcher.deeds now task x.cost f.isCancelled next pending f.bucket
      | some c =>
          match c.caller.turn now task f.bucket with
          | .ok (b, none) =>
              .pays x.cost :: .sends ⟨c.request, true⟩ next ::
                Dispatcher.deeds now task x.cost f.isCancelled (next + 1) pending b
          | .ok (_, some _) | .error _ => []
  | _, _ => []

inductive Serving (f : Fetcher) (d : Nat) (next : TaskId) (chosen : Option Chosen) (t : Turned)
    (ds : List Deed) : Prop
  /-- It does nothing: tokens are still waited for, or there is no such dispatcher. -/
  | still : ds = [] → t.effects = [] → t.shared.desk? d = f.desk? d →
      (∀ chosen', standing t.next = some (.serve d chosen') →
        (∃ k, f.desk? d = some k) ∧ chosen'.map (·.request) = chosen.map (·.request)) →
      Serving f d next chosen t ds
  /-- It goes through its queue, and leaves the rest. -/
  | served {k k' : Desk} {rest : List Pending} {dispatches : List Dispatch}
      (chosen' : Option Chosen) :
      f.desk? d = some k → t.shared.desk? d = some k' → takings ds ++ rest = k.queue f →
      sendings ds = dispatches.zipIdx next → t.effects = sendAll d dispatches →
      Orderly (chosen.map (·.request)) ds (chosen'.map (·.request)) →
      k'.cost = k.cost → k'.arrivals = k.arrivals + k.inbox.length → k'.inbox = [] →
      (k'.standing = .gone ∧ standing t.next = none ∨
        k'.standing = k.standing ∧ k'.pending = rest ∧
          standing t.next = some (.serve d chosen')) →
      Serving f d next chosen t ds

variable {d : Nat} {f g : Fetcher} {now : Instant} {task next : TaskId} {chosen : Option Chosen}
  {t : Turned} {x : Dispatcher} {queue : Scheduler}

/-- What a dispatcher sends, and what it leaves, come from what it had before it and from its mail. -/
theorem serving_of_serveQueue {paid : List Dispatch} (before : List Deed)
    (dispatcher : f.dispatchers[d]? = some x) (scheduler : f.schedulers[d]? = some queue)
    (first : Orderly (chosen.map (·.request)) before none) (silent : takings before = [])
    (sent : sendings before = paid.zipIdx next)
    (h : f.serveQueue now task d x queue paid = .ok t) :
    Serving f d next chosen t
      (before ++ Dispatcher.deeds now task x.cost f.isCancelled (next + paid.length)
        (f.intake x queue).pending f.bucket) := by
  rcases ok_of_bind h with ⟨served, went, rest⟩
  have cost : (f.intake x queue).cost = x.cost := by rw [intake_eq]
  have standing : (f.intake x queue).standing = x.standing := by rw [intake_eq]
  have arrivals : (f.intake x queue).arrivals = x.arrivals + queue.waiting.length := by
    rw [intake_eq]
  change Dispatcher.serve now task (f.intake x queue).cost f.isCancelled
    (f.intake x queue).pending f.bucket = .ok served at went
  rw [cost] at went
  have logged := Dispatcher.logged went (next + paid.length)
  generalize Dispatcher.deeds now task x.cost f.isCancelled (next + paid.length)
    (f.intake x queue).pending f.bucket = ds at logged ⊢
  have desk : f.desk? d = some ⟨x.cost, x.standing, x.pending, x.arrivals, queue.waiting⟩ := by
    simp [desk?, inbox, dispatcher, scheduler]
  have takes : takings (before ++ ds) ++ served.pending =
      Desk.queue f ⟨x.cost, x.standing, x.pending, x.arrivals, queue.waiting⟩ := by
    rw [takings_append, silent, List.nil_append, logged.takings, intake_eq]
    rfl
  have sends : sendings (before ++ ds) = (paid ++ served.dispatches).zipIdx next := by
    rw [sendings_append, sent, logged.sendings, List.zipIdx_append, Nat.add_comm]
  have orderly : Orderly (chosen.map (·.request)) (before ++ ds)
      (served.chosen.map (·.request)) := first.append logged.drawn.orderly
  -- it goes on to wait, is done with its work for now, or for good
  cases choice : served.chosen with
  | some c =>
      simp only [choice] at rest orderly
      cases rest
      refine .served (some c) desk (?_ : desk? _ d = some ⟨(f.intake x queue).cost,
        (f.intake x queue).standing, served.pending, (f.intake x queue).arrivals, []⟩) takes sends
        rfl orderly cost arrivals rfl (.inr ⟨standing, rfl, rfl⟩)
      simp [desk?, inbox, modifyDispatcher, modifyScheduler, dispatcher, scheduler,
        Dispatcher.record, intake, classified]
  | none =>
      simp only [choice] at rest orderly
      split at rest
      · cases rest
        refine .served none desk (?_ : desk? _ d = some ⟨(f.intake x queue).cost, .gone, [],
          (f.intake x queue).arrivals, []⟩) takes sends rfl orderly cost arrivals rfl
          (.inl ⟨rfl, rfl⟩)
        simp [desk?, inbox, modifyDispatcher, modifyScheduler, dispatcher, scheduler,
          Dispatcher.record, intake, classified, retire, Dispatcher.retire, Scheduler.retire]
      · cases rest
        refine .served none desk (?_ : desk? _ d = some ⟨(f.intake x queue).cost,
          (f.intake x queue).standing, served.pending, (f.intake x queue).arrivals, []⟩) takes sends
          rfl orderly cost arrivals rfl (.inr ⟨standing, rfl, rfl⟩)
        simp [desk?, inbox, modifyDispatcher, modifyScheduler, dispatcher, scheduler,
          Dispatcher.record, intake, classified]

/-- What is written down of a turn of a dispatcher is what the turn does. -/
theorem serving (h : f.serve now task d chosen = .ok t) (next : TaskId) :
    Serving f d next chosen t (f.deeds now task next d chosen) := by
  unfold serve at h
  unfold deeds
  cases dispatcher : f.dispatchers[d]? with
  | none =>
      simp only [dispatcher] at h
      cases h
      exact .still rfl rfl rfl nofun
  | some x =>
      cases scheduler : f.schedulers[d]? with
      | none =>
          simp only [dispatcher, scheduler] at h
          cases h
          exact .still rfl rfl rfl nofun
      | some queue =>
          simp only [dispatcher, scheduler] at h
          cases chosen with
          | none =>
              exact serving_of_serveQueue [] dispatcher scheduler .nil rfl rfl h
          | some c =>
              rcases ok_of_bind h with ⟨⟨bucket, caller⟩, turned, rest⟩
              simp only [turned]
              cases caller with
              | some caller =>
                  cases rest
                  refine .still rfl rfl rfl ?_
                  intro chosen' stands
                  cases stands
                  exact ⟨⟨_, by simp [desk?, dispatcher]; rfl⟩, rfl⟩
              | none =>
                  -- the tokens are there, and the request that they are for goes first
                  have went : ({ f with bucket } : Fetcher).serveQueue now task d x queue
                      [⟨c.request, true⟩] = .ok t := rest
                  have paid : Orderly ((some c).map (·.request))
                      [.pays x.cost, .sends ⟨c.request, true⟩ next] none := .pays .nil
                  have after : Serving { f with bucket } d next (some c) t
                      (.pays x.cost :: .sends ⟨c.request, true⟩ next ::
                        Dispatcher.deeds now task x.cost f.isCancelled (next + 1)
                          (f.intake x queue).pending bucket) :=
                    serving_of_serveQueue (f := { f with bucket })
                      [.pays x.cost, .sends ⟨c.request, true⟩ next] dispatcher scheduler paid rfl rfl
                      went
                  cases after with
                  | still nothing effects desk waits =>
                      exact .still nothing effects desk waits
                  | served chosen' desk desk' takes sends effects orderly cost arrivals inbox
                      goesOn =>
                      exact .served chosen' desk desk' takes sends effects orderly cost arrivals
                        inbox goesOn

/-- Whatever a dispatcher does in a turn it does on its way through the queue, or for the request that
it has chosen, when the tokens for it are there. -/
theorem mem_deeds {deed : Deed} (member : deed ∈ f.deeds now task next d chosen) :
    ∃ x, f.dispatchers[d]? = some x ∧
      ((∃ next' pending b,
          deed ∈ Dispatcher.deeds now task x.cost f.isCancelled next' pending b) ∨
        ∃ c b, chosen = some c ∧ c.caller.turn now task f.bucket = .ok (b, none) ∧
          (deed = .pays x.cost ∨ deed = .sends ⟨c.request, true⟩ next)) := by
  unfold deeds at member
  split at member
  · rename_i x queue dispatcher _
    refine ⟨x, dispatcher, ?_⟩
    simp only at member
    split at member
    · exact .inl ⟨_, _, _, member⟩
    · rename_i c
      split at member
      · rename_i b ended
        rcases List.mem_cons.1 member with paid | member
        · exact .inr ⟨c, b, rfl, ended, .inl paid⟩
        rcases List.mem_cons.1 member with sent | member
        · exact .inr ⟨c, b, rfl, ended, .inr sent⟩
        · exact .inl ⟨_, _, _, member⟩
      · cases member
      · cases member
  · cases member

/-! ## Moves -/

def Moment.deeds (d : Nat) (m : Moment) : List Deed :=
  match m.2, m.1.next? with
  | .turn, some (number, .serve id chosen) =>
      if id = d then m.1.shared.deeds m.1.now number m.1.tasks.length d chosen else []
  | _, _ => []

def log (d : Nat) (hs : List Moment) : List Deed :=
  hs.flatMap (Moment.deeds d)

@[simp]
theorem log_nil (d : Nat) : log d [] = [] := rfl

@[simp]
theorem log_append (d : Nat) (hs hs' : List Moment) : log d (hs ++ hs') = log d hs ++ log d hs' :=
  List.flatMap_append

theorem log_snoc (d : Nat) (hs : List Moment) (m : Moment) :
    log d (hs ++ [m]) = log d hs ++ m.deeds d := by
  simp [log]

variable {e e' : State} {l : Label Action Answer} {number : TaskId} {ds : List Deed}

/-- In its turn a dispatcher does what its turn does. -/
theorem deeds_of_next (next : e.next? = some (number, .serve d chosen)) :
    Moment.deeds d (e, .turn) = e.shared.deeds e.now number e.tasks.length d chosen := by
  simp [Moment.deeds, next]

/-- In any other move it does nothing. -/
theorem deeds_of_other (other : ¬ IsTurnOf d e l) : Moment.deeds d (e, l) = [] := by
  unfold Moment.deeds
  split
  · rename_i number id chosen turn next
    split
    · rename_i here
      subst here
      exact absurd ⟨turn, number, chosen, next⟩ other
    · rfl
  · rfl

structure Minds (d : Nat) (e e' : State) : Prop where
  manned : Manned d e'
  desk : ∀ {k'}, e'.shared.desk? d = some k' → k'.standing ≠ .gone →
    ∃ k, e.shared.desk? d = some k ∧ k.standing ≠ .gone ∧ k'.cost = k.cost ∧
      (k'.standing = .idle → k.standing = .idle)
  task : ∀ {number chosen}, Runs d e' number chosen →
    Runs d e number chosen ∨ chosen = none ∧ ∃ k, e.shared.desk? d = some k ∧ k.standing = .idle

/-- Whoever is left alone minds its work. -/
theorem Keeps.minds (h : Keeps d e e') : Minds d e e' := by
  refine ⟨h.manned, ?_, h.task⟩
  intro k' there alive
  rcases h.desk there alive with ⟨k, fresh, before, alive', same, idle, _⟩
  refine ⟨k, before, alive', ?_, idle⟩
  rw [same]
  rfl

theorem pop_same (f : Fetcher) (s : SchedulerId) :
    (f.pop s).effects = [] ∧ (f.pop s).shared.dispatchers = f.dispatchers := by
  unfold Fetcher.pop
  split <;> exact ⟨rfl, rfl⟩

/-- Mail that is taken from a dispatcher makes no difference to its work. -/
theorem minds_of_pop {now : Instant} {finished : List (Completion Result)} (manned : Manned d e)
    (left : Leaves now (e.shared.pop d).shared
      (e.tasks ++ (spawned (e.shared.pop d).effects).map some) finished e') : Minds d e e' := by
  have popped := pop_same e.shared d
  have task : ∀ {number chosen}, Runs d e' number chosen → Runs d e number chosen := by
    intro number chosen stands
    unfold Runs at stands ⊢
    rw [left.tasks, popped.1] at stands
    simpa [spawned] using stands
  have desk : ∀ {k'}, e'.shared.desk? d = some k' →
      ∃ k, e.shared.desk? d = some k ∧ k'.standing = k.standing ∧ k'.cost = k.cost := by
    intro k' there
    rw [left.shared.desk? d] at there
    unfold desk? at there
    rw [popped.2] at there
    rcases Option.map_eq_some_iff.1 there with ⟨x, known, rfl⟩
    exact ⟨⟨x.cost, x.standing, x.pending, x.arrivals, e.shared.inbox d⟩, by simp [desk?, known],
      rfl, rfl⟩
  refine ⟨?_, ?_, fun stands => .inl (task stands)⟩
  · intro number chosen k' stands there
    rcases desk there with ⟨k, before, standing, _⟩
    exact standing.trans (manned (task stands) before)
  · intro k' there alive
    rcases desk there with ⟨k, before, standing, cost⟩
    refine ⟨k, before, ?_, cost, fun idle => standing.symm.trans idle⟩
    rw [← standing]
    exact alive

/-- No move but its own turn changes what a dispatcher has chosen. -/
theorem minds_of_moves (manned : Manned d e) (moves : Moves e l e') (other : ¬ IsTurnOf d e l) :
    Minds d e e' := by
  cases moves with
  | turned turn next went left =>
      exact (Keeps.of_turned manned (not_serve_of_next other turn next) went left).minds
  | @acted action answer r same gentle performed left =>
      by_cases popped : action = .pop d
      · subst popped
        cases performed
        exact minds_of_pop manned left
      · exact (Keeps.of_acts manned (acts_of_perform popped gentle performed) left).minds
  | dropped _ stands left =>
      exact (Keeps.of_dropped manned stands left).minds
  | rested _ left =>
      exact (Keeps.of_rested manned left).minds

/-! ## Runs -/

/-- The log of a dispatcher is in order, and leaves the request that it has chosen. It is empty if
the dispatcher was not started. -/
structure Ledger (d : Nat) (ds : List Deed) (e : State) : Prop where
  manned : Manned d e
  orderly : ∃ c, Orderly none ds c ∧
    ∀ {number chosen}, Runs d e number chosen → c = chosen.map (·.request)
  idle : ∀ {k}, e.shared.desk? d = some k → k.standing = .idle → ds = []

/-- The log is right as long as the dispatcher minds its work. -/
theorem Ledger.minds (h : Ledger d ds e) (minds : Minds d e e') : Ledger d ds e' := by
  rcases h.orderly with ⟨c, orderly, left⟩
  refine ⟨minds.manned, ⟨c, orderly, ?_⟩, ?_⟩
  · intro number chosen stands
    rcases minds.task stands with old | ⟨none, k, before, idle⟩
    · exact left old
    · -- its first task is started, and it has done nothing yet
      rw [h.idle before idle] at orderly
      cases orderly
      rw [none]
      rfl
  · intro k' there idle
    rcases minds.desk there (by simp [idle]) with ⟨k, before, _, _, still⟩
    exact h.idle before (still idle)

/-- After a turn of a dispatcher, the task that has taken it is the only one of the dispatcher. -/
theorem runs_of_serving {finished : List (Completion Result)}
    (serving : Serving e.shared d next chosen t ds)
    (left : Leaves e.now t.shared
      (e.tasks.set number (standing t.next) ++ (spawned t.effects).map some) finished e')
    {other : TaskId} {chosen' : Option Chosen} (stands : Runs d e' other chosen') :
    other = number ∧ standing t.next = some (.serve d chosen') ∨
      other ≠ number ∧ Runs d e other chosen' := by
  unfold Runs at stands
  rw [left.tasks] at stands
  rcases stands_set_append stands with own | old | ⟨i, _, started⟩
  · exact .inl own
  · exact .inr old
  · -- it starts tasks that send requests, and no other ones
    exfalso
    cases serving with
    | still _ effects _ _ =>
        rw [effects] at started
        cases started
    | @served _ _ _ dispatches _ _ _ _ _ effects =>
        rw [effects, spawned_sendAll, List.getElem?_map] at started
        cases there : dispatches[i]? with
        | none =>
            rw [there] at started
            cases started
        | some x =>
            rw [there] at started
            cases started

/-- What a dispatcher does in its turn goes on from where the log stops. -/
theorem Ledger.serving {finished : List (Completion Result)} {ds' : List Deed}
    (h : Ledger d ds e) (runs : Runs d e number chosen)
    (serving : Serving e.shared d next chosen t ds')
    (left : Leaves e.now t.shared
      (e.tasks.set number (standing t.next) ++ (spawned t.effects).map some) finished e') :
    Ledger d (ds ++ ds') e' := by
  have tasks : ∀ {other chosen'}, Runs d e' other chosen' →
      other = number ∧ standing t.next = some (.serve d chosen') ∨
        other ≠ number ∧ Runs d e other chosen' :=
    fun stands => runs_of_serving serving left stands
  have swept := left.shared.desk? d
  rcases h.orderly with ⟨c, orderly, waits⟩
  have before := waits runs
  cases serving with
  | still nothing effects desk goesOn =>
      subst nothing
      rw [List.append_nil]
      rw [desk] at swept
      refine ⟨?_, ⟨c, orderly, ?_⟩, ?_⟩
      · intro other chosen' k stands there
        rw [swept] at there
        rcases tasks stands with ⟨rfl, _⟩ | ⟨_, old⟩
        · exact h.manned runs there
        · exact h.manned old there
      · intro other chosen' stands
        rcases tasks stands with ⟨_, next⟩ | ⟨_, old⟩
        · exact before.trans (goesOn chosen' next).2.symm
        · exact waits old
      · intro k there idle
        rw [swept] at there
        exact h.idle there idle
  | @served k k' rest dispatches chosen' desk desk' takes sends effects orderly' cost arrivals inbox
      goesOn =>
      have atWork := h.manned runs desk
      rw [desk'] at swept
      -- only the task that had the turn can serve this dispatcher afterwards
      have only : ∀ {other chosen''}, Runs d e' other chosen'' → other = number ∧
          chosen'' = chosen' ∧ k'.standing = .running number := by
        intro other chosen'' stands
        rcases tasks stands with ⟨here, next⟩ | ⟨ne, old⟩
        · rcases goesOn with ⟨_, ended⟩ | ⟨standing, _, goes⟩
          · cases ended.symm.trans next
          · cases goes.symm.trans next
            exact ⟨here, rfl, standing.trans atWork⟩
        · have there := h.manned old desk
          rw [atWork] at there
          cases there
          exact absurd rfl ne
      refine ⟨?_, ⟨_, orderly.append (before ▸ orderly'), ?_⟩, ?_⟩
      · intro other chosen'' k'' stands there
        rcases only stands with ⟨rfl, _, standing⟩
        cases swept.symm.trans there
        exact standing
      · intro other chosen'' stands
        rw [(only stands).2.1]
      · intro k'' there idle
        cases swept.symm.trans there
        rcases goesOn with ⟨gone, _⟩ | ⟨standing, _⟩
        · cases gone.symm.trans idle
        · cases (standing.trans atWork).symm.trans idle

/-- The log is in order after every move. -/
theorem ledger_of_step (h : Ledger d ds e) (step : Step program e l e') :
    Ledger d (ds ++ Moment.deeds d (e, l)) e' := by
  have moves := moves_of_step step
  by_cases own : IsTurnOf d e l
  · rcases own with ⟨rfl, number, chosen, next⟩
    rcases moves.of_next rfl next with ⟨t, went, left⟩
    rw [deeds_of_next next]
    exact h.serving (task?_of_next? next) (serving went e.tasks.length) left
  · rw [deeds_of_other own, List.append_nil]
    exact h.minds (minds_of_moves h.manned moves own)

/-- The log of a dispatcher is in order in every state of a run. -/
theorem ledger_of_history {hs : List Moment} (h : Ledger d [] e)
    (history : History program e hs e') : Ledger d (log d hs) e' := by
  refine history.invariant (I := fun hs e => Ledger d (log d hs) e) (A := fun _ => True) ?_
    (fun _ _ => trivial) h
  intro hs e l e' sofar step _
  rw [log_snoc]
  exact ledger_of_step sofar step

/-- Nothing was done before the run begins. -/
theorem ledger_opening (d : Nat) (f : Fetcher) (start : Instant) : Ledger d [] (opening start f) := by
  have none : ∀ {number chosen}, ¬ Runs d (opening start f) number chosen := by
    intro number chosen stands
    unfold Runs opening at stands
    simp at stands
  refine ⟨?_, ⟨Option.none, .nil, ?_⟩, fun _ _ => rfl⟩
  · intro number chosen k stands
    exact absurd stands none
  · intro number chosen stands
    exact absurd stands none

end Fetcher
end MeteredFetch
