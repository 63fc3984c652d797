import MeteredFetch.Proofs.Fetcher.Accounts
import MeteredFetch.Proofs.Fetcher.Reach
import MeteredFetch.Proofs.Fetcher.Refunds

/-!
# Ownership — the requests of a dispatcher keep its scheduler reachable

A request is registered with a scheduler that its group binds. Wherever it is until its attempt has
ended, in the mail, in the queue, with the dispatcher that waits for tokens or with the task that
sends it, something holds it, and so the scheduler can be reached.

* `Fetcher.binds_of_registration` — a scheduler takes in only requests whose groups bind it;
* `Fetcher.Owned`, `Fetcher.owned_of_step` — the requests of a dispatcher and the tasks that send them;
* `Fetcher.Vacant`, `Fetcher.vacant_of_unreachable` — a dispatcher whose scheduler can be reached no
  longer has nothing left to do.
-/

namespace MeteredFetch

/-- A scheduler that a request is for is bound by its group. -/
theorem Request.serves_of_destination {r : Request} {d : SchedulerId} (h : r.destination = .ok d) :
    r.group.bindings.serves d = true := by
  have bound : r.group.bindings.lookup? r.key.family = some d := by
    unfold destination Bindings.get at h
    split at h
    · cases h
      assumption
    · cases h
  unfold Bindings.lookup? at bound
  unfold Bindings.serves
  split at bound <;> simp [bound]

namespace Fetcher

open Executor Deed

variable {d : Nat} {f : Fetcher} {now : Instant} {task number n : TaskId} {job : Job} {t : Turned}
  {id : RequestId} {e e' : State} {l : Label Action Answer} {hs : List Moment} {x : Dispatcher}
  {y : Dispatch}

/-! ## Registrations -/

/-- A request whose scheduler is known is of a group that binds it. -/
theorem binds_of_found {r : Request} (found : f.requests[id]? = some r)
    (destination : r.destination.toOption = some d) : f.binds d id = true := by
  have known : r.destination = .ok d := by
    cases bound : r.destination with
    | error e =>
        rw [bound] at destination
        cases destination
    | ok s =>
        rw [bound] at destination
        cases destination
        rfl
  simp [binds, found, Request.serves_of_destination known]

theorem binds_of_admits (admits : f.admits? id = some (id, d)) : f.binds d id = true := by
  rcases Option.bind_eq_some_iff.1 admits with ⟨r, known, rest⟩
  have found : f.requests[id]? = some r := by
    unfold request? at known
    split at known
    · cases known
    · exact known
  split at rest
  · rcases Option.map_eq_some_iff.1 rest with ⟨s, destination, same⟩
    cases same
    exact binds_of_found found destination
  · cases rest

/-- A request that is registered once more when an attempt has failed existed before the turn. -/
theorem binds_of_readmits (turned : f.turn now task job = .ok t)
    (readmits : f.readmits? task job = some (id, d)) : f.binds d id = true := by
  rcases Option.bind_eq_some_iff.1 readmits with ⟨⟨g, request, response⟩, brought, rest⟩
  rcases Option.bind_eq_some_iff.1 rest with ⟨r, there, rest⟩
  cases comes turned with
  | goesOn _ fruitless _ =>
      cases there.symm.trans (fruitless g request response brought)
  | spared silent =>
      cases brought.symm.trans silent
  | brought brings quiet _ found there' onward =>
      cases brought.symm.trans brings
      cases there.symm.trans there'
      split at rest
      · rcases Option.map_eq_some_iff.1 rest with ⟨s, destination, same⟩
        cases same
        rw [onward.destination] at destination
        exact binds_of_found found destination
      · cases rest

/-- A scheduler takes in only requests whose groups bind it. -/
theorem binds_of_registration (step : Step program e l e')
    (came : Moment.registration? (e, l) = some (id, d)) : e.shared.binds d id = true := by
  unfold Moment.registration? at came
  split at came
  · rename_i request _ _
    have own : request = id := by
      rcases Option.bind_eq_some_iff.1 came with ⟨r, _, rest⟩
      split at rest
      · rcases Option.map_eq_some_iff.1 rest with ⟨s, _, same⟩
        exact congrArg Prod.fst same
      · cases rest
    subst own
    exact binds_of_admits came
  · rename_i turn
    rcases Option.bind_eq_some_iff.1 came with ⟨⟨number, job⟩, next, readmits⟩
    rcases (moves_of_step step).of_next turn next with ⟨t, went, _⟩
    exact binds_of_readmits went readmits
  · cases came

/-- What the group of a request binds, it binds from then on. -/
theorem binds_of_step (step : Step program e l e') (bound : e.shared.binds d id = true) :
    e'.shared.binds d id = true := by
  cases found : e.shared.requests[id]? with
  | none =>
      simp [binds, found] at bound
  | some r =>
      rw [(groups_of_step step).binds found]
      exact bound

/-! ## What a dispatcher has taken on -/

/-- What a dispatcher sends in a task is under way there, or has ended there. -/
def Follows (e : State) (d : Nat) (y : Dispatch) (n : TaskId) : Prop :=
  (∃ stage, e.tasks[n]? = some (some (.dispatch d y stage))) ∨
    ∃ c ∈ e.finished, c.task = n ∧ ∃ outcome, c.result = .dispatched d y outcome

/-- The groups of the requests of a dispatcher bind its scheduler, and none of those that it has sent is
lost. -/
structure Owned (d : Nat) (hs : List Moment) (e : State) : Prop where
  binds : ∀ id ∈ registrations d hs, e.shared.binds d id = true
  follows : ∀ {y n}, .sends y n ∈ log d hs → Follows e d y n

/-- What has ended stays recorded. -/
theorem mem_finished {c : Completion Result} (step : Step program e l e') (member : c ∈ e.finished) :
    c ∈ e'.finished := by
  cases moves_of_step step with
  | @turned number job t _ _ _ left =>
      rw [left.finished]
      cases t.next with
      | wait job' alarm =>
          exact member
      | finish result =>
          exact List.mem_cons_of_mem _ member
  | acted _ _ _ left =>
      rw [left.finished]
      exact member
  | dropped _ _ left =>
      rw [left.finished]
      exact member
  | rested _ left =>
      rw [left.finished]
      exact member

/-- A task that sends goes on to do so until it has ended with an outcome. -/
theorem Follows.step (h : Follows e d y n) (crews : ∀ id, Crewed id e) (step : Step program e l e')
    (apart : Moment.leavesAlone d (e, l) = true) : Follows e' d y n := by
  rcases h with ⟨stage, stands⟩ | ⟨c, member, ended⟩
  · by_cases own : l = .turn ∧ ∃ job, e.next? = some (n, job)
    · rcases own with ⟨rfl, job, next⟩
      cases stands.symm.trans (task?_of_next? next)
      rcases leads_of_step next step with ⟨t, went, leads⟩
      rcases counts_of_dispatch (d := d) went with ⟨stage', goesOn, _⟩ | ⟨outcome, ends, _⟩
      · exact .inl ⟨stage', leads.stands.trans (congrArg some goesOn)⟩
      · refine .inr ⟨⟨n, .dispatched d y outcome, e.now⟩, ?_, rfl, outcome, rfl⟩
        rw [leads.finished, ends]
        exact List.mem_cons_self
    · refine .inl ⟨stage, stands_of_apart crews step apart (by simp [Job.worksFor]) stands ?_⟩
      exact fun job turn next => own ⟨turn, job, next⟩
  · exact .inr ⟨c, mem_finished step member, ended⟩

/-- No move takes a request to a dispatcher whose scheduler its group does not bind. -/
theorem owned_of_step (h : Owned d hs e) (crews : ∀ id, Crewed id e) (step : Step program e l e')
    (apart : Moment.leavesAlone d (e, l) = true) : Owned d (hs ++ [(e, l)]) e' := by
  refine ⟨fun id member => ?_, fun {y n} member => ?_⟩
  · rw [registrations_snoc] at member
    rcases List.mem_append.1 member with old | new
    · exact binds_of_step step (h.binds id old)
    · exact binds_of_step step (binds_of_registration step (mem_arriving.1 new))
  · rcases mem_log_snoc member with old | new
    · exact (h.follows old).step crews step apart
    · -- its task has just been started
      exact .inl ⟨.fresh, (stands_of_sends step new).2⟩

theorem owned_opening (d : Nat) (f : Fetcher) (start : Instant) : Owned d [] (opening start f) :=
  ⟨fun _ member => absurd member List.not_mem_nil, fun member => absurd member List.not_mem_nil⟩

/-! ## A dispatcher that nobody can reach -/

/-- Whatever a dispatcher takes was registered with it. -/
theorem mem_registrations_of_takings (booked : Booked d hs e x) {p : Pending}
    (taken : p ∈ takings (log d hs) ++ x.pending) : p.request ∈ registrations d hs :=
  booked.came.mem_iff.2 (List.mem_append_left _ (List.mem_map_of_mem taken))

/-- What tokens are waited for, and what was sent, was taken out of the queue before. -/
theorem mem_registrations_of_orderly {c : Option RequestId} (booked : Booked d hs e x)
    (orderly : Orderly none (log d hs) c)
    (member : id ∈ (sendings (log d hs)).map (·.1.request) ++ c.toList) : id ∈ registrations d hs := by
  rw [orderly.requests] at member
  rcases List.mem_map.1 member with ⟨p, taken, rfl⟩
  exact mem_registrations_of_takings booked (List.mem_append_left _ taken)

/-- Nothing is left for a dispatcher to do, in its mail, in its queue or in its tasks. -/
structure Vacant (d : Nat) (x : Dispatcher) (e : State) : Prop where
  inbox : e.shared.inbox d = []
  pending : x.pending = []
  chosen : ∀ {n chosen}, Runs d e n chosen → chosen = none
  sends : ∀ {n : TaskId} {y : Dispatch} {stage : Sending},
    e.tasks[n]? ≠ some (some (.dispatch d y stage))

/-- A dispatcher whose scheduler can be reached no longer has nothing left to do, since each of its
requests would reach it. -/
theorem vacant_of_unreachable (booked : Booked d hs e x) (owned : Owned d hs e) (sent : Sent hs e)
    (ledger : Ledger d (log d hs) e) (unreachable : e.shared.isReachable e.tasks d = false) :
    Vacant d x e := by
  have unheld : ∀ {id}, id ∈ registrations d hs → id ∉ e.shared.held e.tasks := by
    intro id member held
    have unbound := (isReachable_eq_false_iff.1 unreachable).2 id held
    rw [owned.binds id member] at unbound
    cases unbound
  rcases ledger.orderly with ⟨c, orderly, chosen⟩
  refine ⟨?_, ?_, fun {n chosen'} stands => ?_, fun {n y stage} stands => ?_⟩
  · -- mail is held by its scheduler
    refine List.eq_nil_iff_forall_not_mem.2 fun id waits => ?_
    refine unheld (booked.came.mem_iff.2 (List.mem_append_right _ waits)) (mem_held.2 (.inr ?_))
    unfold inbox at waits
    cases found : e.shared.schedulers[d]? with
    | none =>
        simp [found] at waits
    | some q =>
        rw [found] at waits
        exact .inl ⟨q, List.mem_of_getElem? found, waits⟩
  · -- what waits is held by the dispatcher
    refine List.eq_nil_iff_forall_not_mem.2 fun p waits => ?_
    refine unheld (mem_registrations_of_takings booked (List.mem_append_right _ waits)) ?_
    exact mem_held.2 (.inr (.inr (.inl
      ⟨x, List.mem_of_getElem? booked.dispatcher, List.mem_map_of_mem waits⟩)))
  · cases chosen' with
    | none =>
        rfl
    | some c' =>
        -- the request that tokens are waited for is held by the task
        have same := chosen stands
        subst same
        have mine := mem_registrations_of_orderly booked orderly
          (List.mem_append_right _ (List.mem_singleton_self c'.request))
        refine absurd (mem_held.2 (.inl ⟨_, List.mem_of_getElem? stands, ?_⟩)) (unheld mine)
        exact List.mem_singleton_self _
  · -- and so is the one that is sent in it
    have sends := mem_sendings.2 (sent.task stands)
    have request := List.mem_map_of_mem (f := fun s : Dispatch × TaskId => s.1.request) sends
    have mine := mem_registrations_of_orderly booked orderly (List.mem_append_left _ request)
    refine unheld mine (mem_held.2 (.inl ⟨_, List.mem_of_getElem? stands, ?_⟩))
    exact List.mem_singleton_self _

end Fetcher
end MeteredFetch
