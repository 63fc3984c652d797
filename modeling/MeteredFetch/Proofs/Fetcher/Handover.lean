import MeteredFetch.Proofs.Fetcher.Endings
import MeteredFetch.Proofs.Request.Handover

/-!
# Handover — no request is dropped in silence

As long as no attempt at a request begins while the response to another one is awaited, a request
whose attempt has ended was put into its scheduler in the same turn, or it goes no further and its
consumer was told so. The exception is a scheduler that refuses a request, which it is asked to take
in once more, for another reason than being closed.

* `Fetcher.Enlists` — a change puts a request into its scheduler, and nothing else into any;
* `Fetcher.EndedAs` — a request has ended, and its consumer was told so;
* `Fetcher.IsAccounted` — what a request ended with is what its consumer was told, and
  `Fetcher.isAccounted_of_history` says that this is so in every run;
* `Fetcher.spurns` — a turn comes to the exception;
* `Fetcher.attempt_hands_over` — where a request is when an attempt at it has ended.
-/

namespace MeteredFetch
namespace Fetcher

open Executor

variable {id other : RequestId} {f g : Fetcher}

/-! ## Accounts -/

/-- What a request ended with is what its consumer was told. -/
def IsAccounted (id : RequestId) (f : Fetcher) : Prop :=
  ∀ r, f.requests[id]? = some r → r.IsAccounted (f.about id)

/-- Nothing is to be told of a request that goes on. -/
theorem IsAccounted.eases (h : IsAccounted id f) (eases : Eases f g) : IsAccounted id g := by
  intro r found
  rw [eases.calm.about id]
  cases before : f.requests[id]? with
  | none =>
      -- it was made just now
      rcases eases.made before found with ⟨key, budget, settings, group, made⟩
      rcases (Request.isOpen_of_create made).1 with ⟨unreported, unsettled⟩
      refine ⟨fun outcome settled => ?_, fun _ reported => ?_⟩
      · cases settled.symm.trans unsettled
      · cases reported.symm.trans unreported
  | some x =>
      rcases eases.calm.each before with ⟨x', there, onward⟩
      cases found.symm.trans there
      exact onward.isAccounted (h x before)

theorem Quiet.eases (h : Quiet f g) : Eases f g := by
  refine ⟨h.calm, fun missing found => ?_⟩
  cases found.symm.trans (h.requests.none missing)

theorem Unchanged.quiet (h : Unchanged f g) : Quiet f g :=
  .of_eq h.requests h.notices

variable {c : Conclusion} {r : Request} {t : Turned}

/-- The consumer of a request knows of its end if the end of the attempt says so. -/
theorem isAccounted_of_ends (h : IsAccounted id f) (found : f.requests[other]? = some r)
    (kept : other = id → r.IsAccounted (f.about id) →
      c.request.IsAccounted (c.notice.toList ++ f.about id))
    (ends : Ends f other c t) : IsAccounted id t.shared := by
  intro x there
  by_cases same : other = id
  · subst same
    rcases ends.own found with ⟨now, about⟩
    cases there.symm.trans now
    rw [about]
    exact kept rfl (h r found)
  · rcases ends.others same with ⟨requests, about⟩
    rw [about]
    exact h x (requests ▸ there)

variable {now : Instant} {task : TaskId} {job : Job}

/-- A response is brought to a request without outcome, or it is a failure. -/
theorem timely_of_late {response : Response} {r' : Request} (found : f.requests[id]? = some r)
    (onward : r.Onward r')
    (unsettled : 0 < job.awaits id → ∃ r, f.requests[id]? = some r ∧ r.settled? = none)
    (late : r.settled? = none ∨ 0 < job.awaits id ∨ ∃ fault, response = .fault fault) :
    r'.settled? = none ∨ ∃ fault, response = .fault fault := by
  rcases late with none | flies | fault
  · exact .inl (onward.settled.trans none)
  · rcases unsettled flies with ⟨x, known, none⟩
    cases found.symm.trans known
    exact .inl (onward.settled.trans none)
  · exact .inr fault

/-- A turn never ends a request without a word to its consumer. -/
theorem isAccounted_of_turn (h : IsAccounted id f)
    (unsettled : 0 < job.awaits id → ∃ r, f.requests[id]? = some r ∧ r.settled? = none)
    (turned : f.turn now task job = .ok t) : IsAccounted id t.shared := by
  cases comes turned with
  | goesOn quiet _ _ =>
      exact h.eases quiet.eases
  | spared _ found begins ends =>
      exact isAccounted_of_ends h found
        (fun _ accounted => Request.isAccounted_of_concluded accounted begins) ends
  | brought _ quiet _ found there onward late ends =>
      refine isAccounted_of_ends (h.eases quiet.eases) there ?_ ends
      intro same accounted
      subst same
      exact Request.isAccounted_conclude accounted (timely_of_late found onward unsettled late)

variable {e e' : State} {hs : List Moment}

/-- In a run without overlapping attempts, whatever has ended was told. -/
theorem isAccounted_of_history (h : IsAccounted id e.shared) (solo : Solo id e)
    (history : History program e hs e') (apart : ∀ m ∈ hs, Moment.overlaps id m = false) :
    IsAccounted id e'.shared := by
  induction history with
  | refl =>
      exact h
  | tail before step ih =>
      have earlier := fun m member => apart m (List.mem_append_left _ member)
      have accounted := ih earlier
      rcases turn_of_step step with ⟨eases, _⟩ | ⟨number, job, t, _, next, turned, same⟩
      · exact accounted.eases eases
      · have unsettled := (solo_of_history solo before earlier).unsettled
        refine (isAccounted_of_turn accounted (fun flies => unsettled ?_) turned).eases
          same.quiet.eases
        exact Nat.lt_of_lt_of_le flies (le_total _ (task?_of_next? next))

/-! ## Places -/

/-- A change puts a request into the scheduler for its family, behind all that wait there, and
changes no scheduler besides. -/
def Enlists (id : RequestId) (f g : Fetcher) : Prop :=
  ∃ r s q, f.requests[id]? = some r ∧ r.destination = .ok s ∧ f.schedulers[s]? = some q ∧
    g.schedulers = f.schedulers.set s { q with waiting := q.waiting ++ [id] }

def EndedAs (id : RequestId) (outcome : Outcome) (f : Fetcher) : Prop :=
  ∃ r, f.requests[id]? = some r ∧ r.end? = some outcome ∧ outcome.IsTold (f.about id)

/-- A scheduler that takes requests in exists. -/
theorem scheduler_of_route {reception : Reception} (route : f.route r = .ok reception)
    (accepts : reception.refusal = none) :
    ∃ s q, r.destination = .ok s ∧ f.schedulers[s]? = some q := by
  rcases ok_of_bind route with ⟨s, destination, rest⟩
  cases found : f.schedulers[s]? with
  | none =>
      rw [found] at rest
      cases rest
      cases accepts
  | some q =>
      exact ⟨s, q, destination, found⟩

/-- An attempt that registers nothing leaves all queues alone. -/
theorem schedulers_of_ends (silent : c.registered = false) (ends : Ends f id c t) :
    t.shared.schedulers = f.schedulers := by
  rcases ends.shared with ⟨bucket, dispatchers, shared⟩
  rw [shared]
  unfold adopt
  simp [silent, setRequest]

/-- An attempt that registers its request puts it at the end of one queue. -/
theorem schedulers_of_registered {s : SchedulerId} {q : Scheduler}
    (registered : c.registered = true) (destination : c.request.destination = .ok s)
    (there : f.schedulers[s]? = some q) (ends : Ends f id c t) :
    t.shared.schedulers = f.schedulers.set s { q with waiting := q.waiting ++ [id] } := by
  rcases ends.shared with ⟨bucket, dispatchers, shared⟩
  rw [shared]
  simp only [adopt, registered, if_true, enlist, destination, modifyScheduler, setRequest]
  exact modify_eq_set there _

/-! ## Refusals -/

/-- Whether a turn asks a scheduler to take a request in that refuses it for another reason than being
closed. -/
def spurns (f : Fetcher) (task : TaskId) (id : RequestId) (job : Job) : Bool :=
  match f.brings? task job with
  | some (g, request, response) =>
      request == id && (g.requests[id]?).any fun r => r.isSpurned (g.route r) response
  | none => false

/-- Where a request is after a turn that has ended an attempt at it. -/
inductive HandsOver (id : RequestId) (f g : Fetcher) (outcome : Except FetchError Outcome) : Prop
  /-- It was put into its scheduler. -/
  | enlisted {attempt : Nat} : outcome = .ok (.retrying attempt) → Enlists id f g →
      HandsOver id f g outcome
  /-- It has ended, now or before. -/
  | ended {ending : Outcome} : g.EndedAs id ending → g.schedulers = f.schedulers →
      (outcome = .ok ending ∨ ∃ attempt, outcome = .ok (.retrying attempt)) →
      HandsOver id f g outcome

structure Drops (id : RequestId) (f g : Fetcher) (outcome : Except FetchError Outcome) : Prop where
  outcome : ∃ e, outcome = .error e ∧ e ≠ .closed
  schedulers : g.schedulers = f.schedulers
  about : g.about id = f.about id
  ended : (∃ ending, g.EndedAs id ending) ↔
    (∃ r, g.requests[id]? = some r ∧ r.status = .cancelled) ∧ f.isReported id = true

/-- A task that ends with an attempt ends with what its conclusion says. -/
theorem attempt_of_ends {result : Result} {outcome : Except FetchError Outcome}
    (ends : Ends f other c t) (next : t.next = .finish result)
    (attempt : result.attempt? = some (id, outcome)) : other = id ∧ c.outcome = outcome := by
  rcases ends.result with ⟨result', next', attempt'⟩
  cases next.symm.trans next'
  cases attempt.symm.trans attempt'
  exact ⟨rfl, rfl⟩

/-- What is placed when an attempt is concluded is handed over in the shared state. -/
theorem handsOver_of_placed (found : f.requests[id]? = some r)
    (placed : Request.Placed (f.about id) c) (ends : Ends f id c t)
    (takes : c.registered = true →
      ∃ s q, c.request.destination = .ok s ∧ r.destination = .ok s ∧ f.schedulers[s]? = some q) :
    HandsOver id f t.shared c.outcome := by
  cases placed with
  | registered outcome registered =>
      rcases takes registered with ⟨s, q, destination, destination', there⟩
      exact .enlisted outcome ⟨r, s, q, found, destination', there,
        schedulers_of_registered registered destination there ends⟩
  | ended silent ended told outcome =>
      rcases ends.own found with ⟨there, about⟩
      rw [← about] at told
      exact .ended ⟨_, there, ended, told⟩ (schedulers_of_ends silent ends) outcome

/-- A request that its scheduler has spurned is dropped. -/
theorem drops_of_spurned (found : f.requests[id]? = some r)
    (spurned : Request.Spurned r (f.about id) c) (ends : Ends f id c t) :
    Drops id f t.shared c.outcome := by
  rcases ends.own found with ⟨there, about⟩
  rw [spurned.notice, Option.toList_none, List.nil_append] at about
  have reported : f.isReported id = r.reported := by simp [isReported, found]
  refine ⟨spurned.outcome, schedulers_of_ends spurned.registered ends, about, ?_⟩
  rw [reported]
  constructor
  · rintro ⟨ending, x, known, ended, told⟩
    cases there.symm.trans known
    rw [about] at told
    rcases spurned.ended.1 ⟨ending, ended, told⟩ with ⟨cancelled, before⟩
    exact ⟨⟨_, there, cancelled⟩, before⟩
  · rintro ⟨⟨x, known, cancelled⟩, before⟩
    cases there.symm.trans known
    rcases spurned.ended.2 ⟨cancelled, before⟩ with ⟨ending, ended, told⟩
    rw [← about] at told
    exact ⟨ending, _, there, ended, told⟩

/-! ## Turns that end an attempt -/

/-- A turn that ends an attempt hands its request over, or drops it if a scheduler has spurned it. -/
theorem handsOver_of_turn {result : Result} {outcome : Except FetchError Outcome}
    (accounted : IsAccounted id f) (heard : ∀ n ∈ f.about id, f.isReported id = true)
    (unsettled : 0 < job.awaits id → ∃ r, f.requests[id]? = some r ∧ r.settled? = none)
    (known : (f.requests[id]?).isSome = true) (turned : f.turn now task job = .ok t)
    (next : t.next = .finish result) (attempt : result.attempt? = some (id, outcome)) :
    (f.spurns task id job = false → HandsOver id f t.shared outcome) ∧
      (f.spurns task id job = true → Drops id f t.shared outcome) := by
  cases comes turned with
  | goesOn _ _ quits =>
      rw [quits result id outcome next attempt] at known
      cases known
  | @spared request r c silent found begins ends =>
      rcases attempt_of_ends ends next attempt with ⟨rfl, rfl⟩
      have taken : f.spurns task request job = false := by
        unfold spurns
        rw [silent]
      refine ⟨fun _ => ?_, fun spurned => by cases taken.symm.trans spurned⟩
      refine handsOver_of_placed found (Request.placed_of_concluded (accounted r found) begins) ends
        ?_
      intro registered
      -- an attempt that ends at once registers nothing
      cases (Request.registered_of_concluded begins).symm.trans registered
  | @brought g request response r r' brings quiet schedulers found there onward late ends =>
      rcases attempt_of_ends ends next attempt with ⟨rfl, rfl⟩
      have calm := quiet.calm
      have spurned : f.spurns task request job = r'.isSpurned (g.route r') response := by
        simp [spurns, brings, there]
      have accounted' : r'.IsAccounted (g.about request) := accounted.eases quiet.eases r' there
      rw [spurned]
      refine ⟨fun taken => ?_, fun refused => ?_⟩
      · have placed := Request.placed_conclude accounted'
          (timely_of_late found onward unsettled late) taken
        have hands := handsOver_of_placed there placed ends fun registered => by
          rcases Request.reception_of_registered registered with ⟨reception, route, accepts⟩
          rcases scheduler_of_route route accepts with ⟨s, q, destination, exists'⟩
          exact ⟨s, q, (Request.asks_conclude _ response r').destination.trans destination,
            destination, exists'⟩
        -- the search has changed no scheduler
        cases hands with
        | enlisted outcome enlists =>
            rcases enlists with ⟨x, s, q, known', destination, exists', same⟩
            cases there.symm.trans known'
            rw [schedulers] at exists' same
            exact .enlisted outcome
              ⟨r, s, q, found, onward.destination.symm.trans destination, exists', same⟩
        | ended ended same outcome =>
            exact .ended ended (same.trans schedulers) outcome
      · have heard' : ∀ n ∈ g.about request, r'.reported = true := by
          intro n member
          rw [calm.about] at member
          have reported := heard n member
          rw [← calm.isReported request] at reported
          simpa [isReported, there] using reported
        have drops := drops_of_spurned there
          (Request.spurned_conclude accounted' heard' refused) ends
        have ended := drops.ended
        rw [calm.isReported request] at ended
        exact ⟨drops.outcome, drops.schedulers.trans schedulers,
          drops.about.trans (calm.about request), ended⟩

/-! ## Runs -/

/-- Where a request is when an attempt at it has ended. It was put into the scheduler for its family,
once and in this turn, or it goes no further and its consumer was told so; unless a scheduler that was
asked to take it in once more has refused it for another reason than being closed. Then it is in no
scheduler by this turn and nobody is told anything, so that it has been lost unless it is cancelled
and had been reported before. -/
theorem attempt_hands_over (new : IsNew f) {start : Instant}
    (h : History program (opening start f) hs e) (id : RequestId)
    (apart : ∀ m ∈ hs, Moment.overlaps id m = false)
    (known : (e.shared.requests[id]?).isSome = true) {number : TaskId} {job : Job} {t : Turned}
    (turn : e.next? = some (number, job)) (turned : e.shared.turn e.now number job = .ok t)
    {result : Result} {outcome : Except FetchError Outcome} (ends : t.next = .finish result)
    (attempt : result.attempt? = some (id, outcome)) :
    (e.shared.spurns number id job = false → HandsOver id e.shared t.shared outcome) ∧
      (e.shared.spurns number id job = true → Drops id e.shared t.shared outcome) := by
  have fresh : IsAccounted id (opening start f).shared := by
    intro r found
    cases new <;> cases found
  have solo := solo_opening f id start
  have accounted := isAccounted_of_history fresh solo h apart
  refine handsOver_of_turn accounted ?_ (fun flies => ?_) known turned ends attempt
  · -- whoever is told of a request is told after it was noted
    intro n member
    rcases accounts_of_history (accounts_opening new id start) h with ⟨count, marked⟩
    have told : 0 < e.shared.told id := by
      rw [← length_about]
      exact List.length_pos_of_mem member
    cases noted : e.shared.isReported id with
    | true =>
        rfl
    | false =>
        rw [noted, Bool.toNat_false, Nat.zero_add] at count
        rw [marked (count ▸ told)] at noted
        cases noted
  · exact (solo_of_history solo h apart).unsettled
      (Nat.lt_of_lt_of_le flies (le_total _ (task?_of_next? turn)))

def returned : List Moment × State :=
  follow program
    (opening 0 (ofSchedulers [⟨.bulk, {}, .ofList [(.content, 0)]⟩] [] [{}]))
    [.act (.create 0 zeroKey 3 {}) (),
      .act (.script zeroKey (.fault (.classified .transferFailed))) (), .act (.send 0) ()]

theorem returned_attempt_hands_over :
    (∀ m ∈ returned.1, Moment.overlaps 0 m = false) ∧
      (returned.2.shared.requests[0]?).isSome = true ∧
      returned.2.next? = some (0, .send 0 .fresh) ∧
      ∃ t, returned.2.shared.turn returned.2.now 0 (.send 0 .fresh) = .ok t ∧
        t.next = .finish (.attempted 0 (.ok (.retrying 1))) ∧
        HandsOver 0 returned.2.shared t.shared (.ok (.retrying 1)) := by
  have apart : ∀ m ∈ returned.1, Moment.overlaps 0 m = false := by decide
  have known : (returned.2.shared.requests[0]?).isSome = true := rfl
  have next : returned.2.next? = some (0, .send 0 .fresh) := rfl
  obtain ⟨t, turned, ends⟩ : ∃ t, returned.2.shared.turn returned.2.now 0 (.send 0 .fresh) = .ok t ∧
      t.next = .finish (.attempted 0 (.ok (.retrying 1))) := ⟨_, rfl, rfl⟩
  refine ⟨apart, known, next, t, turned, ends, ?_⟩
  exact (attempt_hands_over (.schedulers _ _ _) (history_follow _ _) 0 apart known next turned ends
    rfl).1 (by decide)

def rejected : List Moment × State :=
  follow program
    (opening 0 (ofSchedulers [⟨.bulk, {}, .ofList [(.content, 0)]⟩] [] [{ adjustable := true }]))
    [.act (.create 0 zeroKey 3 {}) (), .act (.adjust 0 ⟨false, some .invalidCapacity⟩) (),
      .act (.script zeroKey (.fault (.classified .transferFailed))) (), .act (.send 0) ()]

/-- An attempt ends, its request is in no scheduler and has not ended. -/
theorem not_attempt_hands_over :
    ¬ ∀ (start : Instant) (f : Fetcher) (hs : List Moment) (e : State) (id : RequestId)
      (number : TaskId) (job : Job) (t : Turned) (result : Result)
      (outcome : Except FetchError Outcome), IsNew f → History program (opening start f) hs e →
      (∀ m ∈ hs, Moment.overlaps id m = false) → (e.shared.requests[id]?).isSome = true →
      e.next? = some (number, job) → e.shared.turn e.now number job = .ok t →
      t.next = .finish result → result.attempt? = some (id, outcome) →
      (∃ attempt, outcome = .ok (.retrying attempt) ∧ Enlists id e.shared t.shared) ∨
        ∃ ending, t.shared.EndedAs id ending := by
  intro hands
  obtain ⟨t, turned, ends, status⟩ : ∃ t,
      rejected.2.shared.turn rejected.2.now 0 (.send 0 .fresh) = .ok t ∧
        t.next = .finish (.attempted 0 (.error .invalidCapacity)) ∧
        (t.shared.requests[0]?).map Request.end? = some none := ⟨_, rfl, rfl, rfl⟩
  rcases hands 0 _ rejected.1 rejected.2 0 0 _ t _ _ (.schedulers _ _ _) (history_follow _ _)
    (by decide) rfl rfl turned ends rfl with ⟨attempt, same, _⟩ | ⟨ending, r, found, ended, _⟩
  · cases same
  · rw [found, Option.map_some, ended] at status
    cases status

end Fetcher
end MeteredFetch
