import MeteredFetch.Proofs.Fetcher.Rest
import MeteredFetch.Proofs.Request.Registration

/-!
# Endings — the turns that end an attempt

A turn ends an attempt at once, since nothing is to be looked up, or it brings a response, which may
be there at once, may have been awaited, or may be the failure that a retry is for. Any other turn
leaves all requests on their way.

* `Fetcher.brings?` — the response that a turn brings, and the state in which it arrives;
* `Fetcher.Quiet` — requests go on, and nobody is told anything;
* `Fetcher.Ends` — a turn has ended an attempt with a conclusion;
* `Fetcher.Comes` — what a turn comes to, as a relation, and `Fetcher.comes` says that every turn
  comes to that;
* `Fetcher.turn_of_step` — a move that is no turn leaves all requests on their way.
-/

namespace MeteredFetch
namespace Fetcher

open Executor

/-! ## Responses -/

/-- The response that a turn of an attempt brings, and the state in which it arrives. -/
def answer? (f : Fetcher) (task : TaskId) (id : RequestId) :
    Sending → Option (Fetcher × Response)
  | .awaiting response => some (f, response)
  | .fresh =>
      match (f.requests[id]?).map Request.beginSend with
      | some (.lookup r) =>
          let (g, response) := (f.setRequest id r).search task id r
          if g.lookup.gated || decide (0 < g.lookup.latency) then none else some (g, response)
      | _ => none

/-- The response that a turn brings, the request it is for, and the state in which it arrives. A
retry brings the failure that it is for. -/
def brings? (f : Fetcher) (task : TaskId) (job : Job) : Option (Fetcher × RequestId × Response) :=
  match job with
  | .retry id failure => some (f, id, .fault (.classified failure))
  | job => job.attempt?.bind fun (id, stage) => (f.answer? task id stage).map fun (g, response) =>
      (g, id, response)

/-! ## What turns come to -/

/-- Requests go on, each with neither end nor retry. None is made, and nobody is told anything. -/
structure Quiet (f g : Fetcher) : Prop where
  requests : Onwards f.requests g.requests
  notices : g.notices = f.notices

/-- The end of a turn is that of an attempt with a conclusion, in the state `g`. -/
structure Ends (g : Fetcher) (id : RequestId) (c : Conclusion) (t : Turned) : Prop where
  shared : ∃ bucket dispatchers, t.shared = { (g.adopt id c).1 with bucket, dispatchers }
  result : ∃ result, t.next = .finish result ∧ result.attempt? = some (id, c.outcome)

inductive Comes (f : Fetcher) (task : TaskId) (job : Job) (t : Turned) : Prop
  /-- No attempt at a request that exists ends. -/
  | goesOn : Quiet f t.shared →
      (∀ g id response, f.brings? task job = some (g, id, response) → g.requests[id]? = none) →
      (∀ result id outcome, t.next = .finish result → result.attempt? = some (id, outcome) →
        f.requests[id]? = none) → Comes f task job t
  /-- Nothing is to be looked up. -/
  | spared {id : RequestId} {r : Request} {c : Conclusion} : f.brings? task job = none →
      f.requests[id]? = some r → r.beginSend = .concluded c → Ends f id c t → Comes f task job t
  /-- A response arrives. -/
  | brought {g : Fetcher} {id : RequestId} {response : Response} {r r' : Request} :
      f.brings? task job = some (g, id, response) → Quiet f g → g.schedulers = f.schedulers →
      f.requests[id]? = some r → g.requests[id]? = some r' → r.Onward r' →
      (r.settled? = none ∨ 0 < job.awaits id ∨ ∃ fault, response = .fault fault) →
      Ends g id (r'.conclude (g.route r') response) t → Comes f task job t

variable {f g g' : Fetcher} {now : Instant} {task : TaskId} {id : RequestId} {stage : Sending}
  {job : Job} {t : Turned}

namespace Quiet

theorem of_eq (requests : g.requests = f.requests) (notices : g.notices = f.notices) :
    Quiet f g := by
  refine ⟨?_, notices⟩
  rw [requests]
  exact .refl f.requests

theorem refl (f : Fetcher) : Quiet f f :=
  of_eq rfl rfl

theorem trans (h : Quiet f g) (h' : Quiet g g') : Quiet f g' :=
  ⟨h.requests.trans h'.requests, h'.notices.trans h.notices⟩

theorem calm (h : Quiet f g) : Calm f g :=
  .of_onwards h.requests h.notices

/-- To begin a search is to take one request on its way. -/
theorem of_searched {r r' : Request} {response : Response} (found : f.requests[id]? = some r)
    (begins : r.beginSend = .lookup r') (after : Searched f task id r' response g) :
    Quiet f g := by
  rcases Request.onward_of_lookup begins with ⟨onward, _⟩
  refine ⟨(Onwards.set found onward).trans after.requests, ?_⟩
  rw [after.same]

/-- A dispatcher moves requests about and does nothing to them. -/
theorem of_serves {d : Nat} {chosen : Option Chosen} (h : Serves f d chosen t) :
    Quiet f t.shared := by
  cases h <;> exact .of_eq rfl rfl

end Quiet

/-- What a task brings is the response to the attempt that it makes. -/
theorem brings?_of_attempt (attempt : job.attempt? = some (id, stage)) :
    f.brings? task job = (f.answer? task id stage).map fun (g, response) => (g, id, response) := by
  cases job with
  | send request stage' =>
      cases attempt
      rfl
  | dispatch d x stage' =>
      cases attempt
      rfl
  | _ =>
      cases attempt

theorem awaits_of_attempt {response : Response}
    (attempt : job.attempt? = some (id, .awaiting response)) : 0 < job.awaits id := by
  simp [Job.awaits, attempt, Sending.flights]

/-- The task of an attempt ends when the attempt does. -/
theorem ends_of_finish {c : Conclusion} (attempt : job.attempt? = some (id, stage))
    (turned : f.turn now task job = .ok t) (sent : f.send now task id stage = g.finish id c) :
    Ends g id c t := by
  rcases turn_of_attempt attempt turned with ⟨bucket, dispatchers, _, toResult, rfl, results⟩
  rw [sent]
  exact ⟨⟨bucket, dispatchers, rfl⟩, toResult c.outcome, rfl, results c.outcome⟩

/-- An attempt at a request that does not exist comes to nothing. -/
theorem comes_of_missing (attempt : job.attempt? = some (id, stage))
    (turned : f.turn now task job = .ok t) (missing : f.requests[id]? = none) :
    Comes f task job t := by
  have sent : f.send now task id stage = (f, [], .finish (.error .closed)) := by
    unfold send
    rw [missing]
  rcases turn_of_attempt attempt turned with ⟨bucket, dispatchers, _, toResult, rfl, results⟩
  rw [sent]
  refine .goesOn (.of_eq rfl rfl) ?_ ?_
  · intro g id' response carried
    rw [brings?_of_attempt attempt] at carried
    cases stage with
    | fresh =>
        simp [answer?, missing] at carried
    | awaiting response' =>
        simp only [answer?, Option.map_some, Option.some.injEq, Prod.mk.injEq] at carried
        rcases carried with ⟨rfl, rfl, rfl⟩
        exact missing
  · intro result id' outcome ended about
    cases ended
    cases (results _).symm.trans about
    exact missing

/-- A turn after which the response is awaited leaves all requests on their way. -/
theorem comes_of_waits {stage' : Sending} (attempt : job.attempt? = some (id, stage))
    (turned : f.turn now task job = .ok t) (quiet : Quiet f (f.send now task id stage).1)
    (silent : f.answer? task id stage = none)
    (waits : standing (f.send now task id stage).2.2 = some stage') : Comes f task job t := by
  rcases turn_of_attempt attempt turned with ⟨bucket, dispatchers, toJob, toResult, rfl, _⟩
  refine .goesOn (quiet.trans (.of_eq rfl rfl)) ?_ ?_
  · intro g id' response carried
    rw [brings?_of_attempt attempt, silent] at carried
    cases carried
  · intro result id' outcome ended
    have stands := (standing_map toJob toResult (f.send now task id stage).2.2).symm
    rw [waits] at stands
    cases stands.trans (congrArg standing ended)

/-- The turn in which an attempt searches. -/
theorem comes_of_lookup {r r' : Request} (attempt : job.attempt? = some (id, .fresh))
    (turned : f.turn now task job = .ok t) (found : f.requests[id]? = some r)
    (begins : r.beginSend = .lookup r') : Comes f task job t := by
  have after := searched f task id r'
  have sent : f.send now task id .fresh =
      ((f.setRequest id r').search task id r').1.await now task id
        ((f.setRequest id r').search task id r').2 := by
    unfold send
    rw [found]
    simp only [begins]
  have answers : f.answer? task id .fresh =
      if ((f.setRequest id r').search task id r').1.lookup.gated ||
        decide (0 < ((f.setRequest id r').search task id r').1.lookup.latency) then none
      else some ((f.setRequest id r').search task id r') := by
    simp only [answer?, found, Option.map_some, begins]
  generalize (f.setRequest id r').search task id r' = result at after sent answers
  rcases result with ⟨g, response⟩
  simp only at after sent answers
  have quiet := Quiet.of_searched found begins after
  have kept : ∀ held, Quiet f { g with lookup := { g.lookup with held } } :=
    fun held => quiet.trans (.of_eq rfl rfl)
  unfold await at sent
  by_cases gated : g.lookup.gated = true
  · rw [if_pos gated] at sent
    rw [gated, Bool.true_or, if_pos rfl] at answers
    exact comes_of_waits attempt turned (by rw [sent]; exact kept _) answers (by rw [sent]; rfl)
  · rw [if_neg gated] at sent
    by_cases slow : 0 < g.lookup.latency
    · rw [if_pos slow] at sent
      rw [decide_eq_true slow, Bool.or_true, if_pos rfl] at answers
      exact comes_of_waits attempt turned (by rw [sent]; exact quiet) answers (by rw [sent]; rfl)
    · -- the response is there at once
      rcases Request.onward_of_lookup begins with ⟨_, unsettled, _⟩
      rcases quiet.requests.each found with ⟨r'', there, further⟩
      rw [if_neg slow, there] at sent
      rw [if_neg (by simp [gated, slow])] at answers
      have brings : f.brings? task job = some (g, id, response) := by
        rw [brings?_of_attempt attempt, answers]
        rfl
      have same : g.schedulers = f.schedulers := by rw [after.same]
      exact .brought brings quiet same found there further (.inl unsettled)
        (ends_of_finish attempt turned sent)

/-- The turn of an attempt, whoever makes it. -/
theorem comes_of_attempt (attempt : job.attempt? = some (id, stage))
    (turned : f.turn now task job = .ok t) : Comes f task job t := by
  cases found : f.requests[id]? with
  | none =>
      exact comes_of_missing attempt turned found
  | some r =>
      have brings : f.brings? task job =
          (f.answer? task id stage).map fun (g, response) => (g, id, response) :=
        brings?_of_attempt attempt
      cases stage with
      | awaiting response =>
          have sent : f.send now task id (.awaiting response) = f.arrive id r response := by
            unfold send
            rw [found]
          exact .brought brings (.refl f) rfl found found (.refl r)
            (.inr (.inl (awaits_of_attempt attempt))) (ends_of_finish attempt turned sent)
      | fresh =>
          cases begins : r.beginSend with
          | lookup r' =>
              exact comes_of_lookup attempt turned found begins
          | concluded c =>
              have sent : f.send now task id .fresh = f.finish id c := by
                unfold send
                rw [found]
                simp only [begins]
              have silent : f.answer? task id .fresh = none := by
                simp [answer?, found, begins]
              exact .spared (by rw [brings, silent]; rfl) found begins
                (ends_of_finish attempt turned sent)

/-- A retry brings the failure that it is for. -/
theorem comes_of_retry {failure : Failure} (turned : f.turn now task (.retry id failure) = .ok t) :
    Comes f task (.retry id failure) t := by
  simp only [turn] at turned
  generalize sent : f.retry id failure = result at turned
  rcases result with ⟨g, effects, outcome⟩
  cases turned
  unfold Fetcher.retry at sent
  cases found : f.requests[id]? with
  | none =>
      rw [found] at sent
      cases sent
      refine .goesOn (.refl f) ?_ ?_
      · intro g id' response carried
        cases carried
        exact found
      · intro result id' outcome next about
        cases next
        cases about
        exact found
  | some r =>
      rw [found] at sent
      cases sent
      exact .brought rfl (.refl f) rfl found found (.refl r) (.inr (.inr ⟨_, rfl⟩))
        ⟨⟨_, _, rfl⟩, _, rfl, rfl⟩

/-- A dispatcher that stops ends no attempt. -/
theorem attempt?_of_serve {d : Nat} {chosen : Option Chosen} {result : Result}
    (went : f.serve now task d chosen = .ok t) (ended : t.next = .finish result) :
    result.attempt? = none := by
  have queue : ∀ {f : Fetcher} {x : Dispatcher} {queue : Scheduler} {paid : List Dispatch},
      f.serveQueue now task d x queue paid = .ok t → result.attempt? = none := by
    intro f x queue paid went
    rcases ok_of_bind went with ⟨served, _, rest⟩
    cases choice : served.chosen with
    | some chosen =>
        simp only [choice] at rest
        cases rest
        cases ended
    | none =>
        simp only [choice] at rest
        split at rest
        · cases rest
          cases ended
          rfl
        · cases rest
          cases ended
  unfold serve at went
  split at went
  · exact queue went
  · rcases ok_of_bind went with ⟨⟨bucket, caller⟩, _, rest⟩
    cases caller with
    | some caller =>
        cases rest
        cases ended
    | none =>
        exact queue rest
  · cases went
    cases ended
    rfl

/-- A turn that makes no attempt leaves all requests on their way. -/
theorem comes_of_quiet (quiet : Quiet f t.shared) (silent : f.brings? task job = none)
    (none : ∀ result, t.next = .finish result → result.attempt? = none) : Comes f task job t := by
  refine .goesOn quiet ?_ ?_
  · intro g id response found
    rw [silent] at found
    cases found
  · intro result id outcome ended about
    rw [none result ended] at about
    cases about

/-- Every turn ends an attempt or leaves all requests on their way. -/
theorem comes (turned : f.turn now task job = .ok t) : Comes f task job t := by
  cases turns turned with
  | granted =>
      refine comes_of_quiet (.of_eq rfl rfl) rfl ?_
      intro result ended
      cases ended
      rfl
  | waits =>
      refine comes_of_quiet (.of_eq rfl rfl) rfl ?_
      intro result ended
      cases ended
  | attempts attempt =>
      exact comes_of_attempt attempt turned
  | retries =>
      exact comes_of_retry turned
  | serves served =>
      exact comes_of_quiet (.of_serves served) rfl fun result => attempt?_of_serve turned

/-- What the end of an attempt leaves of its request, and of the others. -/
theorem Ends.own {r : Request} {c : Conclusion} (ends : Ends f id c t)
    (found : f.requests[id]? = some r) : t.shared.requests[id]? = some c.request ∧
      t.shared.about id = c.notice.toList ++ f.about id := by
  rcases ends.shared with ⟨bucket, dispatchers, shared⟩
  have about := about_adopt f id c id
  rw [if_pos rfl] at about
  rcases adopt_same f id c with ⟨schedulers, same⟩
  have inside : id < f.requests.length := (List.getElem?_eq_some_iff.1 found).1
  refine ⟨?_, ?_⟩
  · rw [shared, same]
    exact List.getElem?_set_self inside
  · rw [shared]
    exact about

/-- The end of an attempt is of no concern to other requests and their consumers. -/
theorem Ends.others {other : RequestId} {c : Conclusion} (ends : Ends f other c t)
    (ne : other ≠ id) : t.shared.requests[id]? = f.requests[id]? ∧
      t.shared.about id = f.about id := by
  rcases ends.shared with ⟨bucket, dispatchers, shared⟩
  have about := about_adopt f other c id
  rw [if_neg ne, List.nil_append] at about
  rcases adopt_same f other c with ⟨schedulers, same⟩
  refine ⟨?_, ?_⟩
  · rw [shared, same]
    exact List.getElem?_set_ne ne
  · rw [shared]
    exact about

/-! ## Moves -/

theorem Calm.trans (h : Calm f g) (h' : Calm g g') : Calm f g' := by
  refine ⟨h'.notices.trans h.notices, ?_, ?_⟩
  · intro other r found
    rcases h.each found with ⟨r', there, onward⟩
    rcases h'.each there with ⟨r'', there', onward'⟩
    exact ⟨r'', there', onward.trans onward'⟩
  · intro other r missing found
    cases between : g.requests[other]? with
    | none =>
        exact h'.made between found
    | some r' =>
        rcases h'.each between with ⟨r'', there, onward⟩
        cases found.symm.trans there
        exact onward.reported.trans (h.made missing between)

/-- The only requests that are made are made by the action for it. -/
theorem made_of_perform {action : Action} {r : Reacted} {x : Request}
    (performed : f.perform now task action = .ok r) (missing : f.requests[id]? = none)
    (found : r.shared.requests[id]? = some x) :
    ∃ key budget settings group, Request.create key budget settings group = .ok x := by
  have none : Onwards f.requests r.shared.requests →
      ∃ key budget settings group, Request.create key budget settings group = .ok x := by
    intro onwards
    cases found.symm.trans (onwards.none missing)
  cases does performed with
  | @created _ key budget settings g y _ made =>
      rw [List.getElem?_append_right (List.getElem?_eq_none_iff.1 missing)] at found
      cases List.mem_singleton.1 (List.mem_of_getElem? found)
      exact ⟨key, budget, settings, g, made⟩
  | @scheduled other =>
      exact none (onwards_schedule f other)
  | @cancelled other _ =>
      exact none (cancelRequest_onwards f other)
  | _ =>
      exact none (.refl f.requests)

structure Eases (f g : Fetcher) : Prop where
  calm : Calm f g
  made : ∀ {id : RequestId} {r : Request}, f.requests[id]? = none → g.requests[id]? = some r →
    ∃ key budget settings group, Request.create key budget settings group = .ok r

theorem Eases.refl (f : Fetcher) : Eases f f :=
  ⟨.refl f, fun missing found => by cases found.symm.trans missing⟩

/-- A move is the turn of a task, or it leaves all requests on their way. -/
theorem turn_of_step {e e' : State} {l : Label Action Answer} (step : Step program e l e') :
    (Eases e.shared e'.shared ∧ (l = .turn → e.next? = none)) ∨
      ∃ number job t, l = .turn ∧ e.next? = some (number, job) ∧
        e.shared.turn e.now number job = .ok t ∧ Unchanged t.shared e'.shared := by
  cases step with
  | act acted =>
      rcases act_cases acted with ⟨r, performed, _, rfl⟩
      have same := unchanged_carryOutAll r.effects ({ e with shared := r.shared } : State)
      refine .inl ⟨⟨(performs performed).calm.trans (.of_eq same.requests same.notices), ?_⟩, nofun⟩
      intro id x missing found
      rw [same.requests] at found
      exact made_of_perform performed missing found
  | turn turned =>
      rcases turn_cases turned with ⟨nobody, alike⟩ |
        ⟨number, job, t, middle, next, went, alike, rfl⟩
      · rw [alike.shared]
        exact .inl ⟨.refl e.shared, fun _ => nobody⟩
      · have same := unchanged_carryOutAll t.effects middle
        rw [alike.shared] at same
        exact .inr ⟨number, job, t, rfl, next, went, same⟩
  | clock time =>
      rw [(setClock_alike e time).shared]
      exact .inl ⟨.refl e.shared, nofun⟩
  | kill task =>
      have same : Unchanged e.shared (e.kill program task).shared :=
        unchanged_carryOutAll [.drop task] e
      refine .inl ⟨⟨.of_eq same.requests same.notices, ?_⟩, nofun⟩
      intro id x missing found
      rw [same.requests, missing] at found
      cases found

end Fetcher
end MeteredFetch
