import MeteredFetch.Proofs.Fetcher.Handover
import MeteredFetch.Proofs.Fetcher.Rounds
import MeteredFetch.Proofs.Request.Scheduling

/-!
# Scheduling — a request is registered once, or nothing has happened

A request is to be registered by an action, or by a turn in which an attempt at it has failed. It comes
to the scheduler that the family of its key was bound to last, and to no other. If this scheduler does
not take it in, the request is as it was, unless the scheduler itself has cancelled it.

* `Fetcher.IsCandid` — no request has an outcome that was not reported, and
  `Fetcher.isCandid_of_history` says that this is so in every run;
* `Fetcher.Registers` — what a call leaves behind that is to register a request, and
  `Fetcher.registers_entered` says that every call does;
* `Fetcher.registers_or_restores` — such calls in every run, from outside and within attempts.
-/

namespace MeteredFetch

def Registration.answer : Registration → Fetcher.Answer
  | .ended | .accepted => .accepted
  | .refused error => .refused error

namespace Fetcher

open Executor

variable {id : RequestId} {f g : Fetcher} {r r' : Request} {registration : Registration}

/-! ## Candid requests -/

/-- No request has an outcome that was not reported, and some scheduler serves the key of each. -/
def IsCandid (f : Fetcher) : Prop :=
  ∀ (id : RequestId) (r : Request), f.requests[id]? = some r → r.IsCandid

/-- Requests that go on hide nothing from their consumers. -/
theorem IsCandid.eases (h : IsCandid f) (eases : Eases f g) : IsCandid g := by
  intro id r found
  cases before : f.requests[id]? with
  | none =>
      rcases eases.made before found with ⟨key, budget, settings, group, made⟩
      exact Request.isCandid_of_create made
  | some x =>
      rcases eases.calm.each before with ⟨x', there, onward⟩
      cases found.symm.trans there
      exact onward.isCandid (h id x before)

variable {c : Conclusion} {t : Turned} {now : Instant} {task : TaskId} {job : Job}

theorem isCandid_of_ends (h : IsCandid f) (found : f.requests[id]? = some r)
    (candid : c.request.IsCandid) (ends : Ends f id c t) : IsCandid t.shared := by
  intro other x there
  by_cases same : id = other
  · subst same
    cases there.symm.trans (ends.own found).1
    exact candid
  · rw [(ends.others same).1] at there
    exact h other x there

/-- No turn ends a request without a report. -/
theorem isCandid_of_turn (h : IsCandid f) (turned : f.turn now task job = .ok t) :
    IsCandid t.shared := by
  cases comes turned with
  | goesOn quiet _ _ =>
      exact h.eases quiet.eases
  | spared _ found begins ends =>
      exact isCandid_of_ends h found (Request.isCandid_of_concluded (h _ _ found) begins) ends
  | brought _ quiet _ found there onward _ ends =>
      exact isCandid_of_ends (h.eases quiet.eases) there
        (Request.isCandid_conclude (onward.isCandid (h _ _ found)) _ _) ends

variable {e e' : State} {hs : List Moment}

/-- No outcome is hidden in any state of a run. -/
theorem isCandid_of_history (h : IsCandid e.shared) (history : History program e hs e') :
    IsCandid e'.shared := by
  induction history with
  | refl =>
      exact h
  | tail _ step ih =>
      rcases turn_of_step step with ⟨eases, _⟩ | ⟨number, job, t, _, _, turned, same⟩
      · exact ih.eases eases
      · exact (isCandid_of_turn ih turned).eases same.quiet.eases

theorem isCandid_opening (new : IsNew f) (start : Instant) : IsCandid (opening start f).shared := by
  intro id r found
  cases new <;> cases found

/-! ## Calls -/

/-- What a call leaves behind that is to register a request. -/
inductive Registers (id : RequestId) (r : Request) (f : Fetcher) : Fetcher → Registration → Prop
  /-- The request has ended, which was reported, and nothing changes. -/
  | ended : r.status.isTerminal = true → r.reported = true → Registers id r f f .ended
  /-- It joins the end of the queue of the scheduler that its family was bound to last. -/
  | accepted {s : SchedulerId} {q : Scheduler} :
      (∀ pairs, r.group.bindings = .ofList pairs → Bindings.IsLast pairs r.key.family s) →
      f.schedulers[s]? = some q → q.reception.refusal = none →
      Registers id r f
        { f with
          requests := f.requests.set id (r.enlisted q.reception.cancels)
          schedulers := f.schedulers.set s { q with waiting := q.waiting ++ [id] } } .accepted
  /-- It is put into no scheduler. -/
  | refused {reception : Reception} {error : FetchError} :
      f.route r = .ok reception → reception.refusal = some error →
      Registers id r f { f with requests := f.requests.set id (r.rejected reception.cancels) }
        (.refused error)

/-- The shared state once a request was to be registered and became `r`. -/
def entered (f : Fetcher) (id : RequestId) (r : Request) : Registration → Fetcher
  | .accepted => ((f.setRequest id r).enlist id r).1
  | .ended | .refused _ => f.setRequest id r

theorem setRequest_same (found : f.requests[id]? = some r) : f.setRequest id r = f := by
  rcases List.getElem?_eq_some_iff.1 found with ⟨inside, rfl⟩
  unfold setRequest
  rw [List.set_getElem_self inside]

/-- A request that is accepted goes to the end of its queue, and nothing else changes. -/
theorem entered_accepted {s : SchedulerId} {q : Scheduler} (destination : r.destination = .ok s)
    (there : f.schedulers[s]? = some q) :
    f.entered id r .accepted =
      { f with
        requests := f.requests.set id r
        schedulers := f.schedulers.set s { q with waiting := q.waiting ++ [id] } } := by
  have same : f.schedulers.modify s (·.push id) =
      f.schedulers.set s { q with waiting := q.waiting ++ [id] } := modify_eq_set there _
  simp only [entered, enlist, destination, modifyScheduler, setRequest, same]

/-- What the shared state becomes when a request is to be registered. -/
theorem registers_entered (found : f.requests[id]? = some r) (candid : r.IsCandid)
    (scheduled : r.schedule (f.route r) = (r', registration)) :
    Registers id r f (f.entered id r' registration) registration := by
  have enters := Request.enters candid (f.route r)
  rw [scheduled] at enters
  rcases candid.bound with ⟨s, destination⟩
  generalize routed : f.route r = route at enters
  cases enters with
  | unbound =>
      -- no request is made without a scheduler for its key
      cases (route_of_destination destination).symm.trans routed
  | ended terminal reported =>
      have same : f.entered id r .ended = f := setRequest_same found
      rw [same]
      exact .ended terminal reported
  | @accepted reception accepts =>
      cases there : f.schedulers[s]? with
      | none =>
          -- a scheduler that does not exist takes nothing in
          rw [route_of_destination destination, there] at routed
          cases routed
          cases accepts
      | some q =>
          rw [route_of_destination destination, there, Option.map_some, Option.getD_some] at routed
          cases routed
          rw [entered_accepted (r := r.enlisted q.reception.cancels) destination there]
          exact .accepted (fun pairs => Request.isLast_of_destination destination) there accepts
  | refused refuses =>
      exact .refused routed refuses

/-! ## Calls from outside -/

theorem kept_of_known (known : f.request? id = some r) :
    f.forgotten = false ∧ f.requests[id]? = some r := by
  unfold request? at known
  split at known
  · cases known
  · rename_i kept
    exact ⟨by simpa using kept, known⟩

/-- A call for a request that is known carries over what becomes of the registration. -/
theorem schedule_of_known (known : f.request? id = some r)
    (scheduled : r.schedule (f.route r) = (r', registration)) :
    (f.schedule id).shared = f.entered id r' registration ∧
      (f.schedule id).answer = registration.answer ∧
      (registration ≠ .accepted → (f.schedule id).effects = []) := by
  unfold schedule
  simp only [known, scheduled]
  cases registration with
  | accepted =>
      exact ⟨rfl, rfl, fun other => absurd rfl other⟩
  | _ =>
      exact ⟨rfl, rfl, fun _ => rfl⟩

theorem forgotten_entered (f : Fetcher) (id : RequestId) (r : Request) (registration : Registration) :
    (f.entered id r registration).forgotten = f.forgotten := by
  cases registration with
  | accepted =>
      rcases enlist_same (f.setRequest id r) id r with ⟨schedulers, same⟩
      unfold entered
      rw [same]
      rfl
  | _ =>
      rfl

/-- As long as nothing was let go, waking tasks changes only who is ready. -/
theorem alike_of_waking {effects : Effects} (waking : Waking effects) (kept : e.shared.forgotten = false) :
    Alike e (e.carryOutAll program effects) := by
  have alike := carryOutAll_alike program waking.gentle e
  rw [waking.spawned_eq_nil, List.map_nil, List.append_nil] at alike
  have swept : (program.sweep e.tasks e.shared).1 = e.shared := by
    simp [program, Fetcher.sweep, kept]
  rw [swept] at alike
  exact alike

/-- The action that schedules a request registers it or restores everything. -/
theorem registers_of_act (candid : IsCandid e.shared) (known : e.shared.request? id = some r) :
    ∃ e' registration, e.act program (.schedule id) = .ok (e', registration.answer) ∧
      Registers id r e.shared e'.shared registration ∧ Alike { e with shared := e'.shared } e' ∧
      (registration ≠ .accepted → e' = { e with shared := e'.shared }) := by
  rcases kept_of_known known with ⟨kept, found⟩
  generalize scheduled : r.schedule (e.shared.route r) = result
  rcases result with ⟨r', registration⟩
  rcases schedule_of_known known scheduled with ⟨shared, answer, effects⟩
  have waking := waking_schedule e.shared id
  let middle : State := { e with shared := (e.shared.schedule id).shared }
  have kept' : middle.shared.forgotten = false := by
    change (e.shared.schedule id).shared.forgotten = false
    rw [shared, forgotten_entered, kept]
  have alike := alike_of_waking waking kept'
  refine ⟨middle.carryOutAll program (e.shared.schedule id).effects, registration, ?_, ?_, ?_, ?_⟩
  · rw [← answer]
    rfl
  · rw [alike.shared]
    change Registers id r e.shared (e.shared.schedule id).shared registration
    rw [shared]
    exact registers_entered found (candid id r found) scheduled
  · exact ⟨alike.now, rfl, alike.tasks, alike.finished⟩
  · intro other
    rw [effects other, Executor.carryOutAll, List.foldl_nil, sweep_of_kept kept']

/-! ## Calls within attempts -/

theorem entered_setRequest (f : Fetcher) (id : RequestId) (r r' : Request)
    (registration : Registration) :
    (f.setRequest id r).entered id r' registration = f.entered id r' registration := by
  have last : (f.setRequest id r).setRequest id r' = f.setRequest id r' := by
    simp [setRequest]
  cases registration with
  | accepted =>
      simp only [entered, last]
  | _ =>
      exact last

/-- An attempt that has asked for a registration leaves what the call has left, except that the request
fails if the scheduler is closed. -/
theorem entered_of_ends (ends : Ends f id (r.enter registration) t) :
    t.shared.schedulers = (f.entered id r registration).schedulers ∧
      (registration ≠ .refused .closed →
        t.shared.requests = (f.entered id r registration).requests) := by
  rcases ends.shared with ⟨bucket, dispatchers, shared⟩
  rw [shared]
  cases registration with
  | accepted =>
      cases destination : r.destination <;>
        simp [adopt, entered, enlist, Request.enter, Request.keep, setRequest, modifyScheduler,
          destination]
  | ended =>
      exact ⟨rfl, fun _ => rfl⟩
  | refused error =>
      by_cases closed : error = .closed
      · subst closed
        exact ⟨rfl, fun other => absurd rfl other⟩
      · rw [Request.enter_refused closed]
        exact ⟨rfl, fun _ => rfl⟩

/-- A turn that asks a scheduler to take a request in once more. -/
theorem registers_of_turn {fault : Fault} (candid : IsCandid f) (turned : f.turn now task job = .ok t)
    (brings : f.brings? task job = some (g, id, .fault fault)) (found : g.requests[id]? = some r)
    (asks : r.registration? (g.route r) fault.failure = some registration) :
    g.schedulers = f.schedulers ∧
      ∃ g', Registers id r.counted (g.setRequest id r.counted) g' registration ∧
        t.shared.schedulers = g'.schedulers ∧
        (registration ≠ .refused .closed → t.shared.requests = g'.requests) := by
  cases comes turned with
  | goesOn _ none _ =>
      cases found.symm.trans (none g id _ brings)
  | spared silent _ _ _ =>
      cases brings.symm.trans silent
  | @brought g₁ id₁ response r₁ r₁' brings' quiet schedulers known there onward _ ends =>
      cases brings.symm.trans brings'
      cases found.symm.trans there
      refine ⟨schedulers, ?_⟩
      have candid' : r.IsCandid := onward.isCandid (candid id r₁ known)
      have came := Request.retried (g.route r) fault.failure r
      change Ends g id (r.retry (g.route r) fault.failure) t at ends
      generalize r.retry (g.route r) fault.failure = c at came ends
      cases came with
      | kept _ none =>
          cases asks.symm.trans none
      | stopped _ _ none =>
          cases asks.symm.trans none
      | exhausted _ _ none =>
          cases asks.symm.trans none
      | @asked r' registration' _ _ asks' scheduled _ =>
          cases asks.symm.trans asks'
          -- the retry is counted before the scheduler is asked
          have inside : (g.setRequest id r.counted).requests[id]? = some r.counted :=
            List.getElem?_set_self (List.getElem?_eq_some_iff.1 found).1
          have registers := registers_entered (f := g.setRequest id r.counted) inside
            ⟨candid'.reported, candid'.bound⟩ scheduled
          rw [entered_setRequest] at registers
          exact ⟨_, registers, entered_of_ends ends⟩

/-! ## Runs -/

/-- A call that is to register a request puts it into the scheduler that its family was bound to last,
once, or it changes no scheduler. A request that was not put into one is as it was before the call,
unless its scheduler has cancelled it. The call is an action, which neither starts nor ends a task and
changes nothing at all but the request if it puts it nowhere; or it is made in a turn in which an
attempt has failed, when the retry was counted. If the scheduler is closed, the attempt then ends the
request. -/
theorem registers_or_restores (new : IsNew f) {start : Instant}
    (h : History program (opening start f) hs e) :
    (∀ id r, e.shared.request? id = some r →
      ∃ e' registration, e.act program (.schedule id) = .ok (e', registration.answer) ∧
        Registers id r e.shared e'.shared registration ∧ Alike { e with shared := e'.shared } e' ∧
        (registration ≠ .accepted → e' = { e with shared := e'.shared })) ∧
    ∀ number job t g id fault r registration, e.next? = some (number, job) →
      e.shared.turn e.now number job = .ok t →
      e.shared.brings? number job = some (g, id, .fault fault) → g.requests[id]? = some r →
      r.registration? (g.route r) fault.failure = some registration →
      g.schedulers = e.shared.schedulers ∧
        ∃ g', Registers id r.counted (g.setRequest id r.counted) g' registration ∧
          t.shared.schedulers = g'.schedulers ∧
          (registration ≠ .refused .closed → t.shared.requests = g'.requests) := by
  have candid := isCandid_of_history (isCandid_opening new start) h
  refine ⟨fun id r known => registers_of_act candid known, ?_⟩
  intro number job t g id fault r registration _ turned brings found asks
  exact registers_of_turn candid turned brings found asks

def overlapped : List Moment × State :=
  follow program
    (opening 0 (ofSchedulers [⟨.bulk, {}, .ofList [(.content, 0), (.content, 1)]⟩] []
      [{}, { adjustable := true }]))
    [.act (.create 0 zeroKey 3 {}) (), .act (.gate true) (), .act (.send 0) (), .turn,
      -- in flight by now; the scheduler that was bound last cancels and refuses whatever comes
      .act (.gate false) (), .act (.adjust 1 ⟨true, some .invalidCapacity⟩) (),
      .act (.script zeroKey (.fault (.classified .transferFailed))) (), .act (.send 0) ()]

theorem overlapped_registers_or_restores :
    (∃ r e' registration, overlapped.2.shared.request? 0 = some r ∧ r.status = .inFlight ∧
      overlapped.2.act program (.schedule 0) = .ok (e', registration.answer) ∧
      Registers 0 r overlapped.2.shared e'.shared registration) ∧
    ∃ t g r g', overlapped.2.next? = some (1, .send 0 .fresh) ∧
      overlapped.2.shared.turn overlapped.2.now 1 (.send 0 .fresh) = .ok t ∧
      overlapped.2.shared.brings? 1 (.send 0 .fresh) =
        some (g, 0, .fault (.classified .transferFailed)) ∧ g.requests[0]? = some r ∧
      Registers 0 r.counted (g.setRequest 0 r.counted) g' (.refused .invalidCapacity) ∧
      t.shared.schedulers = g'.schedulers ∧ t.shared.requests = g'.requests := by
  have registers := registers_or_restores (.schedulers _ _ _) (history_follow _ _ : History program _
    overlapped.1 overlapped.2)
  constructor
  · obtain ⟨r, known, status⟩ : ∃ r, overlapped.2.shared.request? 0 = some r ∧ r.status = .inFlight :=
      ⟨_, rfl, rfl⟩
    rcases registers.1 0 r known with ⟨e', registration, acted, registered, _⟩
    exact ⟨r, e', registration, known, status, acted, registered⟩
  · have next : overlapped.2.next? = some (1, .send 0 .fresh) := rfl
    obtain ⟨t, turned⟩ : ∃ t,
        overlapped.2.shared.turn overlapped.2.now 1 (.send 0 .fresh) = .ok t := ⟨_, rfl⟩
    obtain ⟨g, r, brings, found, asks⟩ : ∃ g r, overlapped.2.shared.brings? 1 (.send 0 .fresh) =
          some (g, 0, .fault (.classified .transferFailed)) ∧ g.requests[0]? = some r ∧
        r.registration? (g.route r) .transferFailed = some (.refused .invalidCapacity) :=
      ⟨_, _, rfl, rfl, rfl⟩
    rcases registers.2 1 _ t g 0 _ r _ next turned brings found asks with
      ⟨_, g', registered, schedulers, requests⟩
    exact ⟨t, g, r, g', next, turned, brings, found, registered, schedulers, requests (by decide)⟩

end Fetcher
end MeteredFetch
