import MeteredFetch.Proofs.Fetcher.Stages

/-!
# Tending — turns and actions neither lose nor copy a request

Requests go from the mail of a dispatcher into its queue, from there into tasks, and from a task
back into the mail, or they end.

* `Fetcher.Tended` — how far a request has come, given the tasks that it is in besides some others;
* `Fetcher.tended_of_turn` — what a turn does, together with the tasks that it starts;
* `Fetcher.tended_of_perform` — what an action does that leaves it to dispatchers to send requests.
-/

namespace MeteredFetch
namespace Fetcher

open Executor

variable {id other : RequestId} {f g : Fetcher} {n : Nat} {registered : Bool}

/-! ## Turns -/

/-- Dispatchers can rely on what they do, and so can the given tasks. Besides these tasks a request
is in `rest` tasks, `flying` of which await a response. -/
structure Tended (n : Nat) (id : RequestId) (rest flying : Nat) (f : Fetcher) (jobs : List Job)
    (registered : Bool) : Prop where
  works : Works n f
  busy : ∀ job ∈ jobs, job.Works n
  few : flying ≤ rest
  stage : Stage id f (rest + (jobs.map (Job.holds id)).sum + f.stored id)
    (flying + (jobs.map (Job.awaits id)).sum) registered

variable {rest flying : Nat} {jobs jobs' : List Job}

/-- Nothing happens to any request. -/
theorem Tended.of_eq (h : Tended n id rest flying f jobs registered) (works : Works n g)
    (requests : g.requests = f.requests) (notices : g.notices = f.notices)
    (calls : g.calls = f.calls) (fresh : ∀ job ∈ jobs', job.Works n)
    (holds : (jobs'.map (Job.holds id)).sum + g.stored id =
      (jobs.map (Job.holds id)).sum + f.stored id)
    (awaits : (jobs'.map (Job.awaits id)).sum = (jobs.map (Job.awaits id)).sum) :
    Tended n id rest flying g jobs' registered := by
  refine ⟨works, fresh, h.few, ?_⟩
  have places : rest + (jobs'.map (Job.holds id)).sum + g.stored id =
      rest + (jobs.map (Job.holds id)).sum + f.stored id := by
    omega
  rw [places, awaits]
  refine h.stage.onwards ?_ ?_ ?_
  · rw [requests]
    exact .refl _
  · simp only [told, notices]
  · simp only [searches, calls]

theorem queued_of_pending (same : g.dispatchers.map (·.pending) = f.dispatchers.map (·.pending))
    (id : RequestId) : g.queued id = f.queued id := by
  have view : ∀ ds : List Dispatcher, ds.map (fun d => (d.pending.map (·.request)).count id) =
      (ds.map (·.pending)).map fun xs => (xs.map (·.request)).count id := by
    intro ds
    simp
  unfold queued
  rw [view, view, same]

theorem Tended.settle {d : Nat} {x : Dispatch} {outcome : Except FetchError Outcome}
    (h : Tended n id rest flying f jobs registered) :
    Tended n id rest flying (f.settle d x outcome) jobs registered := by
  rcases settle_same f d x outcome with ⟨bucket, dispatchers, same, kept⟩
  rw [same]
  have count : dispatchers.length = f.dispatchers.length := by
    simpa using congrArg List.length kept
  have waits : ({ f with bucket, dispatchers } : Fetcher).stored id = f.stored id :=
    congrArg (f.mailed id + ·) (queued_of_pending (pending_of_plain kept) id)
  exact h.of_eq (h.works.onwards (.refl _) rfl count) rfl rfl rfl h.busy (by rw [waits]) rfl

theorem Tended.send {d : Nat} {x : Dispatch} {stage : Sending} (now : Instant) (task : TaskId)
    (h : Tended n id rest flying f [.dispatch d x stage] registered) :
    Tended n id rest flying (f.send now task x.request stage).1
      ((standing (f.send now task x.request stage).2.2).map (.dispatch d x)).toList registered := by
  have sent := sends f now task x.request stage
  generalize f.send now task x.request stage = result at sent ⊢
  refine ⟨h.works.sends sent, ?_, h.few, ?_⟩
  · intro job member
    rcases Option.map_eq_some_iff.1 (Option.mem_toList.1 member) with ⟨stage', _, rfl⟩
    trivial
  · have stage := h.stage
    have few := h.few
    by_cases here : x.request = id
    · -- the request is in this task and nowhere else
      subst here
      simp only [List.map_cons, List.map_nil, List.sum_cons, List.sum_nil, Job.holds, Job.held,
        Job.awaits, Job.attempt?, List.count_singleton_self, if_true] at stage
      rcases stage.of_pos (by omega) with ⟨_, one, _⟩
      obtain rfl : rest = 0 := by omega
      obtain rfl : flying = 0 := by omega
      have nowhere : f.stored x.request = 0 := by omega
      rw [nowhere] at stage
      simp only [Nat.zero_add, Nat.add_zero] at stage
      have after := stage.sends h.works nowhere sent
      cases stands : standing result.2.2 with
      | none =>
          simpa [stands] using after
      | some stage' =>
          simpa [stands, Job.holds, Job.held, Job.awaits, Job.attempt?] using after
    · simp only [List.map_cons, List.map_nil, List.sum_cons, List.sum_nil, Job.holds, Job.held,
        Job.awaits, Job.attempt?, List.count_singleton, beq_iff_eq, here, if_false] at stage
      rcases stage.sends_of_ne here sent with ⟨after, kept⟩
      rw [← kept] at after
      cases standing result.2.2 with
      | none =>
          simpa using after
      | some stage' =>
          simpa [Job.holds, Job.held, Job.awaits, Job.attempt?, here] using after

theorem spawned_sendAll (d : Nat) (dispatches : List Dispatch) :
    spawned (sendAll d dispatches) = dispatches.map fun x => .dispatch d x .fresh := by
  induction dispatches with
  | nil =>
      rfl
  | cons x rest ih =>
      exact congrArg (_ :: ·) ih

theorem gentle_sendAll (d : Nat) (dispatches : List Dispatch) : Gentle (sendAll d dispatches) := by
  simp [Gentle, sendAll]

/-- The requests that a dispatcher sends are held by as many tasks. -/
theorem holds_sendAll (d : Nat) (dispatches : List Dispatch) (id : RequestId) :
    ((spawned (sendAll d dispatches)).map (Job.holds id)).sum =
      (dispatches.map (·.request)).count id := by
  rw [spawned_sendAll]
  induction dispatches with
  | nil =>
      rfl
  | cons x rest ih =>
      simp only [List.map_cons, List.sum_cons, List.count_cons, ih, Job.holds, Job.held,
        List.count_nil, Nat.zero_add]
      exact Nat.add_comm _ _

theorem awaits_sendAll (d : Nat) (dispatches : List Dispatch) (id : RequestId) :
    ((spawned (sendAll d dispatches)).map (Job.awaits id)).sum = 0 := by
  rw [spawned_sendAll]
  induction dispatches with
  | nil =>
      rfl
  | cons x rest ih =>
      simpa [Job.awaits, Job.attempt?, Sending.flights] using ih

/-- A dispatcher that goes through its queue leaves a scheduler that takes requests in, or is closed for
good. -/
theorem Works.serve {d : Nat} {bucket : Bucket} {x' : Dispatcher} {queue queue' : Scheduler}
    (h : Works n f) (scheduler : f.schedulers[d]? = some queue)
    (reception : queue'.reception = queue.reception ∨ queue'.reception = .closed)
    (adjustable : queue'.adjustable = queue.adjustable) :
    Works n { f with
      bucket
      dispatchers := f.dispatchers.set d x'
      schedulers := f.schedulers.set d queue' } := by
  refine h.congr List.length_set List.length_set ?_ fun r member => ⟨r, member, rfl, rfl⟩
  intro s member
  rcases List.mem_or_eq_of_mem_set member with old | new
  · exact h.fixed s old
  · have before := h.fixed queue (List.mem_of_getElem? scheduler)
    rw [new]
    refine ⟨adjustable.trans before.1, ?_⟩
    rcases reception with same | closed
    · rw [same]
      exact before.2
    · exact .inr closed

/-- Requests go from the queue of a dispatcher into tasks, and from its mail into the queue. -/
theorem stored_serve (bucket : Bucket) {d : Nat} {x x' : Dispatcher} {queue queue' : Scheduler}
    {chosen chosen' : Option Chosen} {dispatches : List Dispatch}
    (dispatcher : f.dispatchers[d]? = some x) (scheduler : f.schedulers[d]? = some queue)
    (empty : queue'.waiting = [])
    (kept : (dispatches.map (·.request) ++ chosen'.toList.map (·.request) ++
        x'.pending.map (·.request)).Perm
      (chosen.toList.map (·.request) ++ queue.waiting ++ x.pending.map (·.request)))
    (id : RequestId) :
    { f with
      bucket
      dispatchers := f.dispatchers.set d x'
      schedulers := f.schedulers.set d queue' : Fetcher }.stored id +
        (dispatches.map (·.request)).count id + (chosen'.toList.map (·.request)).count id =
      f.stored id + (chosen.toList.map (·.request)).count id := by
  have mail := sum_map_set (fun s : Scheduler => s.waiting.count id) scheduler queue'
  have queues := sum_map_set (fun d : Dispatcher => (d.pending.map (·.request)).count id)
    dispatcher x'
  have counts := kept.count_eq id
  simp only [empty, List.count_nil, Nat.add_zero] at mail
  simp only [List.count_append] at counts
  simp only [stored, mailed, queued]
  omega

/-- The turn of a dispatcher takes a request from one place to another, or leaves it. -/
theorem Tended.serve {d : Nat} {chosen : Option Chosen} {t : Turned}
    (h : Tended n id rest flying f [.serve d chosen] registered) (served : Serves f d chosen t) :
    Gentle t.effects ∧
      Tended n id rest flying t.shared ((standing t.next).toList ++ spawned t.effects)
        registered := by
  have within : d < n := h.busy (.serve d chosen) (List.mem_singleton_self _)
  cases served with
  | missing gone =>
      rcases gone with gone | gone
      · have beyond := List.getElem?_eq_none_iff.1 gone
        rw [h.works.dispatchers] at beyond
        exact absurd within (Nat.not_lt.2 beyond)
      · have beyond := List.getElem?_eq_none_iff.1 gone
        rw [h.works.schedulers] at beyond
        exact absurd within (Nat.not_lt.2 beyond)
  | waits =>
      refine ⟨Waking.nil.gentle, h.of_eq (h.works.onwards (.refl _) rfl rfl) rfl rfl rfl ?_ rfl rfl⟩
      intro job member
      cases List.mem_singleton.1 member
      exact within
  | @served chosen chosen' x x' queue queue' bucket dispatches next dispatcher scheduler empty
      reception adjustable kept goesOn =>
      refine ⟨gentle_sendAll d dispatches, ?_⟩
      have works : Works n { f with
          bucket
          dispatchers := f.dispatchers.set d x'
          schedulers := f.schedulers.set d queue' } :=
        h.works.serve scheduler reception adjustable
      refine h.of_eq works rfl rfl rfl ?_ ?_ ?_
      · intro job member
        rcases List.mem_append.1 member with stands | started
        · rcases goesOn with same | ⟨ends, _⟩
          · rw [same] at stands
            cases List.mem_singleton.1 stands
            exact within
          · rw [ends] at stands
            cases stands
        · rw [spawned_sendAll] at started
          rcases List.mem_map.1 started with ⟨y, _, rfl⟩
          trivial
      -- what was in the mail, waiting or chosen is sent now, chosen or waits on
      · have sent := holds_sendAll d dispatches id
        have goes : ((standing next).toList.map (Job.holds id)).sum =
            (chosen'.toList.map (·.request)).count id := by
          rcases goesOn with stands | ⟨ends, none⟩
          · simp [stands, Job.holds, Job.held]
          · simp [ends, none]
        have moved := stored_serve bucket dispatcher scheduler empty kept id
        simp only [List.map_append, List.sum_append, sent, goes, List.map_cons, List.map_nil,
          List.sum_cons, List.sum_nil, Job.holds, Job.held]
        omega
      · have quiet := awaits_sendAll d dispatches id
        have still : ((standing next).toList.map (Job.awaits id)).sum = 0 := by
          rcases goesOn with stands | ⟨ends, _⟩
          · simp [stands, Job.awaits, Job.attempt?]
          · simp [ends]
        simp [List.map_append, List.sum_append, quiet, still, Job.awaits, Job.attempt?]

/-- No turn loses or copies a request. -/
theorem tended_of_turn {now : Instant} {task : TaskId} {job : Job} {t : Turned}
    (h : Tended n id rest flying f [job] registered) (turned : f.turn now task job = .ok t) :
    Gentle t.effects ∧
      Tended n id rest flying t.shared ((standing t.next).toList ++ spawned t.effects)
        registered := by
  have proper : job.Works n := h.busy job (List.mem_singleton_self job)
  cases job with
  | grab tokens caller =>
      rcases ok_of_bind turned with ⟨⟨bucket, caller'⟩, _, after⟩
      have works : Works n { f with bucket } := h.works.onwards (.refl _) rfl rfl
      cases caller' with
      | some caller' =>
          cases after
          refine ⟨Waking.nil.gentle, h.of_eq works rfl rfl rfl ?_ rfl rfl⟩
          intro job member
          cases List.mem_singleton.1 member
          trivial
      | none =>
          cases after
          exact ⟨Waking.nil.gentle, h.of_eq works rfl rfl rfl (by simp [standing, spawned]) rfl rfl⟩
  | send request stage =>
      -- nobody but a dispatcher starts attempts here
      exact proper.elim
  | retry request failure =>
      exact proper.elim
  | dispatch d x stage =>
      -- the outcome is counted, which moves no request
      have sent := h.send now task
      have waking := waking_send f now task x.request stage
      simp only [turn] at turned
      generalize f.send now task x.request stage = result at turned sent waking
      rcases result with ⟨g, effects, next⟩
      cases turned
      refine ⟨waking.gentle, ?_⟩
      rw [waking.spawned_eq_nil, List.append_nil, standing_map]
      cases next with
      | wait stage' alarm =>
          exact sent
      | finish outcome =>
          exact sent.settle
  | serve d chosen =>
      exact h.serve (serves turned)

/-! ## Actions -/

def Action.isProper : Action → Bool
  | .send _ | .retry _ _ | .pop _ | .abort _ => false
  | _ => true

def Action.schedules (id : RequestId) : Action → Bool
  | .schedule request => request == id
  | _ => false

theorem schedules_eq_false {action : Action} (another : ∀ other, action ≠ .schedule other) :
    action.schedules id = false := by
  cases action with
  | schedule other =>
      exact absurd rfl (another other)
  | _ =>
      rfl

theorem Tended.created {key : Key} {budget : Int32} {settings : Settings} {group : Group}
    {r : Request} (h : Tended n id rest flying f jobs registered)
    (made : Request.create key budget settings group = .ok r) :
    Tended n id rest flying { f with requests := f.requests ++ [r] } jobs registered := by
  rcases Request.isOpen_of_create made with ⟨isOpen, first, ⟨s, destination⟩, counted⟩
  exact ⟨h.works.create destination counted, h.busy, h.few, h.stage.create isOpen first⟩

theorem Tended.started {task : TaskId} {d : Nat} {x : Dispatcher}
    (h : Tended n id rest flying f [] registered) (found : f.dispatchers[d]? = some x) :
    Tended n id rest flying
      (f.modifyDispatcher d fun x => { x with standing := .running task }) [.serve d none]
      registered := by
  -- it was not started before, so it exists
  have within : d < n := by
    rw [← h.works.dispatchers]
    exact (List.getElem?_eq_some_iff.1 found).1
  have kept : (f.dispatchers.modify d fun x => { x with standing := .running task }).map
      (·.pending) = f.dispatchers.map (·.pending) :=
    map_modify_of_eq (·.pending) (fun x => { x with standing := .running task })
      (fun _ => rfl) f.dispatchers d
  have waits : (f.modifyDispatcher d fun x => { x with standing := .running task }).stored id =
      f.stored id :=
    congrArg (f.mailed id + ·) (queued_of_pending kept id)
  refine h.of_eq ?_ rfl rfl rfl ?_ ?_ rfl
  · exact h.works.onwards (.refl _) rfl (List.length_modify _ _ _)
  · intro job member
    cases List.mem_singleton.1 member
    exact within
  · rw [waits]
    rfl

theorem Tended.schedule {r : Reacted} (h : Tended n id rest flying f [] registered)
    (once : (Action.schedule other).schedules id = true → registered = false)
    (became : Schedules f other r) :
    Tended n id rest flying r.shared []
      (registered || (Action.schedule other).schedules id && r.answer.isAccepted) := by
  refine ⟨h.works.schedule became, h.busy, h.few, ?_⟩
  by_cases here : other = id
  · subst here
    have first : (Action.schedule other).schedules other = true := beq_self_eq_true other
    obtain rfl := once first
    rw [first]
    exact Stage.schedules h.works h.stage became
  · have another : (Action.schedule other).schedules id = false := beq_false_of_ne here
    rcases h.stage.schedules_of_ne here became with ⟨after, kept⟩
    rw [kept, another, Bool.false_and, Bool.or_false]
    exact after

theorem Tended.of_another {action : Action} {accepted : Bool}
    (h : Tended n id rest flying f jobs registered) (another : action.schedules id = false) :
    Tended n id rest flying f jobs (registered || action.schedules id && accepted) := by
  rw [another, Bool.false_and, Bool.or_false]
  exact h

/-- No action loses or copies a request that leaves it to dispatchers to send requests; one that is
scheduled for the first time may become registered. -/
theorem tended_of_perform {now : Instant} {task : TaskId} {action : Action} {r : Reacted}
    (h : Tended n id rest flying f [] registered) (proper : action.isProper = true)
    (once : action.schedules id = true → registered = false)
    (performed : f.perform now task action = .ok r) :
    Gentle r.effects ∧
      Tended n id rest flying r.shared (spawned r.effects)
        (registered || action.schedules id && r.answer.isAccepted) := by
  cases does performed with
  | nothing another =>
      exact ⟨Waking.nil.gentle, h.of_another (schedules_eq_false another)⟩
  | created _ made =>
      exact ⟨Waking.nil.gentle, (h.created made).of_another rfl⟩
  | @scheduled other =>
      have waking := waking_schedule f other
      rw [waking.spawned_eq_nil]
      exact ⟨waking.gentle, h.schedule once (schedules f other)⟩
  | @cancelled other _ =>
      have onwards := cancelRequest_onwards f other
      have after : Tended n id rest flying (f.cancelRequest other) [] registered :=
        ⟨h.works.onwards onwards rfl rfl, h.busy, h.few, h.stage.onwards onwards rfl rfl⟩
      exact ⟨Waking.nil.gentle, after.of_another rfl⟩
  | adjusted =>
      -- schedulers of dispatchers take no notice of it
      rw [h.works.adjust]
      exact ⟨Waking.nil.gentle, h.of_another rfl⟩
  | @tuned _ lookup _ _ another _ _ waking =>
      have works : Works n { f with lookup } := h.works.onwards (.refl _) rfl rfl
      simp only [waking.spawned_eq_nil]
      exact ⟨waking.gentle,
        (h.of_eq works rfl rfl rfl h.busy rfl rfl).of_another (schedules_eq_false another)⟩
  | started found _ =>
      exact ⟨by simp [Gentle], (h.started found).of_another rfl⟩
  | @operated _ bucket woken _ _ =>
      have waking : Waking (woken.map (Effect.wake (τ := Job))) := .map_wake _
      have works : Works n { f with bucket } := h.works.onwards (.refl _) rfl rfl
      simp only [waking.spawned_eq_nil]
      exact ⟨waking.gentle, (h.of_eq works rfl rfl rfl h.busy rfl rfl).of_another rfl⟩
  | grabs =>
      refine ⟨by simp [Gentle], Tended.of_another ?_ rfl⟩
      refine h.of_eq h.works rfl rfl rfl ?_ rfl rfl
      intro job member
      cases List.mem_singleton.1 member
      trivial
  | scripted | hooked | forgot =>
      refine ⟨Waking.nil.gentle, Tended.of_another ?_ rfl⟩
      exact h.of_eq (h.works.onwards (.refl _) rfl rfl) rfl rfl rfl h.busy rfl rfl
  | sends | retries | popped | retired | aborted =>
      cases proper

end Fetcher
end MeteredFetch
