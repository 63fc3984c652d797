import MeteredFetch.Proofs.Fetcher.Labour
import MeteredFetch.Proofs.Fetcher.Settling
import MeteredFetch.Proofs.Fetcher.Watch

/-!
# Accounts — where the requests are that a dispatcher was given

A request that a scheduler has taken in is in the mail of its dispatcher, waits there, is the one that
tokens are waited for, or was sent. It may come again, by its own retry and while the dispatcher sleeps,
and is then counted once more. What was sent is under way or has been counted by its outcome.

* `Metrics.settled` — the outcomes that were counted, and `Fetcher.settled?` the one that a turn counts;
* `Fetcher.selected`, `Fetcher.unfinished` — the tasks that wait for tokens, and those that send;
* `Fetcher.Pauses`, `Fetcher.pauses_of_step` — what a move leaves of a dispatcher if it is no turn of it;
* `Fetcher.Booked`, `Fetcher.booked_of_step` — the accounts of a dispatcher, and that every move keeps
  them;
* `Fetcher.dispatcher_accounts` — the accounts of a dispatcher that is left alone, in every run.
-/

namespace MeteredFetch

def Metrics.settled (m : Metrics) : Nat :=
  m.succeeded + m.retried + m.failed + m.cancelled

/-- Every outcome is counted once, whatever it is. -/
theorem Metrics.settled_count (m : Metrics) (outcome : Except FetchError Outcome) :
    (m.count outcome).settled = m.settled + 1 := by
  unfold count settled
  split <;> simp only <;> omega

/-- An outcome changes neither how many wait nor how many were sent. -/
theorem Metrics.queued_count (m : Metrics) (outcome : Except FetchError Outcome) :
    (m.count outcome).queued = m.queued ∧ (m.count outcome).dispatched = m.dispatched := by
  unfold count
  split <;> exact ⟨rfl, rfl⟩

namespace Fetcher

open Executor Deed

/-! ## Tasks of a dispatcher -/

def Job.selects (d : Nat) : Job → Nat
  | .serve id (some _) => if id = d then 1 else 0
  | _ => 0

def Job.sendsFor (d : Nat) : Job → Nat
  | .dispatch id _ _ => if id = d then 1 else 0
  | _ => 0

/-- How many requests a dispatcher has chosen and not yet sent. -/
def selected (d : Nat) (e : State) : Nat :=
  total (Job.selects d) e.tasks

def unfinished (d : Nat) (e : State) : Nat :=
  total (Job.sendsFor d) e.tasks

/-- The outcome of a dispatch that has ended with a turn. -/
def settled? (d : Nat) : Next Job Result → Option (Except FetchError Outcome)
  | .finish (.dispatched id _ outcome) => if id = d then some outcome else none
  | _ => none

variable {d : Nat} {f g : Fetcher} {now : Instant} {task next number : TaskId} {job job' : Job}
  {t : Turned} {e e' : State} {l : Label Action Answer} {hs : List Moment} {x x' : Dispatcher}

/-- A task goes on working for the dispatcher that it works for. -/
theorem Continues.worksFor (h : Continues job job') : job'.worksFor d = job.worksFor d := by
  cases h <;> rfl

theorem selects_eq_zero (other : job.worksFor d = false) :
    job.selects d = 0 ∧ job.sendsFor d = 0 := by
  cases job with
  | serve id chosen =>
      have ne : id ≠ d := by simpa [Job.worksFor] using other
      cases chosen <;> simp [Job.selects, Job.sendsFor, ne]
  | dispatch id x stage =>
      have ne : id ≠ d := by simpa [Job.worksFor] using other
      simp [Job.selects, Job.sendsFor, ne]
  | _ =>
      exact ⟨rfl, rfl⟩

/-- Only a dispatch ends as one, and only the outcome of a dispatch is counted. -/
theorem settled?_of_other (other : ∀ id x stage, job ≠ .dispatch id x stage)
    (turned : f.turn now task job = .ok t) : settled? d t.next = none := by
  cases ends : t.next with
  | wait job' alarm =>
      rfl
  | finish result =>
      cases result with
      | dispatched id x outcome =>
          rcases job_of_dispatched turned ends with ⟨stage, same⟩
          exact absurd same (other id x stage)
      | _ =>
          rfl

/-- A dispatch that has ended is counted by its outcome, at the dispatcher that has sent it. -/
theorem counts_of_dispatch {id : Nat} {x : Dispatch} {stage : Sending}
    (turned : f.turn now task (.dispatch id x stage) = .ok t) :
    (∃ stage', standing t.next = some (.dispatch id x stage') ∧ settled? d t.next = none ∧
        t.shared.dispatchers = f.dispatchers) ∨
      ∃ outcome, t.next = .finish (.dispatched id x outcome) ∧
        t.shared.dispatchers = f.dispatchers.modify id (·.count outcome) := by
  have kept := (send_same f now task x.request stage).2
  simp only [turn] at turned
  generalize f.send now task x.request stage = result at turned kept
  rcases result with ⟨g, effects, next⟩
  cases next with
  | wait stage' alarm =>
      cases turned
      exact .inl ⟨stage', rfl, rfl, kept⟩
  | finish outcome =>
      cases turned
      refine .inr ⟨outcome, rfl, ?_⟩
      have counted :
          (g.settle id x outcome).dispatchers = g.dispatchers.modify id (·.count outcome) := by
        unfold settle
        simp only
        split
        · split <;> rfl
        · rfl
      exact counted.trans (by rw [kept])

/-- Only a turn of a dispatcher changes the request that it has chosen, and a task that sends goes on or
has ended with an outcome. -/
theorem shares_of_turn (other : ∀ chosen, job ≠ .serve d chosen)
    (turned : f.turn now task job = .ok t) :
    share (Job.selects d) (standing t.next) = job.selects d ∧
      share (Job.sendsFor d) (standing t.next) + (settled? d t.next).toList.length =
        job.sendsFor d := by
  by_cases sends : ∃ id x stage, job = .dispatch id x stage
  · rcases sends with ⟨id, x, stage, rfl⟩
    rcases counts_of_dispatch (d := d) turned with ⟨stage', goesOn, none, _⟩ | ⟨outcome, ends, _⟩
    · rw [goesOn, none]
      exact ⟨rfl, rfl⟩
    · rw [ends]
      by_cases here : id = d <;> simp [standing, settled?, Job.selects, Job.sendsFor, here]
  · have none : settled? d t.next = none :=
      settled?_of_other (fun id x stage same => sends ⟨id, x, stage, same⟩) turned
    rw [none]
    -- neither this task nor what it leaves works for the dispatcher
    have idle : job.worksFor d = false := by
      cases job with
      | serve id chosen =>
          have ne : id ≠ d := fun here => other chosen (here ▸ rfl)
          simpa [Job.worksFor] using ne
      | dispatch id x stage =>
          exact absurd ⟨id, x, stage, rfl⟩ sends
      | _ =>
          rfl
    rcases selects_eq_zero idle with ⟨unselected, unsent⟩
    rw [unselected, unsent]
    cases stands : standing t.next with
    | none =>
        exact ⟨rfl, rfl⟩
    | some job' =>
        have goesOn := continues_of_turn turned stands
        exact selects_eq_zero (goesOn.worksFor.trans idle)

/-- A turn of another task changes of a dispatcher only what an outcome counts. -/
theorem dispatchers_of_turn (other : ∀ chosen, job ≠ .serve d chosen)
    (turned : f.turn now task job = .ok t) (found : f.dispatchers[d]? = some x) :
    t.shared.dispatchers[d]? = some ((settled? d t.next).elim x x.count) := by
  have kept : settled? d t.next = none → t.shared.dispatchers = f.dispatchers →
      t.shared.dispatchers[d]? = some ((settled? d t.next).elim x x.count) := by
    intro none same
    rw [none, same]
    exact found
  cases job with
  | grab tokens caller =>
      have uncounted := settled?_of_other (d := d) (by simp) turned
      refine kept uncounted ?_
      cases turns turned with
      | granted | waits =>
          rfl
      | attempts attempt =>
          cases attempt
  | send request stage =>
      have same := (send_same f now task request stage).2
      have uncounted := settled?_of_other (d := d) (by simp) turned
      cases turned
      exact kept uncounted same
  | retry request failure =>
      have same := (retry_same f request failure).2
      have uncounted := settled?_of_other (d := d) (by simp) turned
      cases turned
      exact kept uncounted same
  | dispatch id y stage =>
      rcases counts_of_dispatch (d := d) turned with ⟨_, _, none, same⟩ | ⟨outcome, ends, counted⟩
      · exact kept none same
      · rw [ends, counted]
        by_cases here : id = d
        · subst here
          simp [settled?, found]
        · simp [settled?, found, here]
  | serve id chosen =>
      have ne : id ≠ d := fun here => other chosen (here ▸ rfl)
      have uncounted := settled?_of_other (d := d) (by simp) turned
      rw [uncounted]
      cases serves (f := f) turned with
      | served =>
          simpa [ne] using found
      | _ =>
          exact found

/-- The tasks that a turn of another task starts do not work for a dispatcher. -/
theorem not_worksFor_of_spawned (other : ∀ chosen, job ≠ .serve d chosen)
    (turned : f.turn now task job = .ok t) : ∀ job' ∈ spawned t.effects, job'.worksFor d = false := by
  intro job' started
  by_cases serves : ∃ id chosen, job = .serve id chosen
  · rcases serves with ⟨id, chosen, rfl⟩
    have ne : id ≠ d := fun here => other chosen (here ▸ rfl)
    cases Fetcher.serves (f := f) turned with
    | served =>
        rw [spawned_sendAll] at started
        rcases List.mem_map.1 started with ⟨x, _, rfl⟩
        simpa [Job.worksFor] using ne
    | _ =>
        cases started
  · rw [spawned_of_turn turned fun id chosen same => serves ⟨id, chosen, same⟩] at started
    cases started

/-! ## Moves between turns -/

/-- The answer to an action is the one that comes with its reaction. -/
theorem answer_of_step {action : Action} {answer : Answer} {r : Reacted}
    (step : Step program e (.act action answer) e')
    (performed : e.shared.perform e.now e.tasks.length action = .ok r) : answer = r.answer := by
  cases step with
  | act acted =>
      rcases act_cases acted with ⟨r', performed', same, _⟩
      cases performed.symm.trans performed'
      exact same

/-- An action that leaves a dispatcher alone at most has it begin to work. -/
theorem dispatchers_of_perform {action : Action} {r : Reacted}
    (apart : Moment.leavesAlone d (e, .act action r.answer) = true)
    (performed : f.perform now task action = .ok r) (found : f.dispatchers[d]? = some x) :
    ∃ standing, r.shared.dispatchers[d]? = some { x with standing } ∧
      (standing = x.standing ∨ x.standing = .idle ∧ ∃ n, standing = .running n) := by
  cases does performed with
  | @scheduled request =>
      rcases schedule_same f request with ⟨requests, schedulers, same⟩
      rw [same]
      exact ⟨x.standing, found, .inl rfl⟩
  | @started id y there idle =>
      by_cases here : id = d
      · subst here
        cases there.symm.trans found
        exact ⟨.running task, by simp [modifyDispatcher, found], .inr ⟨idle, task, rfl⟩⟩
      · exact ⟨x.standing, by simpa [modifyDispatcher, here] using found, .inl rfl⟩
  | @retired id _ _ _ =>
      have ne : id ≠ d := by simpa [Moment.leavesAlone] using apart
      exact ⟨x.standing, by simpa [retire, modifyScheduler, modifyDispatcher, ne] using found,
        .inl rfl⟩
  | _ =>
      exact ⟨x.standing, found, .inl rfl⟩

/-- Only a task of its own, when it is dropped, takes a dispatcher along. -/
theorem dispatchers_dropJob (other : job.worksFor d = false) :
    (f.dropJob task job).dispatchers[d]? = f.dispatchers[d]? := by
  cases job with
  | serve id chosen =>
      have ne : id ≠ d := by simpa [Job.worksFor] using other
      simp [dropJob, retire, modifyScheduler, modifyDispatcher, ne]
  | _ =>
      rfl

/-- Tasks that neither wait for tokens for a dispatcher nor send for it count nothing. -/
theorem sum_eq_zero {started : List Job}
    (idle : ∀ job ∈ started, job.selects d = 0 ∧ job.sendsFor d = 0) :
    (started.map (Job.selects d)).sum = 0 ∧ (started.map (Job.sendsFor d)).sum = 0 := by
  constructor
  · refine List.sum_eq_zero fun n member => ?_
    rcases List.mem_map.1 member with ⟨job, there, rfl⟩
    exact (idle job there).1
  · refine List.sum_eq_zero fun n member => ?_
    rcases List.mem_map.1 member with ⟨job, there, rfl⟩
    exact (idle job there).2

/-- What a move leaves of a dispatcher with a record if it is no turn of it. A dispatch that ends is
counted. -/
structure Pauses (d : Nat) (x : Dispatcher) (e e' : State) (x' : Dispatcher) : Prop where
  dispatcher : e'.shared.dispatchers[d]? = some x'
  standing : x'.standing = x.standing ∨ x.standing = .idle ∧ ∃ n, x'.standing = .running n
  pending : x'.pending = x.pending
  arrivals : x'.arrivals = x.arrivals
  queued : x'.metrics.queued = x.metrics.queued
  dispatched : x'.metrics.dispatched = x.metrics.dispatched
  outcomes : x'.metrics.settled + unfinished d e' = x.metrics.settled + unfinished d e
  selected : selected d e' = selected d e

theorem Swept.dispatchers (h : Swept f g) : g.dispatchers = f.dispatchers := by
  rcases h with ⟨schedulers, rfl, _⟩
  rfl

/-- Whatever else a move leaves behind, dispatchers stay what they were. -/
theorem Leaves.dispatcher {tasks : List (Option Job)} {finished : List (Completion Result)}
    (left : Leaves now f tasks finished e') (found : f.dispatchers[d]? = some x) :
    e'.shared.dispatchers[d]? = some x := by
  rw [left.shared.dispatchers]
  exact found

/-- A dispatcher that does nothing itself counts the outcome of a dispatch that has ended, if one has. -/
theorem pauses_of_counted (outcome : Option (Except FetchError Outcome))
    (found : e'.shared.dispatchers[d]? = some (outcome.elim x x.count))
    (tasks : unfinished d e' + outcome.toList.length = unfinished d e)
    (chosen : selected d e' = selected d e) : ∃ x', Pauses d x e e' x' := by
  cases outcome with
  | none =>
      refine ⟨x, found, .inl rfl, rfl, rfl, rfl, rfl, ?_, chosen⟩
      exact congrArg (x.metrics.settled + ·) tasks
  | some outcome =>
      rcases Metrics.queued_count x.metrics outcome with ⟨queued, dispatched⟩
      have counted := Metrics.settled_count x.metrics outcome
      refine ⟨x.count outcome, found, .inl rfl, rfl, rfl, queued, dispatched, ?_, chosen⟩
      change (x.metrics.count outcome).settled + unfinished d e' = _
      simp only [Option.toList_some, List.length_singleton] at tasks
      omega

/-- Another task has its turn. It may have sent for the dispatcher and end. -/
theorem pauses_of_turned {finished : List (Completion Result)}
    (another : ∀ chosen, job ≠ .serve d chosen) (next : e.next? = some (number, job))
    (went : e.shared.turn e.now number job = .ok t)
    (left : Leaves e.now t.shared
      (e.tasks.set number (standing t.next) ++ (spawned t.effects).map some) finished e')
    (found : e.shared.dispatchers[d]? = some x) : ∃ x', Pauses d x e e' x' := by
  have stands := task?_of_next? next
  rcases shares_of_turn another went with ⟨selects, sends⟩
  have idle : ∀ job' ∈ spawned t.effects, job'.selects d = 0 ∧ job'.sendsFor d = 0 :=
    fun job' started => selects_eq_zero (not_worksFor_of_spawned another went job' started)
  rcases sum_eq_zero idle with ⟨noneSelected, noneSent⟩
  have selected' := total_set (Job.selects d) stands (standing t.next)
  have unfinished' := total_set (Job.sendsFor d) stands (standing t.next)
  simp only [share_some] at selected' unfinished'
  refine pauses_of_counted (settled? d t.next) ?_ ?_ ?_
  · exact left.dispatcher (dispatchers_of_turn another went found)
  · rw [unfinished, unfinished, left.tasks, total_append, noneSent]
    omega
  · rw [Fetcher.selected, Fetcher.selected, left.tasks, total_append, noneSelected]
    omega

/-- A move that is no turn of a dispatcher changes its record only by a dispatch that ends. -/
theorem pauses_of_step (crews : ∀ id, Crewed id e) (step : Step program e l e')
    (apart : Moment.leavesAlone d (e, l) = true) (other : ¬ IsTurnOf d e l)
    (found : e.shared.dispatchers[d]? = some x) : ∃ x', Pauses d x e e' x' := by
  cases moves_of_step step with
  | turned turn next went left =>
      exact pauses_of_turned (not_serve_of_next other turn next) next went left found
  | @acted action answer r same gentle performed left =>
      subst same
      cases answer_of_step step performed
      rcases dispatchers_of_perform apart performed found with ⟨standing, there, begins⟩
      have idle : ∀ job ∈ spawned r.effects, job.selects d = 0 ∧ job.sendsFor d = 0 := by
        intro job started
        cases starts_of_perform performed started <;> exact ⟨rfl, rfl⟩
      rcases sum_eq_zero idle with ⟨noneSelected, noneSent⟩
      refine ⟨{ x with standing }, ?_, begins, rfl, rfl, rfl, rfl, ?_, ?_⟩
      · exact left.dispatcher there
      · simp [unfinished, left.tasks, noneSent]
      · simp [Fetcher.selected, left.tasks, noneSelected]
  | @dropped number job quiet stands left =>
      have inside := (List.getElem?_eq_some_iff.1 stands).1
      have gone : e'.tasks[number]? = some none := by
        rw [left.tasks, List.getElem?_set_self inside]
      -- the task that is dropped works for another dispatcher, or for none
      have idle := not_worksFor_of_dropped crews step apart quiet stands gone
      rcases selects_eq_zero idle with ⟨unselected, unsent⟩
      have selected' := total_set (Job.selects d) stands none
      have unfinished' := total_set (Job.sendsFor d) stands none
      simp only [share_some, share_none, unselected, unsent, Nat.add_zero] at selected' unfinished'
      refine pauses_of_counted none ?_ ?_ ?_
      · rw [left.shared.dispatchers, dispatchers_dropJob idle]
        exact found
      · rw [unfinished, unfinished, left.tasks, unfinished']
        rfl
      · rw [Fetcher.selected, Fetcher.selected, left.tasks, selected']
  | rested _ left =>
      refine pauses_of_counted none (left.dispatcher found) ?_ ?_
      · rw [unfinished, unfinished, left.tasks]
        rfl
      · rw [Fetcher.selected, Fetcher.selected, left.tasks]

/-! ## Accounts -/

/-- The accounts of a dispatcher with a record, in a run. -/
structure Booked (d : Nat) (hs : List Moment) (e : State) (x : Dispatcher) : Prop where
  dispatcher : e.shared.dispatchers[d]? = some x
  scheduler : (e.shared.watch? d).isSome = true
  /-- What was registered was taken out of the queue, or waits there, or is in the mail. -/
  came : (registrations d hs).Perm
    ((takings (log d hs) ++ x.pending).map (·.request) ++ e.shared.inbox d)
  /-- All of this but the mail was numbered, without gaps. -/
  numbers : ((takings (log d hs) ++ x.pending).map (·.arrival)).Perm (List.range x.arrivals)
  /-- What was taken out was sent, or waits for tokens. -/
  chosen : (takings (log d hs)).length = (sendings (log d hs)).length + selected d e
  queued : x.metrics.queued = x.pending.length
  dispatched : x.metrics.dispatched = (sendings (log d hs)).length
  /-- What was sent has been counted by its outcome, or is under way. -/
  outcomes : x.metrics.dispatched = x.metrics.settled + unfinished d e

variable {chosen chosen' : Option Chosen} {queue queue' : Scheduler} {ds : List Deed}
  {dispatches : List Dispatch}

/-- A dispatcher that does nothing in a move, and gets no mail but what is registered in it. -/
theorem Booked.pauses (h : Booked d hs e x) (pauses : Pauses d x e e' x')
    (known : (e'.shared.watch? d).isSome = (e.shared.watch? d).isSome)
    (inbox : e'.shared.inbox d = e.shared.inbox d ++ arriving d (Moment.registration? (e, l)))
    (quiet : Moment.deeds d (e, l) = []) : Booked d (hs ++ [(e, l)]) e' x' := by
  have same : log d (hs ++ [(e, l)]) = log d hs := by
    rw [log_snoc, quiet, List.append_nil]
  refine ⟨pauses.dispatcher, known.trans h.scheduler, ?_, ?_, ?_, ?_, ?_, ?_⟩
  · rw [registrations_snoc, same, pauses.pending, inbox, ← List.append_assoc]
    exact h.came.append_right _
  · rw [same, pauses.pending, pauses.arrivals]
    exact h.numbers
  · rw [same, pauses.selected]
    exact h.chosen
  · rw [pauses.queued, pauses.pending]
    exact h.queued
  · rw [pauses.dispatched, same]
    exact h.dispatched
  · rw [pauses.dispatched, pauses.outcomes]
    exact h.outcomes

theorem selects_serve (d : Nat) (chosen : Option Chosen) :
    (Job.serve d chosen).selects d = chosen.toList.length := by
  cases chosen <;> simp [Job.selects]

/-- What is taken in has the requests of the mail, and the numbers that come next. -/
theorem perm_intake (f : Fetcher) (x : Dispatcher) (queue : Scheduler) (taken : List Pending) :
    ((taken ++ (f.intake x queue).pending).map (·.request)).Perm
        ((taken ++ x.pending).map (·.request) ++ queue.waiting) ∧
      ((taken ++ (f.intake x queue).pending).map (·.arrival)).Perm
        ((taken ++ x.pending).map (·.arrival) ++ List.range' x.arrivals queue.waiting.length) := by
  have joined := (Pending.insertAll_perm
    (Pending.number x.arrivals (f.classified queue.waiting)) x.pending).append_left taken
  have requests : (Pending.number x.arrivals (f.classified queue.waiting)).map (·.request) =
      queue.waiting := by
    simp [Pending.requests_number, classified, Function.comp_def]
  have arrivals : (Pending.number x.arrivals (f.classified queue.waiting)).map (·.arrival) =
      List.range' x.arrivals queue.waiting.length := by
    rw [Pending.arrivals_number, classified, List.length_map]
  rw [← List.append_assoc] at joined
  rw [intake_eq]
  constructor
  · simpa only [List.map_append, requests] using joined.map (·.request)
  · simpa only [List.map_append, arrivals] using joined.map (·.arrival)

/-- The tasks that a dispatcher starts send what it has sent, and its own one waits for what it has chosen
or has ended. -/
theorem tasks_of_worked {there : List Pending} {finished : List (Completion Result)}
    (next : e.next? = some (number, .serve d chosen))
    (worked : Worked there d e.tasks.length x queue chosen t ds chosen' x' queue' dispatches)
    (goesOn : standing t.next = some (.serve d chosen') ∨ standing t.next = none ∧ chosen' = none)
    (left : Leaves e.now t.shared
      (e.tasks.set number (standing t.next) ++ (spawned t.effects).map some) finished e') :
    selected d e' + chosen.toList.length = selected d e + chosen'.toList.length ∧
      unfinished d e' = unfinished d e + dispatches.length := by
  have stands := task?_of_next? next
  have shares : share (Job.selects d) (standing t.next) = chosen'.toList.length ∧
      share (Job.sendsFor d) (standing t.next) = 0 := by
    rcases goesOn with same | ⟨ended, none⟩
    · rw [same]
      exact ⟨selects_serve d chosen', rfl⟩
    · rw [ended, none]
      exact ⟨rfl, rfl⟩
  have startedSelects : ((spawned t.effects).map (Job.selects d)).sum = 0 := by
    rw [worked.effects, spawned_sendAll, List.map_map]
    exact List.sum_eq_zero (by simp [Job.selects])
  have startedSends : ((spawned t.effects).map (Job.sendsFor d)).sum = dispatches.length := by
    rw [worked.effects, spawned_sendAll, List.map_map]
    simp [Function.comp_def, Job.sendsFor]
  have selected' := total_set (Job.selects d) stands (standing t.next)
  have unfinished' := total_set (Job.sendsFor d) stands (standing t.next)
  simp only [share_some, shares.1, shares.2, selects_serve] at selected' unfinished'
  constructor
  · rw [selected, selected, left.tasks, total_append, startedSelects]
    omega
  · rw [unfinished, unfinished, left.tasks, total_append, startedSends]
    simp only [Job.sendsFor] at unfinished'
    omega

/-- A dispatcher that has gone through its queue. -/
theorem Booked.worked {finished : List (Completion Result)} (h : Booked d hs e x)
    (there : e.shared.schedulers[d]? = some queue)
    (next : e.next? = some (number, .serve d chosen))
    (worked : Worked (e.shared.intake x queue).pending d e.tasks.length x queue chosen t
      (Moment.deeds d (e, .turn)) chosen' x' queue' dispatches)
    (goesOn : standing t.next = some (.serve d chosen') ∨ standing t.next = none ∧ chosen' = none)
    (left : Leaves e.now t.shared
      (e.tasks.set number (standing t.next) ++ (spawned t.effects).map some) finished e') :
    Booked d (hs ++ [(e, .turn)]) e' x' := by
  have own : IsTurnOf d e .turn := ⟨rfl, number, chosen, next⟩
  have mail : e.shared.inbox d = queue.waiting := by simp [inbox, there]
  have emptied : e'.shared.inbox d = [] := by
    rw [left.shared.inbox d]
    simp [inbox, worked.scheduler, worked.mail]
  rcases perm_intake e.shared x queue (takings (log d hs)) with ⟨requests, arrivals⟩
  rcases tasks_of_worked next worked goesOn left with ⟨selected', unfinished'⟩
  have taken : takings (log d (hs ++ [(e, .turn)])) ++ x'.pending =
      takings (log d hs) ++ (e.shared.intake x queue).pending := by
    rw [log_snoc, takings_append, List.append_assoc, worked.takings]
  have sent : (sendings (Moment.deeds d (e, .turn))).length = dispatches.length := by
    rw [worked.sendings, List.length_zipIdx]
  refine ⟨left.dispatcher worked.dispatcher, ?_, ?_, ?_, ?_, ?_, ?_, ?_⟩
  · rw [left.shared.watch?_isSome d, watch?_of_scheduler worked.scheduler]
    rfl
  · rw [registrations_snoc, registration?_of_turn own, taken, emptied, arriving_none,
      List.append_nil, List.append_nil]
    have came := h.came
    rw [mail] at came
    exact came.trans requests.symm
  · -- the numbers that are given out now follow those that were given out before
    rw [taken, worked.arrivals, List.range_eq_range', ← List.range'_append_1, Nat.zero_add]
    have grown := h.numbers.append_right (List.range' x.arrivals queue.waiting.length)
    rw [List.range_eq_range'] at grown
    exact arrivals.trans grown
  · have requests := congrArg List.length worked.orderly.requests
    have before := h.chosen
    simp only [List.length_append, List.length_map, Option.toList_map] at requests
    rw [log_snoc, takings_append, sendings_append, List.length_append, List.length_append]
    omega
  · rw [worked.metrics]
  · rw [worked.metrics, log_snoc, sendings_append, List.length_append, sent, ← h.dispatched]
  · have counted : x'.metrics.settled = x.metrics.settled := by
      rw [worked.metrics]
      rfl
    calc x'.metrics.dispatched
      _ = x.metrics.dispatched + dispatches.length := by rw [worked.metrics]
      _ = x.metrics.settled + unfinished d e + dispatches.length := by rw [h.outcomes]
      _ = x'.metrics.settled + unfinished d e' := by rw [counted, unfinished', Nat.add_assoc]

/-- A dispatcher that still waits for tokens. -/
theorem Booked.still {finished : List (Completion Result)} {c c' : Chosen} (h : Booked d hs e x)
    (next : e.next? = some (number, .serve d (some c)))
    (quiet : Moment.deeds d (e, .turn) = []) (dispatchers : t.shared.dispatchers = e.shared.dispatchers)
    (schedulers : t.shared.schedulers = e.shared.schedulers) (effects : t.effects = [])
    (goesOn : standing t.next = some (.serve d (some c')))
    (left : Leaves e.now t.shared
      (e.tasks.set number (standing t.next) ++ (spawned t.effects).map some) finished e') :
    Booked d (hs ++ [(e, .turn)]) e' x := by
  have own : IsTurnOf d e .turn := ⟨rfl, number, _, next⟩
  have watched : t.shared.watch? d = e.shared.watch? d := by simp [watch?, schedulers]
  have mail : t.shared.inbox d = e.shared.inbox d := by simp [inbox, schedulers]
  have tasks : e'.tasks = e.tasks.set number (some (.serve d (some c'))) := by
    rw [left.tasks, effects, goesOn]
    exact List.append_nil _
  have stands := task?_of_next? next
  have selected' := total_set (Job.selects d) stands (some (.serve d (some c')))
  have unfinished' := total_set (Job.sendsFor d) stands (some (.serve d (some c')))
  simp only [share_some, selects_serve] at selected'
  refine h.pauses ⟨?_, .inl rfl, rfl, rfl, rfl, rfl, ?_, ?_⟩ ?_ ?_ quiet
  · rw [left.shared.dispatchers, dispatchers]
    exact h.dispatcher
  · rw [unfinished, unfinished, tasks]
    simpa [Job.sendsFor] using unfinished'
  · rw [Fetcher.selected, Fetcher.selected, tasks]
    simpa using selected'
  · rw [left.shared.watch?_isSome d, watched]
  · rw [registration?_of_turn own, left.shared.inbox d, mail, arriving_none, List.append_nil]

/-- What a turn of a dispatcher comes to, and what it leaves. -/
theorem labours_of_step (h : Booked d hs e x) (step : Step program e .turn e')
    (next : e.next? = some (number, .serve d chosen)) :
    ∃ queue t, e.shared.schedulers[d]? = some queue ∧
      Labours e.shared number d e.tasks.length x queue chosen t (Moment.deeds d (e, .turn)) ∧
      Closes program t.shared e' ∧
      Leaves e.now t.shared (e.tasks.set number (standing t.next) ++ (spawned t.effects).map some)
        (e.recorded number t.next) e' := by
  rcases (moves_of_step step).of_next rfl next with ⟨t, went, left⟩
  rcases Option.isSome_iff_exists.1 h.scheduler with ⟨_, watched⟩
  rcases Option.map_eq_some_iff.1 watched with ⟨queue, there, _⟩
  refine ⟨queue, t, there, ?_, closes_of_turn step next went, left⟩
  rw [deeds_of_next next]
  exact labours h.dispatcher there went e.tasks.length

/-- The accounts are kept by every move that leaves the dispatcher at work. -/
theorem booked_of_step (h : Booked d hs e x) (crews : ∀ id, Crewed id e) (step : Step program e l e')
    (apart : Moment.leavesAlone d (e, l) = true) : ∃ x', Booked d (hs ++ [(e, l)]) e' x' := by
  by_cases own : IsTurnOf d e l
  · rcases own with ⟨rfl, number, chosen, next⟩
    rcases labours_of_step h step next with ⟨queue, t, there, labours, _, left⟩
    cases labours with
    | still same quiet dispatchers schedulers effects goesOn _ =>
        subst same
        exact ⟨x, h.still next quiet dispatchers schedulers effects goesOn left⟩
    | waits worked goesOn _ _ _ =>
        exact ⟨_, h.worked there next worked (.inl goesOn) left⟩
    | stops worked ended _ _ _ _ =>
        exact ⟨_, h.worked there next worked (.inr ⟨by rw [ended]; rfl, rfl⟩) left⟩
  · rcases pauses_of_step crews step apart own h.dispatcher with ⟨x', pauses⟩
    exact ⟨x', h.pauses pauses (watch?_isSome_of_step crews step apart own)
      (inbox_of_step crews step apart own) (deeds_of_other own)⟩

/-! ## Runs -/

variable {bucket : Bucket} {groups : List Group} {blocks : List (Key × Bytes)} {costs : List UInt64}
  {start : Instant}

/-- The accounts of a new dispatcher are empty. -/
theorem booked_opening (known : d < costs.length) :
    ∃ x, Booked d [] (opening start (ofDispatchers bucket groups blocks costs)) x := by
  refine ⟨{ cost := costs[d] }, ?_, ?_, ?_, .refl _, rfl, rfl, rfl, rfl⟩
  · simp [opening, ofDispatchers, known]
  · simp [opening, ofDispatchers, watch?, known]
  · have empty : (opening start (ofDispatchers bucket groups blocks costs)).shared.inbox d = [] := by
      simp [opening, ofDispatchers, inbox, known]
    rw [empty]
    exact .refl _

/-- The accounts of a dispatcher are right in every state of a run. -/
theorem booked_of_history
    (history : History program (opening start (ofDispatchers bucket groups blocks costs)) hs e)
    (known : d < costs.length) (apart : ∀ m ∈ hs, Moment.leavesAlone d m = true) :
    ∃ x, Booked d hs e x := by
  have books := history.invariant
    (I := fun hs e => (∀ id, Crewed id e) ∧ ∃ x, Booked d hs e x)
    (A := fun m => Moment.leavesAlone d m = true) ?_ apart
    ⟨fun id => crewed_opening id bucket groups blocks costs start, booked_opening known⟩
  · exact books.2
  · intro hs e l e' sofar step alone
    rcases sofar with ⟨crews, x, booked⟩
    exact ⟨fun id => crewed_of_step (crews id) step, booked_of_step booked crews step alone⟩

/-- A dispatcher has no more than one request that it has chosen and not yet sent. -/
theorem selected_le_one (h : Booked d hs e x) (ledger : Ledger d (log d hs) e) : selected d e ≤ 1 := by
  rcases ledger.orderly with ⟨c, orderly, _⟩
  have requests := congrArg List.length orderly.requests
  have left : c.toList.length ≤ 1 := by cases c <;> simp
  have chosen := h.chosen
  simp only [List.length_append, List.length_map, Option.toList_none, List.length_nil] at requests
  omega

/-- In every run, a dispatcher that is left alone loses no request and counts none twice. What was
registered with it is in its mail, waits in its queue, is the one that it has chosen and not yet sent, or
was sent. The numbers by which it tells requests apart are never used twice, the gauge shows how many
wait, and what was sent has been counted by its outcome or is under way. -/
theorem dispatcher_accounts
    (history : History program (opening start (ofDispatchers bucket groups blocks costs)) hs e)
    (known : d < costs.length) (apart : ∀ m ∈ hs, Moment.leavesAlone d m = true) :
    ∃ x, e.shared.dispatchers[d]? = some x ∧
      ((registrations d hs).length = (e.shared.inbox d).length + x.pending.length + selected d e +
          (sendings (log d hs)).length ∧
        selected d e ≤ 1) ∧
      (((takings (log d hs) ++ x.pending).map (·.arrival)).Nodup ∧
        ∀ y ∈ takings (log d hs) ++ x.pending, y.arrival < x.arrivals) ∧
      x.metrics.queued = x.pending.length ∧
      x.metrics.dispatched = (sendings (log d hs)).length ∧
      x.metrics.dispatched = x.metrics.succeeded + x.metrics.retried + x.metrics.failed +
        x.metrics.cancelled + unfinished d e := by
  rcases booked_of_history history known apart with ⟨x, booked⟩
  have ledger := ledger_of_history (ledger_opening d _ _) history
  refine ⟨x, booked.dispatcher, ⟨?_, selected_le_one booked ledger⟩, ⟨?_, ?_⟩, booked.queued,
    booked.dispatched, booked.outcomes⟩
  · have came := booked.came.length_eq
    have chosen := booked.chosen
    simp only [List.length_append, List.length_map] at came
    omega
  · exact booked.numbers.nodup_iff.2 List.nodup_range
  · intro y member
    have number := booked.numbers.mem_iff.1 (List.mem_map_of_mem (f := (·.arrival)) member)
    exact List.mem_range.1 number

def revisited : List Moment × State :=
  follow program
    (opening 0 (ofDispatchers ⟨3, 3, 1000000, 0, 0, []⟩ [⟨.bulk, {}, .ofList [(.content, 0)]⟩]
      [(zeroKey, [97])] [3]))
    [.act (.script zeroKey (.fault (.classified .transferFailed))) (),
      -- the first request comes back by its own retry while the dispatcher waits for tokens
      .act (.create 0 zeroKey 2 {}) (), .act (.create 0 zeroKey 0 {}) (), .act (.schedule 0) (),
      .act (.schedule 1) (), .act (.schedule 1) (), .act (.start 0) (), .turn, .turn]

theorem revisited_dispatcher_accounts :
    (∀ m ∈ revisited.1, Moment.leavesAlone 0 m = true) ∧ registrations 0 revisited.1 = [0, 1, 1, 0] ∧
      ∃ x, revisited.2.shared.dispatchers[0]? = some x ∧ revisited.2.shared.inbox 0 = [0] ∧
        x.pending = [⟨.bulk, 2, 1⟩] ∧ selected 0 revisited.2 = 1 ∧ x.metrics.retried = 1 ∧
        (registrations 0 revisited.1).length = (revisited.2.shared.inbox 0).length + x.pending.length +
          selected 0 revisited.2 + (sendings (log 0 revisited.1)).length := by
  have apart : ∀ m ∈ revisited.1, Moment.leavesAlone 0 m = true := by decide
  have run : History program _ revisited.1 revisited.2 := history_follow _ _
  rcases dispatcher_accounts run (d := 0) (by decide) apart with ⟨x, there, ⟨accounts, _⟩, _⟩
  obtain ⟨y, there', waits, once⟩ : ∃ y, revisited.2.shared.dispatchers[0]? = some y ∧
      y.pending = [⟨.bulk, 2, 1⟩] ∧ y.metrics.retried = 1 := ⟨_, rfl, rfl, rfl⟩
  cases there.symm.trans there'
  exact ⟨apart, by decide, x, there, by decide, waits, by decide, once, accounts⟩

end Fetcher
end MeteredFetch
