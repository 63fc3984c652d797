import MeteredFetch.Fetcher.Script
import MeteredFetch.Proofs.Executor.Rest
import MeteredFetch.Proofs.Fetcher.Reports

/-!
# Rounds — taking a request out of its queue and sending it

A scheduler without a dispatcher is emptied from outside. Each round takes the oldest request out and
starts a task that sends it. If nobody else is ready and the answer to the lookup is there at once, this
task has one turn, and the next round begins where it has ended.

* `Lookup.answer` — the answers to the searches for a key, and `Lookup.respond_eq` says that a search is
  given the next one;
* `Fetcher.Clear` — nothing stands in the way of a request;
* `Fetcher.Logs` — what has been recorded of attempts at a request, and `Fetcher.Concluded` is what one
  attempt leaves;
* `Fetcher.run_spawn` — a task that ends in its first turn, where nobody else is ready;
* `Fetcher.drain_of_waiting` — what a round comes to.
-/

namespace MeteredFetch

/-! ## Answers to come -/

namespace Lookup

def laidDown (l : Lookup) (key : Key) : List Response :=
  (l.scripted.filter fun entry => entry.1 == key).map Prod.snd

/-- The answer to a search for a key that comes after `n` others: the responses that are laid down are
given one after another, and then what is known of the key. -/
def answer (l : Lookup) (key : Key) (localOnly : Bool) (n : Nat) : Response :=
  (l.laidDown key)[n]?.getD (l.fallback key localOnly)

theorem filter_eq_nil_of_lookup {key : Key} {scripted : List (Key × Response)}
    (missing : scripted.lookup key = none) : (scripted.filter fun entry => entry.1 == key) = [] := by
  refine List.filter_eq_nil_iff.2 fun entry member => ?_
  have other := List.lookup_eq_none_iff.1 missing entry member
  simpa using Ne.symm (bne_iff_ne.1 other)

theorem filter_eq_cons_of_lookup {key : Key} {response : Response} {scripted : List (Key × Response)}
    (found : scripted.lookup key = some response) :
    (scripted.filter fun entry => entry.1 == key) =
      (key, response) :: ((scripted.eraseP fun entry => entry.1 == key).filter
        fun entry => entry.1 == key) := by
  induction scripted with
  | nil =>
      cases found
  | cons entry rest ih =>
      rcases entry with ⟨other, first⟩
      by_cases own : other = key
      · subst own
        rw [List.lookup_cons_self] at found
        cases found
        simp
      · have apart : (other == key) = false := beq_false_of_ne own
        have apart' : (key == other) = false := beq_false_of_ne (Ne.symm own)
        rw [List.lookup_cons, apart'] at found
        simpa [apart] using ih found

/-- A search is given the next answer, and leaves those that come after it. -/
theorem respond_eq (l : Lookup) (key : Key) (localOnly : Bool) :
    ∃ scripted, l.respond key localOnly = ({ l with scripted }, l.answer key localOnly 0) ∧
      ∀ n, ({ l with scripted } : Lookup).answer key localOnly n = l.answer key localOnly (n + 1) := by
  cases laid : l.scripted.lookup key with
  | some response =>
      have next : l.laidDown key =
          response :: ({ l with scripted := l.scripted.eraseP fun entry => entry.1 == key }
            : Lookup).laidDown key := by
        simp only [laidDown, filter_eq_cons_of_lookup laid, List.map_cons]
      refine ⟨l.scripted.eraseP fun entry => entry.1 == key, ?_, fun n => ?_⟩
      · simp only [respond, laid, answer, next]
        rfl
      · simp only [answer, next, List.getElem?_cons_succ]
        rfl
  | none =>
      have nothing : l.laidDown key = [] := by
        simp only [laidDown, filter_eq_nil_of_lookup laid, List.map_nil]
      refine ⟨l.scripted, ?_, fun n => ?_⟩
      · simp only [respond, laid, answer, nothing]
        rfl
      · simp only [answer, nothing]
        rfl

end Lookup

namespace Fetcher

open Executor

variable {id : RequestId} {d : SchedulerId} {r r' : Request} {waiting : List RequestId} {e e' e'' : State}
  {f g : Fetcher}

/-! ## The states between two attempts -/

/-- A queue that takes every request in, and in which nobody waits but these. Nobody listens to it. -/
structure IsOpenWith (waiting : List RequestId) (q : Scheduler) : Prop where
  waiting : q.waiting = waiting
  isOpen : q.reception = .accepting
  unattended : q.listener = none

namespace IsOpenWith

variable {q : Scheduler}

theorem push (h : IsOpenWith waiting q) (id : RequestId) : IsOpenWith (waiting ++ [id]) (q.push id) :=
  ⟨congrArg (· ++ [id]) h.waiting, h.isOpen, h.unattended⟩

theorem pop (h : IsOpenWith waiting q) : IsOpenWith waiting.tail q.pop.1 :=
  ⟨congrArg List.tail h.waiting, h.isOpen, h.unattended⟩

end IsOpenWith

/-- Nothing stands in the way of a request: its scheduler is open, and is emptied from outside; every
lookup is answered at once, and none cancels the request. -/
structure Clear (id : RequestId) (d : SchedulerId) (waiting : List RequestId) (f : Fetcher) : Prop where
  kept : f.forgotten = false
  scheduler : ∃ q, f.schedulers[d]? = some q ∧ IsOpenWith waiting q
  ungated : f.lookup.gated = false
  prompt : f.lookup.latency = 0
  unhooked : id ∉ f.lookup.hook

/-- Where nothing stands in the way of a request, it is accepted. -/
theorem Clear.route (clear : Clear id d waiting f) (bound : r.destination = .ok d) :
    f.route r = .ok .accepting := by
  rcases clear.scheduler with ⟨q, found, holds⟩
  simp [Fetcher.route, bound, found, holds.isOpen, bind, Except.bind, pure, Except.pure]

structure AtRest (e : State) : Prop where
  ready : e.ready = []
  known : ∀ a ∈ e.alarms, a.task < e.tasks.length

/-- Between two states nothing ended but attempts at a request, which came to these outcomes. Each of
them has looked up the key of the request, and used up the next answer. -/
structure Logs (id : RequestId) (r : Request) (e : State) (outcomes : List Outcome) (e' : State) :
    Prop where
  now : e'.now = e.now
  tasks : e'.tasks = e.tasks ++ List.replicate outcomes.length none
  calls : e'.shared.calls =
    (outcomes.mapIdx fun k _ => (⟨e.tasks.length + k, id, r.key, r.settings⟩ : Call)).reverse ++
      e.shared.calls
  finished : e'.finished =
    (outcomes.mapIdx fun k outcome =>
      (⟨e.tasks.length + k, .attempted id (.ok outcome), e.now⟩ : Completion Result)).reverse ++
      e.finished
  answers : ∀ n, e'.shared.lookup.answer r.key r.settings.localOnly n =
    e.shared.lookup.answer r.key r.settings.localOnly (outcomes.length + n)

theorem Logs.refl (id : RequestId) (r : Request) (e : State) : Logs id r e [] e := by
  refine ⟨rfl, ?_, rfl, rfl, fun n => ?_⟩
  · simp
  · simp

/-- Two logs one after another are one log. -/
theorem Logs.trans {outcomes outcomes' : List Outcome} (h : Logs id r e outcomes e')
    (h' : Logs id r e' outcomes' e'') : Logs id r e (outcomes ++ outcomes') e'' := by
  have count : e'.tasks.length = e.tasks.length + outcomes.length := by
    rw [h.tasks, List.length_append, List.length_replicate]
  refine ⟨h'.now.trans h.now, ?_, ?_, ?_, fun n => ?_⟩
  · rw [h'.tasks, h.tasks, List.append_assoc, List.replicate_append_replicate, List.length_append]
  · rw [h'.calls, h.calls, List.mapIdx_append, List.reverse_append, List.append_assoc, count]
    simp only [Nat.add_assoc, Nat.add_comm outcomes.length]
  · rw [h'.finished, h.finished, List.mapIdx_append, List.reverse_append, List.append_assoc, count, h.now]
    simp only [Nat.add_assoc, Nat.add_comm outcomes.length]
  · rw [h'.answers, h.answers, List.length_append, Nat.add_assoc]

/-- Of a request, only what it asks for is in the records. -/
theorem Logs.congr {outcomes : List Outcome} (h : Logs id r' e outcomes e') (key : r'.key = r.key)
    (settings : r'.settings = r.settings) : Logs id r e outcomes e' := by
  have calls := h.calls
  have answers := h.answers
  rw [key, settings] at calls answers
  exact ⟨h.now, h.tasks, calls, h.finished, answers⟩

structure Concluded (id : RequestId) (d : SchedulerId) (r : Request) (c : Conclusion) (outcome : Outcome)
    (e e' : State) : Prop where
  rest : AtRest e'
  clear : Clear id d (if c.registered then [id] else []) e'.shared
  request : e'.shared.requests[id]? = some c.request
  notices : e'.shared.notices = c.notice.toList.map (fun n => (id, n)) ++ e.shared.notices
  logs : Logs id r e [outcome] e'

/-! ## From outside -/

/-- A sweep has nothing to note as long as requests can be made. -/
theorem sweep_of_kept (kept : e.shared.forgotten = false) : e.sweep program = e := by
  simp [Executor.sweep, program, Fetcher.sweep, kept]

/-- An action that asks nothing of the executor. -/
theorem act_of_perform {action : Action} {answer : Answer}
    (performed : perform e.now e.tasks.length action e.shared = .ok ⟨g, [], answer⟩)
    (kept : g.forgotten = false) : e.act program action = .ok ({ e with shared := g }, answer) := by
  have reacts : program.perform e.now e.tasks.length action e.shared = .ok ⟨g, [], answer⟩ := performed
  have still := sweep_of_kept (e := { e with shared := g }) kept
  unfold act
  rw [reacts]
  exact congrArg (fun x => Except.ok (x, answer)) still

/-- The oldest request that waits is taken out. -/
theorem act_pop (clear : Clear id d waiting e.shared) :
    ∃ schedulers, e.act program (.pop d) =
        .ok ({ e with shared := { e.shared with schedulers } }, .popped waiting.head?) ∧
      Clear id d waiting.tail { e.shared with schedulers } := by
  rcases clear.scheduler with ⟨q, found, holds⟩
  refine ⟨e.shared.schedulers.modify d fun _ => q.pop.1, act_of_perform ?_ clear.kept, clear.kept,
    ⟨q.pop.1, ?_, holds.pop⟩, clear.ungated, clear.prompt, clear.unhooked⟩
  · simp [perform, Fetcher.pop, clear.kept, found, Scheduler.pop, holds.waiting, modifyScheduler]
  · simp [found]

/-- A task is started that sends the request. -/
theorem act_send (kept : e.shared.forgotten = false) (found : e.shared.requests[id]? = some r) :
    e.act program (.send id) = .ok (e.spawn (.send id .fresh), .done) := by
  have reacts : program.perform e.now e.tasks.length (.send id) e.shared =
      .ok ⟨e.shared, [.spawn (.send id .fresh)], .done⟩ := by
    simp [program, perform, startJob, request?, kept, found]
  have still := sweep_of_kept (e := e.spawn (.send id .fresh)) kept
  unfold act
  rw [reacts]
  exact congrArg (fun x => Except.ok (x, Answer.done)) still

/-- A task that sends the request is launched. -/
theorem launch_send {s : Session Fetcher Job Result} (kept : s.executor.shared.forgotten = false)
    (found : s.executor.shared.requests[id]? = some r) :
    s.launch program (.send id) =
      .ok ({ s with
        executor := s.executor.spawn (.send id .fresh)
        launched := s.launched ++ [s.executor.tasks.length] }, some s.launched.length) := by
  have grown : s.executor.tasks.length < (s.executor.spawn (.send id .fresh)).tasks.length := by
    simp [spawn]
  simp only [Session.launch, act_send kept found, bind, Except.bind, grown, if_true]
  rfl

/-! ## Turns -/

theorem getElem?_foldl_cancelRequest {ids : List RequestId} (apart : id ∉ ids) (f : Fetcher) :
    (ids.foldl cancelRequest f).requests[id]? = f.requests[id]? := by
  induction ids generalizing f with
  | nil =>
      rfl
  | cons other rest ih =>
      have ne : other ≠ id := fun same => apart (same ▸ List.mem_cons_self)
      rw [List.foldl_cons, ih fun member => apart (List.mem_cons_of_mem other member)]
      simp [cancelRequest, ne]

/-- A search that does not cancel its own request. -/
theorem search_eq (unhooked : id ∉ f.lookup.hook) (found : f.requests[id]? = some r) (task : TaskId)
    (r' : Request) :
    ∃ requests scripted, (f.setRequest id r').search task id r' =
        ({ f with
            requests
            lookup := { f.lookup with scripted }
            calls := ⟨task, id, r'.key, r'.settings⟩ :: f.calls },
          f.lookup.answer r'.key r'.settings.localOnly 0) ∧
      requests[id]? = some r' ∧
      ∀ n, ({ f.lookup with scripted } : Lookup).answer r'.key r'.settings.localOnly n =
        f.lookup.answer r'.key r'.settings.localOnly (n + 1) := by
  rcases Lookup.respond_eq f.lookup r'.key r'.settings.localOnly with ⟨scripted, response, further⟩
  have inside : id < f.requests.length := (List.getElem?_eq_some_iff.1 found).1
  have given : (f.setRequest id r').lookup.respond r'.key r'.settings.localOnly =
      ({ f.lookup with scripted }, f.lookup.answer r'.key r'.settings.localOnly 0) := response
  unfold search
  simp only [given]
  generalize hooked : ({ f.lookup with scripted } : Lookup).hook.filter _ = matched
  -- the request is none of those that the search cancels
  have apart : id ∉ matched := by
    rw [← hooked]
    exact fun member => unhooked (List.mem_filter.1 member).1
  generalize begun : ({ f.setRequest id r' with
    lookup := { f.lookup with scripted }
    calls := ⟨task, id, r'.key, r'.settings⟩ :: (f.setRequest id r').calls } : Fetcher) = g
  rcases foldl_cancelRequest matched g with ⟨requests, same, _⟩
  have own := getElem?_foldl_cancelRequest apart g
  rw [same] at own ⊢
  subst begun
  exact ⟨requests, scripted, rfl, own.trans (List.getElem?_set_self inside), further⟩

/-- The turn of an attempt whose lookup is answered at once. -/
theorem send_of_lookup (clear : Clear id d waiting f) (found : f.requests[id]? = some r)
    (begins : r.beginSend = .lookup r') (now : Instant) (task : TaskId) :
    ∃ requests scripted, f.send now task id .fresh =
        ({ f with
            requests
            lookup := { f.lookup with scripted }
            calls := ⟨task, id, r'.key, r'.settings⟩ :: f.calls } : Fetcher).arrive id r'
          (f.lookup.answer r'.key r'.settings.localOnly 0) ∧
      requests[id]? = some r' ∧
      ∀ n, ({ f.lookup with scripted } : Lookup).answer r'.key r'.settings.localOnly n =
        f.lookup.answer r'.key r'.settings.localOnly (n + 1) := by
  rcases search_eq clear.unhooked found task r' with ⟨requests, scripted, searched, own, further⟩
  refine ⟨requests, scripted, ?_, own, further⟩
  simp only [send, found, begins, searched]
  simp [await, clear.ungated, clear.prompt, own]

/-- An attempt whose response has arrived, if its scheduler is open. -/
theorem arrive_eq (clear : Clear id d [] f) (route : r.destination = .ok d)
    {response : Response} {c : Conclusion} (concludes : r.conclude (.ok .accepting) response = c)
    (same : c.request.destination = .ok d) :
    ∃ schedulers, f.arrive id r response =
        ({ f with
            requests := f.requests.set id c.request
            notices := c.notice.toList.map (fun n => (id, n)) ++ f.notices
            schedulers }, [], .finish c.outcome) ∧
      ∃ q, schedulers[d]? = some q ∧ IsOpenWith (if c.registered then [id] else []) q := by
  rcases clear.scheduler with ⟨q, there, holds⟩
  unfold arrive finish adopt
  rw [clear.route route, concludes]
  cases registered : c.registered with
  | true =>
      -- nobody listens to the scheduler, so nobody is woken
      refine ⟨f.schedulers.modify d (·.push id), ?_, q.push id, ?_, holds.push id⟩
      · simp [enlist, same, modifyScheduler, setRequest, there, holds.unattended]
      · simp [there]
  | false =>
      refine ⟨f.schedulers, ?_, q, there, holds⟩
      simp [setRequest]

def completed (e : State) (g : Fetcher) (result : Result) : State :=
  { e with
    shared := g
    tasks := e.tasks ++ [none]
    ready := []
    alarms := e.alarms.filter fun a => a.task != e.tasks.length
    finished := ⟨e.tasks.length, result, e.now⟩ :: e.finished }

/-- A task that has come and gone disturbs nobody's rest. -/
theorem AtRest.completed (rest : AtRest e) (g : Fetcher) (result : Result) :
    AtRest (completed e g result) := by
  refine ⟨rfl, fun a member => ?_⟩
  have before := rest.known a (List.mem_filter.1 member).1
  simp only [Fetcher.completed, List.length_append, List.length_singleton]
  exact Nat.lt_succ_of_lt before

/-- If nobody is ready, a task that starts has its turn and no other task has one. -/
theorem run_spawn (rest : AtRest e) {job : Job} {result : Result}
    (turned : turn e.now e.tasks.length job e.shared = .ok ⟨g, [], .finish result⟩)
    (kept : g.forgotten = false) : (e.spawn job).run program = .ok (completed e g result) := by
  have first : (e.spawn job).ready = [e.tasks.length] := by
    simp [spawn, rest.ready]
  have busy : (e.spawn job).ready ≠ [] := by
    rw [first]
    exact List.cons_ne_nil _ _
  have stands : (e.spawn job).task? e.tasks.length = some job := by
    simp [spawn, task?]
  -- its number is new, so no alarm is set for it
  have silent : e.alarms.find? (fun a => a.task == e.tasks.length) = none := by
    refine List.find?_eq_none.2 fun a member => ?_
    simpa using Nat.ne_of_lt (rest.known a member)
  have awake : (e.spawn job).sleepsOn e.tasks.length = false := by
    simp [sleepsOn, alarm?, spawn, silent]
  refine run_of_turn busy ((turn_of_first first awake stands turned).trans ?_) rfl
  rw [carryOutAll, List.foldl_nil, sweep_of_kept kept]
  simp [completed, proceed, clearAlarm, spawn]

/-- The task that sends a request has its turn, and no other task has one. -/
theorem run_send (clear : Clear id d [] e.shared) (rest : AtRest e)
    (found : e.shared.requests[id]? = some r) (begins : r.beginSend = .lookup r')
    (route : r'.destination = .ok d) {c : Conclusion}
    (concludes : r'.conclude (.ok .accepting)
      (e.shared.lookup.answer r'.key r'.settings.localOnly 0) = c)
    (same : c.request.destination = .ok d) {outcome : Outcome} (comes : c.outcome = .ok outcome) :
    ∃ e', (e.spawn (.send id .fresh)).run program = .ok e' ∧ Concluded id d r' c outcome e e' := by
  rcases send_of_lookup clear found begins e.now e.tasks.length with
    ⟨requests, scripted, sent, own, further⟩
  generalize searched : ({ e.shared with
    requests
    lookup := { e.shared.lookup with scripted }
    calls := ⟨e.tasks.length, id, r'.key, r'.settings⟩ :: e.shared.calls } : Fetcher) = g at sent
  have clear' : Clear id d [] g := by
    rw [← searched]
    exact ⟨clear.kept, clear.scheduler, clear.ungated, clear.prompt, clear.unhooked⟩
  rcases arrive_eq clear' route concludes same with ⟨schedulers, arrived, scheduler⟩
  generalize left : ({ g with
    requests := g.requests.set id c.request
    notices := c.notice.toList.map (fun n => (id, n)) ++ g.notices
    schedulers } : Fetcher) = g' at arrived
  have kept : g'.forgotten = false := by
    rw [← left]
    exact clear'.kept
  -- one turn takes the send from its search to its end, since nothing holds it up
  have turned : turn e.now e.tasks.length (.send id .fresh) e.shared =
      .ok ⟨g', [], .finish (.attempted id (.ok outcome))⟩ := by
    simp only [turn, sent, arrived, Next.map, comes]
  subst left
  refine ⟨_, run_spawn rest turned kept, rest.completed _ _,
    ⟨clear'.kept, scheduler, clear'.ungated, clear'.prompt, clear'.unhooked⟩, ?_, ?_, ?_⟩
  · subst searched
    exact List.getElem?_set_self (List.getElem?_eq_some_iff.1 own).1
  · subst searched
    rfl
  · subst searched
    refine ⟨rfl, rfl, rfl, rfl, fun n => ?_⟩
    rw [List.length_singleton, Nat.add_comm]
    exact further n

/-! ## Rounds -/

open Script (drain)

/-- A round takes a request out, sends it, and lets the task that does this come to rest. -/
theorem drain_succ {s s' : Session Fetcher Job Result} {number : Option Nat}
    (popped : s.executor.act program (.pop d) = .ok (e, .popped (some id)))
    (started : ({ s with executor := e } : Session Fetcher Job Result).launch program (.send id) =
      .ok (s', number))
    (ran : s'.executor.run program = .ok e') (limit : Nat) :
    drain d (limit + 1) s =
      (drain d limit { s' with executor := e' }).map fun x => (x.1, id :: x.2) := by
  rw [drain]
  simp only [popped, started, ran, Session.settle, bind, Except.bind, pure, Except.pure,
    Bool.false_eq_true, if_false]
  cases drain d limit { s' with executor := e' } with
  | error panic =>
      rfl
  | ok result =>
      rfl

/-- Where nothing waits, nothing more is done. -/
theorem drain_of_nil {s : Session Fetcher Job Result}
    (popped : s.executor.act program (.pop d) = .ok (e, .popped none)) (limit : Nat) :
    drain d (limit + 1) s = .ok ({ s with executor := e }, []) := by
  rw [drain]
  simp only [popped, bind, Except.bind]
  rfl

/-- What a round comes to. -/
theorem drain_of_waiting {s : Session Fetcher Job Result} (clear : Clear id d [id] s.executor.shared)
    (rest : AtRest s.executor) (found : s.executor.shared.requests[id]? = some r)
    (begins : r.beginSend = .lookup r') (route : r'.destination = .ok d) {c : Conclusion}
    (concludes : r'.conclude (.ok .accepting)
      (s.executor.shared.lookup.answer r'.key r'.settings.localOnly 0) = c)
    (same : c.request.destination = .ok d) {outcome : Outcome} (comes : c.outcome = .ok outcome) :
    ∃ s' : Session Fetcher Job Result,
      (∀ limit, drain d (limit + 1) s = (drain d limit s').map fun x => (x.1, id :: x.2)) ∧
        Concluded id d r' c outcome s.executor s'.executor := by
  rcases act_pop clear with ⟨schedulers, popped, empty⟩
  have atRest : AtRest { s.executor with shared := { s.executor.shared with schedulers } } :=
    ⟨rest.ready, rest.known⟩
  rcases run_send empty atRest found begins route concludes same comes with ⟨e', ran, sent⟩
  have logs := sent.logs
  exact ⟨_, drain_succ popped (launch_send empty.kept found) ran, sent.rest, sent.clear, sent.request,
    sent.notices, ⟨logs.now, logs.tasks, logs.calls, logs.finished, logs.answers⟩⟩

end Fetcher
end MeteredFetch
