import MeteredFetch.Proofs.Fetcher.Watch

/-!
# Reach — who could still register a request with a scheduler

Once the schedulers were let go, requests are registered by requests that something still holds. None is
made any more, and what is held was held before. So a scheduler that can be reached no longer is never
reached again.

* `Fetcher.binds` — whether the group of a request binds a scheduler;
* `Fetcher.Shelters` — a request that waits somewhere, or is named by the lookup;
* `Fetcher.Dwindles` — a change after which no request waits that did not wait before, save those that
  the change began with;
* `Fetcher.dwindles_of_turn`, `Fetcher.dwindles_of_perform` — turns and actions do no more than this;
* `Fetcher.Shrinks`, `Fetcher.shrinks_of_step` — what is held after a move was held before;
* `Fetcher.unreachable_of_step` — what cannot be reached is never reached again;
* `Fetcher.watch?_sweep`, `Fetcher.mem_sweep` — a sweep notes that, and names who listens.
-/

namespace MeteredFetch
namespace Fetcher

open Executor

def binds (f : Fetcher) (d : SchedulerId) (id : RequestId) : Bool :=
  (f.requests[id]?).any fun r => r.group.bindings.serves d

/-- A request waits in a scheduler or at a dispatcher, or is named by the lookup. -/
def Shelters (f : Fetcher) (id : RequestId) : Prop :=
  (∃ q ∈ f.schedulers, id ∈ q.waiting) ∨
    (∃ x ∈ f.dispatchers, id ∈ x.pending.map (·.request)) ∨ id ∈ f.lookup.hook

variable {f g g' : Fetcher} {d : Nat} {id other : RequestId} {own own' : List RequestId}
  {tasks : List (Option Job)} {now : Instant} {task : TaskId} {job job' : Job} {t : Turned}
  {e e' : State} {l : Label Action Answer}

/-- A request is held by a task, or it waits somewhere. -/
theorem mem_held : id ∈ f.held tasks ↔
    (∃ job, some job ∈ tasks ∧ id ∈ job.held) ∨ Shelters f id := by
  have working : (∃ x, x ∈ tasks ∧ id ∈ (x.map Job.held).getD []) ↔
      ∃ job, some job ∈ tasks ∧ id ∈ job.held := by
    constructor
    · rintro ⟨x, member, held⟩
      cases x with
      | none =>
          cases held
      | some job =>
          exact ⟨job, member, held⟩
    · rintro ⟨job, member, held⟩
      exact ⟨some job, member, held⟩
  simp only [held, List.mem_append, List.mem_flatMap, working, Shelters, or_assoc]

/-- A scheduler is out of reach once nobody makes requests and none that is held is bound to it. -/
theorem isReachable_eq_false_iff : f.isReachable tasks d = false ↔
    f.forgotten = true ∧ ∀ id ∈ f.held tasks, f.binds d id = false := by
  simp [isReachable, binds]

/-! ## What waits -/

/-- No request waits that did not wait before, save some that are known. None is made, and the schedulers
are let go as before. -/
structure Dwindles (own : List RequestId) (f g : Fetcher) : Prop where
  forgotten : g.forgotten = f.forgotten
  requests : g.requests.length = f.requests.length
  shelters : ∀ {id}, Shelters g id → id ∈ own ∨ Shelters f id

namespace Dwindles

/-- Neither a queue nor the lookup is changed. -/
theorem of_eq (forgotten : g.forgotten = f.forgotten)
    (requests : g.requests.length = f.requests.length) (schedulers : g.schedulers = f.schedulers)
    (dispatchers : g.dispatchers.map (·.pending) = f.dispatchers.map (·.pending))
    (hook : g.lookup.hook = f.lookup.hook) : Dwindles own f g := by
  refine ⟨forgotten, requests, fun {id} shelters => .inr ?_⟩
  have waits : ∀ h : Fetcher, (∃ x ∈ h.dispatchers, id ∈ x.pending.map (·.request)) ↔
      ∃ pending ∈ h.dispatchers.map (·.pending), id ∈ pending.map (·.request) := by
    intro h
    simp
  unfold Shelters at shelters ⊢
  rw [waits, schedulers, dispatchers, hook, ← waits] at shelters
  exact shelters

theorem refl (own : List RequestId) (f : Fetcher) : Dwindles own f f :=
  of_eq rfl rfl rfl rfl rfl

/-- What dwindles twice has dwindled. -/
theorem trans (h : Dwindles own f g) (h' : Dwindles own g g') : Dwindles own f g' := by
  refine ⟨h'.forgotten.trans h.forgotten, h'.requests.trans h.requests, fun shelters => ?_⟩
  rcases h'.shelters shelters with new | old
  · exact .inl new
  · exact h.shelters old

/-- A queue is changed in which only known requests are new. -/
theorem modifyScheduler (f : Fetcher) (s : SchedulerId) {change : Scheduler → Scheduler}
    (waiting : ∀ q, ∀ id ∈ (change q).waiting, id ∈ own ∨ id ∈ q.waiting) :
    Dwindles own f (f.modifyScheduler s change) := by
  refine ⟨rfl, rfl, fun {id} shelters => ?_⟩
  rcases shelters with ⟨q, member, there⟩ | others
  · rcases List.mem_iff_getElem?.1 member with ⟨i, found⟩
    have changed : (f.schedulers.modify s change)[i]? = some q := found
    rw [List.getElem?_modify] at changed
    rcases Option.map_eq_some_iff.1 changed with ⟨q', before, same⟩
    have old : id ∈ q'.waiting → id ∈ own ∨ Shelters f id :=
      fun waits => .inr (.inl ⟨q', List.mem_of_getElem? before, waits⟩)
    split at same
    · subst same
      rcases waiting q' id there with new | waits
      · exact .inl new
      · exact old waits
    · subst same
      exact old there
  · exact .inr (.inr others)

/-- A dispatcher that retires leaves fewer requests waiting. -/
theorem retire (f : Fetcher) (d : Nat) : Dwindles own f (f.retire d) := by
  have dropped : Dwindles own f (f.modifyDispatcher d Dispatcher.retire) := by
    refine ⟨rfl, rfl, fun {id} shelters => .inr ?_⟩
    rcases shelters with waits | ⟨x, member, there⟩ | named
    · exact .inl waits
    · rcases List.mem_iff_getElem?.1 member with ⟨i, found⟩
      have changed : (f.dispatchers.modify d Dispatcher.retire)[i]? = some x := found
      rw [List.getElem?_modify] at changed
      rcases Option.map_eq_some_iff.1 changed with ⟨x', before, same⟩
      split at same
      · -- nothing waits at a dispatcher that is at work no more
        subst same
        cases there
      · subst same
        exact .inr (.inl ⟨_, List.mem_of_getElem? before, there⟩)
    · exact .inr (.inr named)
  exact dropped.trans (modifyScheduler _ d fun q id member => by cases member)

end Dwindles

/-- A sweep has nobody wait. -/
theorem Swept.dwindles (h : Swept f g) : Dwindles own f g := by
  rcases h with ⟨schedulers, rfl, kept⟩
  refine ⟨rfl, rfl, fun {id} shelters => .inr ?_⟩
  rcases shelters with ⟨q, member, there⟩ | others
  · have seen : mail q ∈ f.schedulers.map mail := by
      rw [← kept]
      exact List.mem_map_of_mem member
    rcases List.mem_map.1 seen with ⟨q', before, same⟩
    refine .inl ⟨q', before, ?_⟩
    have waiting : q'.waiting = q.waiting := congrArg Prod.fst same
    rw [waiting]
    exact there
  · exact .inr others

/-! ## Turns -/

/-- Of all requests only the one that is registered may be new. -/
theorem dwindles_enlist (f : Fetcher) (id : RequestId) (r : Request) :
    Dwindles [id] f (f.enlist id r).1 := by
  unfold enlist
  split
  · exact .refl _ f
  · refine .modifyScheduler f _ fun q other member => ?_
    rcases List.mem_append.1 member with old | new
    · exact .inr old
    · exact .inl new

theorem dwindles_adopt (f : Fetcher) (id : RequestId) (c : Conclusion) :
    Dwindles [id] f (f.adopt id c).1 := by
  have ended : Dwindles [id] f { f.setRequest id c.request with
      notices := c.notice.toList.map (fun n => (id, n)) ++ f.notices } :=
    .of_eq rfl List.length_set rfl rfl rfl
  unfold adopt
  simp only
  split
  · exact ended.trans (dwindles_enlist _ id c.request)
  · exact ended

/-- A search names no other requests than those that were named before. -/
theorem hook_of_respond {lookup : Lookup} {key : Key} {localOnly : Bool} {answer : Lookup × Response}
    (answered : lookup.respond key localOnly = answer) : answer.1.hook = lookup.hook := by
  rw [← answered]
  unfold Lookup.respond
  split <;> rfl

/-- An attempt registers its own request at most. -/
theorem dwindles_send (f : Fetcher) (now : Instant) (task : TaskId) (id : RequestId)
    (stage : Sending) : Dwindles [id] f (f.send now task id stage).1 := by
  have sent := sends f now task id stage
  generalize f.send now task id stage = result at sent ⊢
  have searched : ∀ {r : Request} {response : Response} {g g' : Fetcher},
      Searched f task id r response g → g'.forgotten = g.forgotten → g'.requests = g.requests →
      g'.schedulers = g.schedulers → g'.dispatchers = g.dispatchers →
      g'.lookup.hook = g.lookup.hook → Dwindles [id] f g' := by
    intro r response g g' after forgotten requests schedulers dispatchers hook
    have length : g.requests.length = f.requests.length :=
      after.requests.length.trans List.length_set
    have named := hook_of_respond after.response
    have same := after.same
    refine .of_eq ?_ (by rw [requests, length]) ?_ ?_ (hook.trans named)
    · rw [forgotten, same]
    · rw [schedulers, same]
    · rw [dispatchers, same]
  cases sent with
  | missing gone =>
      exact .refl _ f
  | concluded found begins =>
      exact dwindles_adopt f id _
  | arrived found =>
      exact dwindles_adopt f id _
  | awaits held found begins after =>
      exact searched after rfl rfl rfl rfl rfl
  | answered found begins after there onward =>
      exact (searched after rfl rfl rfl rfl rfl).trans (dwindles_adopt _ id _)

theorem held_of_attempt {id : RequestId} {stage : Sending}
    (attempt : job.attempt? = some (id, stage)) : job.held = [id] := by
  cases job <;> cases attempt <;> rfl

/-- A task that goes on holds what it held. -/
theorem Continues.held (h : Continues job job') (other : ∀ d chosen, job ≠ .serve d chosen) :
    job'.held = job.held := by
  cases h with
  | serve =>
      exact absurd rfl (other _ _)
  | _ =>
      rfl

/-- Whatever a dispatcher leaves in its queue, has chosen or sends was there before. -/
theorem dwindles_of_serves {chosen : Option Chosen} (h : Serves f d chosen t) :
    Dwindles (Job.serve d chosen).held f t.shared ∧
      ∀ job', standing t.next = some job' ∨ job' ∈ spawned t.effects →
        ∀ id ∈ job'.held, id ∈ (Job.serve d chosen).held ∨ Shelters f id := by
  cases h with
  | missing gone =>
      refine ⟨.refl _ f, ?_⟩
      rintro job' (stands | started)
      · cases stands
      · cases started
  | waits =>
      refine ⟨.of_eq rfl rfl rfl rfl rfl, ?_⟩
      rintro job' (stands | started)
      · cases stands
        exact fun id member => .inl member
      · cases started
  | @served _ chosen' x x' queue queue' bucket dispatches next dispatcher scheduler empty _ _ kept
      goesOn =>
      -- whatever it sends, chooses or leaves was chosen, in the mail or waiting before
      have source : ∀ id ∈ dispatches.map (·.request) ++ chosen'.toList.map (·.request) ++
          x'.pending.map (·.request), id ∈ (Job.serve d chosen).held ∨ Shelters f id := by
        intro id member
        rcases List.mem_append.1 (kept.mem_iff.1 member) with first | waits
        · rcases List.mem_append.1 first with mine | mail
          · exact .inl mine
          · exact .inr (.inl ⟨queue, List.mem_of_getElem? scheduler, mail⟩)
        · exact .inr (.inr (.inl ⟨x, List.mem_of_getElem? dispatcher, waits⟩))
      refine ⟨⟨rfl, rfl, fun {id} shelters => ?_⟩, ?_⟩
      · rcases shelters with ⟨q, member, there⟩ | ⟨y, member, there⟩ | named
        · rcases List.mem_or_eq_of_mem_set member with old | rfl
          · exact .inr (.inl ⟨q, old, there⟩)
          · rw [empty] at there
            cases there
        · rcases List.mem_or_eq_of_mem_set member with old | rfl
          · exact .inr (.inr (.inl ⟨y, old, there⟩))
          · exact source id (List.mem_append_right _ there)
        · exact .inr (.inr (.inr named))
      · rintro job' (stands | started) id member
        · rcases goesOn with same | ⟨ended, _⟩
          · cases same.symm.trans stands
            exact source id (List.mem_append_left _ (List.mem_append_right _ member))
          · cases ended.symm.trans stands
        · rw [spawned_sendAll] at started
          rcases List.mem_map.1 started with ⟨y, sent, rfl⟩
          cases List.mem_singleton.1 member
          exact source _ (List.mem_append_left _ (List.mem_append_left _
            (List.mem_map_of_mem sent)))

/-- The turn of a task that is no dispatcher registers at most the request that it is about. -/
theorem dwindles_of_other (turned : f.turn now task job = .ok t)
    (other : ∀ d chosen, job ≠ .serve d chosen) : Dwindles job.held f t.shared := by
  cases turns turned with
  | granted | waits =>
      exact .of_eq rfl rfl rfl rfl rfl
  | @attempts _ request stage _ _ _ _ attempt _ _ kept =>
      rw [held_of_attempt attempt]
      exact (dwindles_send f now task request stage).trans
        (.of_eq rfl rfl rfl (pending_of_plain kept) rfl)
  | @retries request failure =>
      unfold Fetcher.retry
      split
      · exact .refl _ f
      · exact dwindles_adopt f request _
  | serves =>
      exact absurd rfl (other _ _)

/-- What waits after a turn, and what its task and those that it starts hold, was held by the task or
waited before. -/
theorem dwindles_of_turn (turned : f.turn now task job = .ok t) :
    Dwindles job.held f t.shared ∧
      ∀ job', standing t.next = some job' ∨ job' ∈ spawned t.effects →
        ∀ id ∈ job'.held, id ∈ job.held ∨ Shelters f id := by
  by_cases serving : ∃ d chosen, job = .serve d chosen
  · rcases serving with ⟨d, chosen, rfl⟩
    exact dwindles_of_serves (serves turned)
  · have other : ∀ d chosen, job ≠ .serve d chosen :=
      fun d chosen same => serving ⟨d, chosen, same⟩
    refine ⟨dwindles_of_other turned other, ?_⟩
    rintro job' (stands | started) id member
    · rw [(continues_of_turn turned stands).held other] at member
      exact .inl member
    · rw [spawned_of_turn turned other] at started
      cases started

/-! ## Actions and drops -/

/-- Once the schedulers were let go, no action has a request wait or be held, or makes one. -/
theorem dwindles_of_perform {action : Action} {r : Reacted} (forgotten : f.forgotten = true)
    (performed : f.perform now task action = .ok r) :
    Dwindles [] f r.shared ∧ ∀ job ∈ spawned r.effects, job.held = [] := by
  have idle : ∀ {effects : Effects}, Waking effects → ∀ job ∈ spawned effects, job.held = [] := by
    intro effects waking job started
    rw [waking.spawned_eq_nil] at started
    cases started
  cases does performed with
  | @scheduled request =>
      have same : f.schedule request = ⟨f, [], .done⟩ := by
        simp [Fetcher.schedule, request?, forgotten]
      rw [same]
      exact ⟨.refl _ f, idle .nil⟩
  | created held | cancelled held | sends held | retries held | popped held =>
      -- all requests and schedulers were let go
      cases forgotten.symm.trans held
  | @adjusted s reception =>
      refine ⟨.modifyScheduler f s fun q id member => .inr ?_, idle .nil⟩
      unfold Scheduler.adjust at member
      split at member <;> exact member
  | hooked =>
      refine ⟨⟨rfl, rfl, fun {id} shelters => .inr ?_⟩, idle .nil⟩
      rcases shelters with waits | queued | named
      · exact .inl waits
      · exact .inr (.inl queued)
      · simp [forgotten] at named
  | tuned _ hook _ waking =>
      exact ⟨.of_eq rfl rfl rfl rfl hook, idle waking⟩
  | @started d _ _ _ =>
      have pending := map_modify_of_eq Dispatcher.pending
        (fun x : Dispatcher => { x with standing := .running task }) (fun _ => rfl) f.dispatchers d
      refine ⟨.of_eq rfl rfl rfl pending rfl, ?_⟩
      intro job started
      cases List.mem_singleton.1 started
      rfl
  | @retired d _ _ _ =>
      exact ⟨.retire f d, idle .nil⟩
  | aborted =>
      refine ⟨.refl _ f, ?_⟩
      intro job started
      cases started
  | forgot =>
      exact ⟨.of_eq forgotten.symm rfl rfl rfl rfl, idle .nil⟩
  | operated =>
      exact ⟨.of_eq rfl rfl rfl rfl rfl, idle (.map_wake _)⟩
  | grabs =>
      refine ⟨.refl _ f, ?_⟩
      intro job started
      cases List.mem_singleton.1 started
      rfl
  | _ =>
      exact ⟨.of_eq rfl rfl rfl rfl rfl, idle .nil⟩

/-- Dropping a task has nobody wait. -/
theorem dwindles_dropJob (task : TaskId) (job : Job) (f : Fetcher) :
    Dwindles [] f (f.dropJob task job) := by
  cases job with
  | serve d chosen =>
      have left : Dwindles [] (f.retire d) { f.retire d with bucket := f.bucket.leave task } :=
        .of_eq rfl rfl rfl rfl rfl
      exact (Dwindles.retire f d).trans left
  | _ =>
      exact .of_eq rfl rfl rfl rfl rfl

/-! ## Moves -/

/-- What is held after a change is held before it, if that is so for the tasks. -/
theorem Dwindles.held {tasks' : List (Option Job)} (h : Dwindles own f g)
    (known : ∀ id ∈ own, id ∈ f.held tasks)
    (working : ∀ job, some job ∈ tasks' → ∀ id ∈ job.held, id ∈ f.held tasks) :
    ∀ id ∈ g.held tasks', id ∈ f.held tasks := by
  intro id member
  rcases mem_held.1 member with ⟨job, there, holds⟩ | shelters
  · exact working job there id holds
  · rcases h.shelters shelters with mine | before
    · exact known id mine
    · exact mem_held.2 (.inr before)

structure Shrinks (e e' : State) : Prop where
  forgotten : e'.shared.forgotten = e.shared.forgotten
  requests : e'.shared.requests.length = e.shared.requests.length
  held : ∀ id ∈ e'.shared.held e'.tasks, id ∈ e.shared.held e.tasks

/-- What waits and what tasks hold is all that is held. -/
theorem Dwindles.shrinks (h : Dwindles own e.shared f) (swept : Swept f e'.shared)
    (known : ∀ id ∈ own, id ∈ e.shared.held e.tasks)
    (working : ∀ job, some job ∈ e'.tasks → ∀ id ∈ job.held, id ∈ e.shared.held e.tasks) :
    Shrinks e e' := by
  have whole := h.trans swept.dwindles
  exact ⟨whole.forgotten, whole.requests, whole.held known working⟩

/-- Once the schedulers were let go, what is held after a move was held before. -/
theorem shrinks_of_step (step : Step program e l e') (forgotten : e.shared.forgotten = true) :
    Shrinks e e' := by
  have stays : ∀ job, some job ∈ e.tasks → ∀ id ∈ job.held, id ∈ e.shared.held e.tasks :=
    fun job there id holds => mem_held.2 (.inl ⟨job, there, holds⟩)
  cases moves_of_step step with
  | @turned number job t turn next went left =>
      rcases dwindles_of_turn went with ⟨dwindles, goOn⟩
      have mine := stays job (List.mem_of_getElem? (task?_of_next? next))
      -- what a turn leaves was held by its task or waited somewhere
      have old : ∀ {id}, id ∈ job.held ∨ Shelters e.shared id → id ∈ e.shared.held e.tasks := by
        rintro id (own | shelters)
        · exact mine id own
        · exact mem_held.2 (.inr shelters)
      refine dwindles.shrinks left.shared mine fun job' there id holds => ?_
      rw [left.tasks] at there
      rcases List.mem_append.1 there with older | started
      · rcases List.mem_or_eq_of_mem_set older with before | same
        · exact stays job' before id holds
        · exact old (goOn job' (.inl same.symm) id holds)
      · rcases List.mem_map.1 started with ⟨x, new, same⟩
        cases same
        exact old (goOn _ (.inr new) id holds)
  | acted same gentle performed left =>
      rcases dwindles_of_perform forgotten performed with ⟨dwindles, idle⟩
      refine dwindles.shrinks left.shared (by simp) fun job there id holds => ?_
      rw [left.tasks] at there
      rcases List.mem_append.1 there with old | started
      · exact stays job old id holds
      · rcases List.mem_map.1 started with ⟨x, new, same⟩
        cases same
        rw [idle _ new] at holds
        cases holds
  | @dropped number job quiet stands left =>
      have dwindles := dwindles_dropJob number job e.shared
      refine dwindles.shrinks left.shared (by simp) fun job' there id holds => ?_
      rw [left.tasks] at there
      rcases List.mem_or_eq_of_mem_set there with old | gone
      · exact stays job' old id holds
      · cases gone
  | rested _ left =>
      have dwindles : Dwindles [] e.shared e.shared := .refl [] e.shared
      refine dwindles.shrinks left.shared (by simp) fun job there => ?_
      rw [left.tasks] at there
      exact stays job there

/-- The group of a request that exists binds the same schedulers as before. -/
theorem KeepsGroups.binds (h : KeepsGroups f g) {r : Request} (found : f.requests[id]? = some r)
    (d : SchedulerId) : g.binds d id = f.binds d id := by
  rcases h.each found with ⟨r', there, group⟩
  simp [Fetcher.binds, found, there, group]

/-- A scheduler that can be reached no longer is never reached again. -/
theorem unreachable_of_step (step : Step program e l e')
    (unreachable : e.shared.isReachable e.tasks d = false) :
    e'.shared.isReachable e'.tasks d = false := by
  rcases isReachable_eq_false_iff.1 unreachable with ⟨forgotten, unbound⟩
  have shrinks := shrinks_of_step step forgotten
  refine isReachable_eq_false_iff.2 ⟨shrinks.forgotten.trans forgotten, fun id member => ?_⟩
  -- no request is made any more, and those that exist bind what they have bound
  cases found : e.shared.requests[id]? with
  | none =>
      have missing : e'.shared.requests[id]? = none := by
        rw [List.getElem?_eq_none_iff, shrinks.requests]
        exact List.getElem?_eq_none_iff.1 found
      simp [binds, missing]
  | some r =>
      rw [(groups_of_step step).binds found]
      exact unbound id (shrinks.held id member)

/-! ## Sweeps -/

/-- What a sweep leaves can be reached as before. -/
theorem Swept.isReachable (h : Swept f g) (tasks : List (Option Job)) (d : SchedulerId) :
    g.isReachable tasks d = f.isReachable tasks d := by
  rcases h with ⟨schedulers, rfl, kept⟩
  have view : ∀ queues : List Scheduler,
      queues.flatMap (·.waiting) = (queues.map mail).flatMap (·.1) := by
    intro queues
    rw [List.flatMap_map]
    rfl
  have waiting : schedulers.flatMap (·.waiting) = f.schedulers.flatMap (·.waiting) := by
    rw [view, view, kept]
  simp only [Fetcher.isReachable, held, waiting]

/-- Those who are to know that no mail will come are told so, and nobody else. -/
theorem watch?_abandon (lost : List SchedulerId) (f : Fetcher) (d : SchedulerId) :
    (lost.foldl (fun f id => f.modifyScheduler id fun s => { s with abandoned := true }) f).watch? d =
      (f.watch? d).map fun w => (w.1, w.2 || lost.contains d) := by
  induction lost generalizing f with
  | nil =>
      simp
  | cons id rest ih =>
      rw [List.foldl_cons, ih]
      by_cases here : id = d
      · subst here
        simp [watch?, modifyScheduler, Function.comp_def]
      · have ne : (d == id) = false := beq_false_of_ne (Ne.symm here)
        rw [watch?_modifyScheduler_of_ne here, List.contains_cons, ne, Bool.false_or]

/-- A sweep notes that a scheduler was abandoned when it can be reached no longer, and changes nothing of
its listener. -/
theorem watch?_sweep (tasks : List (Option Job)) (f : Fetcher) (d : SchedulerId) :
    (sweep tasks f).1.watch? d =
      (f.watch? d).map fun w => (w.1, w.2 || !f.isReachable tasks d) := by
  unfold sweep
  split
  · rw [watch?_abandon]
    cases found : f.schedulers[d]? with
    | none =>
        simp [watch?, found]
    | some q =>
        have inside : d < f.schedulers.length := (List.getElem?_eq_some_iff.1 found).1
        have own : q = f.schedulers[d] :=
          Option.some.inj (found.symm.trans (List.getElem?_eq_getElem inside))
        cases noted : q.abandoned <;> simp [watch?, inside, ← own, noted]
  · rename_i remembered
    have reachable : f.isReachable tasks d = true := by simp [isReachable, remembered]
    simp [reachable]

/-- Whoever listens for the mail of a scheduler that is found to be unreachable is named. -/
theorem mem_sweep {n : TaskId} (watched : f.watch? d = some (some n, false))
    (unreachable : f.isReachable tasks d = false) : n ∈ (sweep tasks f).2 := by
  rcases Option.map_eq_some_iff.1 watched with ⟨q, found, same⟩
  simp only [Prod.mk.injEq] at same
  have inside : d < f.schedulers.length := (List.getElem?_eq_some_iff.1 found).1
  have forgotten := (isReachable_eq_false_iff.1 unreachable).1
  unfold sweep
  rw [if_pos forgotten]
  refine List.mem_flatMap.2 ⟨d, List.mem_filter.2 ⟨List.mem_range.2 inside, ?_⟩, ?_⟩
  · simp [found, same.2, unreachable]
  · simp [found, same.1]

end Fetcher
end MeteredFetch
