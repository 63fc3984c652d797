import MeteredFetch.Proofs.Fetcher.Deeds

/-!
# Sendings — the tasks that send for dispatchers

What a dispatcher sends gets a task of its own, with a number that no other task has. The task tries
to send this request until it ends, and does nothing else.

* `Fetcher.Continues` — what becomes of a task in its turns;
* `Fetcher.Starts` — the tasks that an action starts;
* `Fetcher.Arises`, `Fetcher.arises_of_step` — how a task comes to stand where it stands;
* `Fetcher.Sent`, `Fetcher.sent_of_step` — what was sent, and the tasks that send it.
-/

namespace MeteredFetch

namespace Fetcher

open Executor Deed

variable {f : Fetcher} {now : Instant} {task n : TaskId} {job job' : Job} {t : Turned} {d : Nat}
  {x : Dispatch} {e e' : State} {l : Label Action Answer} {hs : List Moment}

/-! ## Turns -/

inductive Continues : Job → Job → Prop
  | grab {tokens : UInt64} {caller caller' : Caller} :
      Continues (.grab tokens caller) (.grab tokens caller')
  | send {request : RequestId} {stage : Sending} {response : Response} :
      Continues (.send request stage) (.send request (.awaiting response))
  | dispatch {d : Nat} {x : Dispatch} {stage : Sending} {response : Response} :
      Continues (.dispatch d x stage) (.dispatch d x (.awaiting response))
  | serve {d : Nat} {chosen chosen' : Option Chosen} :
      Continues (.serve d chosen) (.serve d chosen')

/-- An attempt that goes on awaits the response to its search. -/
theorem awaits_of_send {id : RequestId} {stage stage' : Sending}
    (stands : standing (f.send now task id stage).2.2 = some stage') :
    ∃ response, stage' = .awaiting response := by
  have sent := sends f now task id stage
  generalize f.send now task id stage = result at sent stands
  cases sent with
  | awaits held found begins after =>
      cases stands
      exact ⟨_, rfl⟩
  | _ =>
      cases stands

/-- A task that goes on after a turn does what it did before. -/
theorem continues_of_turn (turned : f.turn now task job = .ok t)
    (stands : standing t.next = some job') : Continues job job' := by
  cases job with
  | grab tokens caller =>
      rcases ok_of_bind turned with ⟨⟨bucket, caller'⟩, _, rest⟩
      cases caller' with
      | some caller' =>
          cases rest
          cases stands
          exact .grab
      | none =>
          cases rest
          cases stands
  | send request stage =>
      cases turned
      rw [standing_map] at stands
      rcases Option.map_eq_some_iff.1 stands with ⟨stage', goesOn, rfl⟩
      rcases awaits_of_send goesOn with ⟨response, rfl⟩
      exact .send
  | retry request failure =>
      cases turned
      cases stands
  | dispatch d x stage =>
      cases turned
      rw [standing_map] at stands
      rcases Option.map_eq_some_iff.1 stands with ⟨stage', goesOn, rfl⟩
      rcases awaits_of_send goesOn with ⟨response, rfl⟩
      exact .dispatch
  | serve d chosen =>
      have served := serves (f := f) turned
      cases served with
      | missing gone =>
          cases stands
      | waits =>
          cases stands
          exact .serve
      | served chosen' _ _ _ _ _ _ goesOn =>
          rcases goesOn with next | ⟨ended, _⟩
          · cases next.symm.trans stands
            exact .serve
          · cases ended.symm.trans stands

/-- Only dispatchers start tasks. -/
theorem spawned_of_turn (turned : f.turn now task job = .ok t)
    (other : ∀ d chosen, job ≠ .serve d chosen) : spawned t.effects = [] := by
  cases turns turned with
  | granted | waits =>
      rfl
  | @attempts _ request stage _ _ _ _ _ _ _ _ =>
      exact (waking_send f now task request stage).spawned_eq_nil
  | @retries request failure =>
      exact (waking_retry f request failure).spawned_eq_nil
  | serves =>
      exact absurd rfl (other _ _)

/-! ## How tasks come about -/

inductive Starts : Action → Job → Prop
  | send {request : RequestId} : Starts (.send request) (.send request .fresh)
  | retry {request : RequestId} {failure : Failure} :
      Starts (.retry request failure) (.retry request failure)
  | start {d : Nat} : Starts (.start d) (.serve d none)
  | grab {tokens : UInt64} : Starts (.grab tokens) (.grab tokens (.arriving tokens))

/-- An action starts only the tasks that belong to it. -/
theorem starts_of_perform {action : Action} {r : Reacted}
    (performed : f.perform now task action = .ok r) (started : job ∈ spawned r.effects) :
    Starts action job := by
  have quiet : ∀ {effects : Effects}, Waking effects → job ∉ spawned effects := by
    intro effects waking
    rw [waking.spawned_eq_nil]
    exact List.not_mem_nil
  cases does performed with
  | @scheduled request =>
      exact absurd started (quiet (waking_schedule f request))
  | tuned _ _ _ waking =>
      exact absurd started (quiet waking)
  | operated =>
      exact absurd started (quiet (.map_wake _))
  | sends =>
      cases List.mem_singleton.1 started
      exact .send
  | retries =>
      cases List.mem_singleton.1 started
      exact .retry
  | started =>
      cases List.mem_singleton.1 started
      exact .start
  | grabs =>
      cases List.mem_singleton.1 started
      exact .grab
  | _ =>
      cases started

/-- How the task with a number came to stand where it stands after a move. -/
inductive Arises (e : State) (l : Label Action Answer) (n : TaskId) (job' : Job) : Prop
  /-- It stood there before, and the move is no turn of it. -/
  | stays : e.tasks[n]? = some (some job') → (∀ job, l = .turn → e.next? ≠ some (n, job)) →
      Arises e l n job'
  /-- It had its turn and goes on. -/
  | goesOn {job : Job} : l = .turn → e.next? = some (n, job) → Continues job job' →
      Arises e l n job'
  /-- An action has started it. -/
  | acted {action : Action} {answer : Answer} : l = .act action answer → e.tasks.length ≤ n →
      Starts action job' → Arises e l n job'
  /-- A dispatcher sends a request in it. -/
  | sent {d : Nat} {x : Dispatch} : .sends x n ∈ Moment.deeds d (e, l) →
      job' = .dispatch d x .fresh → Arises e l n job'

/-- The tasks that a turn starts are those that send for the dispatcher whose turn it is. -/
theorem sends_of_spawned {number : TaskId} {i : Nat} (next : e.next? = some (number, job))
    (turned : e.shared.turn e.now number job = .ok t)
    (started : (spawned t.effects)[i]? = some job') :
    ∃ d x, .sends x (e.tasks.length + i) ∈ Moment.deeds d (e, .turn) ∧
      job' = .dispatch d x .fresh := by
  by_cases own : ∃ d chosen, job = .serve d chosen
  · rcases own with ⟨d, chosen, rfl⟩
    have served := serving turned e.tasks.length
    rw [← deeds_of_next next] at served
    cases served with
    | still _ effects _ _ =>
        rw [effects] at started
        cases started
    | @served _ _ _ dispatches _ _ _ _ sends effects =>
        rw [effects, spawned_sendAll, List.getElem?_map] at started
        rcases Option.map_eq_some_iff.1 started with ⟨x, there, rfl⟩
        refine ⟨d, x, ?_, rfl⟩
        rw [← mem_sendings, sends, List.mk_mem_zipIdx_iff_le_and_getElem?_sub]
        exact ⟨Nat.le_add_right _ _, by simpa using there⟩
  · have none := spawned_of_turn turned fun d chosen same => own ⟨d, chosen, same⟩
    rw [none] at started
    cases started

/-- Every task that stands has stood before, or was started in the move. -/
theorem arises_of_step (step : Step program e l e') (stands : e'.tasks[n]? = some (some job')) :
    Arises e l n job' := by
  cases moves_of_step step with
  | @turned number job t turn next went left =>
      subst turn
      rw [left.tasks] at stands
      rcases stands_set_append stands with ⟨rfl, goesOn⟩ | ⟨ne, old⟩ | ⟨i, rfl, started⟩
      · exact .goesOn rfl next (continues_of_turn went goesOn)
      · refine .stays old fun job _ next' => ?_
        cases next.symm.trans next'
        exact ne rfl
      · rcases sends_of_spawned next went started with ⟨d, x, sends, rfl⟩
        exact .sent sends rfl
  | acted same gentle performed left =>
      subst same
      rw [left.tasks] at stands
      rcases stands_append stands with old | ⟨i, rfl, started⟩
      · exact .stays old nofun
      · have starts := starts_of_perform performed (List.mem_of_getElem? started)
        exact .acted rfl (Nat.le_add_right _ _) starts
  | @dropped number job quiet there left =>
      -- a drop starts nothing, so it is read as a turn with no new tasks
      have nothing : e.tasks.set number none =
          e.tasks.set number none ++ ([] : List Job).map some := by simp
      rw [left.tasks, nothing] at stands
      rcases stands_set_append stands with ⟨_, gone⟩ | ⟨_, old⟩ | ⟨i, _, started⟩
      · cases gone
      · exact .stays old fun job turn => absurd turn quiet
      · cases started
  | rested quiet left =>
      rw [left.tasks] at stands
      refine .stays stands fun job turn next => ?_
      rw [quiet turn] at next
      cases next

/-- Whatever a dispatcher sends gets a task with a new number. -/
theorem stands_of_sends (step : Step program e l e') (sends : .sends x n ∈ Moment.deeds d (e, l)) :
    e.tasks.length ≤ n ∧ e'.tasks[n]? = some (some (.dispatch d x .fresh)) := by
  by_cases own : IsTurnOf d e l
  · rcases own with ⟨rfl, number, chosen, next⟩
    rcases (moves_of_step step).of_next rfl next with ⟨t, went, left⟩
    have served := serving went e.tasks.length
    rw [← deeds_of_next next] at served
    cases served with
    | still nothing _ _ _ =>
        rw [nothing] at sends
        cases sends
    | @served _ _ _ dispatches _ _ _ _ sent effects =>
        rw [← mem_sendings, sent] at sends
        rcases List.mk_mem_zipIdx_iff_le_and_getElem?_sub.1 sends with ⟨le, there⟩
        refine ⟨le, ?_⟩
        rw [left.tasks, effects, spawned_sendAll,
          List.getElem?_append_right (by rw [List.length_set]; exact le), List.length_set]
        simp [there]
  · rw [deeds_of_other own] at sends
    cases sends

/-- What is sent is numbered in the order in which it is sent. -/
theorem pairwise_sendings (step : Step program e l e') (d : Nat) :
    ((sendings (Moment.deeds d (e, l))).map (·.2)).Pairwise (· < ·) := by
  by_cases own : IsTurnOf d e l
  · rcases own with ⟨rfl, number, chosen, next⟩
    rcases (moves_of_step step).of_next rfl next with ⟨t, went, _⟩
    have served := serving went e.tasks.length
    rw [← deeds_of_next next] at served
    cases served with
    | still nothing _ _ _ =>
        rw [nothing]
        exact .nil
    | @served _ _ _ dispatches _ _ _ _ sent _ =>
        have numbers : (dispatches.zipIdx e.tasks.length).map (·.2) =
            List.range' e.tasks.length dispatches.length := List.zipIdx_map_snd _ _
        rw [sent, numbers]
        exact List.pairwise_lt_range'
  · rw [deeds_of_other own]
    exact .nil

/-- Numbers of tasks are not given back. -/
theorem length_tasks_of_step (step : Step program e l e') : e.tasks.length ≤ e'.tasks.length := by
  cases moves_of_step step with
  | turned _ _ _ left =>
      simp [left.tasks]
  | acted _ _ _ left =>
      simp [left.tasks]
  | dropped _ _ left =>
      simp [left.tasks]
  | rested _ left =>
      simp [left.tasks]

/-- A task that has had no turn stood there before if its number is not new, and the move is no turn of
it. -/
theorem stays_of_fresh (step : Step program e l e') (inside : n < e.tasks.length)
    (stands : e'.tasks[n]? = some (some (.dispatch d x .fresh))) :
    e.tasks[n]? = some (some (.dispatch d x .fresh)) ∧
      ∀ job, l = .turn → e.next? ≠ some (n, job) := by
  cases arises_of_step step stands with
  | stays before other =>
      exact ⟨before, other⟩
  | goesOn _ _ continues =>
      cases continues
  | acted _ later _ =>
      exact absurd inside (Nat.not_lt_of_le later)
  | sent sends _ =>
      exact absurd inside (Nat.not_lt_of_le (stands_of_sends step sends).1)

/-! ## What was sent -/

/-- What dispatchers have sent in a run has tasks of its own, which do nothing else. -/
structure Sent (hs : List Moment) (e : State) : Prop where
  known : ∀ {d x n}, .sends x n ∈ log d hs → n < e.tasks.length
  task : ∀ {d x n stage}, e.tasks[n]? = some (some (.dispatch d x stage)) → .sends x n ∈ log d hs
  stands : ∀ {d x n job}, .sends x n ∈ log d hs → e.tasks[n]? = some (some job) →
    ∃ stage, job = .dispatch d x stage
  unique : ∀ {d d' x x' n}, .sends x n ∈ log d hs → .sends x' n ∈ log d' hs → d = d' ∧ x = x'
  numbers : ∀ d, ((sendings (log d hs)).map (·.2)).Pairwise (· < ·)

/-- What was sent was sent before, or is sent in this move. -/
theorem mem_log_snoc {d : Nat} {deed : Deed} (member : deed ∈ log d (hs ++ [(e, l)])) :
    deed ∈ log d hs ∨ deed ∈ Moment.deeds d (e, l) := by
  rw [log_snoc] at member
  exact List.mem_append.1 member

/-- No task gets the number of one that sends already. -/
theorem Sent.not_mem_deeds (h : Sent hs e) (step : Step program e l e') {d' : Nat} {x' : Dispatch}
    (old : .sends x n ∈ log d hs) : .sends x' n ∉ Moment.deeds d' (e, l) := by
  intro new
  have later := (stands_of_sends step new).1
  exact Nat.not_le_of_lt (h.known old) later

/-- Every move leaves what dispatchers have sent in tasks of its own. -/
theorem sent_of_step (h : Sent hs e) (step : Step program e l e') :
    Sent (hs ++ [(e, l)]) e' := by
  refine ⟨?_, ?_, ?_, ?_, ?_⟩
  · intro d x n member
    rcases mem_log_snoc member with old | new
    · exact Nat.lt_of_lt_of_le (h.known old) (length_tasks_of_step step)
    · exact (List.getElem?_eq_some_iff.1 (stands_of_sends step new).2).1
  · intro d x n stage stands
    rw [log_snoc]
    -- a task of a dispatch stood as one before, or was started for a deed of this move
    cases arises_of_step step stands with
    | stays old _ =>
        exact List.mem_append_left _ (h.task old)
    | goesOn _ next continues =>
        cases continues
        exact List.mem_append_left _ (h.task (task?_of_next? next))
    | acted _ _ starts =>
        cases starts
    | sent sends same =>
        cases same
        exact List.mem_append_right _ sends
  · intro d x n job member stands
    rcases mem_log_snoc member with old | new
    · cases arises_of_step step stands with
      | stays before _ =>
          exact h.stands old before
      | goesOn _ next continues =>
          rcases h.stands old (task?_of_next? next) with ⟨stage, rfl⟩
          cases continues
          exact ⟨_, rfl⟩
      | acted _ later _ =>
          exact absurd (h.known old) (Nat.not_lt_of_le later)
      | sent sends _ =>
          exact absurd sends (h.not_mem_deeds step old)
    · cases (stands_of_sends step new).2.symm.trans stands
      exact ⟨_, rfl⟩
  · intro d d' x x' n member member'
    rcases mem_log_snoc member with old | new
    · rcases mem_log_snoc member' with old' | new'
      · exact h.unique old old'
      · exact absurd new' (h.not_mem_deeds step old)
    · rcases mem_log_snoc member' with old' | new'
      · exact absurd new (h.not_mem_deeds step old')
      · -- both have the same task
        cases (stands_of_sends step new).2.symm.trans (stands_of_sends step new').2
        exact ⟨rfl, rfl⟩
  · intro d
    rw [log_snoc, sendings_append, List.map_append]
    refine List.pairwise_append.2 ⟨h.numbers d, pairwise_sendings step d, ?_⟩
    intro n member n' member'
    rcases List.mem_map.1 member with ⟨⟨x, _⟩, old, rfl⟩
    rcases List.mem_map.1 member' with ⟨⟨x', _⟩, new, rfl⟩
    have before := h.known (mem_sendings.1 old)
    exact Nat.lt_of_lt_of_le before (stands_of_sends step (mem_sendings.1 new)).1

end Fetcher
end MeteredFetch
