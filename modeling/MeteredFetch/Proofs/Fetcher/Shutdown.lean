import MeteredFetch.Proofs.Fetcher.Ownership

/-!
# Shutdown — when a dispatcher stops

A dispatcher that has nothing to do listens for mail. It stops when no more can come, and it hears of that
when its scheduler can be reached no longer, neither by the driver nor through the group of a request that
something holds. Until then its requests keep it reachable, so that all of them were sent, and all that
were sent have ended, by the time it stops.

* `Fetcher.Employed`, `Fetcher.employed_of_step` — a dispatcher that was started is at work in a task or
  has stopped;
* `Fetcher.Attentive`, `Fetcher.attentive_of_step` — a dispatcher that waits for mail listens for it, or
  was called; its scheduler is abandoned exactly if it cannot be reached;
* `Fetcher.Tenure`, `Fetcher.tenure_of_history` — all that is kept for a dispatcher that is left alone;
* `Fetcher.stops_when_unreachable` — when a dispatcher stops, and that it does.
-/

namespace MeteredFetch
namespace Fetcher

open Executor Deed

variable {d : Nat} {f g : Fetcher} {now : Instant} {task number n : TaskId} {job : Job} {t : Turned}
  {id : RequestId} {e e' : State} {l : Label Action Answer} {hs : List Moment} {x x' : Dispatcher}
  {chosen : Option Chosen} {w : Option TaskId × Bool} {bucket : Bucket} {groups : List Group}
  {blocks : List (Key × Bytes)} {costs : List UInt64} {start : Instant}

/-! ## Dispatchers at work -/

/-- A dispatcher that was started is at work in a task, or has stopped. -/
structure Employed (d : Nat) (hs : List Moment) (e : State) : Prop where
  started : (∃ m ∈ hs, m.2 = .act (.start d) (.found true)) → e.shared.standing? d ≠ some .idle
  works : ∀ {n}, e.shared.standing? d = some (.running n) → ∃ chosen, Runs d e n chosen
  stopped : e.shared.standing? d = some .gone → ∃ c ∈ e.finished, c.result = .stopped d

theorem standing?_of_dispatcher (found : f.dispatchers[d]? = some x) :
    f.standing? d = some x.standing := by
  simp [standing?, found]

/-- A dispatcher that has a task is at work in it. -/
theorem running_of_runs (ledger : Ledger d (log d hs) e) (found : e.shared.dispatchers[d]? = some x)
    (stands : Runs d e n chosen) : x.standing = .running n := by
  have desk : e.shared.desk? d =
      some ⟨x.cost, x.standing, x.pending, x.arrivals, e.shared.inbox d⟩ := by simp [desk?, found]
  exact ledger.manned stands desk

/-- A dispatcher has one task at most. -/
theorem Runs.unique {n' : TaskId} {chosen' : Option Chosen} (stands : Runs d e n chosen)
    (stands' : Runs d e n' chosen') (ledger : Ledger d (log d hs) e)
    (found : e.shared.dispatchers[d]? = some x) : n = n' ∧ chosen = chosen' := by
  have here := running_of_runs ledger found stands
  cases here.symm.trans (running_of_runs ledger found stands')
  cases stands.symm.trans stands'
  exact ⟨rfl, rfl⟩

/-- The task of a dispatcher has its turn only with the dispatcher. -/
theorem Runs.not_next (stands : Runs d e n chosen) (other : ¬ IsTurnOf d e l) :
    ∀ job, l = .turn → e.next? ≠ some (n, job) := by
  intro job turn next
  cases stands.symm.trans (task?_of_next? next)
  exact other ⟨turn, n, chosen, next⟩

/-- What an action that drops nothing does, and what it leaves. -/
theorem reacts_of_step {action : Action} {answer : Answer}
    (step : Step program e (.act action answer) e') (stays : ∀ id, action ≠ .abort id) :
    ∃ r, e.shared.perform e.now e.tasks.length action = .ok r ∧ answer = r.answer ∧
      Gentle r.effects ∧ e' = ({ e with shared := r.shared } : State).carryOutAll program r.effects := by
  cases step with
  | act acted =>
      rcases act_cases acted with ⟨r, performed, same, rfl⟩
      refine ⟨r, performed, same, ?_, rfl⟩
      rcases gentle_of_perform performed with gentle | ⟨id, _, other, _⟩
      · exact gentle
      · exact absurd other (stays id)

/-- A dispatcher that was found to be startable is at work. -/
theorem running_of_start (step : Step program e (.act (.start d) (.found true)) e') :
    ∃ n, e'.shared.standing? d = some (.running n) := by
  rcases reacts_of_step step nofun with ⟨r, performed, answer, gentle, rfl⟩
  rw [(leaves_carryOutAll gentle { e with shared := r.shared }).shared.standing? d]
  cases performed
  unfold Fetcher.start at answer ⊢
  split at answer
  · rename_i idle
    rcases Option.map_eq_some_iff.1 idle with ⟨x, there, _⟩
    exact ⟨e.tasks.length, by simp [standing?, modifyDispatcher, there]⟩
  · cases answer

/-- How a dispatcher stands after a move says whether it is at work. -/
theorem employed_of_standing {standing : Standing} (step : Step program e l e')
    (after : e'.shared.standing? d = some standing)
    (started : (∃ m ∈ hs, m.2 = .act (.start d) (.found true)) → standing ≠ .idle)
    (works : ∀ n, standing = .running n → ∃ chosen, Runs d e' n chosen)
    (stopped : standing = .gone → ∃ c ∈ e'.finished, c.result = .stopped d) :
    Employed d (hs ++ [(e, l)]) e' := by
  refine ⟨?_, fun {n} running => ?_, fun gone => ?_⟩
  · rintro ⟨m, member, same⟩ idle
    rcases List.mem_append.1 member with old | last
    · exact started ⟨m, old, same⟩ (Option.some.inj (after.symm.trans idle))
    · cases List.mem_singleton.1 last
      cases same
      rcases running_of_start step with ⟨n, running⟩
      cases running.symm.trans idle
  · exact works n (Option.some.inj (after.symm.trans running))
  · exact stopped (Option.some.inj (after.symm.trans gone))

/-- A dispatcher that has its turn goes on in the same task, or has stopped. -/
theorem employed_of_turn (booked : Booked d hs e x) (ledger : Ledger d (log d hs) e)
    (step : Step program e .turn e') (next : e.next? = some (number, .serve d chosen)) :
    Employed d (hs ++ [(e, .turn)]) e' := by
  have stands := task?_of_next? next
  have inside := (List.getElem?_eq_some_iff.1 stands).1
  have running := running_of_runs ledger booked.dispatcher stands
  rcases labours_of_step booked step next with ⟨queue, t, there, labours, _, left⟩
  -- whether it waits for tokens or for mail makes no difference
  have goesOn : ∀ {chosen' x'}, standing t.next = some (.serve d chosen') →
      t.shared.dispatchers[d]? = some x' → x'.standing = x.standing →
      Employed d (hs ++ [(e, .turn)]) e' := by
    intro chosen' x' next' found same
    have after : e'.shared.standing? d = some (.running number) := by
      rw [left.shared.standing? d, standing?_of_dispatcher found, same, running]
    refine employed_of_standing step after (fun _ idle => ?_) (fun n same => ?_) fun gone => ?_
    · cases idle
    · cases same
      exact ⟨chosen', (left.stands inside).trans (congrArg some next')⟩
    · cases gone
  cases labours with
  | still _ _ dispatchers _ _ next' _ =>
      have found : t.shared.dispatchers[d]? = some x := by
        rw [dispatchers]
        exact booked.dispatcher
      exact goesOn next' found rfl
  | waits worked next' same _ _ =>
      exact goesOn next' worked.dispatcher same
  | stops worked ended _ gone _ _ =>
      have after : e'.shared.standing? d = some .gone := by
        rw [left.shared.standing? d, standing?_of_dispatcher worked.dispatcher, gone]
      refine employed_of_standing step after (fun _ idle => ?_) (fun n same => ?_) fun _ => ?_
      · cases idle
      · cases same
      · refine ⟨⟨number, .stopped d, e.now⟩, ?_, rfl⟩
        rw [left.finished, ended]
        exact List.mem_cons_self

/-- No move takes a dispatcher from its work, unless it has stopped. -/
theorem employed_of_step (h : Employed d hs e) (booked : Booked d hs e x)
    (ledger : Ledger d (log d hs) e) (crews : ∀ id, Crewed id e) (step : Step program e l e')
    (apart : Moment.leavesAlone d (e, l) = true) : Employed d (hs ++ [(e, l)]) e' := by
  by_cases own : IsTurnOf d e l
  · rcases own with ⟨rfl, number, chosen, next⟩
    exact employed_of_turn booked ledger step next
  · have before := standing?_of_dispatcher booked.dispatcher
    rcases pauses_of_step crews step apart own booked.dispatcher with ⟨x', pauses⟩
    have after := standing?_of_dispatcher pauses.dispatcher
    rcases pauses.standing with same | ⟨idle, n, running⟩
    · rw [same] at after
      refine employed_of_standing step after (fun begun idle => ?_) (fun n running => ?_) fun gone => ?_
      · exact h.started begun (by rw [before, idle])
      · rcases h.works (by rw [before, running]) with ⟨chosen, stands⟩
        exact ⟨chosen, stands_of_apart crews step apart (by simp [Job.worksFor]) stands
          (stands.not_next own)⟩
      · rcases h.stopped (by rw [before, gone]) with ⟨c, member, ended⟩
        exact ⟨c, mem_finished step member, ended⟩
    · -- it begins to work in the task that is started for it
      rw [running] at after
      refine employed_of_standing step after (fun _ idle => ?_) (fun n' same => ?_) fun gone => ?_
      · cases idle
      · cases same
        rcases standing?_of_step step after with old | ⟨_, there⟩
        · rw [before, idle] at old
          cases old
        · exact ⟨none, there⟩
      · cases gone

/-- No dispatcher is at work before the run begins. -/
theorem employed_opening (known : d < costs.length) :
    Employed d [] (opening start (ofDispatchers bucket groups blocks costs)) := by
  have idle : (opening start (ofDispatchers bucket groups blocks costs)).shared.standing? d =
      some .idle := by simp [opening, ofDispatchers, standing?, known]
  refine ⟨?_, fun {n} running => ?_, fun gone => ?_⟩
  · rintro ⟨m, member, _⟩
    cases member
  · cases idle.symm.trans running
  · cases idle.symm.trans gone

/-! ## Dispatchers that listen -/

/-- A dispatcher that has nothing to do listens for mail, or was called. It is known that no more will
come as soon as its scheduler can be reached no longer, and not before. -/
structure Attentive (d : Nat) (e : State) : Prop where
  abandoned : ∀ {w}, e.shared.watch? d = some w → w.2 = !e.shared.isReachable e.tasks d
  listens : ∀ {n}, Runs d e n none → Attends n e ∨ e.shared.watch? d = some (some n, false)

/-- Nobody is told too early that no mail will come. -/
theorem Attentive.unreachable (h : Attentive d e) (watched : e.shared.watch? d = some w)
    (known : w.2 = true) : e.shared.isReachable e.tasks d = false := by
  have noted := h.abandoned watched
  rw [known] at noted
  simpa using noted.symm

/-- After a sweep it is known which schedulers are out of reach. -/
theorem watch?_of_closes (closes : Closes program g e') :
    e'.shared.watch? d =
      (g.watch? d).map fun w => (w.1, w.2 || !e'.shared.isReachable e'.tasks d) := by
  have shared : e'.shared = (sweep e'.tasks g).1 := closes.shared
  rw [(swept_of_closes closes).isReachable, ← watch?_sweep, ← shared]

/-- A sweep notes when a scheduler can be reached no longer. -/
theorem abandoned_of_closes (closes : Closes program g e')
    (noted : ∀ {w}, g.watch? d = some w → w.2 = true → e'.shared.isReachable e'.tasks d = false)
    (watched : e'.shared.watch? d = some w) : w.2 = !e'.shared.isReachable e'.tasks d := by
  rw [watch?_of_closes closes] at watched
  rcases Option.map_eq_some_iff.1 watched with ⟨w', before, rfl⟩
  cases known : w'.2 with
  | false =>
      rfl
  | true =>
      rw [noted before known]
      rfl

/-- Whoever listens goes on to do so unless no mail will come, and then it is called. -/
theorem attends_of_closes (closes : Closes program g e') (watched : g.watch? d = some (some n, false))
    (inside : n < e'.tasks.length) :
    Attends n e' ∨ e'.shared.watch? d = some (some n, false) := by
  cases reach : e'.shared.isReachable e'.tasks d with
  | true =>
      right
      rw [watch?_of_closes closes, watched, reach]
      rfl
  | false =>
      left
      rw [(swept_of_closes closes).isReachable] at reach
      exact ⟨inside, closes.calls n (mem_sweep watched reach)⟩

/-- A task in which a dispatcher begins to work is ready. -/
theorem attends_of_start (prompt : Prompt (fun _ => False) e) (step : Step program e l e')
    (before : ∀ n chosen, ¬ Runs d e n chosen) (stands : Runs d e' n none) : Attends n e' := by
  cases arises_of_step step stands with
  | stays old _ =>
      exact absurd old (before n none)
  | goesOn _ next continues =>
      cases continues
      exact absurd (task?_of_next? next) (before n _)
  | acted acts _ _ =>
      -- there was no such task before, so that all of them were ready, and so is the new one
      subst acts
      have fresh : Prompt (fun job => job = .serve d none) e :=
        ⟨fun old same => absurd (same ▸ old) (before _ none),
          fun old same => absurd (same ▸ old) (before _ none), prompt.known⟩
      cases step with
      | act acted =>
          have prompt' := (fresh.act acted).prompt
          exact ⟨(List.getElem?_eq_some_iff.1 stands).1,
            fun _ => ⟨prompt'.ready stands rfl, prompt'.awake stands rfl⟩⟩
  | sent _ same =>
      cases same

/-- A dispatcher that has its turn listens again, or stops. -/
theorem attentive_of_turn (h : Attentive d e) (booked : Booked d hs e x)
    (ledger : Ledger d (log d hs) e) (step : Step program e .turn e')
    (next : e.next? = some (number, .serve d chosen)) : Attentive d e' := by
  have inside := (List.getElem?_eq_some_iff.1 (task?_of_next? next)).1
  have ledger' : Ledger d (log d (hs ++ [(e, .turn)])) e' := by
    rw [log_snoc]
    exact ledger_of_step ledger step
  rcases labours_of_step booked step next with ⟨queue, t, there, labours, closes, left⟩
  have watched := watch?_of_scheduler there
  -- no turn of its own tells it that no more will come
  have abandoned : (∀ {w}, t.shared.watch? d = some w → w.2 = queue.abandoned) →
      ∀ {w}, e'.shared.watch? d = some w → w.2 = !e'.shared.isReachable e'.tasks d := by
    intro same w
    refine abandoned_of_closes closes fun {w} before known => unreachable_of_step step ?_
    exact h.unreachable watched ((same before).symm.trans known)
  cases labours with
  | @still c c' _ _ dispatchers schedulers _ next' _ =>
      have same : t.shared.watch? d = e.shared.watch? d := by simp [watch?, schedulers]
      have found : e'.shared.dispatchers[d]? = some x := by
        rw [left.shared.dispatchers, dispatchers]
        exact booked.dispatcher
      refine ⟨abandoned fun {w} after => ?_, fun {n} stands => ?_⟩
      · cases (same.trans watched).symm.trans after
        rfl
      · have waits : Runs d e' number (some c') := (left.stands inside).trans (congrArg some next')
        cases (stands.unique waits ledger' found).2
  | @waits chosen' x' queue' _ worked next' _ same listens =>
      have after := watch?_of_scheduler worked.scheduler
      have found := left.dispatcher worked.dispatcher
      refine ⟨abandoned fun {w} there => ?_, fun {n} stands => ?_⟩
      · cases after.symm.trans there
        exact same
      · have waits : Runs d e' number chosen' := (left.stands inside).trans (congrArg some next')
        rcases stands.unique waits ledger' found with ⟨rfl, none⟩
        rcases listens none.symm with ⟨reachable, listener⟩
        rw [listener, same, reachable] at after
        exact attends_of_closes closes after (List.getElem?_eq_some_iff.1 stands).1
  | @stops x' queue' _ worked _ known gone _ known' =>
      have after := watch?_of_scheduler worked.scheduler
      have found := left.dispatcher worked.dispatcher
      refine ⟨abandoned fun {w} there => ?_, fun {n} stands => ?_⟩
      · cases after.symm.trans there
        exact known'.trans known.symm
      · -- a dispatcher that has stopped has no task
        cases gone.symm.trans (running_of_runs ledger' found stands)

/-- No move leaves a dispatcher with nothing to do that is neither listening nor called. -/
theorem attentive_of_step (h : Attentive d e) (prompt : Prompt (fun _ => False) e)
    (booked : Booked d hs e x) (ledger : Ledger d (log d hs) e) (crews : ∀ id, Crewed id e)
    (step : Step program e l e') (apart : Moment.leavesAlone d (e, l) = true) : Attentive d e' := by
  by_cases own : IsTurnOf d e l
  · rcases own with ⟨rfl, number, chosen, next⟩
    exact attentive_of_turn h booked ledger step next
  · have awaits : ∀ {n}, Runs d e' n none → Runs d e n none ∨ Attends n e' := by
      intro n stands
      rcases (minds_of_moves ledger.manned (moves_of_step step) own).task stands with
        old | ⟨_, k, desk, idle⟩
      · exact .inl old
      · refine .inr (attends_of_start prompt step (fun n chosen before => ?_) stands)
        cases idle.symm.trans (ledger.manned before desk)
    -- whoever was called before is called still
    have attends : ∀ {n}, Runs d e n none → Attends n e → Attends n e' :=
      fun stands attends => attends_of_step attends step (stands.not_next own)
    rcases watch?_of_step crews step apart own with ⟨g, same, closes⟩ | ⟨shared, tasks⟩
    · refine ⟨?_, fun {n} stands => ?_⟩
      · refine abandoned_of_closes closes fun {w} before known => unreachable_of_step step ?_
        exact h.unreachable (same.symm.trans before) known
      · rcases awaits stands with old | called
        · rcases h.listens old with called | watched
          · exact .inl (attends old called)
          · exact attends_of_closes closes (same.trans watched)
              (List.getElem?_eq_some_iff.1 stands).1
        · exact .inl called
    · refine ⟨?_, fun {n} stands => ?_⟩
      · rw [shared, tasks]
        exact h.abandoned
      · rcases awaits stands with old | called
        · rw [shared]
          exact (h.listens old).imp (attends old) id
        · exact .inl called

/-- The driver can reach every scheduler before the run begins. -/
theorem attentive_opening (known : d < costs.length) :
    Attentive d (opening start (ofDispatchers bucket groups blocks costs)) := by
  have fresh : (opening start (ofDispatchers bucket groups blocks costs)).shared.watch? d =
      some (none, false) := by simp [opening, ofDispatchers, watch?, known]
  refine ⟨fun {w} watched => ?_, fun {n} stands => ?_⟩
  · cases fresh.symm.trans watched
    rfl
  · cases stands

/-! ## Dispatchers that stop -/

structure Tenure (costs : List UInt64) (d : Nat) (hs : List Moment) (e : State) : Prop where
  crews : ∀ id, Crewed id e
  tracked : Tracked costs hs e
  booked : ∃ x, Booked d hs e x
  owned : Owned d hs e
  employed : Employed d hs e
  attentive : Attentive d e
  prompt : Prompt (fun _ => False) e

/-- All that is known of a dispatcher is kept by every move that leaves it alone. -/
theorem tenure_of_step (h : Tenure costs d hs e) (step : Step program e l e')
    (apart : Moment.leavesAlone d (e, l) = true) : Tenure costs d (hs ++ [(e, l)]) e' := by
  rcases h.booked with ⟨x, booked⟩
  have ledger := h.tracked.ledger d
  exact ⟨fun id => crewed_of_step (h.crews id) step, tracked_of_step h.tracked step,
    booked_of_step booked h.crews step apart, owned_of_step h.owned h.crews step apart,
    employed_of_step h.employed booked ledger h.crews step apart,
    attentive_of_step h.attentive h.prompt booked ledger h.crews step apart,
    (advances_of_step h.prompt (fun _ _ never => never) step).prompt⟩

theorem tenure_opening (known : d < costs.length) :
    Tenure costs d [] (opening start (ofDispatchers bucket groups blocks costs)) :=
  ⟨fun id => crewed_opening id bucket groups blocks costs start,
    tracked_opening bucket groups blocks costs start, booked_opening known, owned_opening d _ start,
    employed_opening known, attentive_opening known, .of_empty rfl rfl⟩

/-- It is known in every state of a run that leaves the dispatcher alone. -/
theorem tenure_of_history
    (history : History program (opening start (ofDispatchers bucket groups blocks costs)) hs e)
    (known : d < costs.length) (apart : ∀ m ∈ hs, Moment.leavesAlone d m = true) :
    Tenure costs d hs e :=
  history.invariant (I := Tenure costs d) (fun sofar step alone => tenure_of_step sofar step alone) apart
    (tenure_opening known)

/-- A dispatcher whose scheduler can be reached no longer has sent all that was registered with it, if it
waits for mail, and all of it has ended. -/
theorem settled_of_unreachable (h : Tenure costs d hs e) (stands : Runs d e n chosen)
    (unreachable : e.shared.isReachable e.tasks d = false) :
    (registrations d hs).Perm ((sendings (log d hs)).map (·.1.request)) ∧
      ∀ {y k}, .sends y k ∈ log d hs →
        ∃ c ∈ e.finished, c.task = k ∧ ∃ outcome, c.result = .dispatched d y outcome := by
  rcases h.booked with ⟨x, booked⟩
  have ledger := h.tracked.ledger d
  have vacant := vacant_of_unreachable booked h.owned h.tracked.sent ledger unreachable
  rcases ledger.orderly with ⟨c, orderly, left⟩
  refine ⟨?_, fun {y k} sends => ?_⟩
  · have chose := left stands
    rw [vacant.chosen stands] at chose
    have requests := orderly.requests
    rw [chose] at requests
    have came := booked.came
    rw [vacant.pending, vacant.inbox, List.append_nil, List.append_nil] at came
    simp only [Option.map_none, Option.toList_none, List.append_nil, List.nil_append] at requests
    rw [requests]
    exact came
  · rcases h.owned.follows sends with ⟨stage, busy⟩ | ended
    · exact absurd busy vacant.sends
    · exact ended

/-- A dispatcher for which nothing waits sends nothing. -/
theorem quiet_of_worked {there : List Pending} {ds : List Deed} {chosen' : Option Chosen}
    {queue queue' : Scheduler} {dispatches : List Dispatch}
    (worked : Worked there d n x queue none t ds chosen' x' queue' dispatches) (nothing : there = []) :
    sendings ds = [] := by
  have taken := worked.takings
  rw [nothing] at taken
  have requests := worked.orderly.requests
  rw [(List.append_eq_nil_iff.1 taken).1] at requests
  exact List.map_eq_nil_iff.1 (List.append_eq_nil_iff.1 requests).1

/-- A dispatcher whose scheduler can be reached no longer sends nothing in its turn. -/
theorem sendings_of_unreachable (h : Tenure costs d hs e) (step : Step program e .turn e')
    (next : e.next? = some (number, .serve d chosen))
    (unreachable : e.shared.isReachable e.tasks d = false) :
    sendings (Moment.deeds d (e, .turn)) = [] := by
  rcases h.booked with ⟨x, booked⟩
  have vacant := vacant_of_unreachable booked h.owned h.tracked.sent (h.tracked.ledger d) unreachable
  have idle : chosen = none := vacant.chosen (task?_of_next? next)
  subst idle
  rcases labours_of_step booked step next with ⟨queue, t, there, labours, _, _⟩
  have mail : queue.waiting = [] := by
    rw [← vacant.inbox]
    simp [inbox, there]
  have nothing : (e.shared.intake x queue).pending = [] := by
    have requests := (perm_intake e.shared x queue []).1
    rw [vacant.pending, mail] at requests
    exact List.map_eq_nil_iff.1 requests.eq_nil
  cases labours with
  | still chose _ _ _ _ _ _ =>
      cases chose
  | waits worked _ _ _ _ =>
      exact quiet_of_worked worked nothing
  | stops worked _ _ _ _ _ =>
      exact quiet_of_worked worked nothing

/-- The task of a dispatcher ends only in a turn of it, when its scheduler can be reached no longer. -/
theorem unreachable_of_stop (h : Tenure costs d hs e) (step : Step program e l e')
    (apart : Moment.leavesAlone d (e, l) = true) (stands : Runs d e n chosen)
    (gone : e'.task? n = none) :
    IsTurnOf d e l ∧ e.shared.isReachable e.tasks d = false := by
  have ended : ∀ {job}, e'.tasks[n]? ≠ some (some job) := by
    intro job still
    simp [task?, still] at gone
  have own : IsTurnOf d e l := by
    by_contra other
    exact ended (stands_of_apart h.crews step apart (by simp [Job.worksFor]) stands
      (stands.not_next other))
  refine ⟨own, ?_⟩
  rcases own with ⟨rfl, number, chosen', next⟩
  rcases h.booked with ⟨x, booked⟩
  have here : n = number :=
    (stands.unique (task?_of_next? next) (h.tracked.ledger d) booked.dispatcher).1
  subst here
  have inside := (List.getElem?_eq_some_iff.1 stands).1
  rcases labours_of_step booked step next with ⟨queue, t, there, labours, _, left⟩
  cases labours with
  | still _ _ _ _ _ next' _ =>
      exact absurd ((left.stands inside).trans (congrArg some next')) ended
  | waits _ next' _ _ _ =>
      exact absurd ((left.stands inside).trans (congrArg some next')) ended
  | stops _ _ abandoned _ _ _ =>
      exact h.attentive.unreachable (watch?_of_scheduler there) abandoned

/-- When nobody has anything to do, a dispatcher whose scheduler can be reached no longer has no task: it
would wait for mail, and either have been called or listen to a scheduler that is abandoned. -/
theorem not_runs_of_unreachable (h : Tenure costs d hs e) (idle : e.ready = [])
    (unreachable : e.shared.isReachable e.tasks d = false) : ¬ Runs d e n chosen := by
  intro stands
  rcases h.booked with ⟨x, booked⟩
  have vacant := vacant_of_unreachable booked h.owned h.tracked.sent (h.tracked.ledger d) unreachable
  have waits := vacant.chosen stands
  subst waits
  rcases h.attentive.listens stands with attends | watched
  · have there : e.tasks[n]? = some (some (.serve d none)) := stands
    have ready := (attends.called (by simp [task?, there])).ready
    rw [idle] at ready
    cases ready
  · have noted := h.attentive.abandoned watched
    rw [unreachable] at noted
    cases noted

/-- A dispatcher that was started and has no task has stopped. -/
theorem gone_of_not_runs (h : Tenure costs d hs e)
    (started : ∃ m ∈ hs, m.2 = .act (.start d) (.found true))
    (idle : ∀ {n chosen}, ¬ Runs d e n chosen) : e.shared.standing? d = some .gone := by
  rcases h.booked with ⟨x, booked⟩
  have stands := standing?_of_dispatcher booked.dispatcher
  cases standing : x.standing with
  | idle =>
      rw [standing] at stands
      exact absurd stands (h.employed.started started)
  | running n =>
      rw [standing] at stands
      rcases h.employed.works stands with ⟨chosen, runs⟩
      exact absurd runs idle
  | gone =>
      rw [standing] at stands
      exact stands

/-- In every run, a dispatcher that is left alone stops exactly when it is done. Its task ends only
when its scheduler can be reached no longer, and then all that was ever registered was sent, and all
that was sent has ended. If it was started, nobody has anything to do and its scheduler can be
reached no longer, it has stopped. -/
theorem stops_when_unreachable
    (history : History program (opening start (ofDispatchers bucket groups blocks costs)) hs e)
    (known : d < costs.length) (apart : ∀ m ∈ hs, Moment.leavesAlone d m = true) :
    (∀ before m after n chosen, hs = before ++ m :: after →
      m.1.task? n = some (.serve d chosen) → (Executor.Moment.after program m).task? n = none →
      m.1.shared.isReachable m.1.tasks d = false ∧
        (registrations d (before ++ [m])).Perm
          ((sendings (log d (before ++ [m]))).map (·.1.request)) ∧
        ∀ y k, .sends y k ∈ log d (before ++ [m]) →
          ∃ c ∈ m.1.finished, c.task = k ∧ ∃ outcome, c.result = .dispatched d y outcome) ∧
    ((∃ m ∈ hs, m.2 = .act (.start d) (.found true)) → e.ready = [] →
      e.shared.isReachable e.tasks d = false →
      e.shared.standing? d = some .gone ∧ (∃ c ∈ e.finished, c.result = .stopped d) ∧
        ∀ n chosen, e.task? n ≠ some (.serve d chosen)) := by
  refine ⟨?_, fun started idle unreachable => ?_⟩
  · rintro before ⟨middle, l⟩ after n chosen rfl stands ended
    rcases history.split_cons with ⟨first, last, step, _⟩
    have tenure := tenure_of_history first known fun m member => apart m (List.mem_append_left _ member)
    have alone := apart (middle, l) (List.mem_append_right _ List.mem_cons_self)
    rw [after_of_step step] at ended
    have runs : Runs d middle n chosen := getElem?_of_task? stands
    rcases unreachable_of_stop tenure step alone runs ended with ⟨own, unreachable⟩
    rcases settled_of_unreachable tenure runs unreachable with ⟨sent, settled⟩
    -- neither is anything registered nor sent in its last turn
    have registered : registrations d (before ++ [(middle, l)]) = registrations d before := by
      rw [registrations_snoc, registration?_of_turn own, arriving_none, List.append_nil]
    have same : sendings (log d (before ++ [(middle, l)])) = sendings (log d before) := by
      rcases own with ⟨rfl, number, chosen', next⟩
      rw [log_snoc, sendings_append, sendings_of_unreachable tenure step next unreachable,
        List.append_nil]
    refine ⟨unreachable, ?_, fun y k sends => ?_⟩
    · rw [registered, same]
      exact sent
    · have old := mem_sendings.2 sends
      rw [same] at old
      exact settled (mem_sendings.1 old)
  · have tenure := tenure_of_history history known apart
    have noTask : ∀ {n chosen}, ¬ Runs d e n chosen := not_runs_of_unreachable tenure idle unreachable
    have gone := gone_of_not_runs tenure started noTask
    exact ⟨gone, tenure.employed.stopped gone,
      fun n chosen stands => noTask (getElem?_of_task? stands)⟩

def released : List Moment × State :=
  follow program
    (opening 0 (ofDispatchers ⟨3, 3, 1000000, 0, 0, []⟩ [⟨.bulk, {}, .ofList [(.content, 0)]⟩]
      [(zeroKey, [97])] [3]))
    [.act (.create 0 zeroKey 0 {}) (), .act (.create 0 zeroKey 0 {}) (), .act (.schedule 0) (),
      -- everybody lets go while the dispatcher waits for the tokens for its last request
      .act (.schedule 1) (), .act (.start 0) (), .turn, .act .forget (), .turn, .clock 4000000, .turn,
      .turn, .turn]

def farewell : Moment :=
  released.1.getLast (by decide)

theorem released_stops_when_unreachable :
    (∀ m ∈ released.1, Moment.leavesAlone 0 m = true) ∧ registrations 0 released.1 = [0, 1] ∧
      (farewell.1.task? 0 = some (.serve 0 none) ∧
        (Executor.Moment.after program farewell).task? 0 = none ∧
        farewell.1.shared.isReachable farewell.1.tasks 0 = false ∧
        farewell.1.finished.map (·.task) = [2, 1]) ∧
      released.2.ready = [] ∧ released.2.shared.isReachable released.2.tasks 0 = false ∧
      released.2.shared.standing? 0 = some .gone ∧
      ∃ c ∈ released.2.finished, c.result = .stopped 0 := by
  have apart : ∀ m ∈ released.1, Moment.leavesAlone 0 m = true := by decide
  have run : History program _ released.1 released.2 := history_follow _ _
  rcases stops_when_unreachable run (d := 0) (by decide) apart with ⟨ends, stops⟩
  have split : released.1 = released.1.dropLast ++ [farewell] :=
    (List.dropLast_append_getLast _).symm
  have works : farewell.1.task? 0 = some (.serve 0 none) := by decide
  have gone : (Executor.Moment.after program farewell).task? 0 = none := by decide
  have unreachable := (ends _ _ _ 0 none split works gone).1
  have begun : ∃ m ∈ released.1, m.2 = .act (.start 0) (.found true) := by decide
  have idle : released.2.ready = [] := by decide
  have lost : released.2.shared.isReachable released.2.tasks 0 = false := by decide
  rcases stops begun idle lost with ⟨standing, stopped, _⟩
  exact ⟨apart, by decide, ⟨works, gone, unreachable, by decide⟩, idle, lost, standing, stopped⟩

end Fetcher
end MeteredFetch
