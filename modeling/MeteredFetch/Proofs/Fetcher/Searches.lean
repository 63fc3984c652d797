import MeteredFetch.Proofs.Executor.Ready
import MeteredFetch.Proofs.Fetcher.Sendings

/-!
# Searches — what is searched for

A request is sent without payment only if it is cancelled, and then it is so for good. So the task
that sends it ends with its first turn and does not search. If nobody sends requests past the
dispatchers, every search is made in the first turn of a dispatch that was paid for.

* `Fetcher.calls_of_turn` — when a turn searches;
* `Fetcher.turn_of_cancelled` — the turn of a dispatch for a cancelled request;
* `Fetcher.Spared`, `Fetcher.spared_of_step` — what becomes of a dispatch that was not paid for;
* `Fetcher.Searches`, `Fetcher.searches_of_step` — searches are made for what was paid;
* `Fetcher.Mediated`, `Fetcher.mediated_of_history` — both of this, for runs.
-/

namespace MeteredFetch

def Outcome.isEnd : Outcome → Bool
  | .succeeded | .failed _ | .cancelled => true
  | .retrying _ => false

namespace Fetcher

open Executor Deed

variable {f : Fetcher} {now : Instant} {task n : TaskId} {job job' : Job} {t : Turned} {d : Nat}
  {x : Dispatch} {e e' : State} {l : Label Action Answer} {hs : List Moment}

/-! ## Turns -/

theorem calls_adopt (f : Fetcher) (id : RequestId) (c : Conclusion) :
    (f.adopt id c).1.calls = f.calls := by
  rcases adopt_same f id c with ⟨schedulers, same⟩
  rw [same]

/-- A turn begins a search only in an attempt that is new, at a request that is not cancelled. -/
theorem calls_of_turn (turned : f.turn now task job = .ok t) :
    t.shared.calls = f.calls ∨
      ∃ call : Call, job.attempt? = some (call.request, .fresh) ∧
        f.isCancelled call.request = false ∧ call.task = task ∧
        t.shared.calls = call :: f.calls := by
  cases turns turned with
  | granted | waits =>
      exact .inl rfl
  | @attempts _ request stage _ _ _ _ attempt _ _ _ =>
      have sent := sends f now task request stage
      generalize f.send now task request stage = result at sent ⊢
      have wanted : ∀ {r r' : Request}, f.requests[request]? = some r →
          r.beginSend = .lookup r' → f.isCancelled request = false := by
        intro r r' found begins
        rcases Request.onward_of_lookup begins with ⟨_, _, uncancelled⟩
        simpa [isCancelled, found] using uncancelled
      cases sent with
      | missing gone =>
          exact .inl rfl
      | concluded found begins =>
          exact .inl (calls_adopt f request _)
      | arrived found =>
          exact .inl (calls_adopt f request _)
      | awaits held found begins after =>
          exact .inr ⟨_, attempt, wanted found begins, rfl, after.calls⟩
      | answered found begins after there onward =>
          exact .inr ⟨_, attempt, wanted found begins, rfl,
            (calls_adopt _ request _).trans after.calls⟩
  | @retries request failure =>
      left
      unfold Fetcher.retry
      split
      · rfl
      · exact calls_adopt f request _
  | serves served =>
      left
      cases served <;> rfl

/-- A dispatch for a cancelled request ends with its first turn, without a search. -/
theorem turn_of_cancelled (f : Fetcher) (now : Instant) (task : TaskId) (d : Nat) (x : Dispatch)
    (cancelled : f.isCancelled x.request = true) :
    ∃ t outcome, f.turn now task (.dispatch d x .fresh) = .ok t ∧
      t.next = .finish (.dispatched d x (.ok outcome)) ∧ outcome.isEnd = true ∧
      t.shared.calls = f.calls := by
  cases found : f.requests[x.request]? with
  | none =>
      simp [isCancelled, found] at cancelled
  | some r =>
      have flag : r.cancelled = true := by simpa [isCancelled, found] using cancelled
      -- settled or not, a cancelled request begins no search
      have begins : ∃ c outcome, r.beginSend = .concluded c ∧ c.outcome = .ok outcome ∧
          outcome.isEnd = true := by
        unfold Request.beginSend
        cases status : r.settled? with
        | some outcome =>
            refine ⟨r.keep outcome, outcome, rfl, rfl, ?_⟩
            unfold Request.settled? at status
            split at status <;> cases status <;> rfl
        | none =>
            exact ⟨r.endCancelled, .cancelled, by simp [flag], rfl, rfl⟩
      rcases begins with ⟨c, outcome, begins, ok, isEnd⟩
      have sent : f.send now task x.request .fresh =
          ((f.adopt x.request c).1, (f.adopt x.request c).2, .finish (.ok outcome)) := by
        unfold send
        simp only [found, begins, finish, ok]
      obtain ⟨t, turned⟩ : ∃ t, f.turn now task (.dispatch d x .fresh) = .ok t := ⟨_, rfl⟩
      refine ⟨t, outcome, turned, ?_, isEnd, ?_⟩
      · simp only [turn, sent] at turned
        cases turned
        rfl
      · simp only [turn, sent] at turned
        cases turned
        rcases settle_same (f.adopt x.request c).1 d x (.ok outcome) with ⟨_, _, settled, _⟩
        change ((f.adopt x.request c).1.settle d x (.ok outcome)).calls = f.calls
        rw [settled]
        exact calls_adopt f x.request c

/-! ## Dispatches that were not paid for -/

/-- A request that was not paid for is cancelled, its task has had no turn or has ended, and it has
ended as it should. -/
structure Spared (hs : List Moment) (e : State) : Prop where
  cancelled : ∀ {d x n}, .sends x n ∈ log d hs → x.charged = false →
    e.shared.isCancelled x.request = true
  fresh : ∀ {d x n job}, .sends x n ∈ log d hs → x.charged = false →
    e.tasks[n]? = some (some job) → job = .dispatch d x .fresh
  finished : ∀ {d x n}, .sends x n ∈ log d hs → x.charged = false → ∀ c ∈ e.finished, c.task = n →
    ∃ outcome, c.result = .dispatched d x (.ok outcome) ∧ outcome.isEnd = true
  ended : ∀ c ∈ e.finished, c.task < e.tasks.length

/-- An end that is recorded was recorded before, or is that of the turn that was taken. -/
theorem mem_finished_of_step {c : Completion Result} (step : Step program e l e')
    (member : c ∈ e'.finished) :
    c ∈ e.finished ∨ ∃ job t, l = .turn ∧ e.next? = some (c.task, job) ∧
      e.shared.turn e.now c.task job = .ok t ∧ t.next = .finish c.result := by
  cases moves_of_step step with
  | @turned number job t turn next went left =>
      rw [left.finished] at member
      cases ends : t.next with
      | wait job' alarm =>
          rw [ends] at member
          exact .inl member
      | finish result =>
          rw [ends] at member
          rcases List.mem_cons.1 member with rfl | old
          · exact .inr ⟨job, t, turn, next, went, ends⟩
          · exact .inl old
  | acted _ _ _ left =>
      rw [left.finished] at member
      exact .inl member
  | dropped _ _ left =>
      rw [left.finished] at member
      exact .inl member
  | rested _ left =>
      rw [left.finished] at member
      exact .inl member

/-- A request is sent without payment only if it is cancelled when it is sent. -/
theorem cancelled_of_sends (sends : .sends x n ∈ Moment.deeds d (e, l))
    (free : x.charged = false) : e.shared.isCancelled x.request = true := by
  by_cases own : IsTurnOf d e l
  · rcases own with ⟨rfl, number, chosen, next⟩
    rw [deeds_of_next next] at sends
    rcases mem_deeds sends with ⟨_, _, ⟨_, _, _, queue⟩ | ⟨c, _, _, _, paid | sent⟩⟩
    · exact Dispatcher.cancelled_of_deeds queue free
    · cases paid
    · -- tokens were waited for, so this one was paid for
      cases sent
      cases free
  · rw [deeds_of_other own] at sends
    cases sends

/-- A task that sends what was not paid for ends with its turn. -/
theorem Spared.ends (h : Spared hs e) (sends : .sends x n ∈ log d hs) (free : x.charged = false)
    (next : e.next? = some (n, job)) (went : e.shared.turn e.now n job = .ok t) :
    ∃ outcome, t.next = .finish (.dispatched d x (.ok outcome)) ∧ outcome.isEnd = true := by
  rw [h.fresh sends free (task?_of_next? next)] at went
  rcases turn_of_cancelled e.shared e.now n d x (h.cancelled sends free) with
    ⟨t', outcome, went', result, isEnd, _⟩
  cases went'.symm.trans went
  exact ⟨outcome, result, isEnd⟩

/-- No move makes a search of a dispatch that was not paid for. -/
theorem spared_of_step (sent : Sent hs e) (h : Spared hs e) (step : Step program e l e') :
    Spared (hs ++ [(e, l)]) e' := by
  refine ⟨?_, ?_, ?_, ?_⟩
  · intro d x n member free
    rcases mem_log_snoc member with old | new
    · exact (heeds_of_step step x.request).cancelled (h.cancelled old free)
    · exact (heeds_of_step step x.request).cancelled (cancelled_of_sends new free)
  · intro d x n job member free stands
    rcases mem_log_snoc member with old | new
    · cases arises_of_step step stands with
      | stays before _ =>
          exact h.fresh old free before
      | goesOn turn next continues =>
          rcases (moves_of_step step).of_next turn next with ⟨t, went, left⟩
          rcases h.ends old free next went with ⟨outcome, result, _⟩
          have inside := (List.getElem?_eq_some_iff.1 (task?_of_next? next)).1
          rw [left.stands inside, result] at stands
          cases stands
      | acted _ later _ =>
          exact absurd (sent.known old) (Nat.not_lt_of_le later)
      | sent sends _ =>
          exact absurd sends (sent.not_mem_deeds step old)
    · cases (stands_of_sends step new).2.symm.trans stands
      rfl
  · intro d x n member free c ended own
    rcases mem_finished_of_step step ended with before | ⟨job, t, _, next, went, result⟩
    · rcases mem_log_snoc member with old | new
      · exact h.finished old free c before own
      · -- no task with this number can have ended
        have inside := h.ended c before
        rw [own] at inside
        exact absurd inside (Nat.not_lt_of_le (stands_of_sends step new).1)
    · rw [own] at next went
      rcases mem_log_snoc member with old | new
      · rcases h.ends old free next went with ⟨outcome, result', isEnd⟩
        exact ⟨outcome, Next.finish.inj (result.symm.trans result'), isEnd⟩
      · have inside := (List.getElem?_eq_some_iff.1 (task?_of_next? next)).1
        exact absurd inside (Nat.not_lt_of_le (stands_of_sends step new).1)
  · intro c ended
    apply Nat.lt_of_lt_of_le _ (length_tasks_of_step step)
    rcases mem_finished_of_step step ended with before | ⟨job, t, _, next, _⟩
    · exact h.ended c before
    · exact (List.getElem?_eq_some_iff.1 (task?_of_next? next)).1

/-- What was sent is known, and what was spared, however a run goes on. -/
theorem spared_of_history {hs' : List Moment} (sent : Sent hs e) (spared : Spared hs e)
    (history : History program e hs' e') : Sent (hs ++ hs') e' ∧ Spared (hs ++ hs') e' := by
  refine history.invariant (I := fun hs' e => Sent (hs ++ hs') e ∧ Spared (hs ++ hs') e)
    (A := fun _ => True) ?_ (fun _ _ => trivial) ?_
  · intro hs' e l e' sofar step _
    rw [← List.append_assoc]
    exact ⟨sent_of_step sofar.1 step, spared_of_step sofar.1 sofar.2 step⟩
  · rw [List.append_nil]
    exact ⟨sent, spared⟩

/-! ## Searches -/

/-- Nobody sends a request past the dispatchers. -/
def Moment.isMediated (m : Moment) : Bool :=
  match m.2 with
  | .act (.send _) _ => false
  | _ => true

structure Searches (hs : List Moment) (e : State) : Prop where
  mediated : ∀ {n : TaskId} {request : RequestId} {stage : Sending},
    e.tasks[n]? ≠ some (some (.send request stage))
  paid : ∀ call ∈ e.shared.calls, ∃ d, .sends ⟨call.request, true⟩ call.task ∈ log d hs
  begun : ∀ call ∈ e.shared.calls, ∀ d x, e.tasks[call.task]? ≠ some (some (.dispatch d x .fresh))
  once : (e.shared.calls.map (·.task)).Nodup

/-- A move makes no search, or it is the first turn of an attempt at a request that is not
cancelled. -/
theorem calls_of_step (step : Step program e l e') :
    e'.shared.calls = e.shared.calls ∨
      ∃ (call : Call) (job : Job), l = .turn ∧ e.next? = some (call.task, job) ∧
        job.attempt? = some (call.request, .fresh) ∧
        e.shared.isCancelled call.request = false ∧ e'.shared.calls = call :: e.shared.calls := by
  cases moves_of_step step with
  | turned turn next went left =>
      rw [left.shared.unchanged.calls]
      rcases calls_of_turn went with same | ⟨call, attempt, wanted, rfl, more⟩
      · exact .inl same
      · exact .inr ⟨call, _, turn, next, attempt, wanted, more⟩
  | acted _ _ performed left =>
      left
      exact left.shared.unchanged.calls.trans (quiet_of_perform performed).1
  | dropped _ _ left =>
      left
      exact left.shared.unchanged.calls.trans (unchanged_dropJob _ _ _).calls
  | rested _ left =>
      left
      exact left.shared.unchanged.calls

/-- An attempt that begins is that of a dispatcher. -/
theorem Searches.dispatch_of_attempt (h : Searches hs e) {request : RequestId}
    (stands : e.tasks[n]? = some (some job)) (attempt : job.attempt? = some (request, .fresh)) :
    ∃ d x, x.request = request ∧ job = .dispatch d x .fresh := by
  cases job with
  | dispatch d x stage =>
      cases attempt
      exact ⟨d, x, rfl, rfl⟩
  | send request' stage =>
      exact absurd stands h.mediated
  | _ =>
      cases attempt

/-- A search is made in the first turn of a dispatch that was paid for. -/
theorem Searches.paid_of_calls (sent : Sent hs e) (spared : Spared hs e) (h : Searches hs e)
    {call : Call} (next : e.next? = some (call.task, job))
    (attempt : job.attempt? = some (call.request, .fresh))
    (wanted : e.shared.isCancelled call.request = false) :
    ∃ d, job = .dispatch d ⟨call.request, true⟩ .fresh ∧
      .sends ⟨call.request, true⟩ call.task ∈ log d hs := by
  rcases h.dispatch_of_attempt (task?_of_next? next) attempt with ⟨d, x, own, rfl⟩
  have sends := sent.task (task?_of_next? next)
  have charged : x.charged = true := by
    cases free : x.charged with
    | true =>
        rfl
    | false =>
        have cancelled := spared.cancelled sends free
        rw [own, wanted] at cancelled
        cases cancelled
  have dispatch : x = ⟨call.request, true⟩ := by rw [← own, ← charged]
  subst dispatch
  exact ⟨d, rfl, sends⟩

/-- Whatever was searched for by the end of a move was paid for before the move. -/
theorem paid_of_step (sent : Sent hs e) (spared : Spared hs e) (h : Searches hs e)
    (step : Step program e l e') {call : Call} (member : call ∈ e'.shared.calls) :
    ∃ d, .sends ⟨call.request, true⟩ call.task ∈ log d hs := by
  rcases calls_of_step step with same | ⟨call', job, _, next, attempt, wanted, more⟩
  · rw [same] at member
    exact h.paid call member
  · rw [more] at member
    rcases List.mem_cons.1 member with rfl | before
    · rcases h.paid_of_calls sent spared next attempt wanted with ⟨d, _, sends⟩
      exact ⟨d, sends⟩
    · exact h.paid call before

/-- Every search of a mediated move is that of a dispatch that was paid for. -/
theorem searches_of_step (sent : Sent hs e) (spared : Spared hs e) (h : Searches hs e)
    (step : Step program e l e') (mediated : Moment.isMediated (e, l) = true) :
    Searches (hs ++ [(e, l)]) e' := by
  have direct : ∀ {n : TaskId} {request : RequestId} {stage : Sending},
      e'.tasks[n]? ≠ some (some (.send request stage)) := by
    intro n request stage stands
    cases arises_of_step step stands with
    | stays before _ =>
        exact h.mediated before
    | goesOn _ next continues =>
        cases continues
        exact h.mediated (task?_of_next? next)
    | acted same _ starts =>
        cases starts
        rw [same] at mediated
        cases mediated
    | sent _ same =>
        cases same
  have paid : ∀ call ∈ e'.shared.calls,
      ∃ d, .sends ⟨call.request, true⟩ call.task ∈ log d (hs ++ [(e, l)]) := by
    intro call member
    rcases paid_of_step sent spared h step member with ⟨d, sends⟩
    refine ⟨d, ?_⟩
    rw [log_snoc]
    exact List.mem_append_left _ sends
  -- a task that has searched has had its first turn
  have begun : ∀ call ∈ e.shared.calls, ∀ d x,
      e'.tasks[call.task]? ≠ some (some (.dispatch d x .fresh)) := by
    intro call member d x stands
    rcases h.paid call member with ⟨_, sends⟩
    exact h.begun call member d x (stays_of_fresh step (sent.known sends) stands).1
  rcases calls_of_step step with same | ⟨call, job, turn, next, attempt, wanted, more⟩
  · rw [← same] at begun
    refine ⟨direct, paid, begun, ?_⟩
    rw [same]
    exact h.once
  · rcases h.paid_of_calls sent spared next attempt wanted with ⟨d, rfl, sends⟩
    refine ⟨direct, paid, ?_, ?_⟩
    · intro other member d' x' stands
      rw [more] at member
      rcases List.mem_cons.1 member with rfl | before
      · exact (stays_of_fresh step (sent.known sends) stands).2 _ turn next
      · exact begun other before d' x' stands
    · rw [more, List.map_cons]
      refine List.nodup_cons.2 ⟨?_, h.once⟩
      intro again
      rcases List.mem_map.1 again with ⟨other, before, same⟩
      apply h.begun other before d ⟨call.request, true⟩
      rw [same]
      exact task?_of_next? next

/-! ## Runs -/

def Job.isFresh : Job → Bool
  | .dispatch _ _ .fresh => true
  | _ => false

structure Mediated (hs : List Moment) (e : State) : Prop where
  sent : Sent hs e
  spared : Spared hs e
  searches : Searches hs e
  prompt : Prompt (fun job => Job.isFresh job = true) e

/-- A task that has had a turn does not stand as it has started. -/
theorem departs_isFresh : Departs program fun job => Job.isFresh job = true := by
  intro now n job f t job' turned stands fresh
  cases continues_of_turn turned stands <;> cases fresh

theorem mediated_of_step (h : Mediated hs e) (step : Step program e l e')
    (mediated : Moment.isMediated (e, l) = true) : Mediated (hs ++ [(e, l)]) e' :=
  ⟨sent_of_step h.sent step, spared_of_step h.sent h.spared step,
    searches_of_step h.sent h.spared h.searches step mediated,
    (advances_of_step h.prompt departs_isFresh step).prompt⟩

/-- In a mediated run every search was paid for. -/
theorem mediated_of_history (h : Mediated [] e) (history : History program e hs e')
    (mediated : ∀ m ∈ hs, Moment.isMediated m = true) : Mediated hs e' :=
  history.invariant (I := Mediated) mediated_of_step mediated h

theorem mediated_opening (start : Instant) (calls : f.calls = []) :
    Mediated [] (opening start f) := by
  refine ⟨⟨nofun, nofun, nofun, nofun, fun _ => .nil⟩, ⟨nofun, nofun, nofun, nofun⟩, ?_,
    .of_empty rfl rfl⟩
  have none : (opening start f).shared.calls = [] := calls
  refine ⟨nofun, ?_, ?_, ?_⟩
  · rw [none]
    nofun
  · rw [none]
    nofun
  · rw [none]
    exact .nil

end Fetcher
end MeteredFetch
