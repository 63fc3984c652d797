import MeteredFetch.Proofs.Fetcher.Payment
import MeteredFetch.Proofs.Fetcher.Settling

/-!
# Refunds — what a dispatch gives back

A dispatch gives back what was paid for it, in its last turn, exactly if its request turns out to be
cancelled. So what was paid is kept for a search that came to something else, and nothing is given
back for what was not paid for. There is one more way to end: if the request has succeeded or failed
by the first turn of the dispatch, then nothing is searched for, and what was paid is kept all the
same.

* `Fetcher.Cleared` — what has become of the tokens of a dispatch that has ended;
* `Fetcher.Course` — how far a dispatch has come, `Fetcher.Course.own` and `Fetcher.Course.other` say
  how a move takes it further;
* `Fetcher.Tracked`, `Fetcher.tracked_of_history` — all dispatches of a run;
* `Fetcher.refunds_unless_searched` — what becomes of the tokens of a dispatch that has finished, and
  `Fetcher.not_refunds_unless_searched` is about a dispatch that came too late.
-/

namespace MeteredFetch
namespace Fetcher

open Executor Deed

variable {n : TaskId} {job : Job} {t : Turned} {d : Nat} {x : Dispatch} {e e' : State}
  {l : Label Action Answer} {hs : List Moment} {cost : UInt64} {costs : List UInt64}
  {outcome : Except FetchError Outcome}

/-! ## The way of a dispatch -/

structure Untouched (n : TaskId) (hs : List Moment) (e : State) : Prop where
  turns : ∀ m ∈ hs, Moment.isTurnBy n m = false
  calls : n ∉ e.shared.calls.map (·.task)
  finished : ∀ c ∈ e.finished, c.task ≠ n

theorem Untouched.timely (h : Untouched n hs e) : ∀ m ∈ hs, Moment.isBelated n m = false :=
  fun m member => isBelated_of_other (h.turns m member)

theorem Untouched.retains (h : Untouched n hs e) : Retains n hs := by
  intro m member own
  rw [h.turns m member] at own
  cases own

/-- A task that has had no turn has had none after the turn of another. -/
theorem Untouched.other (h : Untouched n hs e) (other : Moment.isTurnBy n (e, l) = false)
    (step : Step program e l e') : Untouched n (hs ++ [(e, l)]) e' := by
  refine ⟨List.forall_mem_append.2 ⟨h.turns, List.forall_mem_singleton.2 other⟩, ?_, ?_⟩
  · rw [calls_of_other other step]
    exact h.calls
  · intro c member own
    exact h.finished c (finished_of_other other step member own) own

structure Cleared (cost : UInt64) (hs : List Moment) (e : State) (x : Dispatch) (n : TaskId)
    (outcome : Except FetchError Outcome) : Prop where
  given : x.charged = true → outcome = .ok .cancelled → Refunds cost n hs
  kept : x.charged = false ∨ outcome ≠ .ok .cancelled → Retains n hs
  explained : outcome = .ok .cancelled ∨ n ∈ e.shared.calls.map (·.task) ∨
    ∃ m ∈ hs, Moment.isBelated n m = true
  belated : ∀ m ∈ hs, Moment.isBelated n m = true →
    outcome ≠ .ok .cancelled ∧ n ∉ e.shared.calls.map (·.task)

/-- What has become of the tokens does not change in the turns of others. -/
theorem Cleared.other (h : Cleared cost hs e x n outcome)
    (other : Moment.isTurnBy n (e, l) = false) (step : Step program e l e') :
    Cleared cost (hs ++ [(e, l)]) e' x n outcome := by
  have calls := calls_of_other other step
  refine ⟨?_, ?_, ?_, ?_⟩
  · intro charged cancelled
    exact (h.given charged cancelled).other other
  · intro kept
    exact (h.kept kept).other other
  · rw [calls]
    refine h.explained.imp_right fun explained => explained.imp_right ?_
    rintro ⟨m, member, late⟩
    exact ⟨m, List.mem_append_left _ member, late⟩
  · intro m member late
    rw [calls]
    rcases List.mem_append.1 member with old | new
    · exact h.belated m old late
    · cases List.mem_singleton.1 new
      rw [isBelated_of_other other] at late
      cases late

/-- How far a dispatch has come in the task `n`. -/
inductive Course (cost : UInt64) (hs : List Moment) (e : State) (d : Nat) (x : Dispatch)
    (n : TaskId) : Prop
  /-- It has had no turn. -/
  | fresh : e.tasks[n]? = some (some (.dispatch d x .fresh)) → Untouched n hs e →
      Course cost hs e d x n
  /-- It has searched. -/
  | awaits {response : Response} : e.tasks[n]? = some (some (.dispatch d x (.awaiting response))) →
      Retains n hs → (∀ m ∈ hs, Moment.isBelated n m = false) →
      n ∈ e.shared.calls.map (·.task) → (∀ c ∈ e.finished, c.task ≠ n) → Course cost hs e d x n
  /-- It has ended, or was dropped. -/
  | gone : (∀ job, e.tasks[n]? ≠ some (some job)) →
      (∀ c ∈ e.finished, c.task = n → ∃ outcome, c.result = .dispatched d x outcome ∧
        Cleared cost hs e x n outcome) → Course cost hs e d x n

/-- A turn of another task, or none, leaves a dispatch where it is, or drops it. -/
theorem Course.other (h : Course cost hs e d x n) (other : Moment.isTurnBy n (e, l) = false)
    (inside : n < e.tasks.length) (step : Step program e l e') :
    Course cost (hs ++ [(e, l)]) e' d x n := by
  have before : ∀ {job : Job}, e'.tasks[n]? = some (some job) → e.tasks[n]? = some (some job) :=
    fun stands => stands_of_other other inside step stands
  have unfinished : (∀ c ∈ e.finished, c.task ≠ n) → ∀ c ∈ e'.finished, c.task ≠ n :=
    fun none c member own => none c (finished_of_other other step member own) own
  by_cases alive : ∃ job, e'.tasks[n]? = some (some job)
  · -- it stands where it stood before
    rcases alive with ⟨job, stands⟩
    cases h with
    | fresh there untouched =>
        cases there.symm.trans (before stands)
        exact .fresh stands (untouched.other other step)
    | awaits there kept early searched none =>
        cases there.symm.trans (before stands)
        have timely := List.forall_mem_append.2
          ⟨early, List.forall_mem_singleton.2 (isBelated_of_other other)⟩
        exact .awaits stands (kept.other other) timely ((calls_of_other other step).2 searched)
          (unfinished none)
    | gone nowhere _ =>
        exact absurd (before stands) (nowhere job)
  · -- it is dropped in this move, which records no end, or it was gone before
    refine .gone (fun job stands => alive ⟨job, stands⟩) ?_
    intro c member own
    have old := finished_of_other other step member own
    cases h with
    | fresh _ untouched =>
        exact absurd own (untouched.finished c old)
    | awaits _ _ _ _ none =>
        exact absurd own (none c old)
    | gone _ cleared =>
        rcases cleared c old own with ⟨outcome, result, settled⟩
        exact ⟨outcome, result, settled.other other step⟩

/-- A dispatch that goes on after its first turn awaits the response. -/
theorem Untouched.awaits {response : Response} (h : Untouched n hs e) (leads : Leads n e t e')
    (goesOn : standing t.next = some (.dispatch d x (.awaiting response)))
    (kept : t.shared.bucket = e.shared.bucket)
    (timely : Moment.isBelated n (e, .turn) = false)
    (searched : n ∈ t.shared.calls.map (·.task)) : Course cost (hs ++ [(e, .turn)]) e' d x n := by
  have retains : Retains n (hs ++ [(e, .turn)]) := by
    apply h.retains.snoc
    intro _
    exact leads.bucket.trans kept
  have early := List.forall_mem_append.2 ⟨h.timely, List.forall_mem_singleton.2 timely⟩
  have unfinished : e'.finished = e.finished := by
    rw [leads.finished]
    cases ends : t.next with
    | wait job alarm =>
        rfl
    | finish result =>
        rw [ends] at goesOn
        cases goesOn
  refine .awaits (by rw [leads.stands, goesOn]) retains early ?_ ?_
  · rw [leads.calls]
    exact searched
  · rw [unfinished]
    exact h.finished

/-- The last turn of a dispatch settles what becomes of its tokens. -/
theorem Course.of_last (leads : Leads n e t e') (retains : Retains n hs)
    (unfinished : ∀ c ∈ e.finished, c.task ≠ n)
    (ended : t.next = .finish (.dispatched d x outcome))
    (settled : Settles cost x outcome e.shared.bucket t.shared.bucket)
    (explained : outcome = .ok .cancelled ∨ n ∈ t.shared.calls.map (·.task) ∨
      Moment.isBelated n (e, .turn) = true)
    (belated : ∀ m ∈ hs ++ [(e, .turn)], Moment.isBelated n m = true →
      outcome ≠ .ok .cancelled ∧ n ∉ t.shared.calls.map (·.task)) :
    Course cost (hs ++ [(e, .turn)]) e' d x n := by
  refine .gone ?_ ?_
  · intro job stands
    rw [leads.stands, ended] at stands
    cases stands
  · intro c member own
    rw [leads.finished, ended] at member
    rcases List.mem_cons.1 member with rfl | old
    · refine ⟨outcome, rfl, ?_, ?_, ?_, ?_⟩
      · intro charged cancelled
        exact retains.refunds leads.turn (leads.bucket.trans (settled.given charged cancelled))
      · intro spared
        exact retains.snoc fun _ => leads.bucket.trans (settled.kept spared)
      · rw [leads.calls]
        refine explained.imp_right fun explained => explained.imp_right fun late => ?_
        exact ⟨_, List.mem_append_right _ (List.mem_singleton_self _), late⟩
      · rw [leads.calls]
        exact belated
    · exact absurd own (unfinished c old)

/-- The turn of a dispatch takes it one step further. -/
theorem Course.own (h : Course cost hs e d x n) (next : e.next? = some (n, job))
    (price : e.shared.price? d = some cost) (exist : x.request < e.shared.requests.length)
    (step : Step program e .turn e') : Course cost (hs ++ [(e, .turn)]) e' d x n := by
  have stands := task?_of_next? next
  have found := List.getElem?_eq_getElem exist
  rcases leads_of_step next step with ⟨t, went, leads⟩
  have never : ∀ {outcome : Except FetchError Outcome},
      (∀ m ∈ hs, Moment.isBelated n m = false) → Moment.isBelated n (e, .turn) = false →
        ∀ m ∈ hs ++ [(e, .turn)], Moment.isBelated n m = true →
          outcome ≠ .ok .cancelled ∧ n ∉ t.shared.calls.map (·.task) := by
    intro outcome early last m member late
    rw [List.forall_mem_append.2 ⟨early, List.forall_mem_singleton.2 last⟩ m member] at late
    cases late
  cases h with
  | fresh before untouched =>
      cases before.symm.trans stands
      -- the turn comes too late exactly if the request is settled
      have late := isBelated_of_next next found
      cases dispatched_of_turn price found went with
      | awaits unsettled own more same goesOn =>
          rw [unsettled] at late
          refine untouched.awaits leads goesOn same late ?_
          rw [more, ← own]
          exact List.mem_cons_self
      | @spared _ outcome settledIff same settled ended =>
          refine .of_last leads untouched.retains untouched.finished ended settled ?_ ?_
          · by_cases cancelled : outcome = .ok .cancelled
            · exact .inl cancelled
            · exact .inr (.inr (late.trans (settledIff.2 cancelled)))
          · intro m member belated
            rw [same]
            rcases List.mem_append.1 member with old | new
            · rw [untouched.timely m old] at belated
              cases belated
            · cases List.mem_singleton.1 new
              exact ⟨settledIff.1 (late.symm.trans belated), untouched.calls⟩
      | answered unsettled own more settled ended =>
          rw [unsettled] at late
          refine .of_last leads untouched.retains untouched.finished ended settled (.inr (.inl ?_))
            (never untouched.timely late)
          rw [more, ← own]
          exact List.mem_cons_self
  | awaits before kept early searched none =>
      cases before.symm.trans stands
      have last : Moment.isBelated n (e, .turn) = false := by simp [Moment.isBelated, next]
      cases dispatched_of_turn price found went with
      | arrived same settled ended =>
          refine .of_last leads kept none ended settled (.inr (.inl ?_)) (never early last)
          rw [same]
          exact searched
  | gone nowhere _ =>
      exact absurd stands (nowhere job)

/-! ## Runs -/

structure Tracked (costs : List UInt64) (hs : List Moment) (e : State) : Prop where
  price : ∀ d, e.shared.price? d = costs[d]?
  ledger : ∀ d, Ledger d (log d hs) e
  stock : ∀ d, Stock d e.shared.requests.length hs e
  sent : Sent hs e
  untouched : ∀ n, e.tasks.length ≤ n → Untouched n hs e
  course : ∀ {d x n}, .sends x n ∈ log d hs → ∃ cost, costs[d]? = some cost ∧ Course cost hs e d x n
  origin : ∀ c ∈ e.finished, ∀ {d x outcome}, c.result = .dispatched d x outcome →
    .sends x c.task ∈ log d hs

/-- Every move leaves a dispatch where it was in its course, or takes it on. -/
theorem tracked_of_step (h : Tracked costs hs e) (step : Step program e l e') :
    Tracked costs (hs ++ [(e, l)]) e' := by
  refine ⟨?_, ?_, ?_, sent_of_step h.sent step, ?_, ?_, ?_⟩
  · intro d
    rw [price?_of_step step]
    exact h.price d
  · intro d
    rw [log_snoc]
    exact ledger_of_step (h.ledger d) step
  · intro d
    exact stock_of_step (h.ledger d).manned (h.stock d) step
  · intro n outside
    have before := Nat.le_trans (length_tasks_of_step step) outside
    exact (h.untouched n before).other (isTurnBy_of_length_le l before) step
  · intro d x n sends
    rcases mem_log_snoc sends with old | new
    · -- it was sent before, and the move is the turn of its task or is not
      rcases h.course old with ⟨cost, known, course⟩
      refine ⟨cost, known, ?_⟩
      cases turn : Moment.isTurnBy n (e, l) with
      | false =>
          exact course.other turn (h.sent.known old) step
      | true =>
          rcases isTurnBy_iff.1 turn with ⟨rfl, job, next⟩
          exact course.own next ((h.price d).trans known) ((h.stock d).sent old) step
    · -- it is sent in this move, in a task whose number is new
      rcases stands_of_sends step new with ⟨outside, stands⟩
      rcases price?_of_deeds new with ⟨cost, price⟩
      refine ⟨cost, (h.price d).symm.trans price, .fresh stands ?_⟩
      exact (h.untouched n outside).other (isTurnBy_of_length_le l outside) step
  · intro c member d x outcome result
    rw [log_snoc]
    apply List.mem_append_left
    rcases mem_finished_of_step step member with old | ⟨job, t, _, next, went, ended⟩
    · exact h.origin c old result
    · rw [result] at ended
      rcases job_of_dispatched went ended with ⟨stage, rfl⟩
      exact h.sent.task (task?_of_next? next)

variable {bucket : Bucket} {groups : List Group} {blocks : List (Key × Bytes)} {start : Instant}

/-- At the beginning nothing was dispatched. -/
theorem tracked_opening (bucket : Bucket) (groups : List Group) (blocks : List (Key × Bytes))
    (costs : List UInt64) (start : Instant) :
    Tracked costs [] (opening start (ofDispatchers bucket groups blocks costs)) := by
  have sent := (mediated_opening (f := ofDispatchers bucket groups blocks costs) start rfl).sent
  refine ⟨fun d => price?_ofDispatchers d, fun d => ledger_opening d _ start,
    fun d => (stock_opening d).mono (Nat.zero_le _), sent, ?_, ?_, ?_⟩
  · intro n _
    have none : (opening start (ofDispatchers bucket groups blocks costs)).shared.calls = [] := rfl
    refine ⟨?_, by rw [none]; exact List.not_mem_nil, ?_⟩
    · intro m member
      cases member
    · intro c member
      cases member
  · intro d x n sends
    cases sends
  · intro c member
    cases member

/-- The course of every dispatch is known in every state of a run. -/
theorem tracked_of_history
    (h : History program (opening start (ofDispatchers bucket groups blocks costs)) hs e) :
    Tracked costs hs e :=
  h.invariant (I := Tracked costs) (A := fun _ => True) (fun sofar step _ => tracked_of_step sofar step)
    (fun _ _ => trivial) (tracked_opening bucket groups blocks costs start)

/-- A dispatch was paid for, right before it was sent, exactly if it is charged. -/
theorem charged_iff_pays {c : Option RequestId} {ds : List Deed} (orderly : Orderly none ds c)
    (sends : .sends x n ∈ ds) :
    x.charged = true ↔ ∃ left tokens right, ds = left ++ .pays tokens :: .sends x n :: right := by
  constructor
  · exact orderly.split_of_sends sends
  · rintro ⟨left, tokens, right, split⟩
    rcases orderly.split_of_pays split with ⟨request, task, rest, same⟩
    cases same
    rfl

/-- What becomes of the tokens of a dispatch that has finished. It was charged exactly if it was paid
for, and gives nothing back if it was not. If its request had neither succeeded nor failed by its
first turn, what was paid is given back once, unless it has searched and this has not come to a
cancellation; then it is kept. If its request had succeeded or failed by then, what was paid is kept
although it has not searched. -/
theorem refunds_unless_searched
    (h : History program (opening start (ofDispatchers bucket groups blocks costs)) hs e)
    {c : Completion Result} (member : c ∈ e.finished) (result : c.result = .dispatched d x outcome) :
    ∃ cost, costs[d]? = some cost ∧ .sends x c.task ∈ log d hs ∧
      (x.charged = true ↔
        ∃ left right, log d hs = left ++ .pays cost :: .sends x c.task :: right) ∧
      (x.charged = false → Retains c.task hs) ∧
      (x.charged = true → (∀ m ∈ hs, Moment.isBelated c.task m = false) →
        (¬ (outcome ≠ .ok .cancelled ∧ c.task ∈ e.shared.calls.map (·.task)) →
          Refunds cost c.task hs) ∧
        (outcome ≠ .ok .cancelled ∧ c.task ∈ e.shared.calls.map (·.task) → Retains c.task hs)) ∧
      ((∃ m ∈ hs, Moment.isBelated c.task m = true) →
        Retains c.task hs ∧ c.task ∉ e.shared.calls.map (·.task)) := by
  have tracked := tracked_of_history h
  have sends := tracked.origin c member result
  rcases tracked.course sends with ⟨cost, known, course⟩
  -- its end is recorded, so it is neither fresh nor on its way
  have cleared : Cleared cost hs e x c.task outcome := by
    cases course with
    | fresh _ untouched =>
        exact absurd rfl (untouched.finished c member)
    | awaits _ _ _ _ none =>
        exact absurd rfl (none c member)
    | gone _ cleared =>
        rcases cleared c member rfl with ⟨outcome', result', cleared⟩
        cases result.symm.trans result'
        exact cleared
  rcases (tracked.ledger d).orderly with ⟨last, orderly, _⟩
  refine ⟨cost, known, sends, ?_, fun free => cleared.kept (.inl free), ?_, ?_⟩
  · rw [charged_iff_pays orderly sends]
    constructor
    · rintro ⟨left, tokens, right, split⟩
      have paid : .pays tokens ∈ log d hs := by
        rw [split]
        simp
      cases known.symm.trans (cost_of_pays h paid)
      exact ⟨left, right, split⟩
    · rintro ⟨left, right, split⟩
      exact ⟨left, cost, right, split⟩
  · intro charged timely
    refine ⟨?_, fun searched => cleared.kept (.inr searched.1)⟩
    intro unsearched
    apply cleared.given charged
    rcases cleared.explained with cancelled | searched | ⟨m, there, late⟩
    · exact cancelled
    · by_contra other
      exact unsearched ⟨other, searched⟩
    · rw [timely m there] at late
      cases late
  · rintro ⟨m, there, late⟩
    rcases cleared.belated m there late with ⟨other, unsearched⟩
    exact ⟨cleared.kept (.inr other), unsearched⟩

def reimbursed : List Moment × State :=
  follow program
    (opening 0 (ofDispatchers ⟨10, 10, 3600000000000, 0, 0, []⟩
      [⟨.bulk, {}, .ofList [(.content, 0)]⟩] [(zeroKey, [97])] [2]))
    -- the search cancels the very request that it is made for
    [.act (.create 0 zeroKey 0 {}) (), .act (.hook [0]) (), .act (.schedule 0) (),
      .act (.start 0) (), .turn, .turn]

theorem reimbursed_refunds_unless_searched :
    ⟨1, .dispatched 0 ⟨0, true⟩ (.ok .cancelled), 0⟩ ∈ reimbursed.2.finished ∧
      log 0 reimbursed.1 = [.takes ⟨.bulk, 0, 0⟩, .pays 2, .sends ⟨0, true⟩ 1] ∧
      reimbursed.2.shared.calls.map (·.task) = [1] ∧ Refunds 2 1 reimbursed.1 ∧
      reimbursed.2.shared.bucket.balance = 10 := by
  have run : History program _ reimbursed.1 reimbursed.2 := history_follow _ _
  have member : ⟨1, .dispatched 0 ⟨0, true⟩ (.ok .cancelled), 0⟩ ∈ reimbursed.2.finished :=
    List.mem_singleton_self _
  have timely : ∀ m ∈ reimbursed.1, Moment.isBelated 1 m = false := by decide
  rcases refunds_unless_searched run member rfl with ⟨cost, known, _, _, _, charged, _⟩
  cases known
  refine ⟨member, by decide, by decide, (charged rfl timely).1 ?_, by decide⟩
  rintro ⟨other, _⟩
  exact other rfl

def overpaid : List Moment × State :=
  follow program
    (opening 0 (ofDispatchers ⟨10, 10, 3600000000000, 0, 0, []⟩
      [⟨.bulk, {}, .ofList [(.content, 0)]⟩] [(zeroKey, [97])] [2]))
    -- by the time of the second dispatch the first one has succeeded
    [.act (.create 0 zeroKey 0 {}) (), .act (.schedule 0) (), .act (.schedule 0) (),
      .act (.start 0) (), .turn, .turn, .turn]

/-- What is paid for a dispatch that comes too late is not given back, although it has not searched. -/
theorem not_refunds_unless_searched :
    overpaid.2.shared.bucket.balance = 6 ∧
      ¬ ∀ c ∈ overpaid.2.finished, ∀ d x outcome, c.result = .dispatched d x outcome →
        x.charged = true →
        ¬ (outcome ≠ .ok .cancelled ∧ c.task ∈ overpaid.2.shared.calls.map (·.task)) →
        Refunds 2 c.task overpaid.1 := by
  have member : ⟨2, .dispatched 0 ⟨0, true⟩ (.ok .succeeded), 0⟩ ∈ overpaid.2.finished :=
    List.mem_cons_self
  have unsearched : 2 ∉ overpaid.2.shared.calls.map (·.task) := by decide
  have never : ∀ m ∈ overpaid.1, Moment.isTurnBy 2 m = true →
      m.bucket ≠ m.1.shared.bucket.recycle 2 := by decide
  refine ⟨by decide, ?_⟩
  intro claim
  have refunds := claim _ member 0 ⟨0, true⟩ _ rfl rfl fun searched => unsearched searched.2
  rcases refunds with ⟨before, m, after, split, turn, given, _⟩
  exact never m (by rw [split]; simp) turn given

end Fetcher
end MeteredFetch
