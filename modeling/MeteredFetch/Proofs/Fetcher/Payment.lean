import MeteredFetch.Proofs.Fetcher.Holdings
import MeteredFetch.Proofs.Fetcher.Searches

/-!
# Payment — no search without payment

A dispatcher pays for a request before it sends it, by a withdrawal of what a dispatch costs. It
spares this only if the request is cancelled. If nobody sends requests past the dispatchers, each
search is made for a dispatch that was paid for, each payment is for one dispatch, and a dispatch
that was not paid for ends without a search.

* `Fetcher.drawn_of_serve` — whatever a dispatcher does in a turn, it does with withdrawals on the
  bucket of the fetcher;
* `Fetcher.Withdraws` — a withdrawal that a dispatcher has begun in a run, and where it stands;
* `Fetcher.Completes`, `Fetcher.IsPaid` — such a withdrawal ends in a move, and a dispatch was paid
  for by one that has ended;
* `Fetcher.Charges`, `Fetcher.charges_of_history` — the tokens that a dispatcher waits for are what it
  charges, and it has begun to withdraw them in the run;
* `Fetcher.IsFree` — a dispatch makes no search and ends at its first turn, which comes soon;
* `Fetcher.pays_before_search` — payments, searches, and dispatches that were not paid for.
-/

namespace MeteredFetch
namespace Fetcher

open Executor Deed

variable {f : Fetcher} {now : Instant} {task next number : TaskId} {t : Turned} {d : Nat}
  {cost : UInt64} {x : Dispatcher} {queue : Scheduler} {chosen : Option Chosen} {costs : List UInt64}
  {e e' : State} {l : Label Action Answer} {hs : List Moment}

/-! ## Turns -/

/-- A dispatcher goes through its queue from the bucket that it finds to the one that it leaves. -/
theorem drawn_of_serveQueue {paid : List Dispatch} (next : TaskId)
    (h : f.serveQueue now task d x queue paid = .ok t) :
    ∃ chosen', Drawn now task x.cost none f.bucket
        (Dispatcher.deeds now task x.cost f.isCancelled next (f.intake x queue).pending f.bucket)
        chosen' t.shared.bucket ∧
      ∀ c, standing t.next = some (.serve d c) → c = chosen' := by
  rcases ok_of_bind h with ⟨served, went, rest⟩
  have cost : (f.intake x queue).cost = x.cost := by rw [intake_eq]
  change Dispatcher.serve now task (f.intake x queue).cost f.isCancelled
    (f.intake x queue).pending f.bucket = .ok served at went
  rw [cost] at went
  have logged := Dispatcher.logged went next
  refine ⟨served.chosen, ?_, ?_⟩
  · have bucket : t.shared.bucket = served.bucket := by
      cases choice : served.chosen with
      | some c =>
          simp only [choice] at rest
          cases rest
          rfl
      | none =>
          simp only [choice] at rest
          split at rest <;> cases rest <;> rfl
    rw [bucket]
    exact logged.drawn
  · intro c stands
    cases choice : served.chosen with
    | some c' =>
        simp only [choice] at rest
        cases rest
        cases stands
        rfl
    | none =>
        simp only [choice] at rest
        split at rest
        · cases rest
          cases stands
        · cases rest
          cases stands
          rfl

/-- Whatever a dispatcher does in a turn, it does with withdrawals on the bucket of the fetcher. It
goes on with the request that they leave. -/
theorem drawn_of_serve (dispatcher : f.dispatchers[d]? = some x)
    (scheduler : f.schedulers[d]? = some queue) (next : TaskId)
    (h : f.serve now task d chosen = .ok t) :
    ∃ chosen', Drawn now task x.cost chosen f.bucket (f.deeds now task next d chosen) chosen'
        t.shared.bucket ∧
      ∀ c, standing t.next = some (.serve d c) → c = chosen' := by
  simp only [serve, dispatcher, scheduler] at h
  simp only [Fetcher.deeds, dispatcher, scheduler]
  cases chosen with
  | none =>
      exact drawn_of_serveQueue next h
  | some c =>
      rcases ok_of_bind h with ⟨⟨bucket, caller⟩, turned, rest⟩
      simp only [turned]
      cases caller with
      | some caller =>
          cases rest
          refine ⟨some { c with caller }, .waits turned, ?_⟩
          intro c' stands
          cases stands
          rfl
      | none =>
          -- the tokens are there, and the rest of the queue is gone through
          have went : ({ f with bucket } : Fetcher).serveQueue now task d x queue
              [⟨c.request, true⟩] = .ok t := rest
          rcases drawn_of_serveQueue (next + 1) went with ⟨chosen', drawn, goesOn⟩
          exact ⟨chosen', .pays turned drawn, goesOn⟩

/-! ## Withdrawals -/

/-- A withdrawal of `cost` tokens that a dispatcher has begun for a request in a run, and where it
stands. Each of its turns is made in a turn of the dispatcher, on the bucket of the run. -/
inductive Withdraws (d : Nat) (cost : UInt64) : List Moment → RequestId → Caller → Prop
  /-- It has a turn and goes on to wait. If it was waited for before, it was begun before. -/
  | draws {hs : List Moment} {m : Moment} {number : TaskId} {chosen : Option Chosen} {r : RequestId}
      {caller : Caller} :
      m.2 = .turn → m.1.next? = some (number, .serve d chosen) →
      (∀ c, chosen = some c → Withdraws d cost hs c.request c.caller) →
      Draws m.1.now number cost chosen m.1.shared.bucket (m.deeds d) r (some caller)
        (Executor.Moment.after program m).shared.bucket →
      Withdraws d cost (hs ++ [m]) r caller
  /-- It is not the turn of the dispatcher. -/
  | other {hs : List Moment} {m : Moment} {r : RequestId} {caller : Caller} :
      Withdraws d cost hs r caller → ¬ IsTurnOf d m.1 m.2 → Withdraws d cost (hs ++ [m]) r caller

/-- In a move, after it has done `left`, a dispatcher ends the withdrawal of `cost` tokens for a
request, which it begins in this move or has begun before. -/
def Completes (d : Nat) (cost : UInt64) (before : List Moment) (m : Moment) (left : List Deed)
    (r : RequestId) : Prop :=
  m.2 = .turn ∧ ∃ number chosen b, m.1.next? = some (number, .serve d chosen) ∧
    (∀ c, chosen = some c → Withdraws d cost before c.request c.caller) ∧
    Draws m.1.now number cost chosen m.1.shared.bucket left r none b

/-- A dispatcher has sent a request in the task with a number, and before that it has ended a
withdrawal of `cost` tokens for it. -/
def IsPaid (d : Nat) (cost : UInt64) (r : RequestId) (n : TaskId) (hs : List Moment) : Prop :=
  ∃ before m after left right, hs = before ++ m :: after ∧
    m.deeds d = left ++ .pays cost :: .sends ⟨r, true⟩ n :: right ∧ Completes d cost before m left r

/-- What a dispatcher charges is known, it has a scheduler, and the tokens that it waits for are what
it charges. -/
structure Charges (d : Nat) (cost : UInt64) (hs : List Moment) (e : State) : Prop where
  price : e.shared.price? d = some cost
  scheduler : d < e.shared.schedulers.length
  waits : ∀ {number c}, Runs d e number (some c) → Withdraws d cost hs c.request c.caller

/-- Whatever a dispatcher does in a move, it does with withdrawals on the bucket of the run. -/
theorem Charges.drawn (h : Charges d cost hs e) (next : e.next? = some (number, .serve d chosen))
    (step : Step program e .turn e') :
    ∃ chosen', Drawn e.now number cost chosen e.shared.bucket (Moment.deeds d (e, .turn)) chosen'
        e'.shared.bucket ∧
      ∀ c, Runs d e' number c → c = chosen' := by
  rcases Option.map_eq_some_iff.1 h.price with ⟨x, dispatcher, rfl⟩
  have scheduler := List.getElem?_eq_getElem h.scheduler
  rcases (moves_of_step step).of_next rfl next with ⟨t, went, left⟩
  rcases drawn_of_serve dispatcher scheduler e.tasks.length went with ⟨chosen', drawn, goesOn⟩
  have inside := (List.getElem?_eq_some_iff.1 (task?_of_next? next)).1
  refine ⟨chosen', ?_, ?_⟩
  · rcases left.shared with ⟨schedulers, same, _⟩
    rw [deeds_of_next next, same]
    exact drawn
  · intro c stands
    unfold Runs at stands
    rw [left.stands inside] at stands
    exact goesOn c (Option.some.inj stands)

/-- A dispatcher waits for the tokens that it charges, after every move. -/
theorem charges_of_step (ledger : Ledger d (log d hs) e) (h : Charges d cost hs e)
    (step : Step program e l e') : Charges d cost (hs ++ [(e, l)]) e' := by
  refine ⟨(price?_of_step step d).trans h.price, ?_, ?_⟩
  · rw [length_schedulers_of_step step]
    exact h.scheduler
  · intro n c stands
    have moves := moves_of_step step
    by_cases own : IsTurnOf d e l
    · rcases own with ⟨rfl, number, chosen, next⟩
      have runs : Runs d e number chosen := task?_of_next? next
      rcases h.drawn next step with ⟨chosen', drawn, goesOn⟩
      rcases moves.of_next rfl next with ⟨t, went, left⟩
      rcases runs_of_serving (serving went e.tasks.length) left stands with ⟨rfl, _⟩ | ⟨ne, old⟩
      · rw [← after_of_step step] at drawn
        refine .draws rfl next ?_ (drawn.draws_of_waits (goesOn _ stands).symm)
        rintro c rfl
        exact h.waits runs
      · exact absurd (Manned.unique ledger.manned h.price old runs) ne
    · rcases (minds_of_moves ledger.manned moves own).task stands with old | ⟨none, _⟩
      · exact .other (h.waits old) own
      · cases none

/-- In every state of a run, a dispatcher waits for the tokens that it charges and for nothing else. -/
theorem charges_of_history (ledger : Ledger d [] e) (h : Charges d cost [] e)
    (history : History program e hs e') : Charges d cost hs e' := by
  have both := history.invariant (I := fun hs e => Ledger d (log d hs) e ∧ Charges d cost hs e)
    (A := fun _ => True) ?_ (fun _ _ => trivial) ⟨ledger, h⟩
  · exact both.2
  · intro hs e l e' sofar step _
    rw [log_snoc]
    exact ⟨ledger_of_step sofar.1 step, charges_of_step sofar.1 sofar.2 step⟩

/-- Whatever a dispatcher pays in a move is what it charges, for the request that it sends next, whose
withdrawal ends in this move. -/
theorem Charges.completes {left right : List Deed} {tokens : UInt64} (h : Charges d cost hs e)
    (step : Step program e l e') (split : Moment.deeds d (e, l) = left ++ .pays tokens :: right) :
    tokens = cost ∧ ∃ request number rest, right = .sends ⟨request, true⟩ number :: rest ∧
      Completes d cost hs (e, l) left request := by
  by_cases own : IsTurnOf d e l
  · rcases own with ⟨rfl, number, chosen, next⟩
    rcases h.drawn next step with ⟨chosen', drawn, _⟩
    rcases drawn.draws_of_pays split with ⟨same, request, n, rest, b, sends, draws⟩
    refine ⟨same, request, n, rest, sends, rfl, number, chosen, b, next, ?_, draws⟩
    rintro c rfl
    exact h.waits (task?_of_next? next)
  · rw [deeds_of_other own] at split
    cases left <;> cases split

/-- Whatever a dispatcher charges for when it sends it was paid for. -/
theorem isPaid_of_sends {r : RequestId} {n : TaskId} (ledger : Ledger d [] e)
    (h : Charges d cost [] e) (history : History program e hs e')
    (sends : .sends ⟨r, true⟩ n ∈ log d hs) : IsPaid d cost r n hs := by
  rcases List.mem_flatMap.1 sends with ⟨m, member, there⟩
  rcases List.append_of_mem member with ⟨before, after, rfl⟩
  rcases history.split_cons with ⟨first, middle, step, _⟩
  have charges := charges_of_history ledger h first
  -- the deeds of the move are in order, so the payment comes right before
  by_cases own : IsTurnOf d m.1 m.2
  · rcases own with ⟨turn, number, chosen, next⟩
    rw [turn] at step
    have moment : m = (m.1, .turn) := by rw [← turn]
    rcases charges.drawn next step with ⟨chosen', drawn, _⟩
    rw [← moment] at drawn
    rcases drawn.orderly.split_of_sends there rfl with ⟨left, tokens, right, split⟩
    rw [moment] at split
    rcases charges.completes step split with ⟨rfl, request, n', rest, same, completes⟩
    cases same
    rw [← moment] at split completes
    exact ⟨before, m, after, left, right, rfl, split, completes⟩
  · rw [deeds_of_other own] at there
    cases there

variable {bucket : Bucket} {groups : List Group} {blocks : List (Key × Bytes)} {start : Instant}

theorem charges_opening (known : costs[d]? = some cost) :
    Charges d cost [] (opening start (ofDispatchers bucket groups blocks costs)) := by
  refine ⟨(price?_ofDispatchers d).trans known, ?_, nofun⟩
  have inside : d < costs.length := (List.getElem?_eq_some_iff.1 known).1
  simpa [opening, ofDispatchers] using inside

/-- Whatever a dispatcher does in a run, it does for a price that it was made with. -/
theorem cost_of_deeds {deed : Deed}
    (h : History program (opening start (ofDispatchers bucket groups blocks costs)) hs e)
    (member : deed ∈ Moment.deeds d (e, l)) : ∃ cost, costs[d]? = some cost := by
  rcases price?_of_deeds member with ⟨cost, price⟩
  refine ⟨cost, ?_⟩
  rw [← price, price?_of_history h]
  exact (price?_ofDispatchers d).symm

/-- Only a dispatcher that was made does anything. -/
theorem cost_of_log {deed : Deed}
    (h : History program (opening start (ofDispatchers bucket groups blocks costs)) hs e)
    (member : deed ∈ log d hs) : ∃ cost, costs[d]? = some cost := by
  rcases List.mem_flatMap.1 member with ⟨m, inside, there⟩
  rcases List.append_of_mem inside with ⟨before, after, rfl⟩
  exact cost_of_deeds h.split_cons.1 there

/-- Whatever was paid in a run is what the dispatcher was made with. -/
theorem cost_of_pays {tokens : UInt64}
    (h : History program (opening start (ofDispatchers bucket groups blocks costs)) hs e)
    (paid : .pays tokens ∈ log d hs) : costs[d]? = some tokens := by
  rcases cost_of_log h paid with ⟨cost, known⟩
  rcases List.mem_flatMap.1 paid with ⟨m, inside, there⟩
  rcases List.append_of_mem inside with ⟨before, after, rfl⟩
  rcases h.split_cons with ⟨first, _, step, _⟩
  rcases List.append_of_mem there with ⟨left, right, split⟩
  have charges := charges_of_history (ledger_opening d _ start) (charges_opening known) first
  rw [(charges.completes step split).1]
  exact known

/-! ## Dispatches that were not paid for -/

/-- A dispatch in the task with a number makes no search. Until its task has had a turn it is ready
for one, which ends it, and this comes when the tasks before it have had theirs. It ends as
cancelled, with success or with a failure. -/
structure IsFree (e : State) (d : Nat) (x : Dispatch) (n : TaskId) : Prop where
  searches : ∀ call ∈ e.shared.calls, call.task ≠ n
  waits : ∀ job, e.tasks[n]? = some (some job) →
    job = .dispatch d x .fresh ∧ n ∈ e.ready ∧ e.sleepsOn n = false
  ends : ∃ t outcome, e.shared.turn e.now n (.dispatch d x .fresh) = .ok t ∧
    t.next = .finish (.dispatched d x (.ok outcome)) ∧ outcome.isEnd = true ∧
    t.shared.calls = e.shared.calls
  soon : ∀ hs e', History program e hs e' → e.ahead n < hs.countP Moment.isTurn →
    ∀ job, e'.tasks[n]? ≠ some (some job)
  ended : ∀ c ∈ e.finished, c.task = n →
    ∃ outcome, c.result = .dispatched d x (.ok outcome) ∧ outcome.isEnd = true

/-- Nothing is searched for in a task that nobody has paid for. -/
theorem isFree_of_mediated (h : Mediated hs e) {x : Dispatch} {n : TaskId}
    (sends : .sends x n ∈ log d hs) (free : x.charged = false) : IsFree e d x n := by
  refine ⟨?_, ?_, ?_, ?_, ?_⟩
  · rintro call member rfl
    rcases h.searches.paid call member with ⟨d', paid⟩
    rcases h.sent.unique sends paid with ⟨_, rfl⟩
    cases free
  · intro job stands
    have fresh := h.spared.fresh sends free stands
    subst fresh
    exact ⟨rfl, h.prompt.ready stands rfl, h.prompt.sleepsOn stands rfl⟩
  · exact turn_of_cancelled e.shared e.now n d x (h.spared.cancelled sends free)
  · intro hs' e' history later job stands
    have inside := h.sent.known sends
    have advances := advances_of_history h.prompt departs_isFresh history
    -- a task that still stands has had no turn, and so it was not reached
    rcases spared_of_history h.sent h.spared history with ⟨_, spared⟩
    have logged : .sends x n ∈ log d (hs ++ hs') := by
      rw [log_append]
      exact List.mem_append_left _ sends
    have fresh := spared.fresh logged free stands
    subst fresh
    rcases advances.ahead inside stands rfl with ⟨_, unreached⟩
    omega
  · exact h.spared.finished sends free

/-! ## Runs -/

/-- If nobody sends requests past the dispatchers, every search is made for a dispatch that was paid
for before, by a withdrawal of its price for the request, and no dispatch makes two searches. Whatever
a dispatcher does in a turn, it does with withdrawals on the bucket of the run, and each that ends is
for the one dispatch that is sent next. A dispatch that was not paid for makes no search and ends
soon. -/
theorem pays_before_search
    (h : History program (opening start (ofDispatchers bucket groups blocks costs)) hs e)
    (mediated : ∀ m ∈ hs, Moment.isMediated m = true) :
    ((∀ before m after, hs = before ++ m :: after →
        ∀ call ∈ (Executor.Moment.after program m).shared.calls, ∃ d cost,
          costs[d]? = some cost ∧ IsPaid d cost call.request call.task before) ∧
      (e.shared.calls.map (·.task)).Nodup) ∧
    (∀ d,
      (∀ before m after, hs = before ++ m :: after →
        (∀ cost number chosen, costs[d]? = some cost → m.2 = .turn →
          m.1.next? = some (number, .serve d chosen) →
          ∃ chosen', Drawn m.1.now number cost chosen m.1.shared.bucket (Moment.deeds d m) chosen'
            (Executor.Moment.after program m).shared.bucket) ∧
        ∀ left tokens right, Moment.deeds d m = left ++ .pays tokens :: right →
          costs[d]? = some tokens ∧ ∃ request task rest,
            right = .sends ⟨request, true⟩ task :: rest ∧
              Completes d tokens before m left request) ∧
      ((sendings (log d hs)).map (·.2)).Pairwise (· < ·) ∧
      ∀ d' x x' n, .sends x n ∈ log d hs → .sends x' n ∈ log d' hs → d = d' ∧ x = x') ∧
    ∀ d x n, .sends x n ∈ log d hs → x.charged = false → IsFree e d x n := by
  have ledger : ∀ d, Ledger d [] (opening start (ofDispatchers bucket groups blocks costs)) :=
    fun d => ledger_opening d _ start
  have new : Mediated [] (opening start (ofDispatchers bucket groups blocks costs)) :=
    mediated_opening start rfl
  have final := mediated_of_history new h mediated
  refine ⟨⟨?_, final.searches.once⟩, fun d => ⟨?_, final.sent.numbers d, ?_⟩, ?_⟩
  · intro before m after split call member
    subst split
    rcases h.split_cons with ⟨first, middle, step, _⟩
    have earlier := mediated_of_history new first fun m member =>
      mediated m (List.mem_append_left _ member)
    -- a search is made by the task that a dispatch started, so it is traced back to its deed
    have same : Executor.Moment.after program m = middle := after_of_step step
    rw [same] at member
    rcases paid_of_step earlier.sent earlier.spared earlier.searches step member with ⟨d, sends⟩
    rcases cost_of_log first sends with ⟨cost, known⟩
    exact ⟨d, cost, known, isPaid_of_sends (ledger d) (charges_opening known) first sends⟩
  · intro before m after split
    subst split
    rcases h.split_cons with ⟨first, middle, step, _⟩
    refine ⟨?_, ?_⟩
    · intro cost number chosen known turn next
      have charges := charges_of_history (ledger d) (charges_opening known) first
      have moment : m = (m.1, .turn) := by rw [← turn]
      rw [turn] at step
      rcases charges.drawn next step with ⟨chosen', drawn, _⟩
      rw [← after_of_step step, ← moment] at drawn
      exact ⟨chosen', drawn⟩
    · intro left tokens right paid
      have there : .pays tokens ∈ Moment.deeds d m := by simp [paid]
      rcases cost_of_deeds first there with ⟨cost, known⟩
      have charges := charges_of_history (ledger d) (charges_opening known) first
      rcases charges.completes step paid with ⟨rfl, request, n, rest, sends, completes⟩
      exact ⟨known, request, n, rest, sends, completes⟩
  · intro d' x x' n sends sends'
    exact final.sent.unique sends sends'
  · intro d x n sends free
    exact isFree_of_mediated final sends free

def excused : List Moment × State :=
  follow program
    (opening 0 (ofDispatchers ⟨0, 3, 1000000, 0, 0, []⟩ [⟨.bulk, {}, .ofList [(.content, 0)]⟩]
      [(zeroKey, [97])] [3]))
    [.act (.create 0 zeroKey 0 {}) (), .act (.create 0 zeroKey 0 {}) (), .act (.schedule 0) (),
      -- the first request is cancelled before the dispatcher starts; the second has to be waited for
      .act (.schedule 1) (), .act (.cancel 0) (), .act (.start 0) (), .turn, .clock 3000000, .turn,
      .turn, .turn]

theorem excused_pays_before_search :
    (∀ m ∈ excused.1, Moment.isMediated m = true) ∧
      log 0 excused.1 =
        [.takes ⟨.bulk, 0, 0⟩, .sends ⟨0, false⟩ 1, .takes ⟨.bulk, 1, 1⟩, .pays 3,
          .sends ⟨1, true⟩ 2] ∧
      excused.2.shared.calls.map (fun call => (call.task, call.request)) = [(2, 1)] ∧
      IsPaid 0 3 1 2 (excused.1.take 10) ∧ (excused.2.shared.calls.map (·.task)).Nodup ∧
      IsFree excused.2 0 ⟨0, false⟩ 1 := by
  have mediated : ∀ m ∈ excused.1, Moment.isMediated m = true := by decide
  have run : History program _ excused.1 excused.2 := history_follow _ _
  rcases pays_before_search run mediated with ⟨⟨paid, once⟩, _, free⟩
  -- the search is made in the last move
  obtain ⟨m, last, call, member, request, task⟩ : ∃ m, excused.1.drop 10 = [m] ∧
      ∃ call ∈ (Executor.Moment.after program m).shared.calls, call.request = 1 ∧ call.task = 2 :=
    ⟨_, rfl, _, List.mem_singleton_self _, rfl, rfl⟩
  have split : excused.1 = excused.1.take 10 ++ m :: [] := by
    rw [← last, List.take_append_drop]
  rcases paid _ m [] split call member with ⟨d, cost, known, isPaid⟩
  rw [request, task] at isPaid
  have price : d = 0 ∧ cost = 3 := by
    cases d with
    | zero =>
        exact ⟨rfl, (Option.some.inj known).symm⟩
    | succ d =>
        simp at known
  rcases price with ⟨rfl, rfl⟩
  exact ⟨mediated, by decide, by decide, isPaid, once, free 0 ⟨0, false⟩ 1 (by decide) rfl⟩

end Fetcher
end MeteredFetch
