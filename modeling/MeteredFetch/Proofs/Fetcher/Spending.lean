import MeteredFetch.Proofs.Fetcher.Budget

/-!
# Spending — a dispatcher that has a bucket to itself stays within the budget

A dispatcher pays for a request when it sends it, and is paid back when the request turns out to be
cancelled. If nobody else draws on the bucket, its requests cost no more than what was there at
first, what was earned and what was paid back, however they are cancelled and retried.

* `Fetcher.Reacts`, `Fetcher.reacts` — an action leaves the bucket to the dispatcher;
* `Fetcher.Within` — the books of a run: the dispatcher has at most one task, and what it was
  granted paid for what it sent;
* `Fetcher.within_of_step`, `Fetcher.within_of_history` — every move keeps the books;
* `Fetcher.cost_mul_charged_le` — what is spent in a run.
-/

namespace MeteredFetch
namespace Fetcher

open Executor

/-! ## Actions -/

def Action.isFrugal : Action → Bool
  | .operate .credit => true
  | .operate _ | .grab _ => false
  | _ => true

structure Reacts (budget : Budget) (now : Instant) (charges refunds : Nat) (f : Fetcher)
    (r : Reacted) : Prop where
  terms : budget.Terms now r.shared.bucket
  costs : ∀ d ∈ r.shared.dispatchers, d.cost = budget.cost
  alone : ((spawned r.effects).map Job.serves).sum + r.shared.idle ≤ f.idle
  fresh : ∀ x, .spawn x ∈ r.effects → budget.Backs now charges refunds r.shared.bucket x
  pays : ∀ {chosen : Option Chosen}, budget.Pays now charges refunds f.bucket chosen →
    budget.Pays now charges refunds r.shared.bucket chosen

section Actions

variable {budget : Budget} {now : Instant} {task : TaskId} {charges refunds : Nat} {f : Fetcher}
  {r : Reacted}

/-- An action that has nothing to do with bucket and dispatchers. -/
theorem Reacts.of_same (terms : budget.Terms now f.bucket)
    (costs : ∀ d ∈ f.dispatchers, d.cost = budget.cost) (bucket : r.shared.bucket = f.bucket)
    (dispatchers : r.shared.dispatchers = f.dispatchers)
    (fresh : ∀ x, .spawn x ∈ r.effects → x.held ≠ [] ∧ x.serves = 0) :
    Reacts budget now charges refunds f r := by
  have quiet : ((spawned r.effects).map Job.serves).sum = 0 := by
    refine List.sum_eq_zero fun n member => ?_
    rcases List.mem_map.1 member with ⟨x, started, rfl⟩
    exact (fresh x (mem_spawned.1 started)).2
  refine ⟨?_, ?_, ?_, ?_, ?_⟩
  · rw [bucket]
    exact terms
  · rw [dispatchers]
    exact costs
  · have same : r.shared.idle = f.idle := by
      unfold Fetcher.idle
      rw [dispatchers]
    omega
  · intro x started
    rcases fresh x started with ⟨holds, idle⟩
    cases x with
    | grab tokens caller =>
        exact absurd rfl holds
    | serve d chosen =>
        cases idle
    | _ =>
        trivial
  · intro chosen pays
    rw [bucket]
    exact pays

/-- There is one dispatcher less to be started. -/
theorem reacts_started {id : Nat} {d : Dispatcher} (found : f.dispatchers[id]? = some d)
    (idle : d.standing = .idle) (terms : budget.Terms now f.bucket)
    (costs : ∀ d ∈ f.dispatchers, d.cost = budget.cost) {answer : Answer} :
    Reacts budget now charges refunds f
      ⟨f.modifyDispatcher id fun d => { d with standing := .running task },
        [.spawn (.serve id none)], answer⟩ := by
  have staffed : Staffed budget.cost f.idle f := ⟨costs, Nat.le_refl _⟩
  have started : Staffed budget.cost f.idle
      (f.modifyDispatcher id fun d => { d with standing := .running task }) :=
    staffed.modify id (fun _ _ => rfl) fun _ _ => Nat.zero_le _
  refine ⟨terms, started.costs, ?_, ?_, fun pays => pays⟩
  · have moved := sum_map_set vacancy found { d with standing := .running task }
    have before : vacancy d = 1 := if_pos idle
    have after : vacancy { d with standing := .running task } = 0 := rfl
    have changed := modify_eq_set found fun d => { d with standing := .running task }
    change 1 + ((f.dispatchers.modify id fun d => { d with standing := .running task }).map
      vacancy).sum ≤ (f.dispatchers.map vacancy).sum
    rw [changed]
    omega
  · intro x member
    cases List.mem_singleton.1 member
    trivial

theorem reacts_retired (id : Nat) (terms : budget.Terms now f.bucket)
    (costs : ∀ d ∈ f.dispatchers, d.cost = budget.cost) {answer : Answer} :
    Reacts budget now charges refunds f ⟨f.retire id, [], answer⟩ := by
  have staffed : Staffed budget.cost f.idle f := ⟨costs, Nat.le_refl _⟩
  have retired := staffed.retire id
  refine ⟨terms, retired.costs, ?_, by simp, fun pays => pays⟩
  simpa [spawned] using retired.idle

/-- A frugal action leaves the bucket with what it had, and starts one dispatcher at most. -/
theorem reacts {action : Action} (fits : budget.Fits) (terms : budget.Terms now f.bucket)
    (costs : ∀ d ∈ f.dispatchers, d.cost = budget.cost) (frugal : action.isFrugal = true)
    (performed : f.perform now task action = .ok r) :
    Reacts budget now charges refunds f r := by
  cases does performed with
  | @scheduled request =>
      have starts := (waking_schedule f request).not_spawn_mem
      rcases schedule_same f request with ⟨requests, schedulers, same⟩
      exact .of_same terms costs (by rw [same]) (by rw [same])
        fun x member => absurd member (starts x)
  | tuned _ _ _ waking =>
      exact .of_same terms costs rfl rfl fun x member => absurd member (waking.not_spawn_mem x)
  | sends | retries =>
      refine .of_same terms costs rfl rfl ?_
      intro x member
      cases List.mem_singleton.1 member
      exact ⟨by simp [Job.held], rfl⟩
  | started found idle =>
      exact reacts_started found idle terms costs
  | @retired id _ _ _ =>
      exact reacts_retired id terms costs
  | @operated operation _ _ _ operated =>
      cases operation with
      | credit =>
          cases operated
          refine ⟨terms.credit fits.positive, costs, ?_, by simp, fun pays => ?_⟩
          · simp [spawned, Fetcher.idle]
          · exact pays.credit fits terms
      | _ =>
          cases frugal
  | grabs =>
      cases frugal
  | _ =>
      exact .of_same terms costs rfl rfl (by simp)

end Actions

/-! ## Books -/

def refunds (e : State) : Nat :=
  (e.finished.filter fun c => c.result.isRefund).length

/-- The books of a run in which dispatchers have the bucket to themselves. At most one of them is at
work or yet to be started, and what it was granted paid for what it sent. -/
structure Within (budget : Budget) (charges : Nat) (e : State) : Prop where
  terms : budget.Terms e.now e.shared.bucket
  costs : ∀ d ∈ e.shared.dispatchers, d.cost = budget.cost
  alone : total Job.serves e.tasks + e.shared.idle ≤ 1
  pays : budget.Pays e.now charges (refunds e) e.shared.bucket none
  backs : ∀ x, some x ∈ e.tasks → budget.Backs e.now charges (refunds e) e.shared.bucket x

variable {budget : Budget} {charges : Nat} {e e' : State}

theorem Within.of_alike (h : Within budget charges e) (alike : Alike e e') :
    Within budget charges e' := by
  have same : refunds e' = refunds e := by
    unfold refunds
    rw [alike.finished]
  refine ⟨?_, ?_, ?_, ?_, ?_⟩
  · rw [alike.now, alike.shared]
    exact h.terms
  · rw [alike.shared]
    exact h.costs
  · rw [alike.tasks, alike.shared]
    exact h.alone
  · rw [alike.now, alike.shared, same]
    exact h.pays
  · rw [alike.now, alike.shared, alike.tasks, same]
    exact h.backs

/-- Effects start tasks that were paid for, and drop others. -/
theorem Within.carryOutAll {effects : Effects} (h : Within budget charges e)
    (alone : total Job.serves e.tasks + ((spawned effects).map Job.serves).sum + e.shared.idle ≤ 1)
    (fresh : ∀ x, .spawn x ∈ effects →
      budget.Backs e.now charges (refunds e) e.shared.bucket x) :
    Within budget charges (e.carryOutAll program effects) := by
  -- dropped tasks do not wait any more, which makes no difference to what is paid
  have kept : Holds
      (fun f => (∃ waiters, f.bucket = { e.shared.bucket with waiters }) ∧
        Staffed budget.cost e.shared.idle f)
      (budget.Backs e.now charges (refunds e) e.shared.bucket) e :=
    ⟨⟨⟨e.shared.bucket.waiters, rfl⟩, h.costs, Nat.le_refl _⟩, h.backs⟩
  have carried := kept.carryOutAll (p := program) ?dropped ?swept fresh
  case dropped =>
    rintro number job f ⟨⟨waiters, same⟩, staffed⟩
    cases job with
    | grab tokens caller =>
        refine ⟨⟨waiters.filter (· != number), ?_⟩, staffed.congr rfl⟩
        simp only [program, dropJob, Bucket.leave, same]
    | serve d chosen =>
        refine ⟨⟨waiters.filter (· != number), ?_⟩, (staffed.retire d).congr rfl⟩
        simp only [program, dropJob, Bucket.leave, same]
    | _ =>
        exact ⟨⟨waiters, same⟩, staffed.congr rfl⟩
  case swept =>
    rintro tasks f ⟨same, staffed⟩
    rcases sweep_same tasks f with ⟨schedulers, swept, _⟩
    change (∃ waiters, (Fetcher.sweep tasks f).1.bucket = _) ∧ Staffed _ _ (Fetcher.sweep tasks f).1
    rw [swept]
    exact ⟨same, staffed.congr rfl⟩
  rcases carried with ⟨⟨⟨waiters, bucket⟩, staffed⟩, backs⟩
  rcases carryOutAll_same program effects e with ⟨now, finished⟩
  have same : refunds (e.carryOutAll program effects) = refunds e := by
    unfold refunds
    rw [finished]
  have count := total_carryOutAll_le Job.serves program e effects
  refine ⟨?_, staffed.costs, ?_, ?_, ?_⟩
  · rw [now, bucket]
    exact h.terms.of_eq rfl rfl rfl
  · have fewer := staffed.idle
    omega
  · rw [now, bucket, same]
    exact h.pays.congr waiters
  · intro x member
    rw [now, bucket, same]
    exact (backs x member).map fun pays => pays.congr waiters

/-! ## Moves -/

namespace Moment

/-- Whether the bucket is left to dispatchers and no time runs back. -/
def isFrugal (m : Moment) : Bool :=
  match m.2 with
  | .act action _ => action.isFrugal
  | .clock time => decide (m.1.now ≤ time)
  | .turn | .kill _ => true

def sent (m : Moment) : List Dispatch :=
  match m.2, m.1.next? with
  | .turn, some (id, job) =>
      match m.1.shared.turn m.1.now id job with
      | .ok t => Fetcher.sent t.effects
      | .error _ => []
  | _, _ => []

end Moment

/-- The end of a turn is recorded as a refund if it is one. -/
theorem refunds_recorded (e : State) (id : TaskId) (next : Next Job Result) :
    ((e.recorded id next).filter fun c => c.result.isRefund).length = refunds e + refunded next := by
  cases next with
  | wait job alarm =>
      rfl
  | finish result =>
      cases paid : result.isRefund <;> simp [recorded, refunds, refunded, paid]

theorem Backs.of_serves_eq_zero {now now' : Instant} {charges' refunds refunds' : Nat}
    {b b' : Bucket} {x : Job} (h : budget.Backs now charges refunds b x) (idle : x.serves = 0) :
    budget.Backs now' charges' refunds' b' x := by
  cases x with
  | grab tokens caller =>
      cases h
  | serve d chosen =>
      cases idle
  | _ =>
      trivial

/-- The tasks that stand beside the one whose turn it is are backed after the turn. If this one is
the task of a dispatcher, they are not. -/
theorem Within.others {id : TaskId} {job : Job} {t : Turned} (h : Within budget charges e)
    (stands : e.tasks[id]? = some (some job))
    (spends : Spends budget e.now charges (refunds e) e.shared job t) :
    ∀ x, some x ∈ e.tasks.set id none →
      budget.Backs e.now (charges + charged (Fetcher.sent t.effects))
        (refunds e + refunded t.next) t.shared.bucket x := by
  intro x member
  have old : some x ∈ e.tasks := by
    rcases List.mem_or_eq_of_mem_set member with old | new
    · exact old
    · cases new
  cases serves : job.serves with
  | zero =>
      exact spends.others serves x (h.backs x old)
  | succ n =>
      -- there is one such task at most, so nobody else waits for tokens
      have gone := total_set Job.serves stands none
      rcases List.mem_iff_getElem?.1 member with ⟨i, there⟩
      have counted := le_total Job.serves there
      have alone := h.alone
      simp only [share_some, share_none, Nat.add_zero] at gone
      exact Backs.of_serves_eq_zero (h.backs x old) (by omega)

/-- Every turn stays within the budget, and what it sends is paid for. -/
theorem Within.turn (fits : budget.Fits) (h : Within budget charges e)
    (turned : e.turn program = .ok e') :
    Within budget (charges + charged (Moment.sent (e, .turn))) e' := by
  rcases turn_cases turned with ⟨nobody, alike⟩ | ⟨id, job, t, middle, next, went, alike, rfl⟩
  · have nothing : Moment.sent (e, .turn) = [] := by simp [Moment.sent, nobody]
    rw [nothing]
    exact h.of_alike alike
  · have went : e.shared.turn e.now id job = .ok t := went
    have stands := task?_of_next? next
    have spent : Moment.sent (e, .turn) = Fetcher.sent t.effects := by
      simp only [Moment.sent, next, went]
    have staffed : Staffed budget.cost e.shared.idle e.shared := ⟨h.costs, Nat.le_refl _⟩
    have spends := spends fits h.terms staffed h.pays (h.backs job (List.mem_of_getElem? stands))
      went
    have others := h.others stands spends
    -- what the turn leaves in place of the task, and what it starts, serves no more than the task
    have moved := total_set Job.serves stands (standing t.next)
    have counted := spends.alone
    have alone := h.alone
    have fewer := spends.staffed.idle
    rw [share_some] at moved
    rw [spent]
    have after : Within budget (charges + charged (Fetcher.sent t.effects)) middle := by
      refine Within.of_alike ?_ alike
      have same := refunds_recorded e id t.next
      refine ⟨spends.terms, spends.staffed.costs, ?_, ?_, ?_⟩
      · simp only
        omega
      · unfold refunds
        rw [same]
        exact spends.pays
      · intro x member
        unfold refunds
        rw [same]
        have member : some x ∈ (e.tasks.set id none).set id (standing t.next) := by
          rw [List.set_set]
          exact member
        rcases List.mem_or_eq_of_mem_set member with old | new
        · exact others x old
        · exact spends.backs x new.symm
    refine after.carryOutAll ?_ ?_
    · rw [alike.tasks, alike.shared]
      simp only
      omega
    · intro x started
      rcases spends.fresh x started with ⟨d, y, rfl⟩
      trivial

/-- Every frugal move stays within the budget. -/
theorem within_of_step {l : Label Action Answer} (fits : budget.Fits)
    (h : Within budget charges e) (frugal : Moment.isFrugal (e, l) = true)
    (step : Step program e l e') :
    Within budget (charges + charged (Moment.sent (e, l))) e' := by
  cases step with
  | turn turned =>
      exact h.turn fits turned
  | act acted =>
      rcases act_cases acted with ⟨r, performed, rfl, rfl⟩
      have after : Reacts budget e.now charges (refunds e) e.shared r :=
        reacts fits h.terms h.costs frugal performed
      have alone := h.alone
      have counted := after.alone
      have fewer : total Job.serves e.tasks + r.shared.idle ≤ 1 := by omega
      have before : Within budget charges { e with shared := r.shared } := by
        refine ⟨after.terms, after.costs, fewer, after.pays h.pays, ?_⟩
        exact fun x member => (h.backs x member).map after.pays
      refine before.carryOutAll ?_ after.fresh
      simp only
      omega
  | clock time =>
      have later : e.now ≤ time := by simpa [Moment.isFrugal] using frugal
      have set : Within budget charges { e with now := time } := by
        refine ⟨h.terms.later later, h.costs, h.alone, h.pays.later later, ?_⟩
        exact fun x member => (h.backs x member).map fun pays => pays.later later
      exact set.of_alike (setClock_alike e time)
  | kill task =>
      have dropped : Within budget charges (e.carryOutAll program [.drop task]) :=
        h.carryOutAll (by simpa [spawned] using h.alone) (by simp)
      exact dropped

/-! ## Runs -/

variable {hs : List Moment}

/-- A frugal run stays within the budget. -/
theorem within_of_history (fits : budget.Fits) (h : Within budget charges e)
    (history : History program e hs e') (frugal : ∀ m ∈ hs, m.isFrugal = true) :
    Within budget (charges + charged (hs.flatMap Moment.sent)) e' := by
  induction history with
  | refl =>
      exact h
  | @tail hs l e' e'' _ step ih =>
      have before := ih fun m member => frugal m (List.mem_append_left _ member)
      have after := within_of_step fits before (frugal (e', l) (by simp)) step
      simpa [List.flatMap_append, Nat.add_assoc] using after

section New

variable {capacity interval : UInt64} {initial : Int64} {start : Instant} {b : Bucket}
  {cost : UInt64} {groups : List Group} {blocks : List (Key × Bytes)}

/-- A bucket that was just made pays for nothing yet. -/
theorem within_opening (made : Bucket.create capacity interval initial start = .ok b) :
    Within ⟨capacity.toNat, interval.toNat, start, max initial.toInt 0, cost⟩ 0
      (opening start (ofDispatchers b groups blocks [cost])) := by
  rcases Bucket.create_eq_ok made with ⟨rfl, _, positive⟩
  have terms : Bucket.Terms capacity.toNat interval.toNat start start
      ⟨initial.toInt, capacity.toNat, interval.toNat, start, start, []⟩ :=
    ⟨rfl, rfl, Nat.le_refl _, Nat.le_refl _⟩
  have first : Bucket.cover start
      ⟨initial.toInt, capacity.toNat, interval.toNat, start, start, []⟩ = max initial.toInt 0 := by
    simp [Bucket.cover, Bucket.credited]
  refine ⟨terms, ?_, Nat.le_refl 1, ?_, fun x member => by cases member⟩
  · intro d member
    cases List.mem_singleton.1 member
    rfl
  · refine Budget.Pays.none_iff.2 (.of_cover positive terms ?_)
    change ((cost.toNat * 0 : Nat) : Int) + Bucket.cover start
      ⟨initial.toInt, capacity.toNat, interval.toNat, start, start, []⟩ ≤
        max initial.toInt 0 + (cost.toNat * 0 : Nat)
    rw [first]
    omega

/-- A dispatcher that has a bucket to itself sends requests for no more than what was there at first,
what was earned, and what was paid back for requests that turned out to be cancelled. -/
theorem cost_mul_charged_le (made : Bucket.create capacity interval initial start = .ok b)
    (inTime : interval.toNat * min cost.toNat capacity.toNat ≤ maxWord * 1000000)
    (h : History program (opening start (ofDispatchers b groups blocks [cost])) hs e)
    (frugal : ∀ m ∈ hs, m.isFrugal = true) :
    ((cost.toNat * charged (hs.flatMap Moment.sent) : Nat) : Int) ≤
      max initial.toInt 0 + Bucket.ticks interval.toNat start e.now +
        (cost.toNat * refunds e : Nat) := by
  rcases Bucket.create_eq_ok made with ⟨_, range, positive⟩
  have fits : Budget.Fits
      ⟨capacity.toNat, interval.toNat, start, max initial.toInt 0, cost⟩ :=
    ⟨positive, range, Nat.min_le_right _ _, inTime⟩
  have within := within_of_history fits (within_opening made) h frugal
  have spent := (Budget.Pays.none_iff.1 within.pays).granted_le positive within.terms
  rw [Nat.zero_add] at spent
  simp only [Budget.bound] at spent
  omega

end New

def repaid : List Moment × State :=
  follow program
    (opening 0 (ofDispatchers ⟨-1, 2, 1000000, 0, 0, []⟩ [⟨.bulk, {}, .ofList [(.content, 0)]⟩]
      [(zeroKey, [97])] [3]))
    [.act (.create 0 zeroKey 0 {}) (), .act (.create 0 zeroKey 0 {}) (), .act (.schedule 0) (),
      -- the first request is cancelled when it was sent, and paid back while the second one waits
      .act (.schedule 1) (), .act (.start 0) (), .turn, .clock 3000000, .turn, .act (.cancel 0) (),
      .turn, .clock 5000000, .turn, .turn]

theorem repaid_cost_mul_charged_le :
    Bucket.create 2 1000000 (-1) 0 = .ok ⟨-1, 2, 1000000, 0, 0, []⟩ ∧
      1000000 * min 3 2 ≤ maxWord * 1000000 ∧ (∀ m ∈ repaid.1, Moment.isFrugal m = true) ∧
      charged (repaid.1.flatMap Moment.sent) = 2 ∧ refunds repaid.2 = 1 ∧
      ((UInt64.toNat 3 * charged (repaid.1.flatMap Moment.sent) : Nat) : Int) ≤
        max (Int64.toInt (-1)) 0 + Bucket.ticks (UInt64.toNat 1000000) 0 repaid.2.now +
          (UInt64.toNat 3 * refunds repaid.2 : Nat) := by
  have made : Bucket.create 2 1000000 (-1) 0 = .ok ⟨-1, 2, 1000000, 0, 0, []⟩ := rfl
  have inTime : UInt64.toNat 1000000 * min (UInt64.toNat 3) (UInt64.toNat 2) ≤
      maxWord * 1000000 := by decide
  have frugal : ∀ m ∈ repaid.1, Moment.isFrugal m = true := by decide
  exact ⟨made, inTime, frugal, by decide, by decide,
    cost_mul_charged_le made inTime (history_follow _ _) frugal⟩

end Fetcher
end MeteredFetch
