import MeteredFetch.Proofs.Bucket.Funds
import MeteredFetch.Proofs.Fetcher.Cancellation

/-!
# Budget — what a dispatcher pays for its requests

A dispatcher that has a bucket to itself is granted one cost for every request that it sends and
that was not cancelled before. Here it is said how what it was granted is booked, and that the turns
of all tasks keep to it.

* `Fetcher.Budget` — the terms of the bucket, and what a dispatch costs;
* `Fetcher.Budget.Pays` — what was granted paid for some dispatches, and for a part of the one that
  is waited for;
* `Fetcher.Budget.pays_of_serve` — going through the queue pays for what is sent;
* `Fetcher.pays_of_settle` — what a cancelled dispatch gives back can be spent again;
* `Fetcher.Spends`, `Fetcher.spends` — what a turn of any task spends and gives back.
-/

namespace MeteredFetch
namespace Fetcher

open Executor

/-! ## Charges -/

def charged (dispatches : List Dispatch) : Nat :=
  (dispatches.filter (·.charged)).length

@[simp]
theorem charged_nil : charged [] = 0 := rfl

@[simp]
theorem charged_cons (x : Dispatch) (rest : List Dispatch) :
    charged (x :: rest) = x.charged.toNat + charged rest := by
  unfold charged
  cases paid : x.charged
  · simp [paid]
  · simp [paid, Nat.add_comm]

/-- Two rows of dispatches are paid for together as they are one by one. -/
@[simp]
theorem charged_append (xs ys : List Dispatch) : charged (xs ++ ys) = charged xs + charged ys := by
  simp [charged]

/-! ## Budgets -/

/-- The terms of a bucket, what was there at first, and what a dispatch costs. -/
structure Budget where
  capacity : Nat
  interval : Nat
  start : Instant
  initial : Int
  cost : UInt64

namespace Budget

variable {budget : Budget} {now now' : Instant} {charges refunds : Nat} {b b' : Bucket}
  {chosen : Option Chosen}

/-- What a dispatch is waited for with is within reach of the bucket. -/
def Fits (budget : Budget) : Prop :=
  Bucket.InReach budget.capacity budget.interval (min budget.cost.toNat budget.capacity)

def bound (budget : Budget) (refunds : Nat) : Int :=
  budget.initial + (budget.cost.toNat * refunds : Nat)

def Terms (budget : Budget) (now : Instant) (b : Bucket) : Prop :=
  Bucket.Terms budget.capacity budget.interval budget.start now b

/-- What was granted paid for some dispatches, and for a part of the one that is waited for. -/
def Pays (budget : Budget) (now : Instant) (charges refunds : Nat) (b : Bucket)
    (chosen : Option Chosen) : Prop :=
  ∃ granted, budget.cost.toNat * charges ≤ granted ∧
    granted + Bucket.left (chosen.map (·.caller)) =
      budget.cost.toNat * (charges + chosen.toList.length) ∧
    Bucket.Funds budget.start now (min budget.cost.toNat budget.capacity) granted
      (budget.bound refunds) b (chosen.map (·.caller))

namespace Pays

/-- Nothing is waited for exactly if what was granted paid for the dispatches. -/
theorem none_iff : budget.Pays now charges refunds b none ↔
    Bucket.Funded budget.start now (budget.cost.toNat * charges) (budget.bound refunds) b := by
  constructor
  · rintro ⟨granted, _, total, funds⟩
    cases funds with
    | free funded =>
        have same : granted = budget.cost.toNat * charges := total
        rw [← same]
        exact funded
  · intro funded
    exact ⟨_, Nat.le_refl _, rfl, .free funded⟩

/-- What was granted for a dispatch that is given up stays spent. -/
theorem giveUp (fits : budget.Fits) (terms : budget.Terms now b)
    (h : budget.Pays now charges refunds b chosen) : budget.Pays now charges refunds b none := by
  rcases h with ⟨granted, paid, _, funds⟩
  exact none_iff.2 ((funds.funded fits.positive terms).mono paid)

/-- What pays for dispatches goes on doing so in another bucket, if that secures and funds the same. -/
theorem map {refunds' : Nat} (h : budget.Pays now charges refunds b chosen)
    (funded : ∀ {granted : Nat}, Bucket.Funded budget.start now granted (budget.bound refunds) b →
      Bucket.Funded budget.start now' granted (budget.bound refunds') b')
    (secured : ∀ {granted : Nat} {w : Wait},
      Bucket.Secured budget.start now (min budget.cost.toNat budget.capacity) granted
        (budget.bound refunds) b w →
      Bucket.Secured budget.start now' (min budget.cost.toNat budget.capacity) granted
        (budget.bound refunds') b' w) :
    budget.Pays now' charges refunds' b' chosen := by
  rcases h with ⟨granted, paid, total, funds⟩
  exact ⟨granted, paid, total, funds.map funded secured⟩

/-- Who waits on the list is of no matter to who has paid. -/
theorem congr (h : budget.Pays now charges refunds b chosen) (waiters : List TaskId) :
    budget.Pays now charges refunds { b with waiters } chosen :=
  h.map (fun funded => funded) (fun secured => secured.congr waiters)

/-- What is paid for now is paid for later. -/
theorem later (h : budget.Pays now charges refunds b chosen) (le : now ≤ now') :
    budget.Pays now' charges refunds b chosen :=
  h.map (fun funded => funded.later le) (fun secured => secured.later le)

/-- A credit takes nothing from what was paid. -/
theorem credit (fits : budget.Fits) (terms : budget.Terms now b)
    (h : budget.Pays now charges refunds b chosen) :
    budget.Pays now charges refunds (b.credit now) chosen :=
  h.map (fun funded => funded.credit fits.positive terms)
    (fun secured => secured.credit fits terms)

/-- More refunds leave more to be spent. -/
theorem raise {refunds' : Nat} (h : budget.Pays now charges refunds b chosen)
    (le : refunds ≤ refunds') : budget.Pays now charges refunds' b chosen := by
  have bound : budget.bound refunds ≤ budget.bound refunds' :=
    Int.add_le_add_left (Int.ofNat_le.2 (Nat.mul_le_mul_left _ le)) _
  refine h.map ?_ ?_
  · intro granted funded time reached
    exact Int.le_trans (funded time reached) bound
  · intro granted w secured
    exact ⟨secured.priced, secured.small, secured.nonneg, secured.clipped,
      Int.le_trans secured.covered bound, secured.earned⟩

/-- A dispatch that was paid back can be paid for again. -/
theorem recycle (fits : budget.Fits) (terms : budget.Terms now b)
    (h : budget.Pays now charges refunds b chosen) :
    budget.Pays now charges (refunds + 1) (b.recycle budget.cost) chosen := by
  have bound : budget.bound (refunds + 1) = budget.bound refunds + budget.cost.toNat := by
    simp only [Budget.bound, Nat.mul_add, Nat.mul_one]
    omega
  refine h.map ?_ ?_
  · intro granted funded
    rw [bound]
    exact funded.recycle budget.cost
  · intro granted w secured
    rw [bound]
    exact secured.recycle fits terms budget.cost

end Pays

/-! ## The queue of a dispatcher -/

/-- Going through the queue pays for what is sent, and begins to pay for what is chosen. -/
theorem pays_of_serve {task : TaskId} {cancelled : RequestId → Bool} {pending : List Pending}
    {served : Dispatcher.Served} (fits : budget.Fits) (terms : budget.Terms now b)
    (h : budget.Pays now charges refunds b none)
    (passed : Dispatcher.serve now task budget.cost cancelled pending b = .ok served) :
    budget.Terms now served.bucket ∧
      budget.Pays now (charges + charged served.dispatches) refunds served.bucket
        served.chosen := by
  -- every request that is paid for on the spot adds to the charges that the rest begins with
  induction pending generalizing charges b served with
  | nil =>
      cases passed
      exact ⟨terms, h⟩
  | cons x rest ih =>
      unfold Dispatcher.serve at passed
      split at passed
      · -- a cancelled request costs nothing
        rcases ok_of_bind passed with ⟨later, went, same⟩
        cases same
        rcases ih terms h went with ⟨terms', pays⟩
        refine ⟨terms', ?_⟩
        simpa using pays
      · rcases ok_of_bind passed with ⟨⟨b', caller⟩, turned, next⟩
        have terms' : budget.Terms now b' := (Caller.turn_net fits.positive terms turned).1
        rcases (Pays.none_iff.1 h).arrive fits terms turned with ⟨granted, paid, total, funds⟩
        cases caller with
        | some caller =>
            cases next
            refine ⟨terms', granted, paid, ?_, funds⟩
            simp only [Option.map_some, total, Option.toList_some, List.length_singleton,
              charged_nil, Nat.add_zero, Nat.mul_add, Nat.mul_one]
        | none =>
            rcases ok_of_bind next with ⟨later, went, same⟩
            cases same
            have another : budget.Pays now (charges + 1) refunds b' none := by
              refine ⟨granted, ?_, ?_, funds⟩
              · simp only [Bucket.left_none, Nat.add_zero] at total
                rw [Nat.mul_add, Nat.mul_one]
                omega
              · simpa [Nat.mul_add] using total
            rcases ih terms' another went with ⟨terms'', pays⟩
            refine ⟨terms'', ?_⟩
            simpa [Nat.add_assoc] using pays

/-- What is paid for a task. Nobody but a dispatcher withdraws tokens. -/
def Backs (budget : Budget) (now : Instant) (charges refunds : Nat) (b : Bucket) : Job → Prop
  | .grab _ _ => False
  | .serve _ (some chosen) => budget.Pays now charges refunds b (some chosen)
  | .serve _ none | .send _ _ | .retry _ _ | .dispatch _ _ _ => True

/-- What a task is backed by carries over to another bucket as payments do. -/
theorem Backs.map {charges' refunds' : Nat} {job : Job}
    (h : budget.Backs now charges refunds b job)
    (pays : ∀ {chosen : Option Chosen}, budget.Pays now charges refunds b chosen →
      budget.Pays now' charges' refunds' b' chosen) :
    budget.Backs now' charges' refunds' b' job := by
  cases job with
  | grab tokens caller =>
      exact h
  | serve d chosen =>
      cases chosen with
      | none =>
          trivial
      | some chosen =>
          exact pays h
  | _ =>
      trivial

end Budget

/-! ## Dispatchers -/

def vacancy (d : Dispatcher) : Nat :=
  if d.standing = .idle then 1 else 0

def idle (f : Fetcher) : Nat :=
  (f.dispatchers.map vacancy).sum

/-- A dispatch costs the same everywhere, and not too many dispatchers are yet to be started. -/
structure Staffed (cost : UInt64) (most : Nat) (f : Fetcher) : Prop where
  costs : ∀ d ∈ f.dispatchers, d.cost = cost
  idle : f.idle ≤ most

variable {f g : Fetcher} {cost : UInt64} {most : Nat}

theorem Staffed.congr (h : Staffed cost most f) (dispatchers : g.dispatchers = f.dispatchers) :
    Staffed cost most g := by
  refine ⟨?_, ?_⟩
  · rw [dispatchers]
    exact h.costs
  · unfold Fetcher.idle
    rw [dispatchers]
    exact h.idle

/-- A change to a dispatcher that leaves its cost as it is and does not make it one to be started. -/
theorem Staffed.modify {change : Dispatcher → Dispatcher} (h : Staffed cost most f) (id : Nat)
    (same : ∀ d, f.dispatchers[id]? = some d → (change d).cost = d.cost)
    (fewer : ∀ d, f.dispatchers[id]? = some d → vacancy (change d) ≤ vacancy d) :
    Staffed cost most (f.modifyDispatcher id change) := by
  cases found : f.dispatchers[id]? with
  | none =>
      have beyond := List.getElem?_eq_none_iff.1 found
      exact h.congr (List.modify_eq_self beyond)
  | some d =>
      have changed : (f.modifyDispatcher id change).dispatchers =
          f.dispatchers.set id (change d) := modify_eq_set found change
      refine ⟨?_, ?_⟩
      · intro x member
        rw [changed] at member
        rcases List.mem_or_eq_of_mem_set member with old | new
        · exact h.costs x old
        · rw [new, same d found]
          exact h.costs d (List.mem_of_getElem? found)
      · have moved := sum_map_set vacancy found (change d)
        have less := fewer d found
        have bound := h.idle
        unfold Fetcher.idle at bound ⊢
        rw [changed]
        omega

/-- A dispatcher that retires costs what it did. -/
theorem Staffed.retire (h : Staffed cost most f) (id : Nat) : Staffed cost most (f.retire id) := by
  have gone : Staffed cost most (f.modifyDispatcher id Dispatcher.retire) := by
    refine h.modify id (fun d _ => rfl) fun d _ => ?_
    exact Nat.zero_le _
  exact gone.congr rfl

theorem enqueueAll_same (d : Dispatcher) (arriving : List (Priority × RequestId)) :
    (d.enqueueAll arriving).cost = d.cost ∧ (d.enqueueAll arriving).standing = d.standing := by
  induction arriving generalizing d with
  | nil =>
      exact ⟨rfl, rfl⟩
  | cons x rest ih =>
      exact ih (d.enqueue x.1 x.2)

/-! ## Turns -/

def Job.serves : Job → Nat
  | .serve _ _ => 1
  | .grab _ _ | .send _ _ | .retry _ _ | .dispatch _ _ _ => 0

def Job.dispatch? : Job → Option Dispatch
  | .dispatch _ x _ => some x
  | .grab _ _ | .send _ _ | .retry _ _ | .serve _ _ => none

def sent (effects : Effects) : List Dispatch :=
  (spawned effects).filterMap Job.dispatch?

/-- Nothing is sent where tasks are only woken. -/
theorem sent_of_waking {effects : Effects} (waking : Waking effects) : sent effects = [] := by
  unfold sent
  rw [waking.spawned_eq_nil]
  rfl

/-- All requests that go out are sent. -/
theorem sent_sendAll (d : Nat) (dispatches : List Dispatch) :
    sent (sendAll d dispatches) = dispatches := by
  unfold sent
  rw [spawned_sendAll, List.filterMap_map]
  exact List.filterMap_some

/-- Whether the end of a task is that of a dispatch that was paid for and turned out to be
cancelled. -/
def Result.isRefund : Result → Bool
  | .dispatched _ x (.ok .cancelled) => x.charged
  | _ => false

def refunded : Next Job Result → Nat
  | .wait _ _ => 0
  | .finish result => result.isRefund.toNat

structure Spends (budget : Budget) (now : Instant) (charges refunds : Nat) (f : Fetcher) (job : Job)
    (t : Turned) : Prop where
  terms : budget.Terms now t.shared.bucket
  staffed : Staffed budget.cost f.idle t.shared
  alone : share Job.serves (standing t.next) + ((spawned t.effects).map Job.serves).sum ≤ job.serves
  fresh : ∀ x, .spawn x ∈ t.effects → ∃ d y, x = .dispatch d y .fresh
  pays : budget.Pays now (charges + charged (sent t.effects)) (refunds + refunded t.next)
    t.shared.bucket none
  backs : ∀ x, standing t.next = some x →
    budget.Backs now (charges + charged (sent t.effects)) (refunds + refunded t.next)
      t.shared.bucket x
  others : job.serves = 0 → ∀ x, budget.Backs now charges refunds f.bucket x →
    budget.Backs now (charges + charged (sent t.effects)) (refunds + refunded t.next)
      t.shared.bucket x

variable {budget : Budget} {now : Instant} {task : TaskId} {charges refunds : Nat}

theorem fresh_sendAll {d : Nat} {dispatches : List Dispatch} {x : Job}
    (member : .spawn x ∈ sendAll d dispatches) : ∃ d y, x = .dispatch d y .fresh := by
  rcases List.mem_map.1 member with ⟨y, _, same⟩
  cases same
  exact ⟨d, y, rfl⟩

theorem serves_sendAll (d : Nat) (dispatches : List Dispatch) :
    ((spawned (sendAll d dispatches)).map Job.serves).sum = 0 := by
  rw [spawned_sendAll, List.map_map]
  exact List.sum_eq_zero fun n member => by
    rcases List.mem_map.1 member with ⟨x, _, rfl⟩
    rfl

/-- A turn of a dispatcher that has paid for what it sends, and for a part of what it has chosen. -/
theorem Spends.of_sendAll {id : Nat} (dispatches : List Dispatch) {chosen chosen' : Option Chosen}
    {t : Turned} (fits : budget.Fits) (terms : budget.Terms now t.shared.bucket)
    (staffed : Staffed budget.cost f.idle t.shared) (effects : t.effects = sendAll id dispatches)
    (h : budget.Pays now (charges + charged dispatches) refunds t.shared.bucket chosen')
    (next : t.next = .finish (.stopped id) ∨ ∃ alarm, t.next = .wait (.serve id chosen') alarm) :
    Spends budget now charges refunds f (.serve id chosen) t := by
  have spent : charged (sent t.effects) = charged dispatches := by rw [effects, sent_sendAll]
  have kept : refunded t.next = 0 := by
    rcases next with stops | ⟨alarm, waits⟩
    · rw [stops]
      rfl
    · rw [waits]
      rfl
  have none := h.giveUp fits terms
  refine ⟨terms, staffed, ?_, ?_, ?_, ?_, fun idle => by cases idle⟩
  · rw [effects, serves_sendAll]
    rcases next with stops | ⟨alarm, waits⟩
    · rw [stops]
      exact Nat.zero_le _
    · rw [waits]
      exact Nat.le_refl 1
  · intro x member
    rw [effects] at member
    exact fresh_sendAll member
  · rw [spent, kept]
    exact none
  · intro x stands
    rw [spent, kept]
    rcases next with stops | ⟨alarm, waits⟩
    · rw [stops] at stands
      cases stands
    · rw [waits] at stands
      cases stands
      cases chosen' with
      | none =>
          trivial
      | some c =>
          exact h

/-- A dispatcher that has paid for what it had chosen pays for what it sends then, and begins to pay
for what it chooses. -/
theorem spends_of_serveQueue {id : Nat} {d : Dispatcher} {queue : Scheduler}
    {chosen : Option Chosen} {paid : List Dispatch} {t : Turned} (fits : budget.Fits)
    (terms : budget.Terms now f.bucket) (staffed : Staffed budget.cost f.idle f)
    (dispatcher : f.dispatchers[id]? = some d)
    (h : budget.Pays now (charges + charged paid) refunds f.bucket none)
    (went : f.serveQueue now task id d queue paid = .ok t) :
    Spends budget now charges refunds f (.serve id chosen) t := by
  rcases ok_of_bind went with ⟨served, passed, rest⟩
  have same := enqueueAll_same d (queue.waiting.map fun r => (f.priority r, r))
  generalize d.enqueueAll (queue.waiting.map fun r => (f.priority r, r)) = d' at same passed rest
  rw [same.1, staffed.costs d (List.mem_of_getElem? dispatcher)] at passed
  rcases budget.pays_of_serve fits terms h passed with ⟨terms', pays⟩
  -- the queue and the books of the dispatcher change, but neither its cost nor its standing
  have recorded : Staffed budget.cost f.idle
      ({ f with bucket := served.bucket }.modifyDispatcher id fun _ =>
        d'.record (paid ++ served.dispatches) served.pending) := by
    refine (staffed.congr (g := { f with bucket := served.bucket }) rfl).modify id ?_ ?_
    · intro x found
      cases dispatcher.symm.trans found
      exact same.1
    · intro x found
      cases dispatcher.symm.trans found
      exact Nat.le_of_eq (congrArg (fun s => if s = Standing.idle then 1 else 0) same.2)
  rw [Nat.add_assoc, ← charged_append] at pays
  cases choice : served.chosen with
  | some c =>
      simp only [choice] at rest pays
      cases rest
      exact .of_sendAll _ fits terms' (recorded.congr rfl) rfl pays (.inr ⟨_, rfl⟩)
  | none =>
      simp only [choice] at rest pays
      split at rest
      · cases rest
        have retired := recorded.retire id
        exact .of_sendAll _ fits terms' (retired.congr rfl) rfl pays (.inl rfl)
      · cases rest
        exact .of_sendAll _ fits terms' (recorded.congr rfl) rfl pays (.inr ⟨_, rfl⟩)

/-- The turn of a dispatcher spends what it sends requests for, and no more. -/
theorem spends_of_serve {id : Nat} {chosen : Option Chosen} {t : Turned} (fits : budget.Fits)
    (terms : budget.Terms now f.bucket) (staffed : Staffed budget.cost f.idle f)
    (h : budget.Pays now charges refunds f.bucket chosen)
    (went : f.serve now task id chosen = .ok t) :
    Spends budget now charges refunds f (.serve id chosen) t := by
  unfold serve at went
  split at went
  · rename_i d queue dispatcher scheduler
    have nothing : budget.Pays now (charges + charged []) refunds f.bucket none := h
    exact spends_of_serveQueue fits terms staffed dispatcher nothing went
  · rename_i d queue chosen dispatcher scheduler
    rcases ok_of_bind went with ⟨⟨bucket, caller⟩, turned, rest⟩
    rcases h with ⟨granted, paid, total, funds⟩
    have terms' : budget.Terms now bucket := (Caller.turn_net fits.positive terms turned).1
    rcases funds.turn fits terms turned with ⟨granted', more, total', funds'⟩
    simp only [Option.map_some, Bucket.left_some, Option.toList_some, List.length_singleton]
      at total
    cases caller with
    | some caller =>
        -- it waits on, perhaps with another part of the cost granted
        cases rest
        have pays : budget.Pays now charges refunds bucket (some { chosen with caller }) :=
          ⟨granted', Nat.le_trans paid more, total'.trans total, funds'⟩
        exact .of_sendAll [] fits terms' (staffed.congr rfl) rfl pays (.inr ⟨_, rfl⟩)
    | none =>
        -- the chosen request is paid for in full, and the rest of the queue comes after it
        simp only [Bucket.left_none, Nat.add_zero] at total'
        have pays : budget.Pays now (charges + charged [⟨chosen.request, true⟩]) refunds bucket
            none := by
          refine ⟨granted', ?_, ?_, funds'⟩
          · exact Nat.le_of_eq (total'.trans total).symm
          · exact total'.trans total
        have after : Spends budget now charges refunds { f with bucket } (.serve id (some chosen)) t :=
          spends_of_serveQueue fits terms' (staffed.congr rfl) dispatcher pays rest
        exact ⟨after.terms, after.staffed, after.alone, after.fresh, after.pays, after.backs,
          fun idle => by cases idle⟩
  · cases went
    exact .of_sendAll [] fits terms staffed rfl h (.inl rfl)

/-! ## Attempts -/

/-- An attempt touches neither the bucket nor the dispatchers. -/
theorem send_same (f : Fetcher) (now : Instant) (task : TaskId) (id : RequestId)
    (stage : Sending) : (f.send now task id stage).1.bucket = f.bucket ∧
      (f.send now task id stage).1.dispatchers = f.dispatchers := by
  have ended : ∀ (f : Fetcher) (c : Conclusion), (f.adopt id c).1.bucket = f.bucket ∧
      (f.adopt id c).1.dispatchers = f.dispatchers := by
    intro f c
    rcases adopt_same f id c with ⟨schedulers, same⟩
    rw [same]
    exact ⟨rfl, rfl⟩
  have sent := sends f now task id stage
  generalize f.send now task id stage = result at sent ⊢
  cases sent with
  | missing gone =>
      exact ⟨rfl, rfl⟩
  | concluded found begins =>
      exact ended f _
  | arrived found =>
      exact ended f _
  | awaits held found begins after =>
      rw [after.same]
      exact ⟨rfl, rfl⟩
  | @answered r r' r'' response g found begins after there onward =>
      have last := ended g (r''.conclude (g.route r'') response)
      rw [after.same] at last ⊢
      exact last

theorem retry_same (f : Fetcher) (id : RequestId) (failure : Failure) :
    (f.retry id failure).1.bucket = f.bucket ∧
      (f.retry id failure).1.dispatchers = f.dispatchers := by
  unfold retry
  split
  · exact ⟨rfl, rfl⟩
  · rename_i r found
    rcases adopt_same f id (r.retry (f.route r) failure) with ⟨schedulers, same⟩
    simp only [same, and_self]

/-- What a dispatch that turned out to be cancelled gives back can be spent again. -/
theorem pays_of_settle {d : Nat} {x : Dispatch} {outcome : Except FetchError Outcome}
    (fits : budget.Fits) (terms : budget.Terms now f.bucket) (staffed : Staffed budget.cost most f) :
    budget.Terms now (f.settle d x outcome).bucket ∧
      Staffed budget.cost most (f.settle d x outcome) ∧
      ∀ {chosen : Option Chosen}, budget.Pays now charges refunds f.bucket chosen →
        budget.Pays now charges (refunds + (Result.dispatched d x outcome).isRefund.toNat)
          (f.settle d x outcome).bucket chosen := by
  have counted : Staffed budget.cost most (f.modifyDispatcher d (·.count outcome)) :=
    staffed.modify d (fun _ _ => rfl) fun _ _ => Nat.le_refl _
  unfold settle
  simp only
  split
  · rename_i cancelled d' found
    split
    · rename_i charged
      have cost : d'.cost = budget.cost := counted.costs d' (List.mem_of_getElem? found)
      have one : (Result.dispatched d x (.ok .cancelled)).isRefund.toNat = 1 := by
        simp [Result.isRefund, charged]
      rw [cost, one]
      exact ⟨terms.of_eq rfl rfl rfl, counted.congr rfl, fun pays => pays.recycle fits terms⟩
    · exact ⟨terms, counted, fun pays => pays.raise (Nat.le_add_right _ _)⟩
  · exact ⟨terms, counted, fun pays => pays.raise (Nat.le_add_right _ _)⟩

/-- A turn that starts nothing, of a task that withdraws nothing. -/
theorem Spends.of_waking {job : Job} {t : Turned} (terms : budget.Terms now t.shared.bucket)
    (staffed : Staffed budget.cost f.idle t.shared) (waking : Waking t.effects)
    (h : budget.Pays now charges refunds f.bucket none)
    (kept : ∀ {chosen : Option Chosen}, budget.Pays now charges refunds f.bucket chosen →
      budget.Pays now charges (refunds + refunded t.next) t.shared.bucket chosen)
    (next : ∀ x, standing t.next = some x → x.attempt?.isSome = true) :
    Spends budget now charges refunds f job t := by
  have attempts : ∀ x, standing t.next = some x → x.serves = 0 ∧
      ∀ refunds, budget.Backs now charges refunds t.shared.bucket x := by
    intro x stands
    have attempt := next x stands
    cases x with
    | send request stage =>
        exact ⟨rfl, fun _ => trivial⟩
    | dispatch d y stage =>
        exact ⟨rfl, fun _ => trivial⟩
    | _ =>
        cases attempt
  have nothing : charged (sent t.effects) = 0 := by rw [sent_of_waking waking, charged_nil]
  refine ⟨terms, staffed, ?_, fun x member => absurd member (waking.not_spawn_mem x), ?_, ?_, ?_⟩
  · rw [waking.spawned_eq_nil]
    cases stands : standing t.next with
    | none =>
        exact Nat.zero_le _
    | some x =>
        simp only [share_some, (attempts x stands).1, List.map_nil, List.sum_nil]
        exact Nat.zero_le _
  · rw [nothing]
    exact kept h
  · intro x stands
    rw [nothing]
    exact (attempts x stands).2 _
  · intro _ x backed
    rw [nothing]
    exact backed.map kept

/-- A dispatch that ends may give back what was paid for it. -/
theorem spends_of_dispatch {d : Nat} {x : Dispatch} {stage : Sending} {t : Turned}
    (fits : budget.Fits) (terms : budget.Terms now f.bucket)
    (staffed : Staffed budget.cost f.idle f) (h : budget.Pays now charges refunds f.bucket none)
    (turned : f.turn now task (.dispatch d x stage) = .ok t) :
    Spends budget now charges refunds f (.dispatch d x stage) t := by
  have same := send_same f now task x.request stage
  have waking := waking_send f now task x.request stage
  simp only [turn] at turned
  generalize f.send now task x.request stage = result at same waking turned
  rcases result with ⟨g, effects, next⟩
  simp only at same waking
  have kept : budget.Terms now g.bucket := by
    rw [same.1]
    exact terms
  cases next with
  | wait stage' alarm =>
      cases turned
      refine .of_waking kept (staffed.congr same.2) waking h ?_ ?_
      · intro chosen pays
        rw [same.1]
        exact pays
      · intro x stands
        cases stands
        rfl
  | finish outcome =>
      cases turned
      rcases pays_of_settle fits kept (staffed.congr same.2) with ⟨terms', staffed', pays'⟩
      refine .of_waking terms' staffed' waking h ?_ ?_
      · intro chosen pays
        rw [← same.1] at pays
        exact pays' pays
      · intro x stands
        cases stands

/-- A turn of any task that draws on the bucket for a dispatcher, if at all. -/
theorem spends {job : Job} {t : Turned} (fits : budget.Fits) (terms : budget.Terms now f.bucket)
    (staffed : Staffed budget.cost f.idle f) (h : budget.Pays now charges refunds f.bucket none)
    (backed : budget.Backs now charges refunds f.bucket job)
    (turned : f.turn now task job = .ok t) : Spends budget now charges refunds f job t := by
  cases job with
  | grab tokens caller =>
      cases backed
  | serve d chosen =>
      cases chosen with
      | none =>
          exact spends_of_serve fits terms staffed h turned
      | some chosen =>
          exact spends_of_serve fits terms staffed backed turned
  | send request stage =>
      have same := send_same f now task request stage
      have waking := waking_send f now task request stage
      simp only [turn] at turned
      generalize f.send now task request stage = result at same waking turned
      rcases result with ⟨g, effects, next⟩
      cases turned
      simp only at same waking
      refine .of_waking ?_ (staffed.congr same.2) waking h ?_ ?_
      · rw [same.1]
        exact terms
      · intro chosen pays
        rw [same.1]
        exact pays.raise (Nat.le_add_right _ _)
      · intro x stands
        simp only [standing_map] at stands
        rcases Option.map_eq_some_iff.1 stands with ⟨_, _, rfl⟩
        rfl
  | retry request failure =>
      have same := retry_same f request failure
      cases turns turned with
      | attempts attempt =>
          cases attempt
      | retries =>
          refine .of_waking ?_ (staffed.congr same.2) (waking_retry f request failure) h ?_ ?_
          · rw [same.1]
            exact terms
          · intro chosen pays
            rw [same.1]
            exact pays.raise (Nat.le_add_right _ _)
          · intro x stands
            cases stands
  | dispatch d x stage =>
      exact spends_of_dispatch fits terms staffed h turned

end Fetcher
end MeteredFetch
