import MeteredFetch.Proofs.Fetcher.Endings
import MeteredFetch.Proofs.Fetcher.Moves
import MeteredFetch.Proofs.Request.Retries

/-!
# Retries — how often a request is tried again in a run

A retry is counted in one step and its consequence is written down in the same one, but the
responses that it is for may overlap, and between them others may cancel the request, refuse it, or
end it once more. The count only goes up, and each retry has a number of its own.

* `Fetcher.retries` — the numbers of the retries that attempts at a request have come to;
* `Fetcher.Tries` — what a turn counts for a request, and `Fetcher.tries_of_turn` says that every
  turn does that;
* `Fetcher.Numbered` — the retries of a request in a run, and `Fetcher.Numbered.step` says that every
  move keeps it;
* `Fetcher.retries_within_budget` — the count of a request with a limited budget, and its retries.
-/

namespace MeteredFetch
namespace Fetcher

open Executor

/-! ## Numbers -/

def number? : Except FetchError Outcome → Option Nat
  | .ok (.retrying n) => some n
  | _ => none

/-- Only an attempt that has its request scheduled again has the number of a retry. -/
theorem number?_eq_some {outcome : Except FetchError Outcome} {n : Nat} :
    number? outcome = some n ↔ outcome = .ok (.retrying n) := by
  unfold number?
  split <;> simp_all

def Result.retry? (id : RequestId) (result : Result) : Option Nat :=
  result.attempt?.bind fun (request, outcome) => if request = id then number? outcome else none

/-- The numbers of the retries that attempts at a request have come to, the latest first. -/
def retries (id : RequestId) (e : State) : List Nat :=
  e.finished.filterMap fun c => c.result.retry? id

/-- The number of the retry of a request that a turn has come to. -/
def retried? (id : RequestId) : Next Job Result → Option Nat
  | .wait _ _ => none
  | .finish result => result.retry? id

def exhausts (f : Fetcher) (task : TaskId) (id : RequestId) (job : Job) : Bool :=
  match f.brings? task job with
  | some (g, request, response) =>
      request == id && (g.requests[id]?).any fun r => r.exhausts (g.route r) response
  | none => false

def Moment.exhausts (id : RequestId) (m : Moment) : Bool :=
  match m.2, m.1.next? with
  | .turn, some (task, job) => m.1.shared.exhausts task id job
  | _, _ => false

/-! ## Turns -/

variable {id other : RequestId} {f g : Fetcher} {now : Instant} {task : TaskId} {job : Job}
  {t : Turned}

/-- The number of a retry belongs to the request of the attempt. -/
theorem retried?_of_attempt {result : Result} {request : RequestId}
    {outcome : Except FetchError Outcome} (id : RequestId) (next : t.next = .finish result)
    (attempt : result.attempt? = some (request, outcome)) :
    retried? id t.next = if request = id then number? outcome else none := by
  simp only [retried?, next, Result.retry?, attempt, Option.bind_some]

theorem retried?_of_idle {result : Result} (next : t.next = .finish result)
    (idle : result.attempt? = none) : retried? id t.next = none := by
  simp only [retried?, next, Result.retry?, idle, Option.bind_none]

/-- The turn of an attempt at a request that does not exist, whoever makes it. -/
theorem retried?_of_send {request : RequestId} {stage : Sending} {toJob : Sending → Job}
    {toResult : Except FetchError Outcome → Result} (missing : f.requests[id]? = none)
    (results : ∀ outcome, (toResult outcome).attempt? = some (request, outcome)) :
    retried? id ((f.send now task request stage).2.2.map toJob toResult) = none := by
  cases next : (f.send now task request stage).2.2 with
  | wait stage' alarm =>
      rfl
  | finish outcome =>
      simp only [Next.map, retried?, Result.retry?, results, Option.bind_some]
      split
      · rename_i own
        unfold send at next
        rw [own, missing] at next
        cases next
        rfl
      · rfl

/-- An attempt at a request that does not exist comes to nothing. -/
theorem retried?_of_missing (missing : f.requests[id]? = none)
    (turned : f.turn now task job = .ok t) : retried? id t.next = none := by
  cases turns turned with
  | granted | waits =>
      rfl
  | attempts _ _ results _ =>
      exact retried?_of_send missing results
  | @retries request failure =>
      refine (retried?_of_attempt id rfl rfl).trans ?_
      split
      · rename_i own
        unfold Fetcher.retry
        rw [own, missing]
        rfl
      · rfl
  | @serves d chosen t served =>
      cases next : t.next with
      | wait job' alarm =>
          rfl
      | finish result =>
          rw [← next]
          exact retried?_of_idle next (attempt?_of_serve turned next)

inductive Tries (id : RequestId) (f : Fetcher) (task : TaskId) (job : Job) (t : Turned) : Prop
  /-- Nothing, and the request goes on. -/
  | apart : retried? id t.next = none → f.exhausts task id job = false →
      (f.requests[id]? = none → t.shared.requests[id]? = none) →
      (∀ r, f.requests[id]? = some r → ∃ r', t.shared.requests[id]? = some r' ∧ r.Onward r') →
      Tries id f task job t
  /-- What the end of an attempt counts. -/
  | tried {r r' : Request} {c : Conclusion} : f.requests[id]? = some r → r.Onward r' →
      r'.Asks c.request → t.shared.requests[id]? = some c.request →
      retried? id t.next = number? c.outcome →
      (∀ most, r'.WithinBudget most → Request.Counts most (f.exhausts task id job) r' c) →
      Tries id f task job t

/-- An attempt that has ended without a response was at a request that does not exist. -/
theorem retried?_of_quits (turned : f.turn now task job = .ok t)
    (quits : ∀ result request outcome, t.next = .finish result →
      result.attempt? = some (request, outcome) → f.requests[request]? = none) :
    retried? id t.next = none := by
  cases next : t.next with
  | wait job' alarm =>
      rfl
  | finish result =>
      rw [← next]
      cases attempt : result.attempt? with
      | none =>
          exact retried?_of_idle next attempt
      | some made =>
          rcases made with ⟨request, outcome⟩
          have gone := quits result request outcome next attempt
          by_cases own : request = id
          · subst own
            exact retried?_of_missing gone turned
          · rw [retried?_of_attempt id next attempt, if_neg own]

/-- No budget is used up where no response is brought for the request. -/
theorem exhausts_eq_false (silent : ∀ g response, f.brings? task job = some (g, id, response) →
    g.requests[id]? = none) : f.exhausts task id job = false := by
  unfold Fetcher.exhausts
  cases brings : f.brings? task job with
  | none =>
      rfl
  | some brought =>
      rcases brought with ⟨g, request, response⟩
      by_cases own : request = id
      · subst own
        simp [silent g response brings]
      · simp [own]

/-- The end of an attempt at another request counts nothing for this one. -/
theorem Tries.of_others {request : RequestId} {c : Conclusion} (ends : Ends g request c t)
    (ne : request ≠ id) (unspent : f.exhausts task id job = false)
    (onwards : Onwards f.requests g.requests) : Tries id f task job t := by
  rcases ends.result with ⟨result, next, attempt⟩
  have number := retried?_of_attempt id next attempt
  rw [if_neg ne] at number
  have same := (ends.others ne).1
  refine .apart number unspent (fun missing => same.trans (onwards.none missing)) ?_
  intro r found
  rcases onwards.each found with ⟨r', there, onward⟩
  exact ⟨r', same.trans there, onward⟩

/-- The cases of a turn, with what it counts in each. -/
theorem tries_of_turn (turned : f.turn now task job = .ok t) : Tries id f task job t := by
  cases comes turned with
  | goesOn quiet fruitless quits =>
      exact .apart (retried?_of_quits turned quits)
        (exhausts_eq_false fun g response brings => fruitless g id response brings)
        quiet.requests.none fun r found => quiet.requests.each found
  | @spared request r c silent found begins ends =>
      -- the attempt was over before anything was looked up
      have unspent : f.exhausts task id job = false := by
        unfold Fetcher.exhausts
        rw [silent]
      by_cases own : request = id
      · subst own
        rcases ends.result with ⟨result, next, attempt⟩
        have number := retried?_of_attempt request next attempt
        rw [if_pos rfl] at number
        refine .tried found (.refl r) (Request.asks_of_concluded begins) (ends.own found).1 number ?_
        rw [unspent]
        exact fun most within => Request.counts_of_concluded within begins
      · exact .of_others ends own unspent (.refl _)
  | @brought g request response r r' brings quiet _ found there onward _ ends =>
      by_cases own : request = id
      · -- what was found is judged by the request as the search has left it
        subst own
        rcases ends.result with ⟨result, next, attempt⟩
        have number := retried?_of_attempt request next attempt
        rw [if_pos rfl] at number
        have spent : f.exhausts task request job = r'.exhausts (g.route r') response := by
          simp [Fetcher.exhausts, brings, there]
        refine .tried found onward (Request.asks_conclude _ response r') (ends.own there).1 number ?_
        rw [spent]
        exact fun most within => Request.counts_conclude within (g.route r') response
      · exact .of_others ends own (by simp [Fetcher.exhausts, brings, own]) quiet.requests

/-! ## Moves -/

variable {hs : List Moment} {e e' : State} {l : Label Action Answer} {most : Nat} {r : Request}

/-- The retries of a request with a limited budget. Each has a number that was not counted before,
and the count goes beyond the budget with a failure and in no other way. -/
structure Numbered (id : RequestId) (most : Nat) (hs : List Moment) (e : State) (r : Request) :
    Prop where
  within : r.WithinBudget most
  numbers : ∀ n ∈ retries id e, 1 ≤ n ∧ n ≤ most ∧ n ≤ r.retryCount
  order : (retries id e).Pairwise (· > ·)
  beyond : r.retryCount = most + 1 ↔ ∃ m ∈ hs, Moment.exhausts id m = true

structure Untried (id : RequestId) (hs : List Moment) (e : State) : Prop where
  fruitless : retries id e = []
  unspent : ∀ m ∈ hs, Moment.exhausts id m = false

/-- A budget was used up before, or is used up now. -/
theorem exists_exhausts_snoc {m : Moment} :
    (∃ m' ∈ hs ++ [m], Moment.exhausts id m' = true) ↔
      (∃ m' ∈ hs, Moment.exhausts id m' = true) ∨ Moment.exhausts id m = true := by
  simp [or_and_right, exists_or]

/-- A request that goes on has the retries that it had. -/
theorem Numbered.onward {r' : Request} (h : Numbered id most hs e r) (onward : r.Onward r') :
    Numbered id most hs e r' := by
  refine ⟨onward.withinBudget h.within, ?_, h.order, ?_⟩
  · rw [onward.retryCount]
    exact h.numbers
  · rw [onward.retryCount]
    exact h.beyond

/-- A move that comes to no retry leaves the numbers as they are. -/
theorem Numbered.goesOn {r' : Request} (h : Numbered id most hs e r) (onward : r.Onward r')
    (same : retries id e' = retries id e) (unspent : Moment.exhausts id (e, l) = false) :
    Numbered id most (hs ++ [(e, l)]) e' r' := by
  have further := h.onward onward
  refine ⟨further.within, ?_, ?_, ?_⟩
  · rw [same]
    exact further.numbers
  · rw [same]
    exact further.order
  · rw [exists_exhausts_snoc, unspent, further.beyond]
    simp

/-- A retry that is new has a number above all that were there. -/
theorem Numbered.tried {c : Conclusion} (h : Numbered id most hs e r)
    (counts : Request.Counts most (Moment.exhausts id (e, l)) r c)
    (numbers : retries id e' = (number? c.outcome).toList ++ retries id e) :
    Numbered id most (hs ++ [(e, l)]) e' c.request := by
  have number : ∀ n ∈ (number? c.outcome).toList,
      r.retryCount < n ∧ n ≤ most ∧ n = c.request.retryCount := by
    intro n member
    exact counts.number n (number?_eq_some.1 (Option.mem_toList.1 member))
  refine ⟨counts.within, ?_, ?_, ?_⟩
  · -- the new number is the count as it is now, and the others are no more than it was before
    intro n member
    rw [numbers] at member
    rcases List.mem_append.1 member with new | old
    · have fresh := number n new
      omega
    · have before := h.numbers n old
      have count := counts.count
      omega
  · rw [numbers, List.pairwise_append]
    refine ⟨?_, h.order, ?_⟩
    · cases number? c.outcome <;> simp
    · intro n new n' old
      have fresh := number n new
      have before := h.numbers n' old
      omega
  · rw [exists_exhausts_snoc, counts.beyond, h.beyond]

/-- A move keeps the count of a request, or it is a turn that may count a retry. -/
theorem tries_of_step (id : RequestId) (step : Step program e l e') :
    (Eases e.shared e'.shared ∧ retries id e' = retries id e ∧
        Moment.exhausts id (e, l) = false) ∨
      ∃ task job t, Moment.exhausts id (e, l) = e.shared.exhausts task id job ∧
        Tries id e.shared task job t ∧ e'.shared.requests = t.shared.requests ∧
        retries id e' = (retried? id t.next).toList ++ retries id e := by
  rcases turn_of_step step with ⟨eases, idle⟩ | ⟨task, job, t, turn, next, turned, same⟩
  · refine .inl ⟨eases, ?_, ?_⟩
    · have finished : e'.finished = e.finished := by
        cases moves_of_step step with
        | turned turn next _ _ =>
            cases next.symm.trans (idle turn)
        | acted _ _ _ left =>
            exact left.finished
        | dropped _ _ left =>
            exact left.finished
        | rested _ left =>
            exact left.finished
      simp only [retries, finished]
    · unfold Moment.exhausts
      cases l with
      | turn =>
          simp [idle rfl]
      | _ =>
          rfl
  · refine .inr ⟨task, job, t, ?_, tries_of_turn turned, same.requests, ?_⟩
    · simp only [Moment.exhausts, turn, next]
    · rcases (moves_of_step step).of_next turn next with ⟨t', turned', left⟩
      cases turned.symm.trans turned'
      simp only [retries, left.finished]
      cases t.next with
      | wait job' alarm =>
          rfl
      | finish result =>
          simp only [recorded, retried?, List.filterMap_cons]
          cases result.retry? id <;> rfl

/-- A request is not lost, and its budget is what it was. -/
theorem Tries.budget (tries : Tries id f task job t) (found : f.requests[id]? = some r) :
    ∃ r', t.shared.requests[id]? = some r' ∧ r'.retries = r.retries := by
  cases tries with
  | apart _ _ _ each =>
      rcases each r found with ⟨r', there, onward⟩
      exact ⟨r', there, onward.retries⟩
  | @tried r₀ r' c known onward asks there _ _ =>
      cases found.symm.trans known
      exact ⟨c.request, there, asks.retries.trans onward.retries⟩

/-- The budget of a request does not change. -/
theorem budget_of_step (step : Step program e l e') (found : e.shared.requests[id]? = some r) :
    ∃ r', e'.shared.requests[id]? = some r' ∧ r'.retries = r.retries := by
  rcases tries_of_step id step with ⟨eases, _, _⟩ | ⟨task, job, t, _, tries, requests, _⟩
  · rcases eases.calm.each found with ⟨r', there, onward⟩
    exact ⟨r', there, onward.retries⟩
  · rw [requests]
    exact tries.budget found

/-- What becomes of the count of a request. -/
theorem Numbered.step (h : Numbered id most hs e r) (step : Step program e l e')
    (found : e.shared.requests[id]? = some r) :
    ∃ r', e'.shared.requests[id]? = some r' ∧ Numbered id most (hs ++ [(e, l)]) e' r' ∧
      r.retryCount ≤ r'.retryCount := by
  have goesOn : ∀ {r' : Request}, e'.shared.requests[id]? = some r' → r.Onward r' →
      retries id e' = retries id e → Moment.exhausts id (e, l) = false →
      ∃ r', e'.shared.requests[id]? = some r' ∧ Numbered id most (hs ++ [(e, l)]) e' r' ∧
        r.retryCount ≤ r'.retryCount := by
    intro r' there onward same unspent
    exact ⟨r', there, h.goesOn onward same unspent, Nat.le_of_eq onward.retryCount.symm⟩
  rcases tries_of_step id step with ⟨eases, same, unspent⟩ |
    ⟨task, job, t, spent, tries, requests, numbers⟩
  · rcases eases.calm.each found with ⟨r', there, onward⟩
    exact goesOn there onward same unspent
  · cases tries with
    | apart none unspent _ each =>
        rcases each r found with ⟨r', there, onward⟩
        rw [none] at numbers
        exact goesOn (requests ▸ there) onward numbers (spent.trans unspent)
    | @tried r₀ r' c known onward _ there number counts =>
        cases found.symm.trans known
        have before := h.onward onward
        have counted := counts most before.within
        rw [number] at numbers
        rw [← spent] at counted
        refine ⟨c.request, requests ▸ there, before.tried counted numbers, ?_⟩
        rw [← onward.retryCount]
        exact counted.count

/-- Nothing is tried of a request before it is made, and one that is made has counted nothing. -/
theorem Untried.step (h : Untried id hs e) (step : Step program e l e')
    (missing : e.shared.requests[id]? = none) :
    Untried id (hs ++ [(e, l)]) e' ∧ ∀ r, e'.shared.requests[id]? = some r →
      ∃ key budget settings group, Request.create key budget settings group = .ok r := by
  have untried : retries id e' = retries id e → Moment.exhausts id (e, l) = false →
      Untried id (hs ++ [(e, l)]) e' := by
    intro same unspent
    refine ⟨same.trans h.fruitless, fun m member => ?_⟩
    rcases List.mem_append.1 member with old | new
    · exact h.unspent m old
    · rw [List.mem_singleton.1 new]
      exact unspent
  rcases tries_of_step id step with ⟨eases, same, unspent⟩ |
    ⟨task, job, t, spent, tries, requests, numbers⟩
  · exact ⟨untried same unspent, fun r found => eases.made missing found⟩
  · cases tries with
    | apart none unspent gone _ =>
        rw [none] at numbers
        refine ⟨untried numbers (spent.trans unspent), fun r found => ?_⟩
        rw [requests, gone missing] at found
        cases found
    | tried known _ _ _ _ _ =>
        cases missing.symm.trans known

/-! ## Runs -/

structure Tried (id : RequestId) (hs : List Moment) (e : State) : Prop where
  missing : e.shared.requests[id]? = none → Untried id hs e
  numbered : ∀ {r : Request} {most : Nat}, e.shared.requests[id]? = some r →
    r.retries = .limited most → Numbered id most hs e r

/-- Every move numbers the retries that it comes to. -/
theorem Tried.step (h : Tried id hs e) (step : Step program e l e') :
    Tried id (hs ++ [(e, l)]) e' := by
  cases found : e.shared.requests[id]? with
  | some r =>
      rcases budget_of_step step found with ⟨r', there, budget⟩
      refine ⟨fun gone => ?_, fun {x most} known limited => ?_⟩
      · cases gone.symm.trans there
      · cases there.symm.trans known
        have before := h.numbered found (budget.symm.trans limited)
        rcases before.step step found with ⟨x', there', numbered, _⟩
        cases there.symm.trans there'
        exact numbered
  | none =>
      -- it is made in this move at the earliest, and nothing was tried of it by then
      rcases (h.missing found).step step found with ⟨untried, made⟩
      refine ⟨fun _ => untried, fun {r most} there limited => ?_⟩
      rcases made r there with ⟨key, budget, settings, group, created⟩
      rcases Request.withinBudget_of_create created limited with ⟨first, within⟩
      refine ⟨within, ?_, ?_, ?_⟩
      · rw [untried.fruitless]
        nofun
      · rw [untried.fruitless]
        exact .nil
      · rw [first]
        constructor
        · intro beyond
          cases beyond
        · rintro ⟨m, member, exhausts⟩
          cases (untried.unspent m member).symm.trans exhausts

/-- The retries of a request are numbered in every state of a run. -/
theorem tried_of_history (new : IsNew f) {start : Instant}
    (h : History program (opening start f) hs e) : Tried id hs e := by
  refine h.invariant (I := Tried id) (A := fun _ => True) (fun tried step _ => tried.step step)
    (fun _ _ => trivial) ⟨fun _ => ⟨rfl, fun m member => ?_⟩, fun found => ?_⟩
  · cases member
  · cases new <;> cases found

/-- However a run goes on, the count of a request only goes up. -/
theorem Numbered.history {hs' : List Moment} (h : Numbered id most hs e r)
    (found : e.shared.requests[id]? = some r) (history : History program e hs' e') :
    ∃ r', e'.shared.requests[id]? = some r' ∧ Numbered id most (hs ++ hs') e' r' ∧
      r.retryCount ≤ r'.retryCount := by
  induction history with
  | refl =>
      rw [List.append_nil]
      exact ⟨r, found, h, Nat.le_refl _⟩
  | tail _ step ih =>
      rcases ih with ⟨r', there, numbered, le⟩
      rcases numbered.step step there with ⟨r'', there', numbered', le'⟩
      rw [← List.append_assoc]
      exact ⟨r'', there', numbered', Nat.le_trans le le'⟩

/-- The retries of a request with a limited budget, however attempts at it overlap, whatever lookups
answer and however its scheduler treats it. The count never goes down, and it goes beyond the budget
by one at most. Each retry that an attempt has come to has a number within the budget that no other
attempt has come to, so there are no more of them than the budget allows. An attempt fails since the
budget is used up exactly if the count goes beyond the budget, where it then stays. -/
theorem retries_within_budget (new : IsNew f) {start : Instant} {before after : List Moment}
    (h : History program (opening start f) before e) (h' : History program e after e')
    (found : e.shared.requests[id]? = some r) (limited : r.retries = .limited most) :
    ∃ r', e'.shared.requests[id]? = some r' ∧
      r.retryCount ≤ r'.retryCount ∧ r'.retryCount ≤ most + 1 ∧
      (∀ n ∈ retries id e', 1 ≤ n ∧ n ≤ most) ∧ (retries id e').Nodup ∧
      (retries id e').length ≤ most ∧
      ((∃ m ∈ before ++ after, Moment.exhausts id m = true) ↔ r'.retryCount = most + 1) := by
  have numbered := (tried_of_history new h).numbered found limited
  rcases numbered.history found h' with ⟨r', there, kept, le⟩
  have distinct : (retries id e').Nodup := kept.order.imp fun lt => Nat.ne_of_gt lt
  have range : retries id e' ⊆ List.range' 1 most := by
    intro n member
    have bounds := kept.numbers n member
    rw [List.mem_range'_1]
    omega
  have few := (List.subperm_of_subset distinct range).length_le
  rw [List.length_range'] at few
  exact ⟨r', there, le, kept.within.count,
    fun n member => ⟨(kept.numbers n member).1, (kept.numbers n member).2.1⟩, distinct, few,
    kept.beyond.symm⟩

def limitedToOne : List Moment × State :=
  follow program
    (opening 0 (ofSchedulers [⟨.bulk, {}, .ofList [(.content, 0)]⟩] [] [{}]))
    [.act (.create 0 zeroKey 1 {}) ()]

def triedTwice : List Moment × State :=
  follow program limitedToOne.2
    -- the two attempts overlap; the second one finds the budget used up
    [.act (.script zeroKey (.fault (.classified .transferFailed))) (),
      .act (.script zeroKey (.fault (.classified .transferFailed))) (), .act (.gate true) (),
      .act (.send 0) (), .act (.send 0) (), .turn, .turn, .act (.release 0) (),
      .act (.release 1) (), .turn, .turn, .act (.retry 0 .transferFailed) (), .turn]

theorem triedTwice_retries_within_budget :
    (limitedToOne.2.shared.requests[0]?).map Request.retries = some (.limited 1) ∧
      ∃ r', triedTwice.2.shared.requests[0]? = some r' ∧ r'.retryCount ≤ 2 ∧
        retries 0 triedTwice.2 = [1] ∧ (retries 0 triedTwice.2).length ≤ 1 ∧
        ((∃ m ∈ limitedToOne.1 ++ triedTwice.1, Moment.exhausts 0 m = true) ↔
          r'.retryCount = 2) ∧ r'.retryCount = 2 := by
  obtain ⟨r, found, limited⟩ : ∃ r, limitedToOne.2.shared.requests[0]? = some r ∧
      r.retries = .limited 1 := ⟨_, rfl, rfl⟩
  rcases retries_within_budget (.schedulers _ _ _) (history_follow _ _) (history_follow _ _) found
    limited with ⟨r', there, _, count, _, _, few, beyond⟩
  have spent : ∃ m ∈ limitedToOne.1 ++ triedTwice.1, Moment.exhausts 0 m = true := by decide
  refine ⟨rfl, r', there, count, ?_, few, beyond, beyond.1 spent⟩
  decide

end Fetcher
end MeteredFetch
