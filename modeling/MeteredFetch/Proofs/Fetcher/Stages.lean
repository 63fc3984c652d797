import MeteredFetch.Proofs.Executor.Tasks
import MeteredFetch.Proofs.Fetcher.Reports

/-!
# Stages — how far a request has come that dispatchers see to

A request is made, it is registered, attempts are made at it, and it ends. Here it is said how far
it has come, given in how many places it is, and that an attempt takes it from one of these stages
to another.

* `Fetcher.stored` — how often a request is in the mail of dispatchers or waits there;
* `Fetcher.Works` — what dispatchers rely on, and `Job.Works` what their tasks do;
* `Fetcher.Stage` — how far a request has come, and how often it was searched for;
* `Fetcher.Stage.sends` — an attempt at a request that is nowhere else ends it, or registers it
  again, or awaits a response;
* `Fetcher.Stage.schedules` — a request that is scheduled is registered exactly if that is the
  answer.
-/

namespace MeteredFetch
namespace Fetcher

open Executor

/-! ## Places -/

def Job.holds (id : RequestId) (job : Job) : Nat :=
  job.held.count id

def Sending.flights : Sending → Nat
  | .fresh => 0
  | .awaiting _ => 1

/-- Whether a task awaits the response to a search for a request. -/
def Job.awaits (id : RequestId) (job : Job) : Nat :=
  match job.attempt? with
  | some (request, stage) => if request = id then stage.flights else 0
  | none => 0

def mailed (id : RequestId) (f : Fetcher) : Nat :=
  (f.schedulers.map fun s => s.waiting.count id).sum

def queued (id : RequestId) (f : Fetcher) : Nat :=
  (f.dispatchers.map fun d => (d.pending.map (·.request)).count id).sum

/-- How often a request is in the mail of dispatchers or waits there. -/
def stored (id : RequestId) (f : Fetcher) : Nat :=
  f.mailed id + f.queued id

def searches (id : RequestId) (f : Fetcher) : Nat :=
  (f.calls.filter fun c => c.request == id).length

/-- What waits is seen through `mail`. -/
theorem mailed_of_mail {f g : Fetcher} (same : g.schedulers.map mail = f.schedulers.map mail)
    (id : RequestId) : g.mailed id = f.mailed id := by
  have view : ∀ xs : List Scheduler, xs.map (fun s => s.waiting.count id) =
      (xs.map mail).map fun m => m.1.count id := by
    intro xs
    simp [mail, Function.comp_def]
  unfold mailed
  rw [view, view, same]

theorem flights_le_one (stage : Sending) : stage.flights ≤ 1 := by
  cases stage with
  | fresh =>
      exact Nat.zero_le _
  | awaiting response =>
      exact Nat.le_refl _

theorem awaits_le_holds (id : RequestId) (job : Job) : job.awaits id ≤ job.holds id := by
  cases job with
  | send request stage =>
      have one := flights_le_one stage
      by_cases same : request = id <;>
        simp [Job.awaits, Job.attempt?, Job.holds, Job.held, same, one]
  | dispatch d x stage =>
      have one := flights_le_one stage
      by_cases same : x.request = id <;>
        simp [Job.awaits, Job.attempt?, Job.holds, Job.held, same, one]
  | _ =>
      exact Nat.zero_le _

/-! ## What dispatchers rely on -/

/-- There are `n` dispatchers, each with a scheduler that takes requests in or is closed for good,
every request has a destination, and budgets can be counted. -/
structure Works (n : Nat) (f : Fetcher) : Prop where
  dispatchers : f.dispatchers.length = n
  schedulers : f.schedulers.length = n
  fixed : ∀ s ∈ f.schedulers, s.adjustable = false ∧
    (s.reception = .accepting ∨ s.reception = .closed)
  bound : ∀ r ∈ f.requests, ∃ s, r.destination = .ok s
  counted : ∀ r ∈ f.requests, ∀ most, r.retries = .limited most → most < Request.maxRetryCount

/-- A task withdraws tokens, or it sends requests for one of `n` dispatchers or dispatches them. -/
def Job.Works (n : Nat) : Job → Prop
  | .grab _ _ => True
  | .dispatch _ _ _ => True
  | .serve d _ => d < n
  | .send _ _ => False
  | .retry _ _ => False

/-- How far a request has come that is in `places` places, in `flights` of which a response is
awaited. -/
inductive Stage (id : RequestId) (f : Fetcher) (places flights : Nat) : Bool → Prop
  /-- It was not made. -/
  | unborn : f.requests[id]? = none → places = 0 → f.told id = 0 → f.searches id = 0 →
      Stage id f places flights false
  /-- It was not registered. -/
  | waiting {r : Request} : f.requests[id]? = some r → r.IsOpen → r.retryCount = 0 → places = 0 →
      f.told id = 0 → f.searches id = 0 → Stage id f places flights false
  /-- It was registered and has not ended. -/
  | underway {r : Request} : f.requests[id]? = some r → r.IsOpen → places = 1 → f.told id = 0 →
      (∀ most, r.retries = .limited most →
        r.retryCount ≤ most ∧ f.searches id ≤ r.retryCount + flights) →
      Stage id f places flights true
  /-- It has ended. -/
  | ended {r : Request} : f.requests[id]? = some r → places = 0 → f.told id = 1 →
      (∀ most, r.retries = .limited most → f.searches id ≤ most + 1) →
      Stage id f places flights true

variable {id other : RequestId} {f g : Fetcher} {n places flights : Nat} {registered : Bool}

/-- How far a request has come depends on the request, on what was told and on what was searched
for. -/
theorem Stage.congr (h : Stage id f places flights registered)
    (missing : f.requests[id]? = none → g.requests[id]? = none)
    (onward : ∀ r, f.requests[id]? = some r → ∃ r', g.requests[id]? = some r' ∧ r.Onward r')
    (told : g.told id = f.told id) (searches : g.searches id = f.searches id) :
    Stage id g places flights registered := by
  cases h with
  | unborn gone nowhere untold unsearched =>
      exact .unborn (missing gone) nowhere (told.trans untold) (searches.trans unsearched)
  | @waiting r found isOpen first nowhere untold unsearched =>
      rcases onward r found with ⟨r', there, further⟩
      exact .waiting there (further.isOpen isOpen) (further.retryCount.trans first) nowhere
        (told.trans untold) (searches.trans unsearched)
  | @underway r found isOpen somewhere untold budget =>
      rcases onward r found with ⟨r', there, further⟩
      refine .underway there (further.isOpen isOpen) somewhere (told.trans untold) ?_
      intro most limited
      rw [further.retryCount, searches]
      exact budget most (further.retries.symm.trans limited)
  | @ended r found nowhere once budget =>
      rcases onward r found with ⟨r', there, further⟩
      refine .ended there nowhere (told.trans once) ?_
      intro most limited
      rw [searches]
      exact budget most (further.retries.symm.trans limited)

theorem Stage.onwards (h : Stage id f places flights registered)
    (requests : Onwards f.requests g.requests) (told : g.told id = f.told id)
    (searches : g.searches id = f.searches id) : Stage id g places flights registered :=
  h.congr (fun gone => requests.none gone) (fun _ found => requests.each found) told searches

/-- A request that is somewhere is underway, and is nowhere else. -/
theorem Stage.of_pos (h : Stage id f places flights registered) (somewhere : 0 < places) :
    registered = true ∧ places = 1 ∧ f.told id = 0 ∧ ∃ r, f.requests[id]? = some r ∧ r.IsOpen ∧
      ∀ most, r.retries = .limited most →
        r.retryCount ≤ most ∧ f.searches id ≤ r.retryCount + flights := by
  cases h with
  | underway found isOpen one untold budget =>
      exact ⟨rfl, one, untold, _, found, isOpen, budget⟩
  | unborn gone nowhere untold unsearched =>
      omega
  | waiting found isOpen first nowhere untold unsearched =>
      omega
  | ended found nowhere once budget =>
      omega

/-- A request that was registered is in one place and was not told, or it was told and is in
none. -/
theorem Stage.custody (h : Stage id f places flights true) :
    (places = 1 ∧ f.told id = 0) ∨ (places = 0 ∧ f.told id = 1) := by
  cases h with
  | underway found isOpen one untold budget =>
      exact .inl ⟨one, untold⟩
  | ended found nowhere once budget =>
      exact .inr ⟨nowhere, once⟩

/-- A request is searched for at most once more than it may be retried. -/
theorem Stage.searches_le {r : Request} {most : Nat}
    (h : Stage id f places flights registered) (few : flights ≤ places)
    (found : f.requests[id]? = some r) (limited : r.retries = .limited most) :
    f.searches id ≤ most + 1 := by
  cases h with
  | unborn gone nowhere untold unsearched =>
      rw [found] at gone
      cases gone
  | waiting found' isOpen first nowhere untold unsearched =>
      exact unsearched.trans_le (Nat.zero_le _)
  | underway found' isOpen one untold budget =>
      cases found.symm.trans found'
      rcases budget most limited with ⟨count, searched⟩
      omega
  | ended found' nowhere once budget =>
      cases found.symm.trans found'
      exact budget most limited

/-! ## What stays as it is -/

theorem Onwards.mem {rs rs' : List Request} (h : Onwards rs rs') {r' : Request}
    (member : r' ∈ rs') : ∃ r ∈ rs, r.Onward r' := by
  rcases List.mem_iff_getElem?.1 member with ⟨i, found⟩
  cases before : rs[i]? with
  | none =>
      rw [h.none before] at found
      cases found
  | some r =>
      rcases h.each before with ⟨r'', there, onward⟩
      rw [there] at found
      cases found
      exact ⟨r, List.mem_of_getElem? before, onward⟩

theorem Works.congr (h : Works n f) (dispatchers : g.dispatchers.length = f.dispatchers.length)
    (schedulers : g.schedulers.length = f.schedulers.length)
    (fixed : ∀ s ∈ g.schedulers, s.adjustable = false ∧
      (s.reception = .accepting ∨ s.reception = .closed))
    (requests : ∀ r' ∈ g.requests, ∃ r ∈ f.requests, r.Asks r') : Works n g := by
  refine ⟨dispatchers.trans h.dispatchers, schedulers.trans h.schedulers, fixed, ?_, ?_⟩
  · intro r' member
    rcases requests r' member with ⟨r, before, asks⟩
    rw [asks.destination]
    exact h.bound r before
  · intro r' member most limited
    rcases requests r' member with ⟨r, before, asks⟩
    exact h.counted r before most (asks.retries.symm.trans limited)

theorem Works.onwards (h : Works n f) (requests : Onwards f.requests g.requests)
    (schedulers : g.schedulers = f.schedulers)
    (dispatchers : g.dispatchers.length = f.dispatchers.length) : Works n g := by
  refine h.congr dispatchers (by rw [schedulers]) ?_ ?_
  · rw [schedulers]
    exact h.fixed
  · intro r' member
    rcases requests.mem member with ⟨r, before, onward⟩
    exact ⟨r, before, onward.asks⟩

/-- Changes to the mail of a scheduler that leave its reception as it is. -/
theorem Works.modifyScheduler (h : Works n f) (id : SchedulerId) {change : Scheduler → Scheduler}
    (reception : ∀ s, (change s).reception = s.reception)
    (adjustable : ∀ s, (change s).adjustable = s.adjustable) :
    Works n (f.modifyScheduler id change) := by
  refine h.congr rfl (List.length_modify _ _ _) ?_ fun r member => ⟨r, member, rfl, rfl⟩
  intro s member
  rcases List.mem_iff_getElem?.1 member with ⟨i, found⟩
  have changed : (f.schedulers.modify id change)[i]? = some s := found
  rw [List.getElem?_modify] at changed
  rcases Option.map_eq_some_iff.1 changed with ⟨s', before, same⟩
  have fixed := h.fixed s' (List.mem_of_getElem? before)
  by_cases here : id = i
  · rw [← same, if_pos here, reception, adjustable]
    exact fixed
  · rw [← same, if_neg here]
    exact fixed

/-! ## Registration and ends -/

theorem Works.enlist (h : Works n f) {r : Request} : Works n (f.enlist other r).1 := by
  unfold Fetcher.enlist
  cases r.destination with
  | error e =>
      exact h
  | ok s =>
      exact h.modifyScheduler s (fun _ => rfl) (fun _ => rfl)

theorem Works.adopt {r : Request} {c : Conclusion} (h : Works n f)
    (found : f.requests[other]? = some r) (asks : r.Asks c.request) :
    Works n (f.adopt other c).1 := by
  have ended : Works n { f.setRequest other c.request with
      notices := c.notice.toList.map (fun n => (other, n)) ++ f.notices } := by
    refine h.congr rfl rfl h.fixed ?_
    intro r' member
    rcases List.mem_or_eq_of_mem_set member with old | new
    · exact ⟨r', old, rfl, rfl⟩
    · rw [new]
      exact ⟨r, List.mem_of_getElem? found, asks⟩
  unfold Fetcher.adopt
  simp only
  split
  · exact ended.enlist
  · exact ended

theorem mailed_modifyScheduler {s : SchedulerId} {q : Scheduler}
    (found : f.schedulers[s]? = some q) (change : Scheduler → Scheduler) (id : RequestId) :
    (f.modifyScheduler s change).mailed id + q.waiting.count id =
      f.mailed id + (change q).waiting.count id := by
  unfold mailed Fetcher.modifyScheduler
  rw [modify_eq_set found]
  exact sum_map_set (fun s => s.waiting.count id) found (change q)

/-- A registered request is in the mail of its scheduler once more; all others are where they
were. -/
theorem stored_enlist (other : RequestId) {r : Request} {s : SchedulerId} {q : Scheduler}
    (destination : r.destination = .ok s) (found : f.schedulers[s]? = some q) (id : RequestId) :
    (f.enlist other r).1.stored id = f.stored id + if other = id then 1 else 0 := by
  have mail := mailed_modifyScheduler found (·.push other) id
  have one : (q.push other).waiting.count id =
      q.waiting.count id + if other = id then 1 else 0 := by
    simp only [Scheduler.waiting_push, List.count_append, List.count_singleton, beq_iff_eq]
  have same : (f.enlist other r).1 = f.modifyScheduler s (·.push other) := by
    unfold Fetcher.enlist
    rw [destination]
  have waits : (f.modifyScheduler s (·.push other)).queued id = f.queued id := rfl
  rw [one] at mail
  rw [same]
  unfold stored
  omega

theorem route_of_destination {r : Request} {s : SchedulerId} (destination : r.destination = .ok s) :
    f.route r = .ok (((f.schedulers[s]?).map (·.reception)).getD .closed) := by
  unfold Fetcher.route
  rw [destination]
  rfl

/-- The scheduler of a request takes it in and exists, or it is closed. -/
theorem Works.route (h : Works n f) {r : Request} (member : r ∈ f.requests) :
    ∃ s reception, r.destination = .ok s ∧ f.route r = .ok reception ∧
      (reception.refusal = none ∨ reception.refusal = some .closed) ∧
      (reception.refusal = none → ∃ q, f.schedulers[s]? = some q) := by
  rcases h.bound r member with ⟨s, destination⟩
  refine ⟨s, _, destination, route_of_destination destination, ?_, ?_⟩
  · cases found : f.schedulers[s]? with
    | none =>
        exact .inr rfl
    | some q =>
        rcases (h.fixed q (List.mem_of_getElem? found)).2 with accepting | closed
        · simp [accepting, Reception.accepting]
        · simp [closed, Reception.closed]
  · intro accepts
    cases found : f.schedulers[s]? with
    | none =>
        rw [found] at accepts
        cases accepts
    | some q =>
        exact ⟨q, rfl⟩

theorem stored_enlist_of_ne {r : Request} (ne : other ≠ id) :
    (f.enlist other r).1.stored id = f.stored id := by
  unfold Fetcher.enlist
  cases r.destination with
  | error e =>
      rfl
  | ok s =>
      have mail : (f.modifyScheduler s (·.push other)).mailed id = f.mailed id := by
        refine congrArg List.sum ?_
        refine map_modify_of_eq (fun q : Scheduler => q.waiting.count id) _ ?_ f.schedulers s
        intro q
        simp [List.count_append, ne]
      have waits : (f.modifyScheduler s (·.push other)).queued id = f.queued id := rfl
      simp only [stored, mail, waits]

theorem stored_adopt_of_ne {c : Conclusion} (ne : other ≠ id) :
    (f.adopt other c).1.stored id = f.stored id := by
  unfold Fetcher.adopt
  simp only
  split
  · exact stored_enlist_of_ne ne
  · rfl

theorem stored_adopt {c : Conclusion} (unregistered : c.registered = false) :
    (f.adopt other c).1.stored id = f.stored id := by
  unfold Fetcher.adopt
  rw [unregistered]
  rfl

theorem stored_adopt_of_registered (id : RequestId) {c : Conclusion} {s : SchedulerId}
    {q : Scheduler} (registered : c.registered = true) (destination : c.request.destination = .ok s)
    (found : f.schedulers[s]? = some q) :
    (f.adopt id c).1.stored id = f.stored id + 1 := by
  have enlisted := stored_enlist (f := { f.setRequest id c.request with
    notices := c.notice.toList.map (fun n => (id, n)) ++ f.notices }) id destination found id
  rw [if_pos rfl] at enlisted
  unfold Fetcher.adopt
  rw [registered]
  exact enlisted

theorem searches_adopt (f : Fetcher) (other : RequestId) (c : Conclusion) (id : RequestId) :
    (f.adopt other c).1.searches id = f.searches id := by
  rcases adopt_same f other c with ⟨schedulers, same⟩
  rw [same]
  rfl

theorem Stage.adopt_of_ne {c : Conclusion} (h : Stage id f places flights registered)
    (ne : other ≠ id) : Stage id (f.adopt other c).1 places flights registered := by
  have requests : (f.adopt other c).1.requests[id]? = f.requests[id]? := by
    rcases adopt_same f other c with ⟨schedulers, same⟩
    rw [same]
    exact List.getElem?_set_ne ne
  refine h.congr ?_ ?_ ?_ (searches_adopt f other c id)
  · intro gone
    rw [requests]
    exact gone
  · intro r found
    exact ⟨r, requests.trans found, .refl r⟩
  · rw [told_adopt, if_neg ne, Nat.zero_add]

/-- The end of an attempt at a request that was nowhere else: it is told, or it is in the mail
again. -/
theorem stage_of_adopt {r : Request} {c : Conclusion} {s : SchedulerId} {reception : Reception}
    (works : Works n f) (found : f.requests[id]? = some r) (untold : f.told id = 0)
    (nowhere : f.stored id = 0)
    (budget : ∀ most, r.retries = .limited most →
      r.retryCount ≤ most ∧ f.searches id ≤ r.retryCount + 1)
    (destination : r.destination = .ok s)
    (takes : reception.refusal = none → ∃ q, f.schedulers[s]? = some q)
    (asks : r.Asks c.request) (resolves : r.Resolves reception c) :
    Stage id (f.adopt id c).1 ((f.adopt id c).1.stored id) 0 true := by
  have inside : id < f.requests.length := (List.getElem?_eq_some_iff.1 found).1
  have there : (f.adopt id c).1.requests[id]? = some c.request := by
    rcases adopt_same f id c with ⟨schedulers, same⟩
    rw [same]
    exact List.getElem?_set_self inside
  have told := told_adopt f id c id
  have searched := searches_adopt f id c id
  rw [if_pos rfl, untold] at told
  cases resolves with
  | ended unregistered noticed =>
      -- it is told, and nobody has it any more
      refine .ended there ((stored_adopt unregistered).trans nowhere) ?_ ?_
      · rcases Option.isSome_iff_exists.1 noticed with ⟨notice, same⟩
        rw [told, same]
        rfl
      · intro most limited
        rcases budget most (asks.retries.symm.trans limited) with ⟨count, few⟩
        omega
  | again registered silent accepts isOpen count allowed =>
      -- one more retry is counted, and it is in the mail of a scheduler that exists
      rcases takes accepts with ⟨q, there'⟩
      have mail := stored_adopt_of_registered id registered
        (asks.destination.trans destination) there'
      refine .underway there isOpen (by rw [mail, nowhere]) ?_ ?_
      · rw [told, silent]
        rfl
      · intro most limited
        have limit := asks.retries.symm.trans limited
        rcases budget most limit with ⟨few, searchedFew⟩
        have countable := works.counted r (List.mem_of_getElem? found) most limit
        rw [limit] at allowed
        have permitted : r.counted.retryCount ≤ most := of_decide_eq_true allowed
        have one : r.counted.retryCount = r.retryCount + 1 :=
          Nat.min_eq_left (by omega)
        omega

/-! ## Searches and attempts -/

theorem Works.searched {task : TaskId} {r r' : Request} {response : Response} (h : Works n f)
    (found : f.requests[other]? = some r) (onward : r.Onward r')
    (after : Searched f task other r' response g) : Works n g := by
  refine h.onwards ((Onwards.set found onward).trans after.requests) ?_ ?_
  · rw [after.same]
  · rw [after.same]

theorem told_searched {task : TaskId} {r : Request} {response : Response}
    (after : Searched f task other r response g) (id : RequestId) : g.told id = f.told id := by
  rw [after.same]
  rfl

theorem stored_searched {task : TaskId} {r : Request} {response : Response}
    (after : Searched f task other r response g) (id : RequestId) :
    g.stored id = f.stored id := by
  rw [after.same]
  rfl

theorem searches_searched {task : TaskId} {r : Request} {response : Response}
    (after : Searched f task other r response g) (id : RequestId) :
    g.searches id = f.searches id + if other = id then 1 else 0 := by
  unfold searches
  rw [after.calls, List.filter_cons]
  by_cases here : other = id <;> simp [here]

theorem Stage.searched_of_ne {task : TaskId} {r r' : Request} {response : Response}
    (h : Stage id f places flights registered) (ne : other ≠ id)
    (found : f.requests[other]? = some r) (onward : r.Onward r')
    (after : Searched f task other r' response g) : Stage id g places flights registered := by
  refine h.onwards ((Onwards.set found onward).trans after.requests) (told_searched after id) ?_
  rw [searches_searched after, if_neg ne, Nat.add_zero]

theorem Stage.sends_of_ne {task : TaskId} {stage : Sending} {result : Attempted Sending}
    (h : Stage id f places flights registered) (ne : other ≠ id)
    (sent : Sends f task other stage result) :
    Stage id result.1 places flights registered ∧ result.1.stored id = f.stored id := by
  cases sent with
  | missing gone =>
      exact ⟨h, rfl⟩
  | concluded found begins =>
      exact ⟨h.adopt_of_ne ne, stored_adopt_of_ne ne⟩
  | arrived found =>
      exact ⟨h.adopt_of_ne ne, stored_adopt_of_ne ne⟩
  | awaits held found begins after =>
      rcases Request.onward_of_lookup begins with ⟨onward, _⟩
      have searched := h.searched_of_ne ne found onward after
      exact ⟨searched.onwards (.refl _) rfl rfl, stored_searched after id⟩
  | answered found begins after there further =>
      rcases Request.onward_of_lookup begins with ⟨onward, _⟩
      have searched := h.searched_of_ne ne found onward after
      exact ⟨searched.adopt_of_ne ne, (stored_adopt_of_ne ne).trans (stored_searched after id)⟩

theorem Works.sends {task : TaskId} {stage : Sending} {result : Attempted Sending}
    (h : Works n f) (sent : Sends f task other stage result) : Works n result.1 := by
  cases sent with
  | missing gone =>
      exact h
  | concluded found begins =>
      exact h.adopt found (Request.asks_of_concluded begins)
  | arrived found =>
      exact h.adopt found (Request.asks_conclude _ _ _)
  | awaits held found begins after =>
      rcases Request.onward_of_lookup begins with ⟨onward, _⟩
      exact (h.searched found onward after).onwards (.refl _) rfl rfl
  | answered found begins after there further =>
      rcases Request.onward_of_lookup begins with ⟨onward, _⟩
      exact (h.searched found onward after).adopt there (Request.asks_conclude _ _ _)

/-- An attempt at a request that is nowhere else: it is on its way in the same task, it is told, or
it is in the mail again. -/
theorem Stage.sends {task : TaskId} {stage : Sending} {result : Attempted Sending}
    (works : Works n f) (h : Stage id f 1 stage.flights registered) (nowhere : f.stored id = 0)
    (sent : Sends f task id stage result) :
    Stage id result.1 (share (fun _ => 1) (standing result.2.2) + result.1.stored id)
      (share Sending.flights (standing result.2.2)) registered := by
  rcases h.of_pos Nat.one_pos with ⟨rfl, _, untold, r, found, isOpen, budget⟩
  rcases works.route (List.mem_of_getElem? found) with
    ⟨s, reception, destination, route, known, takes⟩
  cases sent with
  | missing gone =>
      -- a request that is in a task exists
      rw [found] at gone
      cases gone
  | concluded found' begins =>
      cases found.symm.trans found'
      have ended := stage_of_adopt works found untold nowhere
        (fun most limited => (budget most limited).imp_right fun few => Nat.le_succ_of_le few)
        destination takes (Request.asks_of_concluded begins)
        (Request.resolves_of_concluded isOpen reception begins)
      simpa [Fetcher.finish, standing] using ended
  | @arrived r' response found' =>
      cases found.symm.trans found'
      have ended := stage_of_adopt works found untold nowhere budget destination takes
        (Request.asks_conclude (f.route r) response r)
        (route.symm ▸ Request.resolves_conclude isOpen known response)
      simpa [Fetcher.arrive, Fetcher.finish, standing] using ended
  | @awaits r₀ r' response g held alarm found' begins after =>
      cases found.symm.trans found'
      rcases Request.onward_of_lookup begins with ⟨onward, _⟩
      rcases ((Onwards.set found onward).trans after.requests).each found with ⟨r'', there, further⟩
      have searched := searches_searched after id
      rw [if_pos rfl] at searched
      refine .underway there (further.isOpen isOpen) ?_ ?_ ?_
      · have kept := stored_searched after id
        simp only [standing, share_some]
        exact congrArg (1 + ·) (kept.trans nowhere)
      · exact (told_searched after id).trans untold
      · intro most limited
        rcases budget most (further.retries.symm.trans limited) with ⟨few, searchedFew⟩
        rw [further.retryCount]
        refine ⟨few, ?_⟩
        exact searched.trans_le (Nat.succ_le_succ searchedFew)
  | @answered r₀ r' r'' response g found' begins after there further =>
      cases found.symm.trans found'
      rcases Request.onward_of_lookup begins with ⟨onward, _⟩
      -- the search may have cancelled requests, so all is read off anew before the end
      have works' := works.searched found onward after
      rcases works'.route (List.mem_of_getElem? there) with
        ⟨s', reception', destination', route', known', takes'⟩
      have searched := searches_searched after id
      rw [if_pos rfl] at searched
      have ended := stage_of_adopt works' there ((told_searched after id).trans untold)
        ((stored_searched after id).trans nowhere)
        (fun most limited => by
          rcases budget most (further.retries.symm.trans limited) with ⟨few, searchedFew⟩
          rw [further.retryCount]
          exact ⟨few, searched.trans_le (Nat.succ_le_succ searchedFew)⟩)
        destination' takes' (Request.asks_conclude (g.route r'') response r'')
        (route'.symm ▸ Request.resolves_conclude (further.isOpen isOpen) known' response)
      simpa [Fetcher.arrive, Fetcher.finish, standing] using ended

/-! ## Making and scheduling requests -/

def Answer.isAccepted : Answer → Bool
  | .accepted => true
  | _ => false

theorem Works.create {r : Request} {s : SchedulerId} (h : Works n f)
    (destination : r.destination = .ok s)
    (counted : ∀ most, r.retries = .limited most → most < Request.maxRetryCount) :
    Works n { f with requests := f.requests ++ [r] } := by
  refine ⟨h.dispatchers, h.schedulers, h.fixed, ?_, ?_⟩
  · intro x member
    rcases List.mem_append.1 member with old | new
    · exact h.bound x old
    · cases List.mem_singleton.1 new
      exact ⟨s, destination⟩
  · intro x member
    rcases List.mem_append.1 member with old | new
    · exact h.counted x old
    · cases List.mem_singleton.1 new
      exact counted

theorem Stage.create {r : Request} (h : Stage id f places flights registered) (isOpen : r.IsOpen)
    (first : r.retryCount = 0) :
    Stage id { f with requests := f.requests ++ [r] } places flights registered := by
  cases known : f.requests[id]? with
  | some x =>
      -- it was made before
      have inside : id < f.requests.length := (List.getElem?_eq_some_iff.1 known).1
      refine h.congr ?_ ?_ rfl rfl
      · intro gone
        rw [known] at gone
        cases gone
      · intro y found
        exact ⟨y, (List.getElem?_append_left inside).trans found, .refl y⟩
  | none =>
      -- it is the one that is made, or comes later
      cases h with
      | unborn _ nowhere untold unsearched =>
          have beyond := List.getElem?_eq_none_iff.1 known
          rcases Nat.eq_or_lt_of_le beyond with here | later
          · exact .waiting (r := r) (by simp [← here]) isOpen first nowhere untold unsearched
          · refine .unborn (List.getElem?_eq_none_iff.2 ?_) nowhere untold unsearched
            rw [List.length_append]
            exact later
      | waiting found _ _ _ _ _ =>
          rw [known] at found
          cases found
      | underway found _ _ _ _ =>
          rw [known] at found
          cases found
      | ended found _ _ _ =>
          rw [known] at found
          cases found

theorem Works.schedule {result : Reacted} (h : Works n f) (became : Schedules f other result) :
    Works n result.shared := by
  have changed : ∀ {r r' : Request}, f.requests[other]? = some r → r.Onward r' →
      Works n (f.setRequest other r') :=
    fun found onward => h.onwards (Onwards.set found onward) rfl rfl
  cases became with
  | missing gone =>
      exact h
  | ended found registered onward =>
      exact changed found onward
  | refused found registered onward =>
      exact changed found onward
  | accepted found registered onward =>
      exact (changed found onward).enlist

/-- Registering a request tells nothing and searches for nothing. -/
theorem Stage.enlist {r : Request} (h : Stage id f places flights registered) :
    Stage id (f.enlist other r).1 places flights registered := by
  rcases enlist_same f other r with ⟨schedulers, same⟩
  rw [same]
  exact h.onwards (.refl _) rfl rfl

theorem Stage.schedules_of_ne {result : Reacted} (h : Stage id f places flights registered)
    (ne : other ≠ id) (became : Schedules f other result) :
    Stage id result.shared places flights registered ∧
      result.shared.stored id = f.stored id := by
  have changed : ∀ {r r' : Request}, f.requests[other]? = some r → r.Onward r' →
      Stage id (f.setRequest other r') places flights registered :=
    fun found onward => h.onwards (Onwards.set found onward) rfl rfl
  cases became with
  | missing gone =>
      exact ⟨h, rfl⟩
  | ended found registered onward =>
      exact ⟨changed found onward, rfl⟩
  | refused found registered onward =>
      exact ⟨changed found onward, rfl⟩
  | accepted found registered onward =>
      exact ⟨(changed found onward).enlist, stored_enlist_of_ne ne⟩

/-- A request that was not registered yet is scheduled. -/
theorem Stage.schedules {result : Reacted} (works : Works n f)
    (h : Stage id f (rest + f.stored id) flights false) (became : Schedules f id result) :
    Stage id result.shared (rest + result.shared.stored id) flights
      result.answer.isAccepted := by
  have fresh : ∀ {r : Request}, f.requests[id]? = some r →
      r.IsOpen ∧ r.retryCount = 0 ∧ rest + f.stored id = 0 ∧ f.told id = 0 ∧
        f.searches id = 0 := by
    intro r found
    cases h with
    | unborn gone _ _ _ =>
        rw [found] at gone
        cases gone
    | waiting found' isOpen first nowhere untold unsearched =>
        cases found.symm.trans found'
        exact ⟨isOpen, first, nowhere, untold, unsearched⟩
  cases became with
  | missing gone =>
      exact h
  | @ended r r' found registered onward =>
      -- an open request has not ended
      rcases works.route (List.mem_of_getElem? found) with ⟨s, reception, _, route, known, _⟩
      have outcome := Request.schedule_of_isOpen (fresh found).1 reception
      rw [← route, registered] at outcome
      rcases known with accepts | closed
      · rw [accepts] at outcome
        cases outcome
      · rw [closed] at outcome
        cases outcome
  | refused found registered onward =>
      exact h.onwards (Onwards.set found onward) rfl rfl
  | @accepted r r' found registered onward =>
      rcases fresh found with ⟨isOpen, first, nowhere, untold, unsearched⟩
      rcases works.route (List.mem_of_getElem? found) with
        ⟨s, reception, destination, route, known, takes⟩
      have outcome := Request.schedule_of_isOpen isOpen reception
      rw [← route, registered] at outcome
      rcases known with accepts | closed
      · -- it is put into the mail, and was nowhere before
        rcases takes accepts with ⟨q, there⟩
        have mail := stored_enlist (f := f.setRequest id r') id
          (onward.asks.destination.trans destination) there id
        rw [if_pos rfl] at mail
        have inside : id < f.requests.length := (List.getElem?_eq_some_iff.1 found).1
        have changed : (f.setRequest id r').requests[id]? = some r' := List.getElem?_set_self inside
        have before : (f.setRequest id r').stored id = f.stored id := rfl
        rcases enlist_same (f.setRequest id r') id r' with ⟨schedulers, same⟩
        refine .underway (r := r') ?_ (onward.isOpen isOpen) ?_ ?_ ?_
        · rw [same]
          exact changed
        · simp only [mail, before]
          omega
        · rw [same]
          exact untold
        · intro most limited
          rw [onward.retryCount, first, same]
          exact ⟨Nat.zero_le most, unsearched.trans_le (Nat.zero_le _)⟩
      · rw [closed] at outcome
        cases outcome

/-- Schedulers of dispatchers cannot be adjusted. -/
theorem Works.adjust (h : Works n f) (s : SchedulerId) (reception : Reception) :
    f.modifyScheduler s (·.adjust reception) = f := by
  have same : f.schedulers.modify s (·.adjust reception) = f.schedulers := by
    refine List.ext_getElem? fun i => ?_
    rw [List.getElem?_modify]
    cases found : f.schedulers[i]? with
    | none =>
        rfl
    | some q =>
        have fixed := (h.fixed q (List.mem_of_getElem? found)).1
        by_cases here : s = i <;> simp [Scheduler.adjust, fixed]
  unfold Fetcher.modifyScheduler
  rw [same]

end Fetcher
end MeteredFetch
