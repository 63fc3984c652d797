import MeteredFetch.Proofs.Executor.Step
import MeteredFetch.Request.Lifecycle

/-!
# Onward — how requests go on and how they end

What is asked for stays the same on all of a request's way. Cancelling and scheduling neither end a
request with an outcome nor count a retry; only an attempt does.

* `Request.Onward r r'` — `r'` is `r`, further on its way but with neither end nor retry;
* `Request.Asks r r'` — `r'` asks for what `r` asks for, whatever became of it;
* `Request.Final` — a request that was reported goes no further;
* `Request.isLate` — a block that arrives after the request was reported;
* `Request.Notes` — what the consumer is told at the end of an attempt is noted;
* `Request.Reports` — an attempt reports a request once more exactly if a block is late;
* `Request.IsOpen` — a request that has no outcome and was not reported;
* `Request.Resolves` — an attempt at such a request ends it or registers it again.
-/

namespace MeteredFetch

def Response.isCancelled : Response → Bool
  | .block _ => false
  | .fault f => f.failure == .cancelled

namespace Request

/-! ## Going on -/

/-- A request further on its way, with neither end nor retry. -/
structure Onward (r r' : Request) : Prop where
  key : r'.key = r.key
  retries : r'.retries = r.retries
  group : r'.group = r.group
  retryCount : r'.retryCount = r.retryCount
  reported : r'.reported = r.reported
  settled : r'.settled? = r.settled?
  cancelled : r.cancelled = true → r'.cancelled = true

theorem Onward.refl (r : Request) : Onward r r :=
  ⟨rfl, rfl, rfl, rfl, rfl, rfl, id⟩

/-- Two ways one after another are one way. -/
theorem Onward.trans {r r' r'' : Request} (h : Onward r r') (h' : Onward r' r'') :
    Onward r r'' :=
  ⟨h'.key.trans h.key, h'.retries.trans h.retries, h'.group.trans h.group,
    h'.retryCount.trans h.retryCount, h'.reported.trans h.reported,
    h'.settled.trans h.settled, fun cancelled => h'.cancelled (h.cancelled cancelled)⟩

/-- A change of status that is no end takes a request on. -/
theorem onward_status (r : Request) {status : Status}
    (settled : ({ r with status } : Request).settled? = r.settled?) :
    Onward r { r with status } :=
  ⟨rfl, rfl, rfl, rfl, rfl, settled, id⟩

/-- A request that is cancelled has not ended by that. -/
theorem onward_cancel (r : Request) : Onward r r.cancel := by
  refine ⟨rfl, rfl, rfl, rfl, rfl, ?_, fun _ => rfl⟩
  cases status : r.status <;> simp [cancel, settled?, status]

/-- A request that is scheduled, or refused, has not ended by that. -/
theorem onward_schedule (route : Except FetchError Reception) (r : Request) :
    Onward r (r.schedule route).1 := by
  unfold schedule
  cases route with
  | error e =>
      exact .refl r
  | ok reception =>
      simp only
      split
      · exact .refl r
      · have marked : Onward r
            (if r.status = .idle ∨ r.status = .inFlight then { r with status := .scheduled }
              else r) := by
          split
          · rename_i waiting
            refine onward_status r ?_
            rcases waiting with idle | inFlight
            · simp [settled?, idle]
            · simp [settled?, inFlight]
          · exact .refl r
        generalize (if r.status = .idle ∨ r.status = .inFlight then
          { r with status := .scheduled } else r) = r₁ at marked
        have received : Onward r (if reception.cancels = true then r₁.cancel else r₁) := by
          split
          · exact marked.trans (onward_cancel r₁)
          · exact marked
        generalize (if reception.cancels = true then r₁.cancel else r₁) = r₂ at received
        split
        · exact received
        · split
          · -- the status that is taken back is the one from before
            exact ⟨received.key, received.retries, received.group, received.retryCount,
              received.reported, rfl, received.cancelled⟩
          · exact received

/-- The key of a request does not change on its way, and neither does its scheduler. -/
theorem Onward.destination {r r' : Request} (h : Onward r r') :
    r'.destination = r.destination := by
  unfold Request.destination
  rw [h.group, h.key]

/-! ## Retries -/

def counted (r : Request) : Request :=
  { r with retryCount := min (r.retryCount + 1) maxRetryCount }

/-- What a retry comes to that is allowed and was registered or not. -/
def enter (r : Request) : Registration → Conclusion
  | .ended => r.keep (.retrying r.retryCount)
  | .accepted => { r.keep (.retrying r.retryCount) with registered := true }
  | .refused .closed => r.endFailed .internalError
  | .refused e => { request := r, outcome := .error e }

/-- A refusal other than that of a closed scheduler is handed to whoever asked, and changes nothing. -/
theorem enter_refused {r : Request} {e : FetchError} (h : e ≠ .closed) :
    r.enter (.refused e) = { request := r, outcome := .error e } := by
  cases e with
  | closed =>
      exact absurd rfl h
  | _ =>
      rfl

/-- A retry keeps an outcome, ends a request that is cancelled or whose budget is used up, or
registers it again. -/
theorem retry_cases (route : Except FetchError Reception) (failure : Failure) (r : Request) :
    (∃ outcome, r.settled? = some outcome ∧ r.retry route failure = r.keep outcome) ∨
      (r.settled? = none ∧ (failure = .cancelled ∨ r.cancelled = true) ∧
        r.retry route failure = r.endCancelled) ∨
      (r.settled? = none ∧ failure ≠ .cancelled ∧ r.cancelled = false ∧
        r.retries.permits r.counted.retryCount = false ∧
        r.retry route failure = r.counted.endFailed failure) ∨
      ∃ r' registration, r.settled? = none ∧ failure ≠ .cancelled ∧ r.cancelled = false ∧
        r.retries.permits r.counted.retryCount = true ∧
        r.counted.schedule route = (r', registration) ∧
        r.retry route failure = r'.enter registration := by
  unfold retry
  split
  · -- there is an outcome already
    rename_i outcome settled
    exact .inl ⟨outcome, settled, rfl⟩
  · rename_i unsettled
    split
    · -- cancelled, or told so by the lookup
      rename_i stopped
      exact .inr (.inl ⟨unsettled, stopped, rfl⟩)
    · rename_i going
      rw [not_or, Bool.not_eq_true] at going
      -- the retry is counted before it is known whether it is allowed
      by_cases allowed : r.retries.permits r.counted.retryCount = true
      · obtain ⟨r', registration, scheduled⟩ :
            ∃ r' registration, r.counted.schedule route = (r', registration) := ⟨_, _, rfl⟩
        refine .inr (.inr (.inr ⟨r', registration, unsettled, going.1, going.2, allowed,
          scheduled, ?_⟩))
        have count := (onward_schedule route r.counted).retryCount
        rw [scheduled] at count
        simp only [counted] at allowed scheduled count
        simp only [allowed, scheduled, if_true]
        cases registration with
        | ended =>
            simp [enter, count]
        | accepted =>
            simp [enter, count]
        | refused e =>
            cases e <;> rfl
      · refine .inr (.inr (.inl ⟨unsettled, going.1, going.2, by simpa using allowed, ?_⟩))
        exact if_neg allowed

/-- A search is begun only for a request that has no outcome and is not cancelled. -/
theorem onward_of_lookup {r r' : Request} (h : r.beginSend = .lookup r') :
    Onward r r' ∧ r.settled? = none ∧ r.cancelled = false := by
  unfold beginSend at h
  split at h
  · cases h
  · rename_i unsettled
    split at h
    · cases h
    · rename_i wanted
      cases h
      refine ⟨onward_status r ?_, unsettled, by simpa using wanted⟩
      rw [unsettled]
      rfl

/-! ## What is asked for -/

structure Asks (r r' : Request) : Prop where
  retries : r'.retries = r.retries
  destination : r'.destination = r.destination

theorem Onward.asks {r r' : Request} (h : Onward r r') : Asks r r' :=
  ⟨h.retries, h.destination⟩

theorem asks_retry (route : Except FetchError Reception) (failure : Failure) (r : Request) :
    Asks r (r.retry route failure).request := by
  rcases retry_cases route failure r with ⟨outcome, _, same⟩ | ⟨_, _, same⟩ |
    ⟨_, _, _, _, same⟩ | ⟨r', registration, _, _, _, _, scheduled, same⟩
  · rw [same]
    exact ⟨rfl, rfl⟩
  · rw [same]
    exact ⟨rfl, rfl⟩
  · rw [same]
    exact ⟨rfl, rfl⟩
  · rw [same]
    have onward : r.counted.Onward r' := by
      simpa [scheduled] using onward_schedule route r.counted
    have entered : Asks r' (r'.enter registration).request := by
      cases registration with
      | refused e =>
          cases e <;> exact ⟨rfl, rfl⟩
      | _ =>
          exact ⟨rfl, rfl⟩
    exact ⟨entered.retries.trans onward.retries, entered.destination.trans onward.destination⟩

/-- The end of an attempt changes neither what a request asks for nor where. -/
theorem asks_conclude (route : Except FetchError Reception) (response : Response) (r : Request) :
    Asks r (r.conclude route response).request := by
  cases response with
  | block block =>
      unfold conclude endSucceeded
      simp only
      split <;> exact ⟨rfl, rfl⟩
  | fault fault =>
      exact asks_retry route fault.failure r

theorem asks_of_concluded {r : Request} {c : Conclusion} (h : r.beginSend = .concluded c) :
    Asks r c.request := by
  unfold beginSend at h
  split at h
  · cases h
    exact ⟨rfl, rfl⟩
  · split at h
    · cases h
      exact ⟨rfl, rfl⟩
    · cases h

/-- A retry leaves a request with its group. -/
theorem group_retry (route : Except FetchError Reception) (failure : Failure) (r : Request) :
    (r.retry route failure).request.group = r.group := by
  rcases retry_cases route failure r with ⟨outcome, _, same⟩ | ⟨_, _, same⟩ |
    ⟨_, _, _, _, same⟩ | ⟨r', registration, _, _, _, _, scheduled, same⟩
  · rw [same]
    rfl
  · rw [same]
    rfl
  · rw [same]
    rfl
  · rw [same]
    have onward : r.counted.Onward r' := by
      simpa [scheduled] using onward_schedule route r.counted
    have entered : (r'.enter registration).request.group = r'.group := by
      cases registration with
      | refused e =>
          cases e <;> rfl
      | _ =>
          rfl
    exact entered.trans onward.group

/-- An attempt leaves a request in its group. -/
theorem group_conclude (route : Except FetchError Reception) (response : Response) (r : Request) :
    (r.conclude route response).request.group = r.group := by
  cases response with
  | block block =>
      unfold conclude endSucceeded
      simp only
      split <;> rfl
  | fault fault =>
      exact group_retry route fault.failure r

/-- An attempt that is over before its search leaves a request with its group. -/
theorem group_of_concluded {r : Request} {c : Conclusion} (h : r.beginSend = .concluded c) :
    c.request.group = r.group := by
  unfold beginSend at h
  split at h
  · cases h
    rfl
  · split at h
    · cases h
      rfl
    · cases h

/-! ## What consumers are told -/

/-- A request that was reported has an outcome that it keeps, or is cancelled. -/
def Final (r : Request) : Prop :=
  r.reported = true → r.settled? ≠ none ∨ r.cancelled = true

/-- A report that was final stays so. -/
theorem Onward.final {r r' : Request} (h : Onward r r') (final : r.Final) : r'.Final := by
  intro reported
  rw [h.reported] at reported
  rcases final reported with settled | cancelled
  · exact .inl (by rw [h.settled]; exact settled)
  · exact .inr (h.cancelled cancelled)

/-- A block arrives for a request that was reported, and nobody has cancelled it. -/
def isLate (r : Request) : Response → Bool
  | .block _ => r.reported && !r.cancelled
  | .fault _ => false

/-- What the consumer is told at the end of an attempt is noted, and no note is taken back. -/
def Notes (r : Request) (c : Conclusion) : Prop :=
  c.request.reported = (r.reported || c.notice.isSome)

/-- Where nobody is told anything, nothing has to be noted. -/
theorem notes_of_onward {r r' : Request} (h : Onward r r') (outcome : Except FetchError Outcome)
    (registered : Bool) : Notes r { request := r', outcome, registered } := by
  simp [Notes, h.reported]

/-- A cancellation that is told is noted, and told only once. -/
theorem notes_endCancelled (r : Request) : Notes r r.endCancelled := by
  cases reported : r.reported <;> simp [Notes, endCancelled, reported]

/-- A failure that is told is noted. -/
theorem notes_endFailed (r : Request) (failure : Failure) : Notes r (r.endFailed failure) := by
  simp [Notes, endFailed]

/-- Whatever a retry tells is noted. -/
theorem notes_retry (route : Except FetchError Reception) (failure : Failure) (r : Request) :
    Notes r (r.retry route failure) := by
  rcases retry_cases route failure r with ⟨outcome, _, same⟩ | ⟨_, _, same⟩ |
    ⟨_, _, _, _, same⟩ | ⟨r', registration, _, _, _, _, scheduled, same⟩
  · rw [same]
    exact notes_of_onward (.refl r) _ false
  · rw [same]
    exact notes_endCancelled r
  · rw [same]
    exact notes_endFailed r.counted failure
  · rw [same]
    have onward : r.counted.Onward r' := by
      simpa [scheduled] using onward_schedule route r.counted
    -- counting a retry notes nothing
    show Notes r.counted (r'.enter registration)
    cases registration with
    | ended =>
        exact notes_of_onward onward _ false
    | accepted =>
        exact notes_of_onward onward _ true
    | refused e =>
        by_cases closed : e = .closed
        · subst closed
          simp [Notes, enter, endFailed]
        · rw [enter_refused closed]
          exact notes_of_onward onward _ false

/-- Whatever is told at the end of an attempt is noted. -/
theorem notes_conclude (route : Except FetchError Reception) (response : Response) (r : Request) :
    Notes r (r.conclude route response) := by
  cases response with
  | block block =>
      unfold conclude endSucceeded
      simp only
      split
      · exact notes_endCancelled r
      · simp [Notes]
  | fault fault =>
      exact notes_retry route fault.failure r

theorem notes_of_concluded {r : Request} {c : Conclusion} (h : r.beginSend = .concluded c) :
    Notes r c := by
  unfold beginSend at h
  split at h
  · cases h
    exact notes_of_onward (.refl r) _ false
  · split at h
    · cases h
      exact notes_endCancelled r
    · cases h

/-- A request that was reported is final after an attempt, and `late` says whether the attempt
reports it once more. -/
structure Reports (r : Request) (late : Bool) (c : Conclusion) : Prop where
  final : c.request.Final
  repeats : (r.reported && c.notice.isSome) = late

theorem reports_of_onward {r r' : Request} (final : r.Final) (h : Onward r r')
    (outcome : Except FetchError Outcome) (registered : Bool) :
    Reports r false { request := r', outcome, registered } :=
  ⟨h.final final, by simp⟩

/-- Ending a request as cancelled repeats no report. -/
theorem reports_endCancelled {r : Request} (cancelled : r.cancelled = true) :
    Reports r false r.endCancelled := by
  refine ⟨fun _ => .inr cancelled, ?_⟩
  cases reported : r.reported <;> simp [endCancelled, reported]

/-- The first failure of a request is its first report. -/
theorem reports_endFailed {r : Request} (unreported : r.reported = false) (failure : Failure) :
    Reports r false (r.endFailed failure) := by
  refine ⟨fun _ => .inl ?_, ?_⟩
  · simp [endFailed, settled?]
  · simp [unreported]

/-- A block is a second report exactly if it is late. -/
theorem reports_endSucceeded (r : Request) (block : Bytes) :
    Reports r (r.isLate (.block block)) (r.endSucceeded block) := by
  unfold endSucceeded
  split
  · rename_i cancelled
    have early : r.isLate (.block block) = false := by simp [isLate, cancelled]
    rw [early]
    exact reports_endCancelled cancelled
  · rename_i wanted
    refine ⟨fun _ => .inl ?_, ?_⟩
    · simp [settled?]
    · simp [isLate, wanted]

/-- A request without outcome that nobody has cancelled was not reported. -/
theorem Final.unreported {r : Request} (final : r.Final) (unsettled : r.settled? = none)
    (wanted : r.cancelled = false) : r.reported = false := by
  cases reported : r.reported with
  | false =>
      rfl
  | true =>
      rcases final reported with settled | cancelled
      · exact absurd unsettled settled
      · rw [wanted] at cancelled
        cases cancelled

/-- A retry never reports a request again. -/
theorem reports_retry {r : Request} (final : r.Final) (route : Except FetchError Reception)
    {failure : Failure} (genuine : failure ≠ .cancelled) :
    Reports r false (r.retry route failure) := by
  rcases retry_cases route failure r with ⟨outcome, _, same⟩ | ⟨_, stopped, same⟩ |
    ⟨unsettled, _, wanted, _, same⟩ | ⟨r', registration, unsettled, _, wanted, _, scheduled, same⟩
  · rw [same]
    exact reports_of_onward final (.refl r) _ false
  · rw [same]
    rcases stopped with failed | cancelled
    · exact absurd failed genuine
    · exact reports_endCancelled cancelled
  · rw [same]
    have unreported : r.counted.reported = false := final.unreported unsettled wanted
    have reports := reports_endFailed unreported failure
    exact ⟨reports.final, reports.repeats⟩
  · rw [same]
    have onward : r.counted.Onward r' := by
      simpa [scheduled] using onward_schedule route r.counted
    have unreported : r.reported = false := final.unreported unsettled wanted
    -- nobody was told yet, so nothing is repeated, and a request that goes on is final as before
    refine ⟨?_, by simp [unreported]⟩
    have counted : r.counted.Final := final
    have goesOn : r'.Final := onward.final counted
    cases registration with
    | ended =>
        exact goesOn
    | accepted =>
        exact goesOn
    | refused e =>
        by_cases closed : e = .closed
        · subst closed
          have before : r'.reported = false := onward.reported.trans unreported
          exact (reports_endFailed before .internalError).final
        · rw [enter_refused closed]
          exact goesOn

/-- An attempt reports a request again exactly if its block is late. -/
theorem reports_conclude {r : Request} (final : r.Final) (route : Except FetchError Reception)
    {response : Response} (genuine : response.isCancelled = false) :
    Reports r (r.isLate response) (r.conclude route response) := by
  cases response with
  | block block =>
      exact reports_endSucceeded r block
  | fault fault =>
      refine reports_retry final route ?_
      simpa [Response.isCancelled] using genuine

/-- An attempt that ends before it has searched repeats no report. -/
theorem reports_of_concluded {r : Request} {c : Conclusion} (final : r.Final)
    (h : r.beginSend = .concluded c) : Reports r false c := by
  unfold beginSend at h
  split at h
  · cases h
    exact reports_of_onward final (.refl r) _ false
  · split at h
    · rename_i cancelled
      cases h
      exact reports_endCancelled cancelled
    · cases h

/-! ## Open requests -/

def IsOpen (r : Request) : Prop :=
  r.reported = false ∧ r.settled? = none

theorem Onward.isOpen {r r' : Request} (h : Onward r r') (isOpen : r.IsOpen) : r'.IsOpen :=
  ⟨h.reported.trans isOpen.1, h.settled.trans isOpen.2⟩

/-- A new request has no end, no retries and a scheduler, and a budget that can be counted up to. -/
theorem isOpen_of_create {key : Key} {budget : Int32} {settings : Settings} {group : Group}
    {r : Request} (h : create key budget settings group = .ok r) :
    r.IsOpen ∧ r.retryCount = 0 ∧ (∃ s, r.destination = .ok s) ∧
      ∀ most, r.retries = .limited most → most < maxRetryCount := by
  rcases ok_of_bind h with ⟨retries, ofBudget, rest⟩
  rcases ok_of_bind rest with ⟨s, bound, rest⟩
  cases rest
  refine ⟨⟨rfl, rfl⟩, rfl, ⟨s, bound⟩, ?_⟩
  intro most limited
  have small := Int32.toInt_lt budget
  unfold Retries.ofBudget at ofBudget
  split at ofBudget
  · rename_i most' value
    cases ofBudget
    cases limited
    rw [value] at small
    unfold maxRetryCount
    have cast : (Int.ofNat most : Int) = (most : Int) := rfl
    omega
  · cases ofBudget
    cases limited
  · cases ofBudget

/-- An open request is put to its scheduler, which takes it in or not. -/
theorem schedule_of_isOpen {r : Request} (isOpen : r.IsOpen) (reception : Reception) :
    (r.schedule (.ok reception)).2 =
      match reception.refusal with
      | none => .accepted
      | some e => .refused e := by
  unfold schedule
  simp only [isOpen.1, Bool.and_false, Bool.false_eq_true, if_false]
  cases reception.refusal <;> rfl

/-- An attempt either ends a request and says so, or has it taken in again with one more retry
counted. -/
inductive Resolves (r : Request) (reception : Reception) (c : Conclusion) : Prop
  | ended : c.registered = false → c.notice.isSome = true → Resolves r reception c
  | again : c.registered = true → c.notice = none → reception.refusal = none → c.request.IsOpen →
      c.request.retryCount = r.counted.retryCount →
      r.retries.permits r.counted.retryCount = true → Resolves r reception c

theorem resolves_endCancelled {r : Request} (isOpen : r.IsOpen) (reception : Reception) :
    Resolves r reception r.endCancelled := by
  refine .ended rfl ?_
  simp [endCancelled, isOpen.1]

/-- A retry either hands an open request to its scheduler or ends it. -/
theorem resolves_retry {r : Request} (isOpen : r.IsOpen) {reception : Reception}
    (known : reception.refusal = none ∨ reception.refusal = some .closed) (failure : Failure) :
    Resolves r reception (r.retry (.ok reception) failure) := by
  rcases retry_cases (.ok reception) failure r with ⟨outcome, settled, _⟩ | ⟨_, _, same⟩ |
    ⟨_, _, _, _, same⟩ | ⟨r', registration, _, _, _, allowed, scheduled, same⟩
  · rw [isOpen.2] at settled
    cases settled
  · rw [same]
    exact resolves_endCancelled isOpen reception
  · rw [same]
    exact .ended rfl rfl
  · have counted : r.counted.IsOpen := isOpen
    have onward : r.counted.Onward r' := by
      simpa [scheduled] using onward_schedule (.ok reception) r.counted
    have became := schedule_of_isOpen counted reception
    rw [scheduled] at became
    simp only at became
    -- a scheduler of a dispatcher takes everything in until it has stopped
    rcases known with accepts | closed
    · rw [accepts] at became
      rw [same, became]
      exact .again rfl rfl accepts (onward.isOpen counted) onward.retryCount allowed
    · rw [closed] at became
      rw [same, became]
      exact .ended rfl rfl

/-- An attempt with a response does so as well. -/
theorem resolves_conclude {r : Request} (isOpen : r.IsOpen) {reception : Reception}
    (known : reception.refusal = none ∨ reception.refusal = some .closed) (response : Response) :
    Resolves r reception (r.conclude (.ok reception) response) := by
  cases response with
  | block block =>
      unfold conclude endSucceeded
      simp only
      split
      · exact resolves_endCancelled isOpen reception
      · exact .ended rfl rfl
  | fault fault =>
      exact resolves_retry isOpen known fault.failure

theorem resolves_of_concluded {r : Request} {c : Conclusion} (isOpen : r.IsOpen)
    (reception : Reception) (h : r.beginSend = .concluded c) : Resolves r reception c := by
  unfold beginSend at h
  rw [isOpen.2] at h
  simp only at h
  split at h
  · cases h
    exact resolves_endCancelled isOpen reception
  · cases h

end Request
end MeteredFetch
