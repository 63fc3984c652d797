import MeteredFetch.Proofs.Fetcher.Endings

/-!
# Revocation — how requests end that are cancelled

A request that is cancelled before it has an outcome ends as cancelled, whatever lookups answer and
whatever is done with it later. There is one way around this. A scheduler that is asked to take a
request in once more may cancel it and say that it is closed; the request then fails.

* `Fetcher.IsRevoked` — a request is cancelled and has no outcome;
* `Fetcher.StaysRevoked` — it stays so, and its consumer hears nothing else;
* `Fetcher.staysRevoked_of_step` — every move keeps to that;
* `Moment.forsakes` — a move in which a scheduler cancels a request that fails then;
* `Fetcher.revoked_of_step` — no other move both cancels a request and gives it an outcome;
* `Fetcher.revoked_ends_cancelled` — how a cancelled request ends in every run.
-/

namespace MeteredFetch
namespace Fetcher

open Executor

variable {id other : RequestId} {f g g' : Fetcher}

/-! ## Cancelled requests -/

def IsUnsettled (id : RequestId) (f : Fetcher) : Prop :=
  ∃ r, f.requests[id]? = some r ∧ r.settled? = none

/-- A request is cancelled and has no outcome. -/
def IsRevoked (id : RequestId) (f : Fetcher) : Prop :=
  ∃ r, f.requests[id]? = some r ∧ r.IsRevoked

/-- A change after which a request is still cancelled and without outcome. Its consumer is told
nothing but that it is cancelled. -/
structure StaysRevoked (id : RequestId) (f g : Fetcher) : Prop where
  revoked : g.IsRevoked id
  told : ∃ later, g.about id = later ++ f.about id ∧ ∀ n ∈ later, n = .failed .cancelled

namespace StaysRevoked

theorem refl (h : f.IsRevoked id) : StaysRevoked id f f :=
  ⟨h, [], rfl, fun _ member => absurd member List.not_mem_nil⟩

/-- A request that stays revoked twice stays revoked. -/
theorem trans (h : StaysRevoked id f g) (h' : StaysRevoked id g g') : StaysRevoked id f g' := by
  rcases h.told with ⟨first, told, onlyFirst⟩
  rcases h'.told with ⟨later, told', onlyLater⟩
  refine ⟨h'.revoked, later ++ first, by rw [told', told, List.append_assoc], ?_⟩
  intro n member
  rcases List.mem_append.1 member with new | old
  · exact onlyLater n new
  · exact onlyFirst n old

/-- In a calm a cancellation stands. -/
theorem of_calm (revoked : f.IsRevoked id) (calm : Calm f g) : StaysRevoked id f g := by
  rcases revoked with ⟨r, found, revoked⟩
  rcases calm.each found with ⟨r', there, onward⟩
  exact ⟨⟨r', there, onward.isRevoked revoked⟩, [], calm.about id,
    fun _ member => absurd member List.not_mem_nil⟩

end StaysRevoked

/-! ## Ends of attempts -/

variable {c : Conclusion} {r : Request} {t : Turned}

/-- A cancelled request is ended as cancelled; the end of an attempt at another one makes no
difference to it. -/
theorem staysRevoked_of_ends (revoked : f.IsRevoked id) (found : f.requests[other]? = some r)
    (cancels : r.IsRevoked → c = r.endCancelled) (ends : Ends f other c t) :
    StaysRevoked id f t.shared := by
  rcases revoked with ⟨x, there, revoked⟩
  by_cases same : other = id
  · subst same
    cases found.symm.trans there
    obtain rfl := cancels revoked
    rcases ends.own found with ⟨there, about⟩
    refine ⟨⟨_, there, Request.isRevoked_endCancelled revoked.cancelled⟩,
      _, about, ?_⟩
    intro n member
    exact Request.notice_endCancelled (Option.mem_toList.1 member)
  · rcases ends.others same with ⟨kept, about⟩
    exact ⟨⟨x, kept.trans there, revoked⟩, [], about, fun _ member => absurd member List.not_mem_nil⟩

/-! ## Moves after the cancellation -/

variable {now : Instant} {task : TaskId} {job : Job}

/-- A turn leaves a revoked request revoked. -/
theorem staysRevoked_of_turn (revoked : f.IsRevoked id)
    (turned : f.turn now task job = .ok t) : StaysRevoked id f t.shared := by
  cases comes turned with
  | goesOn quiet _ _ =>
      exact .of_calm revoked quiet.calm
  | spared _ found begins ends =>
      refine staysRevoked_of_ends revoked found ?_ ends
      intro cancelled
      cases begins.symm.trans cancelled.beginSend
      rfl
  | @brought g request response r r' _ quiet _ found there onward _ ends =>
      have first : StaysRevoked id f g := .of_calm revoked quiet.calm
      exact first.trans (staysRevoked_of_ends first.revoked there
        (fun cancelled => cancelled.conclude _ _) ends)

variable {e e' : State} {l : Label Action Answer} {hs : List Moment}

theorem Calm.of_unchanged (same : Unchanged f g) : Calm f g :=
  .of_eq same.requests same.notices

/-- Every move leaves a revoked request revoked. -/
theorem staysRevoked_of_step (revoked : e.shared.IsRevoked id) (step : Step program e l e') :
    StaysRevoked id e.shared e'.shared := by
  rcases turn_of_step step with ⟨eases, _⟩ | ⟨number, job, t, _, _, turned, same⟩
  · exact .of_calm revoked eases.calm
  · have first := staysRevoked_of_turn revoked turned
    exact first.trans (.of_calm first.revoked (.of_unchanged same))

/-- A request that was revoked stays so for the remainder of the run. -/
theorem staysRevoked_of_history (revoked : e.shared.IsRevoked id) (h : History program e hs e') :
    StaysRevoked id e.shared e'.shared := by
  induction h with
  | refl =>
      exact .refl revoked
  | tail _ step ih =>
      exact ih.trans (staysRevoked_of_step ih.revoked step)

/-! ## The move that cancels -/

/-- Whether a turn asks a scheduler to take a request in that cancels it and says that it is
closed. -/
def forsakes (f : Fetcher) (task : TaskId) (id : RequestId) (job : Job) : Bool :=
  match f.brings? task job with
  | some (g, request, response) =>
      request == id && (g.requests[id]?).any fun r => r.isForsaken (g.route r) response
  | none => false

def Moment.forsakes (id : RequestId) (m : Moment) : Bool :=
  match m.2, m.1.next? with
  | .turn, some (number, job) => m.1.shared.forsakes number id job
  | _, _ => false

/-- What a change comes to in which a request without outcome may be cancelled. If it is forsaken, it
fails. -/
structure Revokes (id : RequestId) (forsaken : Bool) (f g : Fetcher) : Prop where
  revoked : forsaken = false → g.isCancelled id = true → StaysRevoked id f g
  failed : forsaken = true → g.isCancelled id = true ∧
    ∃ r, g.requests[id]? = some r ∧ r.status = .failed .internalError ∧
      g.about id = .failed .internalError :: f.about id

/-- In a calm nobody is forsaken. -/
theorem Revokes.of_calm (unsettled : f.IsUnsettled id) (calm : Calm f g) :
    Revokes id false f g := by
  refine ⟨fun _ cancelled => ?_, fun forsaken => by cases forsaken⟩
  rcases unsettled with ⟨r, found, none⟩
  rcases calm.each found with ⟨r', there, onward⟩
  have flag : r'.cancelled = true := by simpa [isCancelled, there] using cancelled
  exact ⟨⟨r', there, flag, onward.settled.trans none⟩, [], calm.about id,
    fun _ member => absurd member List.not_mem_nil⟩

theorem isCancelled_of_found (found : f.requests[id]? = some r) :
    f.isCancelled id = r.cancelled := by
  simp [isCancelled, found]

/-- The end of an attempt that a response is brought to. -/
theorem revokes_of_ends {response : Response} (unsettled : r.settled? = none)
    (found : f.requests[id]? = some r) (ends : Ends f id (r.conclude (f.route r) response) t) :
    Revokes id (r.isForsaken (f.route r) response) f t.shared := by
  rcases ends.own found with ⟨there, about⟩
  have flag := isCancelled_of_found there
  refine ⟨fun spared cancelled => ?_, fun forsaken => ?_⟩
  · cases before : r.cancelled with
    | true =>
        -- it was cancelled already
        exact staysRevoked_of_ends ⟨r, found, before, unsettled⟩ found
          (fun revoked => revoked.conclude _ _) ends
    | false =>
        rw [flag] at cancelled
        rcases Request.unsettled_of_not_isForsaken unsettled before spared cancelled with
          ⟨none, silent⟩
        rw [silent] at about
        exact ⟨⟨_, there, cancelled, none⟩, [], about,
          fun _ member => absurd member List.not_mem_nil⟩
  · rcases Request.failed_of_isForsaken forsaken with ⟨cancelled, failed, said⟩
    rw [said] at about
    exact ⟨flag.trans cancelled, _, there, failed, about⟩

/-- A calm before a change makes no difference to what it comes to. -/
theorem Revokes.after_calm {forsaken : Bool} (h : Revokes id forsaken g g') (calm : Calm f g) :
    Revokes id forsaken f g' := by
  refine ⟨fun spared cancelled => ?_, fun forsaken => ?_⟩
  · have stays := h.revoked spared cancelled
    have told := stays.told
    rw [calm.about id] at told
    exact ⟨stays.revoked, told⟩
  · have failed := h.failed forsaken
    rw [calm.about id] at failed
    exact failed

/-- The end of an attempt at another request. -/
theorem Revokes.of_others {c : Conclusion} (unsettled : f.IsUnsettled id) (ne : other ≠ id)
    (ends : Ends f other c t) : Revokes id false f t.shared := by
  rcases unsettled with ⟨r, found, none⟩
  rcases ends.others ne with ⟨requests, about⟩
  have there := requests.trans found
  refine ⟨fun _ cancelled => ?_, fun forsaken => by cases forsaken⟩
  rw [isCancelled_of_found there] at cancelled
  exact ⟨⟨r, there, cancelled, none⟩, [], about, fun _ member => absurd member List.not_mem_nil⟩

/-- An attempt that ends before it has searched cancels nothing. -/
theorem revokes_of_concluded {c : Conclusion} (unsettled : f.IsUnsettled id)
    (found : f.requests[other]? = some r) (begins : r.beginSend = .concluded c)
    (ends : Ends f other c t) : Revokes id false f t.shared := by
  by_cases same : other = id
  · subst same
    rcases unsettled with ⟨r', there, none⟩
    cases found.symm.trans there
    refine ⟨fun _ cancelled => ?_, fun forsaken => by cases forsaken⟩
    rw [isCancelled_of_found (ends.own found).1] at cancelled
    refine staysRevoked_of_ends ?_ found ?_ ends
    · unfold Request.beginSend at begins
      rw [none] at begins
      simp only at begins
      split at begins
      · rename_i flag
        exact ⟨r, found, flag, none⟩
      · cases begins
    · intro revoked
      cases begins.symm.trans revoked.beginSend
      rfl
  · exact .of_others unsettled same ends

/-- Nobody forsakes a request where no response is brought for it. -/
theorem forsakes_eq_false (silent : ∀ g response, f.brings? task job = some (g, id, response) →
    g.requests[id]? = none) : f.forsakes task id job = false := by
  unfold forsakes
  split
  · rename_i g request response brings
    by_cases same : request = id
    · subst same
      simp [silent g response brings]
    · simp [same]
  · rfl

/-- A turn that cancels a request revokes it, unless its scheduler forsakes it. -/
theorem revokes_of_turn (unsettled : f.IsUnsettled id) (turned : f.turn now task job = .ok t) :
    Revokes id (f.forsakes task id job) f t.shared := by
  cases comes turned with
  | goesOn quiet missing _ =>
      rw [forsakes_eq_false fun g response brings => missing g id response brings]
      exact .of_calm unsettled quiet.calm
  | @spared request r c silent found begins ends =>
      have nothing : f.forsakes task id job = false := by
        refine forsakes_eq_false fun g response brings => ?_
        rw [silent] at brings
        cases brings
      rw [nothing]
      exact revokes_of_concluded unsettled found begins ends
  | @brought g request response r r' brings quiet _ found there onward _ ends =>
      have calm := quiet.calm
      rcases unsettled with ⟨x, known, pending⟩
      rcases calm.each known with ⟨x', known', onward'⟩
      have unsettled' : x'.settled? = none := onward'.settled.trans pending
      refine Revokes.after_calm ?_ calm
      by_cases same : request = id
      · subst same
        cases there.symm.trans known'
        have forsaken : f.forsakes task request job = r'.isForsaken (g.route r') response := by
          simp [forsakes, brings, there]
        rw [forsaken]
        exact revokes_of_ends unsettled' there ends
      · have spared : f.forsakes task id job = false := by
          simp [forsakes, brings, same]
        rw [spared]
        exact .of_others ⟨x', known', unsettled'⟩ same ends

theorem Revokes.then_unchanged {forsaken : Bool} (h : Revokes id forsaken f g)
    (same : Unchanged g g') : Revokes id forsaken f g' := by
  have about : g'.about id = g.about id := by simp only [Fetcher.about, same.notices]
  have cancelled := same.isCancelled id
  refine ⟨fun spared flag => ?_, fun forsaken => ?_⟩
  · have stays := h.revoked spared (cancelled ▸ flag)
    exact stays.trans (.of_calm stays.revoked (.of_unchanged same))
  · rcases h.failed forsaken with ⟨flag, r, found, failed, said⟩
    exact ⟨cancelled.trans flag, r, by rw [same.requests, found], failed, about.trans said⟩

/-- A move that cancels a request revokes it, unless its scheduler forsakes it. -/
theorem revoked_of_step (unsettled : e.shared.IsUnsettled id) (step : Step program e l e') :
    Revokes id (Moment.forsakes id (e, l)) e.shared e'.shared := by
  rcases turn_of_step step with ⟨eases, nobody⟩ | ⟨number, job, t, rfl, next, turned, same⟩
  · have spared : Moment.forsakes id (e, l) = false := by
      unfold Moment.forsakes
      split
      · rename_i number job turn next
        cases (nobody turn).symm.trans next
      · rfl
    rw [spared]
    exact .of_calm unsettled eases.calm
  · have forsaken : Moment.forsakes id (e, .turn) = e.shared.forsakes number id job := by
      simp [Moment.forsakes, next]
    rw [forsaken]
    exact (revokes_of_turn unsettled turned).then_unchanged same

/-! ## What consumers are told before -/

/-- A request has an outcome, or its consumer was told nothing but that it is cancelled. -/
def Discreet (id : RequestId) (f : Fetcher) : Prop :=
  (∃ r, f.requests[id]? = some r ∧ r.settled? ≠ none) ∨ ∀ n ∈ f.about id, n = .failed .cancelled

theorem Discreet.calm (h : Discreet id f) (calm : Calm f g) : Discreet id g := by
  rcases h with ⟨r, found, settled⟩ | only
  · rcases calm.each found with ⟨r', there, onward⟩
    exact .inl ⟨r', there, by rw [onward.settled]; exact settled⟩
  · rw [← calm.about id] at only
    exact .inr only

/-- The end of an attempt at a request that has an outcome keeps it, and that of an attempt at another
one gives it an outcome or tells nobody anything but that it is cancelled. -/
theorem discreet_of_ends (h : Discreet id f) (found : f.requests[other]? = some r)
    (keeps : other = id → r.settled? ≠ none → c.request.settled? ≠ none)
    (settles : r.settled? = none →
      c.request.settled? ≠ none ∨ ∀ n, c.notice = some n → n = .failed .cancelled)
    (ends : Ends f other c t) : Discreet id t.shared := by
  by_cases same : other = id
  · subst same
    rcases ends.own found with ⟨there, about⟩
    cases before : r.settled? with
    | some outcome =>
        exact .inl ⟨_, there, keeps rfl (by simp [before])⟩
    | none =>
        rcases settles before with settled | only
        · exact .inl ⟨_, there, settled⟩
        · right
          rcases h with ⟨x, known, settled⟩ | earlier
          · cases found.symm.trans known
            exact absurd before settled
          · rw [about]
            intro n member
            rcases List.mem_append.1 member with new | old
            · exact only n (Option.mem_toList.1 new)
            · exact earlier n old
  · rcases ends.others same with ⟨requests, about⟩
    rcases h with ⟨x, known, settled⟩ | only
    · exact .inl ⟨x, requests.trans known, settled⟩
    · rw [← about] at only
      exact .inr only

/-- A turn tells of a request without outcome only that it is cancelled. -/
theorem discreet_of_turn (h : Discreet id f) (unsettled : 0 < job.awaits id → f.IsUnsettled id)
    (turned : f.turn now task job = .ok t) : Discreet id t.shared := by
  cases comes turned with
  | goesOn quiet _ _ =>
      exact h.calm quiet.calm
  | @spared request r c _ found begins ends =>
      refine discreet_of_ends h found ?_ ?_ ends
      · intro _ settled
        unfold Request.beginSend at begins
        split at begins
        · cases begins
          exact settled
        · rename_i none
          exact absurd none settled
      · intro none
        unfold Request.beginSend at begins
        rw [none] at begins
        simp only at begins
        split at begins
        · cases begins
          exact .inr fun n => Request.notice_endCancelled
        · cases begins
  | @brought g request response r r' _ quiet _ found there onward late ends =>
      refine discreet_of_ends (h.calm quiet.calm) there ?_
        (fun none => Request.settles_or_cancels none _ response) ends
      intro same settled
      subst same
      rcases late with none | flies | ⟨fault, rfl⟩
      · exact absurd (onward.settled.trans none) settled
      · rcases unsettled flies with ⟨x, known, none⟩
        cases found.symm.trans known
        exact absurd (onward.settled.trans none) settled
      · -- a retry keeps the outcome
        change (r'.retry _ fault.failure).request.settled? ≠ none
        rcases Option.ne_none_iff_exists'.1 settled with ⟨outcome, kept⟩
        unfold Request.retry
        rw [kept]
        exact settled

/-- In a run without overlapping attempts, nothing but a cancellation is told of a request without
outcome. -/
theorem discreet_of_history (h : Discreet id e.shared) (solo : Solo id e)
    (history : History program e hs e') (apart : ∀ m ∈ hs, Moment.overlaps id m = false) :
    Discreet id e'.shared := by
  induction history with
  | refl =>
      exact h
  | tail before step ih =>
      have earlier := fun m member => apart m (List.mem_append_left _ member)
      have discreet := ih earlier
      rcases turn_of_step step with ⟨eases, _⟩ | ⟨number, job, t, _, next, turned, same⟩
      · exact discreet.calm eases.calm
      · have unsettled := (solo_of_history solo before earlier).unsettled
        refine (discreet_of_turn discreet (fun flies => unsettled ?_) turned).calm
          (.of_unchanged same)
        exact Nat.lt_of_lt_of_le flies (le_total _ (task?_of_next? next))

/-! ## Runs -/

/-- Whoever cancels a request that has no outcome leaves it cancelled and without outcome. -/
theorem revoked_of_act {answer : Answer} (known : (e.shared.request? id).isSome = true)
    (unsettled : e.shared.IsUnsettled id)
    (acted : e.act program (.cancel id) = .ok (e', answer)) : e'.shared.IsRevoked id := by
  have spared : Moment.forsakes id (e, .act (.cancel id) answer) = false := rfl
  have revokes := revoked_of_step unsettled (.act acted)
  rw [spared] at revokes
  exact (revokes.revoked rfl (cancelled_of_act known acted)).revoked

/-- A request that is cancelled before it has an outcome never gets one. -/
theorem revoked_of_cancel (h : History program e hs e') {m : Moment} (member : m ∈ hs)
    (known : (m.1.shared.request? id).isSome = true) (unsettled : m.1.shared.IsUnsettled id)
    {answer : Answer} (cancels : m.2 = .act (.cancel id) answer) : e'.shared.IsRevoked id := by
  induction h with
  | refl =>
      cases member
  | @tail hs l e' e'' _ step ih =>
      rcases List.mem_append.1 member with old | new
      · exact (staysRevoked_of_step (ih old) step).revoked
      · cases List.mem_singleton.1 new
        cases cancels
        cases step with
        | act acted =>
            exact revoked_of_act known unsettled acted

/-- How a request ends that is cancelled before it has an outcome. It never gets one and its consumer
is told nothing but that it is cancelled, unless it is the scheduler that cancels it when it is asked
to take it in once more, and says that it is closed. Then the request fails, and its consumer is told
so. -/
theorem revoked_ends_cancelled (new : IsNew f) {start : Instant}
    (h : History program (opening start f) hs e) (id : RequestId)
    (apart : ∀ m ∈ hs, Moment.overlaps id m = false) :
    (∀ m ∈ hs, (m.1.shared.request? id).isSome = true → m.1.shared.IsUnsettled id →
        m.2 = .act (.cancel id) .done → e.shared.IsRevoked id) ∧
      (∀ (l : Label Action Answer) (e' : State), Step program e l e' → e.shared.IsUnsettled id →
        Revokes id (Moment.forsakes id (e, l)) e.shared e'.shared) ∧
      (e.shared.IsRevoked id → (∀ n ∈ e.shared.about id, n = .failed .cancelled) ∧
        ∀ (hs' : List Moment) (e' : State), History program e hs' e' →
          StaysRevoked id e.shared e'.shared) := by
  have nothing : Discreet id (opening start f).shared := by
    refine .inr fun n member => ?_
    cases new <;> cases member
  refine ⟨?_, fun l e' step unsettled => revoked_of_step unsettled step, fun revoked => ⟨?_, ?_⟩⟩
  · intro m member known unsettled cancels
    exact revoked_of_cancel h member known unsettled cancels
  · rcases discreet_of_history nothing (solo_opening f id start) h apart with
      ⟨r, found, settled⟩ | only
    · rcases revoked with ⟨x, there, revoked⟩
      cases found.symm.trans there
      exact absurd revoked.unsettled settled
    · exact only
  · intro hs' e' later
    exact staysRevoked_of_history revoked later

def dismissed : List Moment × State :=
  follow program
    (opening 0 (ofSchedulers [⟨.bulk, {}, .ofList [(.content, 0)]⟩] [] [{ adjustable := true }]))
    -- the scheduler cancels the request and takes it in
    [.act (.create 0 zeroKey 3 {}) (), .act (.adjust 0 ⟨true, none⟩) (),
      .act (.retry 0 .transferFailed) (), .turn]

theorem dismissed_revoked_ends_cancelled :
    (∀ m ∈ dismissed.1, Moment.overlaps 0 m = false) ∧ dismissed.2.shared.IsRevoked 0 ∧
      (∀ n ∈ dismissed.2.shared.about 0, n = .failed .cancelled) ∧
      ∀ (hs' : List Moment) (e' : State), History program dismissed.2 hs' e' →
        StaysRevoked 0 dismissed.2.shared e'.shared := by
  have apart : ∀ m ∈ dismissed.1, Moment.overlaps 0 m = false := by decide
  have revoked : dismissed.2.shared.IsRevoked 0 := ⟨_, rfl, rfl, rfl⟩
  rcases revoked_ends_cancelled (.schedulers _ _ _) (history_follow _ _) 0 apart with ⟨_, _, binds⟩
  exact ⟨apart, revoked, binds revoked⟩

def disowned : List Moment × State :=
  follow program
    (opening 0 (ofSchedulers [⟨.bulk, {}, .ofList [(.content, 0)]⟩] [] [{ adjustable := true }]))
    -- the scheduler cancels the request and says that it is closed
    [.act (.create 0 zeroKey 3 {}) (), .act (.adjust 0 ⟨true, some .closed⟩) (),
      .act (.retry 0 .transferFailed) ()]

/-- A request without outcome is cancelled in a move, and fails in the same move. -/
theorem not_revoked_ends_cancelled :
    ¬ ∀ (start : Instant) (f : Fetcher) (hs : List Moment) (l : Label Action Answer) (e e' : State)
      (id : RequestId), IsNew f → History program (opening start f) hs e → Step program e l e' →
      (∀ m ∈ hs ++ [(e, l)], Moment.overlaps id m = false) → e.shared.IsUnsettled id →
      e.shared.isCancelled id = false → e'.shared.isCancelled id = true →
      e'.shared.IsUnsettled id ∧ ∀ n ∈ e'.shared.about id, n = .failed .cancelled := by
  intro ends
  obtain ⟨after, moved⟩ : ∃ e', disowned.2.move program .turn = .ok (e', .turn) := ⟨_, rfl⟩
  have step := step_of_move moved
  cases moved
  have told := (ends 0 _ disowned.1 .turn disowned.2 _ 0 (.schedulers _ _ _) (history_follow _ _)
    step (by decide) ⟨_, rfl, rfl⟩ (by decide) (by decide)).2
  exact absurd told (by decide)

end Fetcher
end MeteredFetch
