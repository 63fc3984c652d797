import MeteredFetch.Proofs.Fetcher.Tending
import MeteredFetch.Proofs.Request.Cancellation

/-!
# Cancellation — what a cancelled request can still come to

Whoever cancels a request can rely on it. No search for it begins any more, and a block that is on
its way is not delivered. It may still be said that the request failed. That it is cancelled is said
only if nothing was said before, so it is said at most once.

* `Fetcher.about` — what the consumer was told of a request;
* `Fetcher.Heeds` — a change heeds that a request was cancelled, and `Fetcher.heeds_of_step` says
  that every move does;
* `Fetcher.cancelled_of_history` — a request that is cancelled stays so, and is neither searched for
  nor delivered any more;
* `Fetcher.cancellation_binds` — so it is from the move on that cancels it, whoever does that.
-/

namespace MeteredFetch

def Notice.isDelivery : Notice → Bool
  | .delivered _ => true
  | .failed _ => false

namespace Fetcher

open Executor

/-! ## What consumers are told -/

def about (f : Fetcher) (id : RequestId) : List Notice :=
  (f.notices.filter fun n => n.1 == id).map Prod.snd

def deliveries (f : Fetcher) (id : RequestId) : Nat :=
  (f.about id).countP Notice.isDelivery

/-- A consumer was told as often as there are notices for it. -/
theorem length_about (f : Fetcher) (id : RequestId) : (f.about id).length = f.told id :=
  List.length_map _

variable {id other : RequestId} {f g g' : Fetcher}

/-- The end of an attempt tells the consumer of its request, and of no other. -/
theorem about_adopt (f : Fetcher) (other : RequestId) (c : Conclusion) (id : RequestId) :
    (f.adopt other c).1.about id =
      (if other = id then c.notice.toList else []) ++ f.about id := by
  rcases adopt_same f other c with ⟨schedulers, same⟩
  rw [same]
  by_cases here : other = id
  · simp [about, List.filter_append, List.filter_map, Function.comp_def, here]
  · simp [about, List.filter_append, List.filter_map, Function.comp_def, here]

/-- The end of an attempt changes its request, and no other. -/
theorem isCancelled_adopt {r : Request} (found : f.requests[other]? = some r) (c : Conclusion)
    (id : RequestId) :
    (f.adopt other c).1.isCancelled id =
      if other = id then c.request.cancelled else f.isCancelled id := by
  rcases adopt_same f other c with ⟨schedulers, same⟩
  have inside : other < f.requests.length := (List.getElem?_eq_some_iff.1 found).1
  rw [same]
  by_cases here : other = id
  · subst here
    simp [isCancelled, inside]
  · simp [isCancelled, here]

/-! ## Changes that heed cancellation -/

/-- A change after which a cancelled request is still cancelled and not searched for once more. At
most one notice of the request is given, a block only if it is not cancelled in the end, and its
cancellation only if it was not reported. -/
structure Heeds (id : RequestId) (f g : Fetcher) : Prop where
  cancelled : f.isCancelled id = true → g.isCancelled id = true
  searches : f.isCancelled id = true → g.searches id = f.searches id
  told : ∃ said : Option Notice, g.about id = said.toList ++ f.about id ∧
    (∀ block, said = some (.delivered block) → g.isCancelled id = false) ∧
    (said = some (.failed .cancelled) → f.isReported id = false)

/-- Nothing that keeps calm takes a cancellation back. -/
theorem Calm.isCancelled (h : Calm f g) (cancelled : f.isCancelled id = true) :
    g.isCancelled id = true := by
  cases found : f.requests[id]? with
  | none =>
      simp [Fetcher.isCancelled, found] at cancelled
  | some r =>
      rcases h.each found with ⟨r', there, onward⟩
      have flag : r.cancelled = true := by simpa [Fetcher.isCancelled, found] using cancelled
      simp [Fetcher.isCancelled, there, onward.cancelled flag]

theorem Calm.about (h : Calm f g) (id : RequestId) : g.about id = f.about id := by
  simp only [Fetcher.about, h.notices]

namespace Heeds

/-- Where nothing ends and nothing is searched for, a cancellation is heeded. -/
theorem of_calm (calm : Calm f g) (calls : g.calls = f.calls) : Heeds id f g := by
  refine ⟨calm.isCancelled, ?_, none, calm.about id, ?_, ?_⟩
  · intro _
    simp only [Fetcher.searches, calls]
  · intro block said
    cases said
  · intro said
    cases said

theorem refl (f : Fetcher) : Heeds id f f :=
  of_calm (.refl f) rfl

/-- An attempt whose end heeds the cancellation can be carried over. -/
theorem of_adopt {r : Request} {c : Conclusion} (found : f.requests[other]? = some r)
    (heeds : r.Heeds c) : Heeds id f (f.adopt other c).1 := by
  have about := about_adopt f other c id
  have cancelled := isCancelled_adopt found c id
  have searches : (f.adopt other c).1.searches id = f.searches id := searches_adopt f other c id
  by_cases here : other = id
  · subst here
    have before : f.isCancelled other = r.cancelled := by simp [isCancelled, found]
    have reported : f.isReported other = r.reported := by simp [isReported, found]
    rw [if_pos rfl] at about cancelled
    refine ⟨?_, fun _ => searches, c.notice, about, ?_, ?_⟩
    · rw [cancelled, before]
      exact heeds.cancelled
    · intro block said
      rw [cancelled]
      exact heeds.wanted block said
    · intro said
      rw [reported]
      exact heeds.first said
  · rw [if_neg here] at about cancelled
    refine ⟨?_, fun _ => searches, none, about, ?_, ?_⟩
    · rw [cancelled]
      exact fun cancelled => cancelled
    · intro block said
      cases said
    · intro said
      cases said

/-- A search begins only for a request that is not cancelled. -/
theorem after_search {task : TaskId} {r r' : Request} {response : Response}
    (found : f.requests[other]? = some r) (begins : r.beginSend = .lookup r')
    (after : Searched f task other r' response g) (h : Heeds id g g') : Heeds id f g' := by
  rcases Request.onward_of_lookup begins with ⟨_, _, wanted⟩
  have calm := calm_searched found begins after
  have searches : f.isCancelled id = true → g.searches id = f.searches id := by
    intro cancelled
    have another : other ≠ id := by
      intro here
      subst here
      simp [isCancelled, found, wanted] at cancelled
    rw [searches_searched after, if_neg another, Nat.add_zero]
  rcases h with ⟨kept, later, said, told, block, first⟩
  refine ⟨fun cancelled => kept (calm.isCancelled cancelled), ?_, said, ?_, block, ?_⟩
  · intro cancelled
    exact (later (calm.isCancelled cancelled)).trans (searches cancelled)
  · rw [told, calm.about]
  · rw [← calm.isReported]
    exact first

/-- What is said about requests and consumers depends on nothing else. -/
theorem then_same (h : Heeds id f g) (requests : g'.requests = g.requests)
    (notices : g'.notices = g.notices) (calls : g'.calls = g.calls) : Heeds id f g' := by
  have cancelled : g'.isCancelled id = g.isCancelled id := by
    simp only [Fetcher.isCancelled, requests]
  have about : g'.about id = g.about id := by simp only [Fetcher.about, notices]
  have searches : g'.searches id = g.searches id := by simp only [Fetcher.searches, calls]
  rcases h with ⟨kept, later, said, told, block, first⟩
  rw [← cancelled] at kept block
  rw [← searches] at later
  rw [← about] at told
  exact ⟨kept, later, said, told, block, first⟩

/-- Nothing is delivered by a change that a request is cancelled after, whoever has cancelled it. -/
theorem deliveries (h : Heeds id f g) (cancelled : g.isCancelled id = true) :
    g.deliveries id = f.deliveries id := by
  rcases h.told with ⟨said, told, block, _⟩
  unfold Fetcher.deliveries
  rw [told]
  cases said with
  | none =>
      rfl
  | some n =>
      cases n with
      | failed failure =>
          rfl
      | delivered data =>
          rw [block data rfl] at cancelled
          cases cancelled

end Heeds

/-! ## Turns -/

/-- Whatever an attempt comes to, it heeds that its request was cancelled. -/
theorem heeds_send (f : Fetcher) (now : Instant) (task : TaskId) (other : RequestId)
    (stage : Sending) (id : RequestId) : Heeds id f (f.send now task other stage).1 := by
  have sent := sends f now task other stage
  generalize f.send now task other stage = result at sent ⊢
  cases sent with
  | missing gone =>
      exact .refl f
  | concluded found begins =>
      exact .of_adopt found (Request.heeds_of_concluded begins)
  | @arrived r response found =>
      exact .of_adopt found (Request.heeds_conclude (f.route r) response r)
  | @awaits r r' response g held alarm found begins after =>
      have waits : Heeds id g { g with lookup := { g.lookup with held } } :=
        .of_calm (.of_eq rfl rfl) rfl
      exact .after_search found begins after waits
  | @answered r r' r'' response g found begins after there onward =>
      -- the search may cancel the request itself, and then its block is not delivered
      have arrived : Heeds id g (g.arrive other r'' response).1 :=
        .of_adopt there (Request.heeds_conclude (g.route r'') response r'')
      exact .after_search found begins after arrived

/-- A retry heeds that its request was cancelled. -/
theorem heeds_retry (f : Fetcher) (other : RequestId) (failure : Failure) (id : RequestId) :
    Heeds id f (f.retry other failure).1 := by
  unfold Fetcher.retry
  split
  · exact .refl f
  · rename_i r found
    exact .of_adopt found (Request.heeds_retry (f.route r) failure r)

/-- Every turn of a task heeds that a request was cancelled. -/
theorem heeds_of_turn {now : Instant} {task : TaskId} {job : Job} {t : Turned}
    (turned : f.turn now task job = .ok t) (id : RequestId) : Heeds id f t.shared := by
  cases turns turned with
  | granted | waits =>
      exact (Heeds.refl f).then_same rfl rfl rfl
  | @attempts _ request stage _ _ _ _ _ _ _ _ =>
      exact (heeds_send f now task request stage id).then_same rfl rfl rfl
  | @retries request failure =>
      exact heeds_retry f request failure id
  | serves served =>
      have calm := calm_of_serves served
      cases served with
      | missing gone =>
          exact .refl f
      | waits =>
          exact .of_calm calm rfl
      | served =>
          exact .of_calm calm rfl

/-! ## Moves -/

/-- No action begins a search, and no task that it starts awaits the response to one. -/
theorem quiet_of_perform {now : Instant} {task : TaskId} {action : Action} {r : Reacted}
    (performed : f.perform now task action = .ok r) :
    r.shared.calls = f.calls ∧ ∀ x, .spawn x ∈ r.effects → ∀ id, x.awaits id = 0 := by
  cases does performed with
  | @scheduled request =>
      have started := (waking_schedule f request).not_spawn_mem
      rcases schedule_same f request with ⟨requests, schedulers, same⟩
      rw [same]
      exact ⟨rfl, fun x member => absurd member (started x)⟩
  | tuned _ _ _ waking =>
      exact ⟨rfl, fun x member => absurd member (waking.not_spawn_mem x)⟩
  | sends | retries | grabs | started =>
      -- the task that is started has had no turn yet
      refine ⟨rfl, ?_⟩
      intro x member id
      cases List.mem_singleton.1 member
      simp [Job.awaits, Job.attempt?, Sending.flights]
  | _ =>
      exact ⟨rfl, by simp⟩

structure Unchanged (f g : Fetcher) : Prop where
  requests : g.requests = f.requests
  notices : g.notices = f.notices
  calls : g.calls = f.calls

theorem unchanged_dropJob (task : TaskId) (job : Job) (f : Fetcher) :
    Unchanged f (f.dropJob task job) := by
  cases job <;> exact ⟨rfl, rfl, rfl⟩

/-- A sweep only names tasks. -/
theorem unchanged_sweep (tasks : List (Option Job)) (f : Fetcher) :
    Unchanged f (Fetcher.sweep tasks f).1 := by
  rcases sweep_same tasks f with ⟨schedulers, same, _⟩
  rw [same]
  exact ⟨rfl, rfl, rfl⟩

theorem Unchanged.trans (h : Unchanged f g) (h' : Unchanged g g') : Unchanged f g' :=
  ⟨h'.requests.trans h.requests, h'.notices.trans h.notices, h'.calls.trans h.calls⟩

/-- Effects change what is at work, not what it is at work for. -/
theorem unchanged_carryOutAll (effects : List (Effect Job)) (e : State) :
    Unchanged e.shared (e.carryOutAll program effects).shared := by
  have holds : Holds (Unchanged e.shared) (fun _ => True) e :=
    ⟨⟨rfl, rfl, rfl⟩, fun _ _ => trivial⟩
  exact (holds.carryOutAll (fun task job f same => same.trans (unchanged_dropJob task job f))
    (fun tasks f same => same.trans (unchanged_sweep tasks f)) fun _ _ => trivial).shared

theorem Unchanged.isCancelled (h : Unchanged f g) (id : RequestId) :
    g.isCancelled id = f.isCancelled id := by
  simp only [Fetcher.isCancelled, h.requests]

/-- What happens without requests being touched breaks nothing. -/
theorem Heeds.then_unchanged (h : Heeds id f g) (same : Unchanged g g') : Heeds id f g' :=
  h.then_same same.requests same.notices same.calls

/-- Every move of a run heeds that a request was cancelled. -/
theorem heeds_of_step {e e' : State} {l : Label Action Answer} (step : Step program e l e')
    (id : RequestId) : Heeds id e.shared e'.shared := by
  refine shared_of_step step (.refl e.shared) ?_ ?_ ?_ ?_
  · intro task job f before
    exact before.then_unchanged (unchanged_dropJob task job f)
  · intro tasks f before
    exact before.then_unchanged (unchanged_sweep tasks f)
  · intro action r performed
    exact .of_calm (performs performed).calm (quiet_of_perform performed).1
  · intro number job t _ turned
    exact heeds_of_turn turned id

/-! ## Runs -/

variable {e e' : State} {hs : List Moment}

/-- A request that is cancelled stays so. No search for it begins, and nothing is delivered. -/
theorem cancelled_of_history (cancelled : e.shared.isCancelled id = true)
    (h : History program e hs e') :
    e'.shared.isCancelled id = true ∧ e'.shared.searches id = e.shared.searches id ∧
      e'.shared.deliveries id = e.shared.deliveries id := by
  induction h with
  | refl =>
      exact ⟨cancelled, rfl, rfl⟩
  | tail _ step ih =>
      rcases ih with ⟨still, searches, deliveries⟩
      have heeds := heeds_of_step step id
      have after := heeds.cancelled still
      exact ⟨after, (heeds.searches still).trans searches, (heeds.deliveries after).trans deliveries⟩

/-- Cancelling a request that can be reached cancels it. -/
theorem cancelled_of_act {answer : Answer} (known : (e.shared.request? id).isSome = true)
    (acted : e.act program (.cancel id) = .ok (e', answer)) : e'.shared.isCancelled id = true := by
  rcases act_cases acted with ⟨r, performed, _, rfl⟩
  rw [(unchanged_carryOutAll r.effects _).isCancelled]
  cases performed
  rcases Option.isSome_iff_exists.1 known with ⟨x, found⟩
  unfold request? at found
  split at found
  · cases found
  · rename_i held
    simp [held, Fetcher.isCancelled, cancelRequest, found, Request.cancel]

/-- A request for which the call was made is cancelled from then on. -/
theorem cancelled_of_cancel (h : History program e hs e') {m : Moment} (member : m ∈ hs)
    (known : (m.1.shared.request? id).isSome = true) {answer : Answer}
    (cancels : m.2 = .act (.cancel id) answer) : e'.shared.isCancelled id = true := by
  induction h with
  | refl =>
      cases member
  | @tail hs l e' e'' _ step ih =>
      rcases List.mem_append.1 member with old | new
      · exact (heeds_of_step step id).cancelled (ih old)
      · cases List.mem_singleton.1 new
        cases cancels
        cases step with
        | act acted =>
            exact cancelled_of_act known acted

/-- A notice that a request is cancelled comes first. -/
theorem first_of_history (new : IsNew f) {start : Instant}
    (h : History program (opening start f) hs e) {later earlier : List Notice}
    (said : e.shared.about id = later ++ .failed .cancelled :: earlier) : earlier = [] := by
  induction h generalizing later with
  | refl =>
      -- nobody was told anything yet
      have none : (opening start f).shared.about id = [] := by
        cases new <;> rfl
      rw [none] at said
      cases later <;> cases said
  | @tail hs l e' e'' before step ih =>
      rcases (heeds_of_step step id).told with ⟨notice, told, _, first⟩
      rw [told] at said
      cases notice with
      | none =>
          exact ih said
      | some n =>
          cases later with
          | cons x rest =>
              simp only [Option.toList_some, List.cons_append, List.nil_append,
                List.cons.injEq] at said
              exact ih said.2
          | nil =>
              -- it is said in this move, so the request was not reported before
              simp only [Option.toList_some, List.cons_append, List.nil_append,
                List.cons.injEq] at said
              have unreported := first (congrArg some said.1)
              rcases accounts_of_history (accounts_opening new id start) before with
                ⟨count, marked⟩
              have untold : e'.shared.told id = 0 := by
                cases repeated : 0 + (hs.filter (Moment.repeats id)).length with
                | zero =>
                    rw [count, unreported, repeated]
                    rfl
                | succ n =>
                    rw [marked (repeated ▸ Nat.succ_pos n)] at unreported
                    cases unreported
              rw [← said.2, ← List.length_eq_zero_iff, length_about, untold]

/-- Cancelling a request binds. From the move on that cancels it nothing is delivered, and after it
no search begins. That it is cancelled is said at most once, and only if nothing was said before. -/
theorem cancellation_binds (new : IsNew f) {start : Instant}
    (h : History program (opening start f) hs e) (id : RequestId) :
    (∀ m ∈ hs, (m.1.shared.request? id).isSome = true → m.2 = .act (.cancel id) .done →
        e.shared.isCancelled id = true) ∧
      (∀ (l : Label Action Answer) (e' : State) (hs' : List Moment) (e'' : State),
        Step program e l e' → e'.shared.isCancelled id = true → History program e' hs' e'' →
          e''.shared.isCancelled id = true ∧ e''.shared.searches id = e'.shared.searches id ∧
            e''.shared.deliveries id = e.shared.deliveries id) ∧
      (e.shared.about id).count (.failed .cancelled) ≤ 1 ∧
      ∀ later earlier, e.shared.about id = later ++ .failed .cancelled :: earlier →
        earlier = [] := by
  refine ⟨?_, ?_, ?_, fun later earlier said => first_of_history new h said⟩
  · intro m member known cancels
    exact cancelled_of_cancel h member known cancels
  · intro l e' hs' e'' step cancelled further
    rcases cancelled_of_history cancelled further with ⟨still, searches, deliveries⟩
    exact ⟨still, searches, deliveries.trans ((heeds_of_step step id).deliveries cancelled)⟩
  · -- whatever comes after the first such notice holds no other
    by_cases said : .failed .cancelled ∈ e.shared.about id
    · rcases List.append_of_mem said with ⟨later, earlier, split⟩
      obtain rfl := first_of_history new h split
      have others : .failed .cancelled ∉ later := by
        intro again
        rcases List.append_of_mem again with ⟨_, between, split'⟩
        rw [split', List.append_assoc, List.cons_append] at split
        have none := first_of_history new h split
        simp at none
      rw [split, List.count_append, List.count_eq_zero_of_not_mem others]
      simp
    · rw [List.count_eq_zero_of_not_mem said]
      exact Nat.zero_le 1

def recalled : List Moment × State :=
  follow program
    (opening 0 (ofSchedulers [⟨.bulk, {}, .ofList [(.content, 0)]⟩] [(zeroKey, [97])] [{}]))
    -- the response is kept back until the request was cancelled, and then it is sent again
    [.act (.create 0 zeroKey 3 {}) (), .act (.gate true) (), .act (.send 0) (), .turn,
      .act (.cancel 0) (), .act (.release 0) (), .turn, .act (.send 0) (), .turn]

theorem recalled_cancellation_binds :
    recalled.2.shared.isCancelled 0 = true ∧ recalled.2.shared.searches 0 = 1 ∧
      recalled.2.shared.about 0 = [.failed .cancelled] ∧
      (∀ (l : Label Action Answer) (e' : State) (hs' : List Moment) (e'' : State),
        Step program recalled.2 l e' → e'.shared.isCancelled 0 = true →
          History program e' hs' e'' →
          e''.shared.isCancelled 0 = true ∧ e''.shared.searches 0 = e'.shared.searches 0 ∧
            e''.shared.deliveries 0 = recalled.2.shared.deliveries 0) ∧
      (recalled.2.shared.about 0).count (.failed .cancelled) ≤ 1 := by
  rcases cancellation_binds (.schedulers _ _ _) (history_follow _ _) 0 with
    ⟨cancelled, binds, once, _⟩
  have known : ∃ m ∈ recalled.1, (m.1.shared.request? 0).isSome = true ∧
      m.2 = .act (.cancel 0) .done := by decide
  rcases known with ⟨m, member, found, cancels⟩
  exact ⟨cancelled m member found cancels, by decide, by decide, binds, once⟩

end Fetcher
end MeteredFetch
