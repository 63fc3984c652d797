import MeteredFetch.Proofs.Fetcher.Cancellation
import MeteredFetch.Proofs.Request.Rest

/-!
# Rest — what can still happen to a request that was reported

As long as no attempt at a request begins while the response to another one is awaited, a request
that was reported is over, unless it was reported as cancelled. One that is over is left where it is
by whatever comes later. One that is not is searched for by the next attempt, or changes its status.

* `Fetcher.Rests` — a change leaves a request where it is, and nobody hears of it;
* `Fetcher.rests_send`, `Fetcher.rests_of_perform` — a request that is over rests;
* `Fetcher.awaited_of_turn` — what a turn adds to the responses that are awaited;
* `Moment.overlaps` — an attempt at a request begins before another one has ended;
* `Fetcher.Solo` — at most one response is awaited, and only for a request without outcome;
* `Fetcher.ended_stays_ended` — the requests that stay as they were reported are those that are over.
-/

namespace MeteredFetch
namespace Fetcher

open Executor

variable {id other : RequestId} {f g g' : Fetcher}

/-! ## Requests that rest -/

def IsOver (id : RequestId) (f : Fetcher) : Prop :=
  ∃ r, f.requests[id]? = some r ∧ r.IsOver

/-- A change that leaves the status and the number of retries of a request as they are. It is not
searched for, its consumer is told nothing, and it is not registered. -/
structure Rests (id : RequestId) (f g : Fetcher) : Prop where
  request : ∀ {r : Request}, f.requests[id]? = some r →
    ∃ r', g.requests[id]? = some r' ∧ r.Stays r'
  searches : g.searches id = f.searches id
  about : g.about id = f.about id
  mailed : g.mailed id ≤ f.mailed id

namespace Rests

/-- A request that rests twice rests. -/
theorem trans (h : Rests id f g) (h' : Rests id g g') : Rests id f g' := by
  refine ⟨?_, h'.searches.trans h.searches, h'.about.trans h.about,
    Nat.le_trans h'.mailed h.mailed⟩
  intro r found
  rcases h.request found with ⟨r', there, stays⟩
  rcases h'.request there with ⟨r'', there', stays'⟩
  exact ⟨r'', there', stays.trans stays'⟩

theorem of_eq (requests : g.requests[id]? = f.requests[id]?) (notices : g.notices = f.notices)
    (calls : g.calls = f.calls) (mailed : g.mailed id ≤ f.mailed id) : Rests id f g := by
  refine ⟨?_, ?_, ?_, mailed⟩
  · intro r found
    exact ⟨r, requests.trans found, .refl r⟩
  · simp only [Fetcher.searches, calls]
  · simp only [Fetcher.about, notices]

theorem refl (f : Fetcher) : Rests id f f :=
  of_eq rfl rfl rfl (Nat.le_refl _)

/-- A request that rests is over if it was before. -/
theorem isOver (h : Rests id f g) (ended : f.IsOver id) : g.IsOver id := by
  rcases ended with ⟨r, found, ended⟩
  rcases h.request found with ⟨r', there, stays⟩
  exact ⟨r', there, stays.isOver ended⟩

end Rests

/-! ## Mail -/

/-- A request waits no more often if it waits no more often in the queue that is changed. -/
theorem mailed_modifyScheduler_le {s : SchedulerId} {change : Scheduler → Scheduler}
    (le : ∀ q, f.schedulers[s]? = some q → (change q).waiting.count id ≤ q.waiting.count id) :
    (f.modifyScheduler s change).mailed id ≤ f.mailed id := by
  cases found : f.schedulers[s]? with
  | none =>
      have same : f.schedulers.modify s change = f.schedulers :=
        List.modify_eq_self (List.getElem?_eq_none_iff.1 found)
      exact Nat.le_of_eq (congrArg List.sum (congrArg _ same))
  | some q =>
      have changed := mailed_modifyScheduler found change id
      have fewer := le q found
      omega

theorem mailed_retire_le (f : Fetcher) (d : Nat) : (f.retire d).mailed id ≤ f.mailed id :=
  mailed_modifyScheduler_le (f := f.modifyDispatcher d Dispatcher.retire) fun _ _ => Nat.zero_le _

/-- Mail for another request is no mail for this one. -/
theorem mailed_enlist_of_ne {r : Request} (ne : other ≠ id) :
    (f.enlist other r).1.mailed id = f.mailed id := by
  have stored := stored_enlist_of_ne (f := f) (r := r) ne
  rcases enlist_same f other r with ⟨schedulers, same⟩
  rw [same] at stored ⊢
  exact Nat.add_right_cancel stored

theorem mailed_adopt_of_ne {c : Conclusion} (ne : other ≠ id) :
    (f.adopt other c).1.mailed id = f.mailed id := by
  have stored := stored_adopt_of_ne (f := f) (c := c) ne
  rcases adopt_same f other c with ⟨schedulers, same⟩
  rw [same] at stored ⊢
  exact Nat.add_right_cancel stored

/-! ## Attempts -/

/-- The end of an attempt changes its own request only. -/
theorem requests_adopt_of_ne {r : Request} (ne : other ≠ id) (c : Conclusion)
    (found : f.requests[id]? = some r) : (f.adopt other c).1.requests[id]? = some r := by
  rcases adopt_same f other c with ⟨schedulers, same⟩
  rw [same]
  exact (List.getElem?_set_ne ne).trans found

/-- What becomes of another request leaves this one at rest. -/
theorem rests_adopt_of_ne (ne : other ≠ id) (c : Conclusion) :
    Rests id f (f.adopt other c).1 := by
  have about := about_adopt f other c id
  rw [if_neg ne] at about
  refine ⟨?_, searches_adopt f other c id, about, Nat.le_of_eq (mailed_adopt_of_ne ne)⟩
  intro r found
  exact ⟨r, requests_adopt_of_ne ne c found, .refl r⟩

/-- A conclusion that leaves its request at rest does so when it is carried over. -/
theorem rests_adopt {r : Request} {c : Conclusion} (found : f.requests[id]? = some r)
    (rests : r.Rests c) : Rests id f (f.adopt id c).1 := by
  have set : f.requests.set id r = f.requests := by
    rcases List.getElem?_eq_some_iff.1 found with ⟨inside, rfl⟩
    exact List.set_getElem_self inside
  unfold adopt
  simp only [rests.notice, rests.registered, rests.request, setRequest, set]
  exact .refl f

theorem rests_cancelRequest (ended : f.IsOver id) (other : RequestId) :
    Rests id f (f.cancelRequest other) := by
  rcases ended with ⟨r, found, ended⟩
  refine ⟨?_, rfl, rfl, Nat.le_refl _⟩
  intro x there
  cases found.symm.trans there
  by_cases same : other = id
  · exact ⟨r.cancel, by simp [cancelRequest, found, same], Request.stays_cancel ended⟩
  · exact ⟨r, by simp [cancelRequest, found, same], .refl r⟩

/-- Whatever else a search cancels, a request that is over rests. -/
theorem rests_foldl_cancelRequest (ids : List RequestId) (ended : f.IsOver id) :
    Rests id f (ids.foldl cancelRequest f) := by
  induction ids generalizing f with
  | nil =>
      exact .refl f
  | cons other rest ih =>
      have first := rests_cancelRequest ended other
      exact first.trans (ih (first.isOver ended))

/-- A search for another request may cancel this one, but leaves it where it is. -/
theorem rests_search (ended : f.IsOver id) (ne : other ≠ id) (task : TaskId) (r : Request) :
    Rests id f ((f.setRequest other r).search task other r).1 := by
  unfold search
  simp only
  generalize ((f.setRequest other r).lookup.respond r.key r.settings.localOnly).1.hook.filter _ =
    matched
  have recorded : Rests id f
      { f.setRequest other r with
        lookup := ((f.setRequest other r).lookup.respond r.key r.settings.localOnly).1
        calls := ⟨task, other, r.key, r.settings⟩ :: (f.setRequest other r).calls } := by
    refine ⟨?_, by simp [searches, setRequest, ne], rfl, Nat.le_refl _⟩
    intro x found
    exact ⟨x, by simpa [setRequest, List.getElem?_set_ne ne] using found, .refl x⟩
  exact recorded.trans (rests_foldl_cancelRequest matched (recorded.isOver ended))

/-- An attempt leaves a request that is over where it is, whichever request it is for. -/
theorem rests_send (ended : f.IsOver id) {stage : Sending}
    (unsettled : other = id → 0 < stage.flights →
      ∃ r, f.requests[id]? = some r ∧ r.settled? = none)
    (now : Instant) (task : TaskId) : Rests id f (f.send now task other stage).1 := by
  unfold send
  split
  · exact .refl f
  · rename_i r response found
    -- the response arrives
    by_cases same : other = id
    · subst same
      rcases ended with ⟨x, there, ended⟩
      cases found.symm.trans there
      rcases unsettled rfl Nat.one_pos with ⟨x, there, none⟩
      cases found.symm.trans there
      exact rests_adopt found (Request.rests_conclude ended none _ response)
    · exact rests_adopt_of_ne same _
  · rename_i r found
    by_cases same : other = id
    · subst same
      rcases ended with ⟨x, there, ended⟩
      cases found.symm.trans there
      rcases Request.beginSend_of_isOver ended with ⟨c, begins, rests⟩
      rw [begins]
      exact rests_adopt found rests
    · split
      · exact rests_adopt_of_ne same _
      · rename_i r' _
        have searched := rests_search ended same task r'
        generalize (f.setRequest other r').search task other r' = result at searched ⊢
        rcases result with ⟨g, response⟩
        simp only at searched ⊢
        unfold await
        split
        · exact searched.trans (.of_eq rfl rfl rfl (Nat.le_refl _))
        · split
          · exact searched
          · split
            · exact searched.trans (rests_adopt_of_ne same _)
            · exact searched

/-- No retry of any request disturbs one that is over. -/
theorem rests_retry (ended : f.IsOver id) (other : RequestId) (failure : Failure) :
    Rests id f (f.retry other failure).1 := by
  unfold Fetcher.retry
  split
  · exact .refl f
  · rename_i r found
    by_cases same : other = id
    · subst same
      rcases ended with ⟨x, there, ended⟩
      cases found.symm.trans there
      exact rests_adopt found (Request.rests_retry ended _ failure)
    · exact rests_adopt_of_ne same _

/-! ## Turns -/

/-- Nothing but the mail of schedulers, the bucket and dispatchers changes. -/
theorem rests_of_serves {d : Nat} {chosen : Option Chosen} {t : Turned}
    (h : Serves f d chosen t) : Rests id f t.shared := by
  cases h with
  | missing gone =>
      exact .refl f
  | waits =>
      exact .of_eq rfl rfl rfl (Nat.le_refl _)
  | @served chosen chosen' x x' queue queue' bucket dispatches next dispatcher scheduler empty =>
      have mail := sum_map_set (fun s : Scheduler => s.waiting.count id) scheduler queue'
      simp only [empty, List.count_nil, Nat.add_zero] at mail
      exact .of_eq rfl rfl rfl (Nat.le.intro mail)

/-- A turn leaves a request that is over where it is, unless it brings a response for one that has
an outcome. -/
theorem rests_of_turn {now : Instant} {task : TaskId} {job : Job} {t : Turned}
    (ended : f.IsOver id)
    (unsettled : 0 < job.awaits id → ∃ r, f.requests[id]? = some r ∧ r.settled? = none)
    (turned : f.turn now task job = .ok t) : Rests id f t.shared := by
  cases turns turned with
  | granted | waits =>
      exact .of_eq rfl rfl rfl (Nat.le_refl _)
  | @attempts _ request stage _ _ _ _ attempt _ _ _ =>
      have sent : Rests id f (f.send now task request stage).1 := by
        refine rests_send ended ?_ now task
        intro same flies
        exact unsettled (by simpa [Job.awaits, attempt, same] using flies)
      exact sent.trans (.of_eq rfl rfl rfl (Nat.le_refl _))
  | @retries request failure =>
      exact rests_retry ended request failure
  | serves served =>
      exact rests_of_serves served

/-! ## Actions -/

/-- A request that is over is not registered, and the registration of another one leaves it alone. -/
theorem rests_schedule (ended : f.IsOver id) (other : RequestId) :
    Rests id f (f.schedule other).shared := by
  have became := schedules f other
  generalize f.schedule other = result at became ⊢
  -- another request's registration does not touch this one; its own is never accepted
  by_cases same : other = id
  · subst same
    rcases ended with ⟨x, there, ended⟩
    have kept : ∀ {r r' : Request} {o : Registration}, f.requests[other]? = some r →
        r.schedule (f.route r) = (r', o) →
        Rests other f (f.setRequest other r') ∧ o ≠ .accepted := by
      intro r r' o found registered
      cases there.symm.trans found
      have set : Rests other f (f.setRequest other x) := by
        have inside : other < f.requests.length := (List.getElem?_eq_some_iff.1 found).1
        exact .of_eq ((List.getElem?_set_self inside).trans found.symm) rfl rfl (Nat.le_refl _)
      rcases Request.schedule_of_isOver ended (f.route x) with ended | ⟨e, refused⟩
      · cases registered.symm.trans ended
        exact ⟨set, by simp⟩
      · cases registered.symm.trans refused
        exact ⟨set, by simp⟩
    cases became with
    | missing gone =>
        exact .refl f
    | accepted found registered =>
        exact absurd rfl (kept found registered).2
    | ended found registered =>
        exact (kept found registered).1
    | refused found registered =>
        exact (kept found registered).1
  · have set : ∀ x, Rests id f (f.setRequest other x) := fun x =>
      .of_eq (by simp [setRequest, List.getElem?_set_ne same]) rfl rfl (Nat.le_refl _)
    cases became with
    | missing gone =>
        exact .refl f
    | @accepted r r' found registered onward =>
        refine (set r').trans ?_
        have mailed := mailed_enlist_of_ne (f := f.setRequest other r') (r := r') same
        rcases enlist_same (f.setRequest other r') other r' with ⟨schedulers, enlisted⟩
        rw [enlisted] at mailed
        simp only [enlisted]
        exact .of_eq rfl rfl rfl (Nat.le_of_eq mailed)
    | _ =>
        exact set _

/-- No action but the attempts that it starts changes anything for a request that is over. -/
theorem rests_of_perform {now : Instant} {task : TaskId} {action : Action} {r : Reacted}
    (ended : f.IsOver id) (performed : f.perform now task action = .ok r) :
    Rests id f r.shared := by
  cases does performed with
  | created _ made =>
      -- the request that is made gets a number of its own
      rcases ended with ⟨x, found, _⟩
      have inside : id < f.requests.length := (List.getElem?_eq_some_iff.1 found).1
      exact .of_eq (List.getElem?_append_left inside) rfl rfl (Nat.le_refl _)
  | @scheduled other =>
      exact rests_schedule ended other
  | @cancelled other _ =>
      exact rests_cancelRequest ended other
  | @popped s q _ known =>
      refine .of_eq rfl rfl rfl (mailed_modifyScheduler_le ?_)
      intro q' found
      cases known.symm.trans found
      exact (List.tail_sublist q.waiting).count_le id
  | adjusted =>
      refine .of_eq rfl rfl rfl (mailed_modifyScheduler_le ?_)
      intro q _
      unfold Scheduler.adjust
      split <;> exact Nat.le_refl _
  | @retired d _ _ _ =>
      exact .of_eq rfl rfl rfl (mailed_retire_le f d)
  | _ =>
      exact .of_eq rfl rfl rfl (Nat.le_refl _)

theorem rests_dropJob (task : TaskId) (job : Job) (f : Fetcher) :
    Rests id f (f.dropJob task job) := by
  cases job with
  | serve d chosen =>
      exact .of_eq rfl rfl rfl (mailed_retire_le f d)
  | _ =>
      exact .of_eq rfl rfl rfl (Nat.le_refl _)

/-- A sweep disturbs no request. -/
theorem rests_sweep (tasks : List (Option Job)) (f : Fetcher) :
    Rests id f (Fetcher.sweep tasks f).1 := by
  rcases sweep_same tasks f with ⟨schedulers, same, kept⟩
  rw [same]
  exact .of_eq rfl rfl rfl (Nat.le_of_eq (mailed_of_mail kept id))

/-! ## Responses that are awaited -/

/-- Whether the turn of a task begins an attempt at a request, or is a retry of it. -/
def Job.opens (id : RequestId) : Job → Bool
  | .retry request _ => request == id
  | job => job.attempt? == some (id, .fresh)

structure Begins (id : RequestId) (f g : Fetcher) : Prop where
  before : ∃ r r', f.requests[id]? = some r ∧ r.beginSend = .lookup r'
  unsettled : ∃ r, g.requests[id]? = some r ∧ r.settled? = none

/-- An attempt that waits on has begun to search. -/
theorem begins_of_sends {task : TaskId} {stage stage' : Sending} {result : Attempted Sending}
    (sent : Sends f task other stage result) (stands : standing result.2.2 = some stage') :
    stage = .fresh ∧ Begins other f result.1 := by
  cases sent with
  | @awaits r r' response g held alarm found begins after =>
      rcases Request.onward_of_lookup begins with ⟨onward, unsettled, _⟩
      rcases ((Onwards.set found onward).trans after.requests).each found with ⟨x, there, further⟩
      exact ⟨rfl, ⟨r, r', found, begins⟩, x, there, further.settled.trans unsettled⟩
  | _ =>
      cases stands

/-- How often a response for a request is awaited by what a turn leaves behind: its task and those
that it starts. -/
def awaited (id : RequestId) (t : Turned) : Nat :=
  share (Job.awaits id) (standing t.next) + ((spawned t.effects).map (Job.awaits id)).sum

/-- After a turn one response is awaited at most by what it leaves behind, and only if the turn has
begun a search for it. -/
theorem awaited_of_turn {now : Instant} {task : TaskId} {job : Job} {t : Turned}
    (turned : f.turn now task job = .ok t) (id : RequestId) :
    awaited id t ≤ 1 ∧ (0 < awaited id t → job.opens id = true ∧ Begins id f t.shared) := by
  have none : awaited id t = 0 →
      awaited id t ≤ 1 ∧ (0 < awaited id t → job.opens id = true ∧ Begins id f t.shared) := by
    intro zero
    rw [zero]
    exact ⟨Nat.zero_le 1, fun pos => absurd pos (Nat.lt_irrefl 0)⟩
  -- whoever makes no attempt awaits nothing, and a dispatcher starts attempts that are yet to search
  cases turns turned with
  | granted | waits =>
      exact none (by simp [awaited, standing, spawned, Job.awaits, Job.attempt?])
  | @attempts _ request stage toJob toResult bucket dispatchers attempt jobs results kept =>
      have quiet : spawned (f.send now task request stage).2.1 = [] :=
        (waking_send f now task request stage).spawned_eq_nil
      have sent := sends f now task request stage
      cases waits : standing (f.send now task request stage).2.2 with
      | none =>
          exact none (by simp [awaited, quiet, standing_map, waits])
      | some stage' =>
          -- an attempt that waits on has just begun to search
          rcases begins_of_sends sent waits with ⟨rfl, begins⟩
          by_cases here : request = id
          · subst here
            have one := flights_le_one stage'
            refine ⟨by simpa [awaited, quiet, standing_map, waits, Job.awaits, jobs] using one,
              fun _ => ⟨?_, ?_⟩⟩
            · cases job <;> simp_all [Job.opens, Job.attempt?]
            · exact ⟨begins.before, begins.unsettled⟩
          · exact none (by simp [awaited, quiet, standing_map, waits, Job.awaits, jobs, here])
  | @retries request failure =>
      have quiet := (waking_retry f request failure).spawned_eq_nil
      exact none (by simp [awaited, standing, quiet])
  | @serves d _ _ served =>
      refine none ?_
      cases served with
      | missing gone =>
          rfl
      | waits =>
          rfl
      | @served chosen chosen' x x' queue queue' bucket dispatches next _ _ _ _ _ _ goesOn =>
          have quiet := awaits_sendAll d dispatches id
          rcases goesOn with stands | ⟨stops, _⟩
          · simp [awaited, stands, Job.awaits, Job.attempt?, quiet]
          · simp [awaited, stops, quiet]

/-! ## Requests of other tasks -/

/-- An attempt at one request takes another one on, at most. -/
theorem onward_of_sends {r : Request} {task : TaskId} {stage : Sending}
    {result : Attempted Sending} (ne : other ≠ id) (sent : Sends f task other stage result)
    (found : f.requests[id]? = some r) :
    ∃ r', result.1.requests[id]? = some r' ∧ r.Onward r' := by
  cases sent with
  | missing gone =>
      exact ⟨r, found, .refl r⟩
  | concluded found' begins =>
      exact ⟨r, requests_adopt_of_ne ne _ found, .refl r⟩
  | arrived found' =>
      exact ⟨r, requests_adopt_of_ne ne _ found, .refl r⟩
  | awaits held found' begins after =>
      rcases Request.onward_of_lookup begins with ⟨onward, _⟩
      exact ((Onwards.set found' onward).trans after.requests).each found
  | answered found' begins after there further =>
      rcases Request.onward_of_lookup begins with ⟨onward, _⟩
      rcases ((Onwards.set found' onward).trans after.requests).each found with ⟨r', there', onward'⟩
      exact ⟨r', requests_adopt_of_ne ne _ there', onward'⟩

/-- A turn of a task that neither begins an attempt at a request nor awaits a response for it does
not end the request. -/
theorem onward_of_turn {r : Request} {now : Instant} {task : TaskId} {job : Job} {t : Turned}
    (shut : job.opens id = false) (idle : job.awaits id = 0)
    (turned : f.turn now task job = .ok t) (found : f.requests[id]? = some r) :
    ∃ r', t.shared.requests[id]? = some r' ∧ r.Onward r' := by
  cases turns turned with
  | granted | waits =>
      exact ⟨r, found, .refl r⟩
  | @attempts _ request stage _ _ _ _ attempt _ _ _ =>
      refine onward_of_sends ?_ (sends f now task request stage) found
      rintro rfl
      cases stage with
      | fresh =>
          cases job <;> simp_all [Job.opens, Job.attempt?]
      | awaiting response =>
          simp [Job.awaits, attempt, Sending.flights] at idle
  | @retries request failure =>
      have ne : request ≠ id := by simpa [Job.opens] using shut
      unfold Fetcher.retry
      split
      · exact ⟨r, found, .refl r⟩
      · exact ⟨r, requests_adopt_of_ne ne _ found, .refl r⟩
  | serves served =>
      exact (calm_of_serves served).each found

/-! ## Runs in which attempts do not overlap -/

/-- Whether the move begins an attempt at a request, or a retry of it, while the response to another
attempt is awaited. -/
def Moment.overlaps (id : RequestId) (m : Moment) : Bool :=
  match m.2, m.1.next? with
  | .turn, some (_, job) => job.opens id && decide (0 < total (Job.awaits id) m.1.tasks)
  | _, _ => false

/-- No response is awaited for a request that has an outcome. -/
def Unsettled (id : RequestId) (e : State) : Prop :=
  0 < total (Job.awaits id) e.tasks → ∃ r, e.shared.requests[id]? = some r ∧ r.settled? = none

/-- At most one response is awaited for a request, and none if it has an outcome. -/
structure Solo (id : RequestId) (e : State) : Prop where
  one : total (Job.awaits id) e.tasks ≤ 1
  unsettled : Unsettled id e

variable {e e' : State} {l : Label Action Answer} {hs : List Moment}

/-- What a move does to the responses that are awaited for a request. It is a turn, or it does not
end the request and nothing more is awaited. -/
theorem awaits_of_step (step : Step program e l e') (id : RequestId) :
    ((∀ {r : Request}, e.shared.requests[id]? = some r →
          ∃ r', e'.shared.requests[id]? = some r' ∧ r.Onward r') ∧
        total (Job.awaits id) e'.tasks ≤ total (Job.awaits id) e.tasks) ∨
      ∃ number job t, l = .turn ∧ e.next? = some (number, job) ∧
        e.shared.turn e.now number job = .ok t ∧ e'.shared.requests = t.shared.requests ∧
        total (Job.awaits id) e'.tasks + job.awaits id ≤
          total (Job.awaits id) e.tasks + awaited id t := by
  cases step with
  | act acted =>
      rcases act_cases acted with ⟨r, performed, _, rfl⟩
      have none : ((spawned r.effects).map (Job.awaits id)).sum = 0 := by
        refine List.sum_eq_zero fun n member => ?_
        rcases List.mem_map.1 member with ⟨x, started, rfl⟩
        exact (quiet_of_perform performed).2 x (mem_spawned.1 started) id
      have carried := total_carryOutAll_le (Job.awaits id) program
        ({ e with shared := r.shared } : State) r.effects
      rw [none] at carried
      rw [(unchanged_carryOutAll r.effects _).requests]
      exact .inl ⟨(performs performed).calm.each, carried⟩
  | turn turned =>
      rcases turn_cases turned with ⟨_, alike⟩ | ⟨number, job, t, middle, next, went, alike, rfl⟩
      · rw [alike.tasks, alike.shared]
        exact .inl ⟨fun {r} found => ⟨r, found, .refl r⟩, Nat.le_refl _⟩
      · have taken := total_turn_le (Job.awaits id) program next alike.tasks
        have same := (unchanged_carryOutAll t.effects middle).requests
        rw [alike.shared] at same
        exact .inr ⟨number, job, t, rfl, next, went, same, taken⟩
  | clock time =>
      rw [(setClock_alike e time).tasks, (setClock_alike e time).shared]
      exact .inl ⟨fun {r} found => ⟨r, found, .refl r⟩, Nat.le_refl _⟩
  | kill task =>
      have carried := total_carryOutAll_le (Job.awaits id) program e [.drop task]
      have same := (unchanged_carryOutAll [.drop task] e).requests
      refine .inl ⟨?_, carried⟩
      intro r found
      exact ⟨r, by rw [← found, ← same]; rfl, .refl r⟩

/-- A request that is over stays where it is in every move, as long as no response is awaited that
could change its outcome, and so it is after the move. -/
theorem rests_of_step (ended : e.shared.IsOver id) (unsettled : Unsettled id e)
    (step : Step program e l e') : Rests id e.shared e'.shared ∧ Unsettled id e' := by
  have rests : Rests id e.shared e'.shared := by
    refine shared_of_step step (.refl e.shared) ?_ ?_ ?_ ?_
    · intro task job f before
      exact before.trans (rests_dropJob task job f)
    · intro tasks f before
      exact before.trans (rests_sweep tasks f)
    · intro action r performed
      exact rests_of_perform ended performed
    · intro number job t next turned
      refine rests_of_turn ended (fun flies => unsettled ?_) turned
      exact Nat.lt_of_lt_of_le flies (le_total _ (task?_of_next? next))
  refine ⟨rests, fun pos => ?_⟩
  have before : 0 < total (Job.awaits id) e.tasks := by
    rcases awaits_of_step step id with ⟨_, le⟩ | ⟨number, job, t, _, _, turned, _, le⟩
    · exact Nat.lt_of_lt_of_le pos le
    · -- no search begins for a request that is over
      have none : awaited id t = 0 := by
        refine Nat.eq_zero_of_not_pos fun some => ?_
        rcases ((awaited_of_turn turned id).2 some).2.before with ⟨r, r', found, begins⟩
        rcases ended with ⟨x, there, ended⟩
        cases found.symm.trans there
        rcases Request.beginSend_of_isOver ended with ⟨c, concluded, _⟩
        cases begins.symm.trans concluded
      omega
  rcases unsettled before with ⟨r, found, none⟩
  rcases rests.request found with ⟨r', there, stays⟩
  exact ⟨r', there, stays.settled.trans none⟩

/-- A request that is over rests for the remainder of the run. -/
theorem rests_of_history (ended : e.shared.IsOver id) (unsettled : Unsettled id e)
    (h : History program e hs e') : Rests id e.shared e'.shared ∧ Unsettled id e' := by
  induction h with
  | refl =>
      exact ⟨.refl e.shared, unsettled⟩
  | tail _ step ih =>
      rcases ih with ⟨rests, unsettled'⟩
      rcases rests_of_step (rests.isOver ended) unsettled' step with ⟨last, unsettled''⟩
      exact ⟨rests.trans last, unsettled''⟩

/-- Attempts that do not overlap leave one response on its way at most. -/
theorem solo_of_step (h : Solo id e) (apart : Moment.overlaps id (e, l) = false)
    (step : Step program e l e') : Solo id e' := by
  rcases awaits_of_step step id with ⟨onward, le⟩ | ⟨number, job, t, rfl, next, turned, same, le⟩
  · refine ⟨Nat.le_trans le h.one, fun pos => ?_⟩
    rcases h.unsettled (Nat.lt_of_lt_of_le pos le) with ⟨r, found, none⟩
    rcases onward found with ⟨r', there, onward⟩
    exact ⟨r', there, onward.settled.trans none⟩
  · rcases awaited_of_turn turned id with ⟨one, began⟩
    cases opens : job.opens id with
    | true =>
        -- nothing is awaited yet, so what the turn awaits is all there is
        have none : total (Job.awaits id) e.tasks = 0 := by
          simpa [Moment.overlaps, next, opens] using apart
        refine ⟨by omega, fun pos => ?_⟩
        rcases (began (by omega)).2.unsettled with ⟨r, found, none⟩
        exact ⟨r, by rw [same, found], none⟩
    | false =>
        have zero : awaited id t = 0 := by
          refine Nat.eq_zero_of_not_pos fun some => ?_
          rw [opens] at began
          cases (began some).1
        have whole := h.one
        refine ⟨by omega, fun pos => ?_⟩
        -- the response that is awaited is awaited by another task
        rcases h.unsettled (by omega) with ⟨r, found, none⟩
        rcases onward_of_turn opens (by omega) turned found with ⟨r', there, onward⟩
        exact ⟨r', by rw [same, there], onward.settled.trans none⟩

/-- In a run without overlapping attempts, one response at most is awaited for a request. -/
theorem solo_of_history (h : Solo id e) (history : History program e hs e')
    (apart : ∀ m ∈ hs, Moment.overlaps id m = false) : Solo id e' := by
  induction history with
  | refl =>
      exact h
  | tail _ step ih =>
      have before := ih fun m member => apart m (List.mem_append_left _ member)
      exact solo_of_step before (apart _ (by simp)) step

/-! ## How requests are reported -/

def Explained (id : RequestId) (f : Fetcher) : Prop :=
  f.isReported id = true → f.IsOver id ∨ .failed .cancelled ∈ f.about id

theorem Explained.of_unreported (unreported : f.isReported id = false) : Explained id f := by
  intro reported
  rw [unreported] at reported
  cases reported

/-- What does not touch requests leaves them explained. -/
theorem Explained.then_unchanged (h : Explained id f) (same : Unchanged f g) :
    Explained id g := by
  unfold Explained IsOver Fetcher.isReported Fetcher.about
  rw [same.requests, same.notices]
  exact h

/-- The report of an attempt explains itself. -/
theorem explained_adopt {r : Request} {c : Conclusion} (unreported : f.isReported id = false)
    (found : f.requests[other]? = some r)
    (discloses : r.reported = false → Request.Discloses c) : Explained id (f.adopt other c).1 := by
  intro reported
  rw [isReported_adopt found] at reported
  by_cases same : other = id
  · subst same
    rw [if_pos rfl] at reported
    have before : r.reported = false := by simpa [isReported, found] using unreported
    have about := about_adopt f other c other
    rw [if_pos rfl] at about
    rcases discloses before reported with ended | said
    · left
      have inside : other < f.requests.length := (List.getElem?_eq_some_iff.1 found).1
      rcases adopt_same f other c with ⟨schedulers, same⟩
      rw [same]
      exact ⟨c.request, List.getElem?_set_self inside, ended⟩
    · right
      rw [about, said]
      exact List.mem_cons_self
  · rw [if_neg same, unreported] at reported
    cases reported

/-- A turn that reports a request ends it for good, or it says that the request is cancelled. -/
theorem explained_of_turn {now : Instant} {task : TaskId} {job : Job} {t : Turned}
    (unreported : f.isReported id = false) (turned : f.turn now task job = .ok t) :
    Explained id t.shared := by
  cases turns turned with
  | granted | waits =>
      exact .of_unreported unreported
  | @attempts _ request stage _ _ _ _ _ _ _ _ =>
      have sent := sends f now task request stage
      generalize f.send now task request stage = result at sent ⊢
      refine Explained.then_unchanged (f := result.1) ?_ ⟨rfl, rfl, rfl⟩
      cases sent with
      | missing gone =>
          exact .of_unreported unreported
      | concluded found begins =>
          exact explained_adopt unreported found fun before =>
            Request.discloses_of_concluded before begins
      | @arrived r response found =>
          exact explained_adopt unreported found fun before =>
            Request.discloses_conclude before _ response
      | @awaits r r' response g held alarm found begins after =>
          have calm := calm_searched found begins after
          exact .of_unreported ((calm.isReported id).trans unreported)
      | @answered r r' r'' response g found begins after there onward =>
          have calm := calm_searched found begins after
          exact explained_adopt ((calm.isReported id).trans unreported) there fun before =>
            Request.discloses_conclude before _ response
  | @retries request failure =>
      unfold Fetcher.retry
      split
      · exact .of_unreported unreported
      · rename_i r found
        exact explained_adopt unreported found fun before =>
          Request.discloses_retry before _ failure
  | serves served =>
      have calm := calm_of_serves served
      exact .of_unreported ((calm.isReported id).trans unreported)

/-- Every move leaves a reported request explained. -/
theorem explained_of_step (h : Explained id e.shared) (unsettled : Unsettled id e)
    (step : Step program e l e') : Explained id e'.shared := by
  cases reported : e.shared.isReported id with
  | true =>
      intro _
      rcases h reported with ended | said
      · exact .inl ((rests_of_step ended unsettled step).1.isOver ended)
      · -- what was said is not taken back
        rcases (heeds_of_step step id).told with ⟨_, told, _⟩
        rw [told]
        exact .inr (List.mem_append_right _ said)
  | false =>
      refine shared_of_step step h ?_ ?_ ?_ ?_
      · intro task job f before
        exact before.then_unchanged (unchanged_dropJob task job f)
      · intro tasks f before
        exact before.then_unchanged (unchanged_sweep tasks f)
      · intro action r performed
        exact .of_unreported (((performs performed).calm.isReported id).trans reported)
      · intro number job t _ turned
        exact explained_of_turn reported turned

/-- In a run without overlapping attempts, a reported request is over or known to be cancelled. -/
theorem explained_of_history (h : Explained id e.shared) (solo : Solo id e)
    (history : History program e hs e') (apart : ∀ m ∈ hs, Moment.overlaps id m = false) :
    Explained id e'.shared := by
  induction history with
  | refl =>
      exact h
  | tail before step ih =>
      have earlier := fun m member => apart m (List.mem_append_left _ member)
      exact explained_of_step (ih earlier) (solo_of_history solo before earlier).unsettled step

/-! ## Runs -/

theorem solo_opening (f : Fetcher) (id : RequestId) (start : Instant) :
    Solo id (opening start f) :=
  ⟨Nat.zero_le 1, fun pos => absurd pos (Nat.lt_irrefl 0)⟩

/-- An attempt that begins with a search makes one. -/
theorem searches_of_lookup {now : Instant} {task : TaskId} {r r' : Request}
    (found : f.requests[id]? = some r) (begins : r.beginSend = .lookup r') :
    (f.send now task id .fresh).1.searches id = f.searches id + 1 := by
  have sent := sends f now task id .fresh
  generalize f.send now task id .fresh = result at sent ⊢
  cases sent with
  | missing gone =>
      cases found.symm.trans gone
  | concluded found' concludes =>
      cases found.symm.trans found'
      cases begins.symm.trans concludes
  | awaits held found' begins' after =>
      exact (searches_searched after id).trans (by rw [if_pos rfl])
  | answered found' begins' after there onward =>
      have more := searches_searched after id
      rw [if_pos rfl] at more
      exact (searches_adopt _ _ _ id).trans more

/-- Of the requests that were reported, the next attempt leaves only those where they are that are
over. -/
theorem rests_iff_isOver {now : Instant} {task : TaskId} {job : Job} {t : Turned} {r : Request}
    (found : f.requests[id]? = some r) (reported : r.reported = true)
    (attempt : job.attempt? = some (id, .fresh)) (turned : f.turn now task job = .ok t) :
    Rests id f t.shared ↔ r.IsOver := by
  constructor
  · intro rests
    rcases turn_of_attempt attempt turned with ⟨bucket, dispatchers, _, _, rfl, _⟩
    cases begins : r.beginSend with
    | lookup r' =>
        -- the request is searched for once more
        have more : (f.send now task id .fresh).1.searches id = f.searches id + 1 :=
          searches_of_lookup found begins
        have none := rests.searches
        change (f.send now task id .fresh).1.searches id = f.searches id at none
        omega
    | concluded c =>
        have sent : f.send now task id .fresh = f.finish id c := by
          unfold send
          rw [found]
          simp only [begins]
        have inside : id < f.requests.length := (List.getElem?_eq_some_iff.1 found).1
        rcases rests.request found with ⟨r', there, stays⟩
        rcases adopt_same f id c with ⟨schedulers, adopted⟩
        simp only [sent, Fetcher.finish, adopted, List.getElem?_set_self inside] at there
        cases there
        exact Request.isOver_of_stays reported begins stays
  · intro ended
    refine rests_of_turn ⟨r, found, ended⟩ ?_ turned
    intro flies
    simp [Job.awaits, attempt, Sending.flights] at flies

/-- Which requests stay as they were reported, if attempts at them do not overlap. A request that is
over stays where it is whatever comes, overlapping or not: it is searched for no more, its consumer
is told nothing more, it is not registered, and its status and the number of retries stay. One that
is not over was reported as cancelled, and the next attempt does not leave it where it is. -/
theorem ended_stays_ended (new : IsNew f) {start : Instant}
    (h : History program (opening start f) hs e) (id : RequestId)
    (apart : ∀ m ∈ hs, Moment.overlaps id m = false) (told : 0 < e.shared.told id) :
    ∃ r, e.shared.requests[id]? = some r ∧
      (r.IsOver ∨ .failed .cancelled ∈ e.shared.about id) ∧
      (r.IsOver → ∀ (hs' : List Moment) (e' : State), History program e hs' e' →
        Rests id e.shared e'.shared ∧
          ∀ (l : Label Action Answer) (e'' : State), Step program e' l e'' →
            Rests id e'.shared e''.shared) ∧
      ∀ (number : TaskId) (job : Job) (t : Turned), job.attempt? = some (id, .fresh) →
        e.shared.turn e.now number job = .ok t → (Rests id e.shared t.shared ↔ r.IsOver) := by
  have solo := solo_opening f id start
  have fresh : Explained id (opening start f).shared := by
    refine .of_unreported ?_
    cases new <;> rfl
  have explained := explained_of_history fresh solo h apart
  have unsettled := (solo_of_history solo h apart).unsettled
  -- whoever is told of a request is told after it was noted
  have reported : e.shared.isReported id = true := by
    rcases accounts_of_history (accounts_opening new id start) h with ⟨count, marked⟩
    cases noted : e.shared.isReported id with
    | true =>
        rfl
    | false =>
        rw [noted, Bool.toNat_false, Nat.zero_add] at count
        rw [marked (count ▸ told)] at noted
        cases noted
  rcases (Option.any_eq_true _ _).1 reported with ⟨r, found, noted⟩
  refine ⟨r, found, ?_, ?_, ?_⟩
  · rcases explained reported with ⟨x, there, ended⟩ | said
    · cases found.symm.trans there
      exact .inl ended
    · exact .inr said
  · intro ended hs' e' history
    have isOver : e.shared.IsOver id := ⟨r, found, ended⟩
    rcases rests_of_history isOver unsettled history with ⟨rests, still⟩
    exact ⟨rests, fun l e'' step => (rests_of_step (rests.isOver isOver) still step).1⟩
  · intro number job t attempt turned
    exact rests_iff_isOver found noted attempt turned

def exhausted : List Moment × State :=
  follow program
    (opening 0 (ofSchedulers [⟨.bulk, {}, .ofList [(.content, 0)]⟩] [] [{}]))
    -- without retries, and nothing is known of the key
    [.act (.create 0 zeroKey 0 {}) (), .act (.send 0) (), .turn]

theorem exhausted_ended_stays_ended :
    (∀ m ∈ exhausted.1, Moment.overlaps 0 m = false) ∧ 0 < exhausted.2.shared.told 0 ∧
      ∃ r, exhausted.2.shared.requests[0]? = some r ∧ r.IsOver ∧
        (∀ (hs' : List Moment) (e' : State), History program exhausted.2 hs' e' →
          Rests 0 exhausted.2.shared e'.shared) := by
  have apart : ∀ m ∈ exhausted.1, Moment.overlaps 0 m = false := by decide
  have told : 0 < exhausted.2.shared.told 0 := by decide
  rcases ended_stays_ended (.schedulers _ _ _) (history_follow _ _) 0 apart told with
    ⟨r, found, ended | said, rests, _⟩
  · exact ⟨apart, told, r, found, ended, fun hs' e' later => (rests ended hs' e' later).1⟩
  · -- its consumer was told something else
    have other : .failed .cancelled ∉ exhausted.2.shared.about 0 := by decide
    exact absurd said other

def reopened : List Moment × State :=
  follow program
    (opening 0 (ofSchedulers [⟨.bulk, {}, .ofList [(.content, 0)]⟩] [(zeroKey, [97])] [{}]))
    -- the search says that the request is cancelled, which nobody has asked for
    [.act (.create 0 zeroKey 3 {}) (), .act (.script zeroKey (.fault (.classified .cancelled))) (),
      .act (.send 0) (), .turn]

/-- A request that was reported as cancelled is searched for once more when it is sent again, even
if nothing is done with a request before what was done with it has come to its end. -/
theorem not_ended_stays_ended :
    ¬ ∀ (start : Instant) (f : Fetcher) (hs hs' : List Moment) (e e' : State) (id : RequestId),
      IsNew f → History program (opening start f) hs e → History program e hs' e' →
      (∀ m ∈ hs ++ hs', Moment.overlaps id m = false) →
      (∀ m ∈ hs ++ hs', m.2.isSilent = true ∨ total (Job.holds id) m.1.tasks = 0) →
      0 < e.shared.told id → Rests id e.shared e'.shared := by
  intro rests
  have same := (rests 0 _ reopened.1 (follow program reopened.2 [.act (.send 0) (), .turn]).1
    reopened.2 (follow program reopened.2 [.act (.send 0) (), .turn]).2 0 (.schedulers _ _ _)
    (history_follow _ _) (history_follow _ _) (by decide) (by decide) (by decide)).searches
  exact absurd same (by decide)

end Fetcher
end MeteredFetch
