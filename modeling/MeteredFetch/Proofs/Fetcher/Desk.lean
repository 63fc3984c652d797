import MeteredFetch.Proofs.Fetcher.Endings
import MeteredFetch.Proofs.Fetcher.Moves

/-!
# Desk — how a dispatcher stands between its turns

Between two turns of a dispatcher only its mail changes, and that grows at its end, by requests that
exist. Nobody but the one task of the dispatcher takes its turns. Requests stay in the class that
they were made in.

* `Fetcher.Desk` — what a dispatcher has before it, `Fetcher.desk?` reads it off;
* `Fetcher.Gathers` — a change after which the mail of a dispatcher has grown, and nothing else that
  it has before it has changed;
* `Fetcher.Manned` — a dispatcher that has a task is at work in this one;
* `Fetcher.Keeps`, `Fetcher.keeps_of_moves` — what moves that are no turn of the dispatcher leave
  before it;
* `Fetcher.KeepsGroups`, `Fetcher.groups_of_step` — requests stay in their groups, and by
  `Fetcher.classes_of_step` in their classes.
-/

namespace MeteredFetch

namespace Fetcher

open Executor

/-! ## Desks -/

structure Desk where
  cost : UInt64
  standing : Standing
  pending : List Pending
  arrivals : Nat
  /-- The mail that it has not taken in yet, the oldest first. -/
  inbox : List RequestId
  deriving DecidableEq, Repr

def Desk.receive (fresh : List RequestId) (k : Desk) : Desk :=
  { k with inbox := k.inbox ++ fresh }

def inbox (f : Fetcher) (d : Nat) : List RequestId :=
  ((f.schedulers[d]?).map (·.waiting)).getD []

def desk? (f : Fetcher) (d : Nat) : Option Desk :=
  (f.dispatchers[d]?).map fun x => ⟨x.cost, x.standing, x.pending, x.arrivals, f.inbox d⟩

variable {d : Nat} {f g g' : Fetcher}

/-- More mail for the same dispatcher is all the difference there is. -/
theorem desk?_of_plain (dispatchers :
    (g.dispatchers[d]?).map Dispatcher.plain = (f.dispatchers[d]?).map Dispatcher.plain)
    {fresh : List RequestId} (inbox : g.inbox d = f.inbox d ++ fresh) :
    g.desk? d = (f.desk? d).map (·.receive fresh) := by
  unfold desk?
  rw [inbox]
  cases before : f.dispatchers[d]? with
  | none =>
      rw [before] at dispatchers
      simpa using dispatchers
  | some x =>
      rw [before] at dispatchers
      rcases Option.map_eq_some_iff.1 dispatchers with ⟨y, there, same⟩
      simp only [Dispatcher.plain, Dispatcher.mk.injEq] at same
      rcases same with ⟨cost, standing, pending, arrivals, _⟩
      simp [there, cost, standing, pending, arrivals, Desk.receive]

theorem desk?_eq_of_plain (dispatchers :
    (g.dispatchers[d]?).map Dispatcher.plain = (f.dispatchers[d]?).map Dispatcher.plain)
    (inbox : g.inbox d = f.inbox d) : g.desk? d = f.desk? d := by
  have nothing : Desk.receive [] = id := by
    funext k
    simp [Desk.receive]
  rw [desk?_of_plain dispatchers (inbox.trans (List.append_nil _).symm), nothing, Option.map_id]
  rfl

/-! ## Changes between turns -/

/-- The mail of a dispatcher has grown, by requests that exist, and the dispatcher is as before. -/
def Gathers (d : Nat) (f g : Fetcher) : Prop :=
  ∃ fresh, g.desk? d = (f.desk? d).map (·.receive fresh) ∧ ∀ id ∈ fresh, id < f.requests.length

namespace Gathers

/-- Mail has come in where the mail that was there is still in front. -/
theorem of_inbox (dispatchers : g.dispatchers[d]? = f.dispatchers[d]?)
    (inbox : ∃ fresh, g.inbox d = f.inbox d ++ fresh ∧ ∀ id ∈ fresh, id < f.requests.length) :
    Gathers d f g := by
  rcases inbox with ⟨fresh, grown, known⟩
  exact ⟨fresh, desk?_of_plain (by rw [dispatchers]) grown, known⟩

theorem of_eq (dispatchers : g.dispatchers[d]? = f.dispatchers[d]?)
    (inbox : g.inbox d = f.inbox d) : Gathers d f g :=
  of_inbox dispatchers ⟨[], by simp [inbox], by simp⟩

theorem refl (d : Nat) (f : Fetcher) : Gathers d f f :=
  of_eq rfl rfl

end Gathers

theorem inbox_modifyScheduler_of_ne {s : SchedulerId} (ne : s ≠ d)
    (change : Scheduler → Scheduler) : (f.modifyScheduler s change).inbox d = f.inbox d := by
  simp [inbox, modifyScheduler, ne]

/-- A sweep takes no mail. -/
theorem Swept.inbox (h : Swept f g) (d : Nat) : g.inbox d = f.inbox d := by
  rcases h with ⟨schedulers, rfl, kept⟩
  have there : (schedulers[d]?).map mail = (f.schedulers[d]?).map mail := by
    simpa using congrArg (fun xs : List (List RequestId × Reception × Bool) => xs[d]?) kept
  have view : ∀ s : Option Scheduler, s.map (·.waiting) = (s.map mail).map (·.1) := by
    intro s
    cases s <;> rfl
  unfold Fetcher.inbox
  rw [view, view, there]

/-- Sweeps change nothing that a dispatcher has before it. -/
theorem Swept.desk? (h : Swept f g) (d : Nat) : g.desk? d = f.desk? d := by
  have inbox := h.inbox d
  rcases h with ⟨schedulers, rfl, _⟩
  unfold Fetcher.desk?
  rw [inbox]

/-- A request that is put into a scheduler joins the end of its mail. -/
theorem inbox_enlist (f : Fetcher) (id : RequestId) (r : Request) (d : Nat) :
    ∃ fresh, (f.enlist id r).1.inbox d = f.inbox d ++ fresh ∧ ∀ other ∈ fresh, other = id := by
  unfold enlist
  cases r.destination with
  | error e =>
      exact ⟨[], by simp, by simp⟩
  | ok s =>
      by_cases here : s = d
      · subst here
        cases there : f.schedulers[s]? with
        | none =>
            exact ⟨[], by simp [inbox, modifyScheduler, there], by simp⟩
        | some q =>
            exact ⟨[id], by simp [inbox, modifyScheduler, there], by simp⟩
      · exact ⟨[], by simp [inbox_modifyScheduler_of_ne here], by simp⟩

/-- The end of an attempt puts a request that exists into the mail, or nothing. -/
theorem gathers_adopt {id : RequestId} {r : Request} (found : f.requests[id]? = some r)
    (c : Conclusion) : Gathers d f (f.adopt id c).1 := by
  have known : ∀ {fresh : List RequestId}, (∀ other ∈ fresh, other = id) →
      ∀ other ∈ fresh, other < f.requests.length := by
    intro fresh same other member
    rw [same other member]
    exact (List.getElem?_eq_some_iff.1 found).1
  have dispatchers : (f.adopt id c).1.dispatchers = f.dispatchers := by
    rcases adopt_same f id c with ⟨schedulers, same⟩
    rw [same]
  apply Gathers.of_inbox (by rw [dispatchers])
  unfold adopt
  simp only
  split
  · rcases inbox_enlist
      { f.setRequest id c.request with
        notices := c.notice.toList.map (fun n => (id, n)) ++ f.notices } id c.request d with
      ⟨fresh, grown, same⟩
    exact ⟨fresh, grown, known same⟩
  · exact ⟨[], by simp [inbox, setRequest], by simp⟩

/-- What came before may have changed requests, but made none. -/
theorem Gathers.after (h : Gathers d g g') (desk : g.desk? d = f.desk? d)
    (requests : g.requests.length = f.requests.length) : Gathers d f g' := by
  rcases h with ⟨fresh, grown, known⟩
  rw [desk] at grown
  rw [requests] at known
  exact ⟨fresh, grown, known⟩

/-- What leaves the desk alone takes away nothing that has come. -/
theorem Gathers.then_desk (h : Gathers d f g) (desk : g'.desk? d = g.desk? d) :
    Gathers d f g' := by
  rcases h with ⟨fresh, grown, known⟩
  exact ⟨fresh, desk.trans grown, known⟩

/-- A search is of no concern to a dispatcher. -/
theorem desk?_of_searched {task : TaskId} {id : RequestId} {r : Request} {response : Response}
    (after : Searched f task id r response g) : g.desk? d = f.desk? d := by
  rw [after.same]
  rfl

/-- An attempt brings a dispatcher its own request at most. -/
theorem gathers_send (f : Fetcher) (now : Instant) (task : TaskId) (id : RequestId)
    (stage : Sending) : Gathers d f (f.send now task id stage).1 := by
  have sent := sends f now task id stage
  generalize f.send now task id stage = result at sent ⊢
  cases sent with
  | missing gone =>
      exact .refl d f
  | concluded found begins =>
      exact gathers_adopt found _
  | arrived found =>
      exact gathers_adopt found _
  | @awaits r r' response g held alarm found begins after =>
      have searched : g.desk? d = f.desk? d := desk?_of_searched after
      exact (Gathers.refl d f).then_desk searched
  | @answered r r' r'' response g found begins after there onward =>
      -- the search changes requests, and the end of the attempt registers one of them
      have quiet := Quiet.of_searched found begins after
      have ended : Gathers d g (g.adopt id (r''.conclude (g.route r'') response)).1 :=
        gathers_adopt there _
      exact ended.after (desk?_of_searched after) quiet.requests.length

/-- A retry brings a dispatcher its own request at most. -/
theorem gathers_retry (f : Fetcher) (id : RequestId) (failure : Failure) :
    Gathers d f (f.retry id failure).1 := by
  unfold retry
  split
  · exact .refl d f
  · rename_i r found
    exact gathers_adopt found _

/-- Nobody takes the mail of another dispatcher. -/
theorem gathers_of_serves {id : Nat} {chosen : Option Chosen} {t : Turned}
    (served : Serves f id chosen t) (ne : id ≠ d) : Gathers d f t.shared := by
  cases served with
  | served =>
      exact .of_eq (List.getElem?_set_ne ne) (by simp [inbox, ne])
  | _ =>
      exact .of_eq rfl rfl

/-- The turn of a task that does not dispatch for a dispatcher leaves it as it is. -/
theorem gathers_of_turn {now : Instant} {task : TaskId} {job : Job} {t : Turned}
    (other : ∀ chosen, job ≠ .serve d chosen) (turned : f.turn now task job = .ok t) :
    Gathers d f t.shared := by
  cases turns turned with
  | granted | waits =>
      exact .of_eq rfl rfl
  | @attempts _ request stage _ _ bucket dispatchers _ _ _ kept =>
      refine (gathers_send f now task request stage).then_desk ?_
      refine desk?_eq_of_plain ?_ rfl
      rw [← List.getElem?_map, kept, List.getElem?_map]
  | @retries request failure =>
      exact gathers_retry f request failure
  | @serves id chosen _ served =>
      apply gathers_of_serves served
      intro here
      subst here
      exact other chosen rfl

/-- What a task that does not dispatch for a dispatcher leaves behind does not do so either. -/
theorem serve_of_turn {now : Instant} {task : TaskId} {job : Job} {t : Turned}
    (other : ∀ chosen, job ≠ .serve d chosen) (turned : f.turn now task job = .ok t) :
    (∀ chosen, standing t.next ≠ some (.serve d chosen)) ∧
      ∀ (i : Nat) (chosen : Option Chosen),
        (spawned t.effects)[i]? ≠ some (.serve d chosen) := by
  cases turns turned with
  | granted | waits =>
      exact ⟨by simp [standing], by simp [spawned]⟩
  | @attempts _ request stage _ _ _ _ _ jobs _ _ =>
      -- an attempt goes on as an attempt and starts nothing
      refine ⟨?_, ?_⟩
      · intro chosen stands
        rw [standing_map] at stands
        rcases Option.map_eq_some_iff.1 stands with ⟨stage', _, same⟩
        have made := jobs stage'
        rw [same] at made
        cases made
      · intro i chosen
        rw [(waking_send f now task request stage).spawned_eq_nil]
        simp
  | @retries request failure =>
      rw [(waking_retry f request failure).spawned_eq_nil]
      exact ⟨by simp [standing], by simp⟩
  | @serves id chosen _ served =>
      have ne : id ≠ d := fun here => other chosen (here ▸ rfl)
      cases served with
      | missing gone =>
          exact ⟨by simp [standing], by simp [spawned]⟩
      | waits =>
          exact ⟨by simp [standing, ne], by simp [spawned]⟩
      | @served _ chosen' _ _ _ _ _ dispatches next _ _ _ _ _ _ goesOn =>
          refine ⟨?_, ?_⟩
          · intro chosen'' stands
            rcases goesOn with same | ⟨ended, _⟩
            · have same := same.symm.trans stands
              simp [ne] at same
            · cases ended.symm.trans stands
          · intro i chosen''
            rw [spawned_sendAll, List.getElem?_map]
            cases dispatches[i]? <;> simp

/-! ## Actions -/

/-- What an action leaves before a dispatcher. At most it starts or drops it, if it was not started
yet. -/
structure Acts (d : Nat) (task : TaskId) (f : Fetcher) (r : Reacted) : Prop where
  desk : Gathers d f r.shared ∨
    ∃ k standing, f.desk? d = some k ∧ k.standing = .idle ∧ standing ≠ .idle ∧
      (standing ≠ .gone → r.shared.desk? d = some { k with standing }) ∧
      ∀ k', r.shared.desk? d = some k' → k'.standing = standing
  starts : ∀ (i : Nat) (chosen : Option Chosen), (spawned r.effects)[i]? = some (.serve d chosen) →
    chosen = none ∧ (∃ k, f.desk? d = some k ∧ k.standing = .idle) ∧
      ∀ k', r.shared.desk? d = some k' → k'.standing = .running (task + i)

/-- An action that starts nobody can only bring mail. -/
theorem Acts.of_gathers {task : TaskId} {r : Reacted} (gathers : Gathers d f r.shared)
    (none : ∀ (i : Nat) (chosen : Option Chosen),
      (spawned r.effects)[i]? ≠ some (.serve d chosen)) : Acts d task f r :=
  ⟨.inl gathers, fun i chosen started => absurd started (none i chosen)⟩

theorem Acts.of_waking {task : TaskId} {r : Reacted} (gathers : Gathers d f r.shared)
    (waking : Waking r.effects) : Acts d task f r := by
  apply Acts.of_gathers gathers
  intro i chosen
  rw [waking.spawned_eq_nil]
  simp

/-- A request that is put into its scheduler is mail for one dispatcher. -/
theorem gathers_enlist {id : RequestId} {r r' : Request} (found : f.requests[id]? = some r) :
    Gathers d f ((f.setRequest id r').enlist id r').1 := by
  rcases enlist_same (f.setRequest id r') id r' with ⟨schedulers, same⟩
  apply Gathers.of_inbox (by rw [same]; rfl)
  rcases inbox_enlist (f.setRequest id r') id r' d with ⟨fresh, grown, own⟩
  refine ⟨fresh, grown, ?_⟩
  intro other member
  rw [own other member]
  exact (List.getElem?_eq_some_iff.1 found).1

/-- A call that schedules a request brings mail for one dispatcher. -/
theorem gathers_schedule (f : Fetcher) (id : RequestId) : Gathers d f (f.schedule id).shared := by
  have became := schedules f id
  generalize f.schedule id = result at became ⊢
  cases became with
  | missing gone =>
      exact .refl d f
  | accepted found registered onward =>
      exact gathers_enlist found
  | _ =>
      exact .of_eq rfl rfl

/-- A dispatcher that is at work no more has nothing before it. -/
theorem desk?_retire (f : Fetcher) (d : Nat) :
    (f.retire d).desk? d =
      (f.desk? d).map fun k => { k with standing := .gone, pending := [], inbox := [] } := by
  have empty : (f.retire d).inbox d = [] := by
    simp only [inbox, retire, modifyScheduler, modifyDispatcher, List.getElem?_modify_eq]
    cases f.schedulers[d]? <;> rfl
  unfold desk?
  rw [empty]
  simp only [retire, modifyScheduler, modifyDispatcher, List.getElem?_modify_eq]
  cases f.dispatchers[d]? <;> rfl

/-- A dispatcher that retires takes nothing from the others. -/
theorem gathers_retire {id : Nat} (ne : id ≠ d) : Gathers d f (f.retire id) := by
  refine .of_eq (by simp [retire, modifyScheduler, modifyDispatcher, ne]) ?_
  simp [retire, inbox, modifyScheduler, modifyDispatcher, ne]

/-- A dispatcher that is started has the next task, and whatever came before is before it. -/
theorem acts_started {task : TaskId} {id : Nat} {x : Dispatcher}
    (found : f.dispatchers[id]? = some x) (idle : x.standing = .idle) {answer : Answer} :
    Acts d task f
      ⟨f.modifyDispatcher id fun d => { d with standing := .running task },
        [.spawn (.serve id none)], answer⟩ := by
  by_cases here : id = d
  · subst here
    have before : f.desk? id = some ⟨x.cost, .idle, x.pending, x.arrivals, f.inbox id⟩ := by
      simp [desk?, found, idle]
    have after : (f.modifyDispatcher id fun d => { d with standing := .running task }).desk? id =
        some ⟨x.cost, .running task, x.pending, x.arrivals, f.inbox id⟩ := by
      simp [desk?, modifyDispatcher, found, inbox]
    refine ⟨.inr ⟨_, .running task, before, rfl, by simp, fun _ => after, ?_⟩, ?_⟩
    · intro k' there
      cases after.symm.trans there
      rfl
    · intro i chosen started
      cases i with
      | zero =>
          cases started
          refine ⟨rfl, ⟨_, before, rfl⟩, ?_⟩
          intro k' there
          cases after.symm.trans there
          rfl
      | succ i =>
          simp [spawned] at started
  · apply Acts.of_gathers
    · exact .of_eq (by simp [modifyDispatcher, here]) rfl
    · intro i chosen started
      have member := List.mem_of_getElem? started
      simp only [spawned, List.filterMap_cons, List.filterMap_nil, List.mem_singleton,
        Job.serve.injEq] at member
      exact here member.1.symm

/-- A dispatcher that is dropped before it was started is gone for good. -/
theorem acts_retired {task : TaskId} {id : Nat} {x : Dispatcher}
    (found : f.dispatchers[id]? = some x) (idle : x.standing = .idle) {answer : Answer} :
    Acts d task f ⟨f.retire id, [], answer⟩ := by
  by_cases here : id = d
  · subst here
    have before : f.desk? id = some ⟨x.cost, .idle, x.pending, x.arrivals, f.inbox id⟩ := by
      simp [desk?, found, idle]
    refine ⟨.inr ⟨_, .gone, before, rfl, by simp, by simp, ?_⟩, by simp [spawned]⟩
    intro k' there
    rw [desk?_retire, before] at there
    cases there
    rfl
  · exact .of_waking (gathers_retire here) .nil

/-- How a scheduler treats requests makes no difference to its mail. -/
theorem inbox_adjust (f : Fetcher) (s : SchedulerId) (reception : Reception) (d : Nat) :
    (f.modifyScheduler s (·.adjust reception)).inbox d = f.inbox d := by
  have waiting : ∀ q : Scheduler, (q.adjust reception).waiting = q.waiting := by
    intro q
    unfold Scheduler.adjust
    split <;> rfl
  simp only [inbox, modifyScheduler, List.getElem?_modify]
  cases f.schedulers[d]? with
  | none =>
      rfl
  | some q =>
      by_cases here : s = d <;> simp [here, waiting]

/-- No action but one that takes its mail from outside does more to a dispatcher. -/
theorem acts_of_perform {now : Instant} {task : TaskId} {action : Action} {r : Reacted}
    (kept : action ≠ .pop d) (gentle : Gentle r.effects)
    (performed : f.perform now task action = .ok r) : Acts d task f r := by
  cases does performed with
  | @scheduled request =>
      exact .of_waking (gathers_schedule f request) (waking_schedule f request)
  | @popped s _ _ _ =>
      have ne : s ≠ d := fun here => kept (by rw [here])
      exact .of_waking (.of_eq rfl (inbox_modifyScheduler_of_ne ne _)) .nil
  | @adjusted s reception =>
      exact .of_waking (.of_eq rfl (inbox_adjust f s reception d)) .nil
  | tuned _ _ _ waking =>
      exact .of_waking (.of_eq rfl rfl) waking
  | started found idle =>
      exact acts_started found idle
  | retired found idle =>
      exact acts_retired found idle
  | @aborted _ _ number _ _ =>
      exact absurd (List.mem_singleton_self _) (gentle number)
  | operated =>
      exact .of_waking (.of_eq rfl rfl) (.map_wake _)
  | sends | retries | grabs =>
      -- the task that is started is none of a dispatcher
      apply Acts.of_gathers (.refl d f)
      intro i chosen started
      cases List.mem_singleton.1 (List.mem_of_getElem? started)
  | _ =>
      exact .of_waking (.of_eq rfl rfl) .nil

/-! ## Moves -/

def Runs (d : Nat) (e : State) (number : TaskId) (chosen : Option Chosen) : Prop :=
  e.tasks[number]? = some (some (.serve d chosen))

/-- A dispatcher that has a task is at work in this one. -/
def Manned (d : Nat) (e : State) : Prop :=
  ∀ {number chosen k}, Runs d e number chosen → e.shared.desk? d = some k →
    k.standing = .running number

/-- What moves leave before a dispatcher that is not gone, if they are no turns of it. -/
structure Keeps (d : Nat) (e e' : State) : Prop where
  manned : Manned d e'
  desk : ∀ {k'}, e'.shared.desk? d = some k' → k'.standing ≠ .gone →
    ∃ k fresh, e.shared.desk? d = some k ∧ k.standing ≠ .gone ∧
      k' = { k.receive fresh with standing := k'.standing } ∧
      (k'.standing = .idle → k.standing = .idle) ∧
      ∀ id ∈ fresh, id < e.shared.requests.length
  task : ∀ {number chosen}, Runs d e' number chosen →
    Runs d e number chosen ∨
      chosen = none ∧ ∃ k, e.shared.desk? d = some k ∧ k.standing = .idle

variable {e e' : State} {l : Label Action Answer}

/-- A change between turns, in which no task of the dispatcher starts. -/
theorem Keeps.of_gathers (manned : Manned d e) (gathers : Gathers d e.shared f)
    (swept : Swept f e'.shared)
    (same : ∀ {number chosen}, Runs d e' number chosen →
      Runs d e number chosen) : Keeps d e e' := by
  rcases gathers with ⟨fresh, grown, known⟩
  rw [← swept.desk? d] at grown
  refine ⟨?_, ?_, fun stands => .inl (same stands)⟩
  · intro number chosen k' stands there
    rw [grown] at there
    rcases Option.map_eq_some_iff.1 there with ⟨k, before, rfl⟩
    have running := manned (same stands) before
    exact running
  · intro k' there alive
    rw [grown] at there
    rcases Option.map_eq_some_iff.1 there with ⟨k, before, rfl⟩
    exact ⟨k, fresh, before, alive, rfl, fun idle => idle, known⟩

/-- An action keeps a dispatcher at the work that it has. -/
theorem Keeps.of_acts {r : Reacted} {now : Instant} {finished : List (Completion Result)}
    (manned : Manned d e) (acts : Acts d e.tasks.length e.shared r)
    (left : Leaves now r.shared (e.tasks ++ (spawned r.effects).map some) finished e') :
    Keeps d e e' := by
  -- a task of the dispatcher was there before, or is started now
  have tasks : ∀ {number chosen}, Runs d e' number chosen →
      Runs d e number chosen ∨
        ∃ i, number = e.tasks.length + i ∧
          (spawned r.effects)[i]? = some (.serve d chosen) := by
    intro number chosen stands
    unfold Runs at stands ⊢
    rw [left.tasks] at stands
    exact stands_append stands
  have swept := left.shared.desk? d
  have begins : ∀ {number chosen}, Runs d e' number chosen →
      Runs d e number chosen ∨
        chosen = none ∧ (∃ k, e.shared.desk? d = some k ∧ k.standing = .idle) ∧
          ∀ k', e'.shared.desk? d = some k' → k'.standing = .running number := by
    intro number chosen stands
    rcases tasks stands with old | ⟨i, rfl, started⟩
    · exact .inl old
    · rw [swept]
      exact .inr (acts.starts i chosen started)
  have task : ∀ {number chosen}, Runs d e' number chosen →
      Runs d e number chosen ∨
        chosen = none ∧ ∃ k, e.shared.desk? d = some k ∧ k.standing = .idle := by
    intro number chosen stands
    rcases begins stands with old | ⟨none, idle, _⟩
    · exact .inl old
    · exact .inr ⟨none, idle⟩
  rcases acts.desk with ⟨fresh, grown, known⟩ | ⟨k, standing, before, idle, leaves, after, only⟩
  · rw [← swept] at grown
    refine ⟨?_, ?_, task⟩
    · intro number chosen k' stands there
      rcases begins stands with old | ⟨_, _, running⟩
      · rw [grown] at there
        rcases Option.map_eq_some_iff.1 there with ⟨k, before, rfl⟩
        have running := manned old before
        exact running
      · exact running k' there
    · intro k' there alive
      rw [grown] at there
      rcases Option.map_eq_some_iff.1 there with ⟨k, before, rfl⟩
      exact ⟨k, fresh, before, alive, rfl, fun idle => idle, known⟩
  · -- it was not started before, so it had no task
    rw [← swept] at after only
    refine ⟨?_, ?_, task⟩
    · intro number chosen k' stands there
      rcases begins stands with old | ⟨_, _, running⟩
      · have running := manned old before
        cases idle.symm.trans running
      · exact running k' there
    · intro k' there alive
      have same := only k' there
      rw [same] at alive
      cases (after alive).symm.trans there
      refine ⟨k, [], before, by simp [idle], ?_, fun still => absurd still leaves, by simp⟩
      simp [Desk.receive]

/-- Dropping a task of another dispatcher, or of none. -/
theorem gathers_dropJob {number : TaskId} {job : Job} (other : ∀ chosen, job ≠ .serve d chosen) :
    Gathers d f (f.dropJob number job) := by
  cases job with
  | serve id chosen =>
      have ne : id ≠ d := fun here => other chosen (here ▸ rfl)
      have retired : Gathers d f (f.retire id) := gathers_retire ne
      exact retired.then_desk rfl
  | _ =>
      exact .of_eq rfl rfl

/-- A dispatcher whose task is dropped is gone. -/
theorem desk?_dropJob (f : Fetcher) (number : TaskId) (d : Nat) (chosen : Option Chosen) :
    (f.dropJob number (.serve d chosen)).desk? d =
      (f.desk? d).map fun k => { k with standing := .gone, pending := [], inbox := [] } :=
  desk?_retire f d

/-- The turn of another task keeps a dispatcher at its work. -/
theorem Keeps.of_turned {number : TaskId} {job : Job} {t : Turned}
    {finished : List (Completion Result)} (manned : Manned d e)
    (other : ∀ chosen, job ≠ .serve d chosen) (went : e.shared.turn e.now number job = .ok t)
    (left : Leaves e.now t.shared
      (e.tasks.set number (standing t.next) ++ (spawned t.effects).map some) finished e') :
    Keeps d e e' := by
  rcases serve_of_turn other went with ⟨ends, starts⟩
  apply Keeps.of_gathers manned (gathers_of_turn other went) left.shared
  intro another chosen stands
  unfold Runs at stands ⊢
  rw [left.tasks] at stands
  rcases stands_set_append stands with ⟨_, same⟩ | ⟨_, old⟩ | ⟨i, _, started⟩
  · exact absurd same (ends chosen)
  · exact old
  · exact absurd started (starts i chosen)

/-- A task of its own, when it is dropped, is the only one that matters to a dispatcher. -/
theorem Keeps.of_dropped {number : TaskId} {job : Job} {finished : List (Completion Result)}
    (manned : Manned d e) (stands : e.tasks[number]? = some (some job))
    (left : Leaves e.now (e.shared.dropJob number job) (e.tasks.set number none) finished e') :
    Keeps d e e' := by
  have still : ∀ {other chosen}, Runs d e' other chosen →
      other ≠ number ∧ Runs d e other chosen := by
    intro other chosen there
    have same : e.tasks.set number none =
        e.tasks.set number none ++ ([] : List Job).map some := by simp
    unfold Runs at there ⊢
    rw [left.tasks, same] at there
    rcases stands_set_append there with ⟨_, gone⟩ | old | ⟨i, _, started⟩
    · cases gone
    · exact old
    · cases started
  by_cases own : ∃ chosen, job = .serve d chosen
  · -- it has no other task, and is gone with this one
    rcases own with ⟨chosen, rfl⟩
    have desk : e'.shared.desk? d =
        (e.shared.desk? d).map fun k => { k with standing := .gone, pending := [], inbox := [] } :=
      (left.shared.desk? d).trans (desk?_dropJob e.shared number d chosen)
    refine ⟨?_, ?_, fun there => .inl (still there).2⟩
    · intro other chosen' k' there after
      rcases still there with ⟨ne, old⟩
      rw [desk] at after
      rcases Option.map_eq_some_iff.1 after with ⟨k, before, _⟩
      have here := manned stands before
      have there := manned old before
      rw [here] at there
      cases there
      exact absurd rfl ne
    · intro k' after alive
      rw [desk] at after
      rcases Option.map_eq_some_iff.1 after with ⟨k, before, rfl⟩
      exact absurd rfl alive
  · have another : ∀ chosen, job ≠ .serve d chosen := fun chosen same => own ⟨chosen, same⟩
    exact .of_gathers manned (gathers_dropJob another) left.shared fun there => (still there).2

theorem Keeps.of_rested {now : Instant} {finished : List (Completion Result)}
    (manned : Manned d e) (left : Leaves now e.shared e.tasks finished e') : Keeps d e e' := by
  apply Keeps.of_gathers manned (.refl d e.shared) left.shared
  intro number chosen stands
  unfold Runs at stands ⊢
  rw [left.tasks] at stands
  exact stands

def IsTurnOf (d : Nat) (e : State) (l : Label Action Answer) : Prop :=
  l = .turn ∧ ∃ number chosen, e.next? = some (number, .serve d chosen)

/-- In a move that is no turn of it, another task has the turn. -/
theorem not_serve_of_next {number : TaskId} {job : Job} (other : ¬ IsTurnOf d e l)
    (turn : l = .turn) (next : e.next? = some (number, job)) :
    ∀ chosen, job ≠ .serve d chosen := by
  intro chosen same
  rw [same] at next
  exact other ⟨turn, number, chosen, next⟩

/-- A move that is no turn of a dispatcher, and takes no mail from it, adds to its mail at most. -/
theorem keeps_of_moves (manned : Manned d e) (moves : Moves e l e') (other : ¬ IsTurnOf d e l)
    (kept : ∀ answer, l ≠ .act (.pop d) answer) : Keeps d e e' := by
  cases moves with
  | turned turn next went left =>
      exact .of_turned manned (not_serve_of_next other turn next) went left
  | @acted action answer r same gentle performed left =>
      have unpopped : action ≠ .pop d := by
        rintro rfl
        exact kept answer same
      exact .of_acts manned (acts_of_perform unpopped gentle performed) left
  | dropped _ stands left =>
      exact .of_dropped manned stands left
  | rested _ left =>
      exact .of_rested manned left

/-! ## Classes -/

structure KeepsGroups (f g : Fetcher) : Prop where
  each : ∀ {id : RequestId} {r : Request}, f.requests[id]? = some r →
    ∃ r', g.requests[id]? = some r' ∧ r'.group = r.group

namespace KeepsGroups

theorem of_calm (calm : Calm f g) : KeepsGroups f g := by
  refine ⟨fun found => ?_⟩
  rcases calm.each found with ⟨r', there, onward⟩
  exact ⟨r', there, onward.group⟩

theorem trans (h : KeepsGroups f g) (h' : KeepsGroups g g') : KeepsGroups f g' := by
  refine ⟨fun found => ?_⟩
  rcases h.each found with ⟨r', there, group⟩
  rcases h'.each there with ⟨r'', after, group'⟩
  exact ⟨r'', after, group'.trans group⟩

/-- The end of an attempt leaves its request in its group. -/
theorem of_ends {id : RequestId} {r : Request} {c : Conclusion} {t : Turned}
    (found : f.requests[id]? = some r) (group : c.request.group = r.group)
    (ends : Ends f id c t) : KeepsGroups f t.shared := by
  refine ⟨fun {other x} there => ?_⟩
  by_cases own : id = other
  · subst own
    cases found.symm.trans there
    exact ⟨c.request, (ends.own found).1, group⟩
  · exact ⟨x, (ends.others own).1.trans there, rfl⟩

theorem of_turn {now : Instant} {task : TaskId} {job : Job} {t : Turned}
    (turned : f.turn now task job = .ok t) : KeepsGroups f t.shared := by
  cases comes turned with
  | goesOn quiet _ _ =>
      exact of_calm quiet.calm
  | spared _ found begins ends =>
      exact of_ends found (Request.group_of_concluded begins) ends
  | brought _ quiet _ _ there _ _ ends =>
      exact (of_calm quiet.calm).trans (of_ends there (Request.group_conclude _ _ _) ends)

end KeepsGroups

/-- A request stays in its group in every move. -/
theorem groups_of_step (step : Step program e l e') : KeepsGroups e.shared e'.shared := by
  rcases turn_of_step step with ⟨eases, _⟩ | ⟨number, job, t, _, _, turned, same⟩
  · exact .of_calm eases.calm
  · have unchanged : Calm t.shared e'.shared := .of_eq same.requests same.notices
    exact (KeepsGroups.of_turn turned).trans (.of_calm unchanged)

structure Classes (f g : Fetcher) : Prop where
  length : f.requests.length ≤ g.requests.length
  priority : ∀ {id}, id < f.requests.length → g.priority id = f.priority id

theorem KeepsGroups.classes (h : KeepsGroups f g) : Classes f g := by
  refine ⟨?_, ?_⟩
  · apply Nat.le_of_not_lt
    intro shorter
    rcases h.each (List.getElem?_eq_getElem shorter) with ⟨r', there, _⟩
    have inside := (List.getElem?_eq_some_iff.1 there).1
    exact Nat.lt_irrefl _ inside
  · intro id inside
    have found := List.getElem?_eq_getElem inside
    rcases h.each found with ⟨r', there, group⟩
    simp [Fetcher.priority, found, there, group]

/-- A request stays in its class in every move. -/
theorem classes_of_step (step : Step program e l e') : Classes e.shared e'.shared :=
  (groups_of_step step).classes

end Fetcher
end MeteredFetch
