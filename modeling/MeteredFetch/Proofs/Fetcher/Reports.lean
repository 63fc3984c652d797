import MeteredFetch.Proofs.Executor.History
import MeteredFetch.Proofs.Fetcher.Actions
import MeteredFetch.Proofs.Fetcher.Notes

/-!
# Reports — how often a request is reported

An attempt may end a request although it was reported before: the end is written down after the
lookup, and nobody looks whether another attempt was faster. The consumer is then told once more.
As long as no failure stands for cancellation, that takes a block that arrives late.

* `Fetcher.isLate` — a task brings a block for a request that was reported;
* `Fetcher.Genuine` — no failure stands for cancellation, and requests that were reported are final;
* `Fetcher.Accounts` — the consumer was told once for the report and once for every repetition;
* `Fetcher.told_le_one_iff` — a request is reported at most once exactly if no turn repeats it.
-/

namespace MeteredFetch
namespace Fetcher

open Executor

abbrev State := Executor Fetcher Job Result

abbrev Moment := Executor.Moment Fetcher Job Result Action Answer

/-! ## Late blocks and cancellation -/

/-- Whether the turn of a task brings a block for a request that was reported and that nobody has
cancelled. -/
def isLate (f : Fetcher) (id : RequestId) (job : Job) : Bool :=
  match job.attempt? with
  | some (request, .awaiting response) =>
      request == id && (f.requests[id]?).any (·.isLate response)
  | _ => false

/-- Whether a task carries no failure that stands for cancellation. -/
def Job.isGenuine : Job → Bool
  | .send _ (.awaiting response) => !response.isCancelled
  | .dispatch _ _ (.awaiting response) => !response.isCancelled
  | .retry _ failure => failure != .cancelled
  | _ => true

/-- Whether an action hands in a failure that stands for cancellation. -/
def Action.handsCancelled : Action → Bool
  | .script _ response => response.isCancelled
  | .retry _ failure => failure == .cancelled
  | _ => false

variable {id other : RequestId} {again : Nat} {f g : Fetcher}

/-! ## Turns without cancellation from outside -/

/-- No failure that is laid down stands for cancellation, and requests that were reported are
final. -/
structure Genuine (f : Fetcher) : Prop where
  scripted : ∀ entry ∈ f.lookup.scripted, entry.2.isCancelled = false
  final : ∀ {other : RequestId} {r : Request}, f.requests[other]? = some r → r.Final

/-- In a calm no failure comes to stand for cancellation. -/
theorem Genuine.calm (h : Genuine f) (calm : Calm f g)
    (scripted : ∀ entry ∈ g.lookup.scripted, entry.2.isCancelled = false) : Genuine g :=
  ⟨scripted, calm.final h.final⟩

/-- The end of an attempt hands in no failure. -/
theorem Genuine.adopt {c : Conclusion} (h : Genuine f) (final : c.request.Final) :
    Genuine (f.adopt other c).1 := by
  rcases adopt_same f other c with ⟨schedulers, same⟩
  rw [same]
  refine ⟨h.scripted, ?_⟩
  intro x r there
  have changed : (f.requests.set other c.request)[x]? = some r := there
  rcases List.mem_or_eq_of_mem_set (List.mem_of_getElem? changed) with old | rfl
  · rcases List.mem_iff_getElem?.1 old with ⟨i, found⟩
    exact h.final found
  · exact final

/-- A lookup that has no cancellation laid down gives none as its response. -/
theorem isCancelled_of_respond {l l' : Lookup} {key : Key} {localOnly : Bool}
    {response : Response} (genuine : ∀ entry ∈ l.scripted, entry.2.isCancelled = false)
    (h : l.respond key localOnly = (l', response)) :
    response.isCancelled = false ∧ ∀ entry ∈ l'.scripted, entry.2.isCancelled = false := by
  unfold Lookup.respond at h
  split at h
  · rename_i laidDown found
    cases h
    rcases List.lookup_eq_some_iff.1 found with ⟨before, after, same, _⟩
    refine ⟨genuine (key, response) (by simp [same]), ?_⟩
    intro entry member
    exact genuine entry (List.mem_of_mem_eraseP member)
  · cases h
    refine ⟨?_, genuine⟩
    unfold Lookup.fallback
    split
    · rfl
    · cases localOnly <;> rfl

/-- A search answers with what was laid down. -/
theorem Genuine.searched {task : TaskId} {r r' : Request} {response : Response}
    (h : Genuine f) (found : f.requests[other]? = some r) (begins : r.beginSend = .lookup r')
    (after : Searched f task other r' response g) :
    Genuine g ∧ response.isCancelled = false := by
  rcases isCancelled_of_respond h.scripted after.response with ⟨plain, scripted⟩
  exact ⟨h.calm (calm_searched found begins after) scripted, plain⟩

/-- An attempt that carries a proper response is genuine. -/
theorem isGenuine_of_attempt {job : Job} {stage : Sending}
    (attempt : job.attempt? = some (other, stage))
    (plain : ∀ response, stage = .awaiting response → response.isCancelled = false) :
    job.isGenuine = true := by
  cases stage with
  | fresh =>
      cases job <;> cases attempt <;> rfl
  | awaiting response =>
      have carried := plain response rfl
      cases job <;> cases attempt <;> simp [Job.isGenuine, carried]

/-- What a turn of an attempt leaves behind if no failure stands for cancellation: this goes on to be
so, and a report is repeated exactly if a block comes late. -/
structure Plain (f : Fetcher) (id : RequestId) (job : Job) (result : Attempted Sending) : Prop where
  genuine : Genuine result.1
  repeats : f.repeats result.1 id = f.isLate id job
  response : ∀ response, standing result.2.2 = some (.awaiting response) →
    response.isCancelled = false

/-- An attempt that is yet to search brings no late block. -/
theorem isLate_of_fresh {job : Job} (attempt : job.attempt? = some (other, .fresh))
    (id : RequestId) : f.isLate id job = false := by
  simp [isLate, attempt]

/-- A block is late if its request was reported meanwhile. -/
theorem isLate_of_awaiting {job : Job} {response : Response}
    (attempt : job.attempt? = some (other, .awaiting response)) (id : RequestId) :
    f.isLate id job = (other == id && (f.requests[other]?).any (·.isLate response)) := by
  by_cases here : other = id
  · subst here
    simp [isLate, attempt]
  · simp [isLate, attempt, beq_eq_false_iff_ne.2 here]

theorem plain_of_attempt {job : Job} {response : Response} (genuine : job.isGenuine = true)
    (attempt : job.attempt? = some (other, .awaiting response)) : response.isCancelled = false := by
  cases job <;> cases attempt <;> simpa [Job.isGenuine] using genuine

/-- The end of an attempt repeats a report exactly if a block comes late. -/
theorem Genuine.finish {job : Job} {r : Request} {c : Conclusion} {late : Bool} (h : Genuine f)
    (found : f.requests[other]? = some r) (reports : r.Reports late c) {id : RequestId}
    (lateness : f.isLate id job = (other == id && late)) :
    Plain f id job (f.finish other c) := by
  refine ⟨h.adopt reports.final, ?_, nofun⟩
  rw [lateness]
  exact repeats_adopt found reports id

/-- An attempt at a request that does not exist reports nothing. -/
theorem plain_of_missing {stage : Sending} {job : Job} (h : Genuine f)
    (attempt : job.attempt? = some (other, stage)) (gone : f.requests[other]? = none)
    (id : RequestId) : Plain f id job (f, [], .finish (.error .closed)) := by
  refine ⟨h, ?_, nofun⟩
  rw [(Calm.refl f).repeats_eq_false id]
  cases stage with
  | fresh =>
      rw [isLate_of_fresh attempt]
  | awaiting response =>
      simp [isLate_of_awaiting attempt, gone]

/-- Nobody was told of a request that is searched for, so a block that is there at once is not late. -/
theorem plain_of_answered {job : Job} {task : TaskId} {r r' r'' : Request} {response : Response}
    (h : Genuine f) (attempt : job.attempt? = some (other, .fresh))
    (found : f.requests[other]? = some r) (begins : r.beginSend = .lookup r')
    (after : Searched f task other r' response g) (there : g.requests[other]? = some r'')
    (onward : r.Onward r'') (id : RequestId) : Plain f id job (g.arrive other r'' response) := by
  rcases h.searched found begins after with ⟨kept, plain⟩
  rcases Request.onward_of_lookup begins with ⟨_, unsettled, wanted⟩
  have unreported := (h.final found).unreported unsettled wanted
  have early : r''.isLate response = false := by
    cases response with
    | block block =>
        simp [Request.isLate, onward.reported, unreported]
    | fault fault =>
        rfl
  have reports := Request.reports_conclude (kept.final there) (g.route r'') plain
  rw [early] at reports
  have ended : Plain g id job (g.arrive other r'' response) := by
    refine kept.finish there reports ?_
    rw [isLate_of_fresh attempt, Bool.and_false]
  refine ⟨ended.genuine, ?_, ?_⟩
  · rw [(calm_searched found begins after).repeats_left, ended.repeats, isLate_of_fresh attempt,
      isLate_of_fresh attempt]
  · intro response' stands
    cases stands

/-- An attempt repeats a report exactly if it brings a late block. -/
theorem Genuine.send {stage : Sending} {job : Job} (now : Instant) (task : TaskId)
    (h : Genuine f) (attempt : job.attempt? = some (other, stage)) (genuine : job.isGenuine = true)
    (id : RequestId) : Plain f id job (f.send now task other stage) := by
  have sent := sends f now task other stage
  generalize f.send now task other stage = result at sent ⊢
  cases sent with
  | missing gone =>
      exact plain_of_missing h attempt gone id
  | concluded found begins =>
      refine h.finish found (Request.reports_of_concluded (h.final found) begins) ?_
      rw [isLate_of_fresh attempt, Bool.and_false]
  | @arrived r response found =>
      -- the only turn in which a block can be late
      have plain := plain_of_attempt genuine attempt
      refine h.finish found (Request.reports_conclude (h.final found) (f.route r) plain) ?_
      simp [isLate_of_awaiting attempt, found]
  | @awaits r r' response g held alarm found begins after =>
      rcases h.searched found begins after with ⟨kept, plain⟩
      have waits : Calm g { g with lookup := { g.lookup with held } } := .of_eq rfl rfl
      refine ⟨kept.calm waits kept.scripted, ?_, ?_⟩
      · rw [waits.repeats_right, (calm_searched found begins after).repeats_eq_false,
          isLate_of_fresh attempt]
      · intro response' stands
        cases stands
        exact plain
  | answered found begins after there onward =>
      exact plain_of_answered h attempt found begins after there onward id

/-- A retry repeats no report. -/
theorem Genuine.retry {failure : Failure} (h : Genuine f) (other : RequestId)
    (genuine : failure ≠ .cancelled) (id : RequestId) :
    Genuine (f.retry other failure).1 ∧ f.repeats (f.retry other failure).1 id = false := by
  unfold Fetcher.retry
  split
  · exact ⟨h, (Calm.refl f).repeats_eq_false id⟩
  · rename_i r found
    have reports := Request.reports_retry (h.final found) (f.route r) genuine
    have early := repeats_adopt found reports id
    rw [Bool.and_false] at early
    exact ⟨h.adopt reports.final, early⟩

/-- Whatever a dispatcher starts has not searched yet. -/
theorem fresh_of_sendAll {id : Nat} {dispatches : List Dispatch} {job : Job}
    (h : .spawn job ∈ sendAll id dispatches) : ∃ x, job = .dispatch id x .fresh := by
  rcases List.mem_map.1 h with ⟨x, _, same⟩
  cases same
  exact ⟨x, rfl⟩

/-- Neither a dispatcher nor the tasks that it starts carry a failure. -/
theorem genuine_of_serves {d : Nat} {chosen : Option Chosen} {t : Turned}
    (served : Serves f d chosen t) :
    (∀ x, standing t.next = some x → x.isGenuine = true) ∧
      ∀ x, .spawn x ∈ t.effects → x.isGenuine = true := by
  cases served with
  | missing gone =>
      exact ⟨by simp [standing], by simp⟩
  | waits =>
      refine ⟨?_, by simp⟩
      intro x stands
      cases stands
      rfl
  | served chosen' dispatcher scheduler empty reception adjustable kept next =>
      refine ⟨?_, ?_⟩
      · intro x stands
        rcases next with goesOn | ⟨ends, _⟩
        · cases goesOn.symm.trans stands
          rfl
        · cases ends.symm.trans stands
      · intro x member
        rcases fresh_of_sendAll member with ⟨y, rfl⟩
        rfl

/-- A turn repeats a report exactly if it brings a late block. -/
theorem genuine_of_turn {now : Instant} {task : TaskId} {job : Job} {t : Turned}
    (h : Genuine f) (genuine : job.isGenuine = true) (turned : f.turn now task job = .ok t)
    (id : RequestId) :
    Genuine t.shared ∧ f.repeats t.shared id = f.isLate id job ∧
      (∀ x, standing t.next = some x → x.isGenuine = true) ∧
      ∀ x, .spawn x ∈ t.effects → x.isGenuine = true := by
  cases turns turned with
  | granted =>
      refine ⟨⟨h.scripted, h.final⟩, (Calm.of_bucket f _).repeats_eq_false id, ?_, by simp⟩
      intro x stands
      cases stands
  | waits =>
      refine ⟨⟨h.scripted, h.final⟩, (Calm.of_bucket f _).repeats_eq_false id, ?_, by simp⟩
      intro x stands
      cases stands
      rfl
  | @attempts _ request stage _ _ _ _ attempt jobs _ _ =>
      have sent := h.send now task attempt genuine id
      refine ⟨⟨sent.genuine.scripted, sent.genuine.final⟩, sent.repeats, ?_, ?_⟩
      · intro x stands
        rw [standing_map] at stands
        rcases Option.map_eq_some_iff.1 stands with ⟨stage', waits, rfl⟩
        exact isGenuine_of_attempt (jobs stage') fun response same =>
          sent.response response (same ▸ waits)
      · intro x member
        exact absurd member ((waking_send f now task request stage).not_spawn_mem x)
  | @retries request failure =>
      have proper : failure ≠ .cancelled := by simpa [Job.isGenuine] using genuine
      rcases h.retry request proper id with ⟨kept, never⟩
      refine ⟨kept, never, ?_, ?_⟩
      · intro x stands
        cases stands
      · intro x member
        exact absurd member ((waking_retry f request failure).not_spawn_mem x)
  | serves served =>
      have calm := calm_of_serves served
      refine ⟨h.calm calm ?_, calm.repeats_eq_false id, genuine_of_serves served⟩
      cases served <;> exact h.scripted

/-! ## Actions, drops and sweeps -/

/-- What an action leaves behind: nobody is told anything, and a failure that stands for
cancellation comes in only if the action hands one in. -/
structure Performs (f : Fetcher) (action : Action) (r : Reacted) : Prop where
  calm : Calm f r.shared
  scripted : ∀ entry ∈ r.shared.lookup.scripted,
    entry ∈ f.lookup.scripted ∨ entry.2.isCancelled = action.handsCancelled
  spawned : ∀ x, .spawn x ∈ r.effects → x.isGenuine = !action.handsCancelled

theorem Performs.of_eq {action : Action} {r : Reacted}
    (requests : r.shared.requests = f.requests) (notices : r.shared.notices = f.notices)
    (lookup : r.shared.lookup.scripted = f.lookup.scripted)
    (spawned : ∀ x, .spawn x ∈ r.effects → x.isGenuine = !action.handsCancelled) :
    Performs f action r := by
  refine ⟨.of_eq requests notices, ?_, spawned⟩
  intro entry member
  rw [lookup] at member
  exact .inl member

/-- No action tells anybody anything. -/
theorem performs {now : Instant} {task : TaskId} {action : Action} {r : Reacted}
    (performed : f.perform now task action = .ok r) : Performs f action r := by
  cases does performed with
  | created _ made =>
      exact ⟨calm_created made, fun _ => .inl, by simp⟩
  | @scheduled request =>
      have started := (waking_schedule f request).not_spawn_mem
      refine ⟨calm_schedule f request, ?_, fun x member => absurd member (started x)⟩
      rcases schedule_same f request with ⟨requests, schedulers, same⟩
      rw [same]
      exact fun _ => .inl
  | @cancelled request _ =>
      exact ⟨.of_onwards (cancelRequest_onwards f request) rfl, fun _ => .inl, by simp⟩
  | scripted =>
      refine ⟨.of_eq rfl rfl, ?_, by simp⟩
      intro entry member
      rcases List.mem_append.1 member with old | new
      · exact .inl old
      · cases List.mem_singleton.1 new
        exact .inr rfl
  | tuned _ _ scripted waking =>
      exact .of_eq rfl rfl scripted fun x member => absurd member (waking.not_spawn_mem x)
  | sends | retries | grabs | started =>
      -- whatever the task that is started carries, the action has handed it in
      refine .of_eq rfl rfl rfl ?_
      intro x member
      cases List.mem_singleton.1 member
      rfl
  | _ =>
      exact .of_eq rfl rfl rfl (by simp)

/-- Only an action that hands such a failure in can bring one. -/
theorem Performs.genuine {action : Action} {r : Reacted} (h : Performs f action r)
    (before : Genuine f) (plain : action.handsCancelled = false) : Genuine r.shared := by
  refine before.calm h.calm fun entry member => ?_
  rcases h.scripted entry member with old | new
  · exact before.scripted entry old
  · exact new.trans plain

theorem Genuine.dropJob {task : TaskId} {job : Job} (h : Genuine f) :
    Genuine (f.dropJob task job) := by
  refine h.calm (calm_dropJob task job f) ?_
  cases job <;> exact h.scripted

theorem Genuine.sweep {tasks : List (Option Job)} (h : Genuine f) :
    Genuine (Fetcher.sweep tasks f).1 := by
  refine h.calm (calm_sweep tasks f) ?_
  rcases sweep_same tasks f with ⟨schedulers, same, _⟩
  rw [same]
  exact h.scripted

/-! ## Accounts -/

/-- The consumer was told of a request once for its report and `again` for what was repeated. -/
structure Accounts (id : RequestId) (again : Nat) (f : Fetcher) : Prop where
  told : f.told id = (f.isReported id).toNat + again
  marked : 0 < again → f.isReported id = true

/-- What is told is told for a report or as a repetition of one. -/
theorem Accounts.notes (h : Accounts id again f) (notes : Notes id f g) :
    Accounts id (again + (f.repeats g id).toNat) g := by
  rcases h with ⟨told, marked⟩
  rcases notes with ⟨kept, once, noted⟩
  unfold repeats
  by_cases heard : f.told id < g.told id
  · -- either the mark is put now, or it was there and this is one more repetition
    have more : g.told id = f.told id + 1 := by omega
    simp only [heard, decide_true, Bool.or_true, Bool.and_true] at noted ⊢
    refine ⟨?_, fun _ => noted⟩
    rw [noted, more, told]
    simp only [Bool.toNat_true]
    omega
  · have same : g.told id = f.told id := by omega
    simp only [heard, decide_false, Bool.or_false, Bool.and_false] at noted ⊢
    refine ⟨?_, ?_⟩
    · rw [noted, same, told]
      rfl
    · rw [noted]
      exact marked

theorem Accounts.calm (h : Accounts id again f) (calm : Calm f g) : Accounts id again g := by
  have kept := h.notes (calm.notes id)
  rw [calm.repeats_eq_false] at kept
  exact kept

/-! ## Moves -/

namespace Moment

def repeats (id : RequestId) (m : Moment) : Bool :=
  match m.2, m.1.next? with
  | .turn, some (number, job) =>
      match m.1.shared.turn m.1.now number job with
      | .ok t => m.1.shared.repeats t.shared id
      | .error _ => false
  | _, _ => false

def isLate (id : RequestId) (m : Moment) : Bool :=
  match m.2, m.1.next? with
  | .turn, some (_, job) => m.1.shared.isLate id job
  | _, _ => false

def handsCancelled (m : Moment) : Bool :=
  match m.2 with
  | .act action _ => action.handsCancelled
  | _ => false

end Moment

variable {e e' : State}

/-- The account of what was told is kept by every move. -/
theorem accounts_of_step {l : Label Action Answer} (h : Accounts id again e.shared)
    (step : Step program e l e') :
    Accounts id (again + (Moment.repeats id (e, l)).toNat) e'.shared := by
  have dropped : ∀ {n : Nat} (task : TaskId) (job : Job) (f : Fetcher),
      Accounts id n f → Accounts id n (program.drop task job f) :=
    fun task job f kept => kept.calm (calm_dropJob task job f)
  have swept : ∀ {n : Nat} (tasks : List (Option Job)) (f : Fetcher),
      Accounts id n f → Accounts id n (program.sweep tasks f).1 :=
    fun tasks f kept => kept.calm (calm_sweep tasks f)
  -- what tasks carry makes no difference here
  have any : ∀ (effects : List (Effect Job)) (e : State) {n : Nat}, Accounts id n e.shared →
      Accounts id n (e.carryOutAll program effects).shared :=
    fun effects e n kept =>
      (Holds.carryOutAll (T := fun _ => True) dropped swept (fun _ _ => trivial)
        ⟨kept, fun _ _ => trivial⟩).shared
  cases step with
  | act acted =>
      rcases act_cases acted with ⟨r, performed, _, rfl⟩
      exact any r.effects { e with shared := r.shared } (h.calm (performs performed).calm)
  | turn turned =>
      rcases turn_cases turned with ⟨nobody, alike⟩ |
        ⟨number, job, t, middle, next, went, alike, rfl⟩
      · -- nobody takes a turn, so nothing is repeated
        have once : Moment.repeats id (e, .turn) = false := by simp [Moment.repeats, nobody]
        rw [once, alike.shared]
        exact h
      · have ran : e.shared.turn e.now number job = .ok t := went
        have heard : Moment.repeats id (e, .turn) = e.shared.repeats t.shared id := by
          simp [Moment.repeats, next, ran]
        rw [heard]
        refine any t.effects middle ?_
        rw [alike.shared]
        exact h.notes (notes_of_turn ran id)
  | clock time =>
      rw [(setClock_alike e time).shared]
      exact h
  | kill task =>
      exact ((Holds.drop (T := fun _ => True) dropped ⟨h, fun _ _ => trivial⟩ task).sweep
        swept).shared

/-- What was told in a run is one report and its repetitions. -/
theorem accounts_of_history {hs : List Moment} (h : Accounts id again e.shared)
    (history : History program e hs e') :
    Accounts id (again + (hs.filter (Moment.repeats id)).length) e'.shared := by
  induction history with
  | refl =>
      exact h
  | @tail hs l e' e'' _ step ih =>
      have last := accounts_of_step ih step
      have count : (hs ++ [(e', l)]).filter (Moment.repeats id) =
          hs.filter (Moment.repeats id) ++ [(e', l)].filter (Moment.repeats id) :=
        List.filter_append ..
      rw [count, List.length_append, ← Nat.add_assoc]
      cases heard : Moment.repeats id (e', l) <;> simpa [heard] using last

/-- A state of a run in which no failure stands for cancellation. -/
def IsGenuine (e : State) : Prop :=
  Holds Genuine (fun job => job.isGenuine = true) e

/-- In every move of a genuine run the repetitions are the late blocks. -/
theorem genuine_of_step {l : Label Action Answer} (h : IsGenuine e)
    (plain : Moment.handsCancelled (e, l) = false) (step : Step program e l e')
    (id : RequestId) :
    IsGenuine e' ∧ Moment.repeats id (e, l) = Moment.isLate id (e, l) := by
  have dropped : ∀ (task : TaskId) (job : Job) (f : Fetcher),
      Genuine f → Genuine (program.drop task job f) :=
    fun task job f kept => kept.dropJob
  have swept : ∀ (tasks : List (Option Job)) (f : Fetcher),
      Genuine f → Genuine (program.sweep tasks f).1 :=
    fun tasks f kept => kept.sweep
  cases step with
  | act acted =>
      rcases act_cases acted with ⟨r, performed, _, rfl⟩
      have after := performs performed
      refine ⟨Holds.carryOutAll dropped swept ?_ ⟨after.genuine h.shared plain, h.tasks⟩, rfl⟩
      intro x member
      rw [after.spawned x member]
      exact congrArg not plain
  | turn turned =>
      rcases turn_cases turned with ⟨nobody, alike⟩ |
        ⟨number, job, t, middle, next, went, alike, rfl⟩
      · exact ⟨Holds.of_alike h alike, by simp [Moment.repeats, Moment.isLate, nobody]⟩
      · have ran : e.shared.turn e.now number job = .ok t := went
        have genuine := h.tasks job (List.mem_of_getElem? (task?_of_next? next))
        rcases genuine_of_turn h.shared genuine ran id with ⟨kept, late, stands, fresh⟩
        refine ⟨Holds.carryOutAll dropped swept fresh (Holds.of_alike ?_ alike), ?_⟩
        · exact ⟨kept, forall_task_set h.tasks stands⟩
        · simpa [Moment.repeats, Moment.isLate, next, ran] using late
  | clock time =>
      exact ⟨Holds.of_alike (e := { e with now := time }) ⟨h.shared, h.tasks⟩
        (setClock_alike e time), rfl⟩
  | kill task =>
      exact ⟨(Holds.drop dropped h task).sweep swept, rfl⟩

/-- In a genuine run exactly the late blocks are repetitions. -/
theorem genuine_of_history {hs : List Moment} (h : IsGenuine e)
    (history : History program e hs e') (plain : ∀ m ∈ hs, Moment.handsCancelled m = false)
    (id : RequestId) :
    IsGenuine e' ∧ ∀ m ∈ hs, Moment.repeats id m = Moment.isLate id m := by
  induction history with
  | refl =>
      exact ⟨h, fun m member => absurd member List.not_mem_nil⟩
  | @tail hs l e' e'' _ step ih =>
      rcases ih fun m member => plain m (List.mem_append_left _ member) with ⟨kept, earlier⟩
      rcases genuine_of_step kept (plain (e', l) (by simp)) step id with ⟨kept', late⟩
      refine ⟨kept', ?_⟩
      intro m member
      rcases List.mem_append.1 member with old | new
      · exact earlier m old
      · cases List.mem_singleton.1 new
        exact late

/-! ## Runs -/

/-- A fetcher as it is made, whoever empties its schedulers. -/
inductive IsNew : Fetcher → Prop
  | schedulers (groups : List Group) (blocks : List (Key × Bytes)) (schedulers : List Scheduler) :
      IsNew (ofSchedulers groups blocks schedulers)
  | dispatchers (bucket : Bucket) (groups : List Group) (blocks : List (Key × Bytes))
      (costs : List UInt64) : IsNew (ofDispatchers bucket groups blocks costs)

def opening (start : Instant) (f : Fetcher) : State :=
  { now := start, shared := f }

theorem scripted_ofBlocks (blocks : List (Key × Bytes)) :
    (Lookup.ofBlocks blocks).scripted = [] := by
  have kept : ∀ l : Lookup,
      (blocks.foldl (fun l x => l.insert x.1 x.2) l).scripted = l.scripted := by
    induction blocks with
    | nil =>
        intro l
        rfl
    | cons x rest ih =>
        intro l
        exact ih (l.insert x.1 x.2)
  exact kept {}

/-- At the beginning nobody was told anything. -/
theorem accounts_opening (new : IsNew f) (id : RequestId) (start : Instant) :
    Accounts id 0 (opening start f).shared := by
  cases new with
  | schedulers groups blocks schedulers =>
      exact ⟨rfl, fun again => absurd again (Nat.lt_irrefl 0)⟩
  | dispatchers bucket groups blocks costs =>
      exact ⟨rfl, fun again => absurd again (Nat.lt_irrefl 0)⟩

/-- At the beginning nothing is laid down. -/
theorem isGenuine_opening (new : IsNew f) (start : Instant) : IsGenuine (opening start f) := by
  refine ⟨?_, fun job member => by cases member⟩
  -- nothing is laid down and no request is made
  cases new with
  | schedulers groups blocks schedulers =>
      refine ⟨?_, fun found => by cases found⟩
      intro entry member
      have none := scripted_ofBlocks blocks
      simp only [opening, ofSchedulers, none] at member
      cases member
  | dispatchers bucket groups blocks costs =>
      refine ⟨?_, fun found => by cases found⟩
      intro entry member
      have none := scripted_ofBlocks blocks
      simp only [opening, ofDispatchers, none] at member
      cases member

variable {hs : List Moment} {start : Instant}

/-- The consumer is told of a request at most once exactly if no turn repeats a report. Without a
failure that stands for cancellation, the turns that do are those that bring a late block. -/
theorem told_le_one_iff (new : IsNew f) (h : History program (opening start f) hs e)
    (id : RequestId) :
    (e.shared.told id ≤ 1 ↔ ∀ m ∈ hs, Moment.repeats id m = false) ∧
      ((∀ m ∈ hs, Moment.handsCancelled m = false) →
        ∀ m ∈ hs, Moment.repeats id m = Moment.isLate id m) := by
  -- what was told is the mark and the repetitions, and one repetition needs the mark
  rcases accounts_of_history (accounts_opening new id start) h with ⟨told, marked⟩
  rw [Nat.zero_add] at told marked
  refine ⟨⟨?_, ?_⟩, ?_⟩
  · intro once m member
    cases heard : Moment.repeats id m with
    | false =>
        rfl
    | true =>
        have some : 0 < (hs.filter (Moment.repeats id)).length :=
          List.length_pos_of_mem (List.mem_filter.2 ⟨member, heard⟩)
        rw [marked some] at told
        simp only [Bool.toNat_true] at told
        omega
  · intro never
    have none : hs.filter (Moment.repeats id) = [] := by
      refine List.filter_eq_nil_iff.2 fun m member => ?_
      rw [never m member]
      exact Bool.false_ne_true
    rw [told, none]
    cases e.shared.isReported id <;> decide
  · intro plain
    exact (genuine_of_history (isGenuine_opening new start) h plain id).2

def zeroKey : Key :=
  .content ⟨List.replicate 32 0, rfl⟩

def overtaken : List Moment × State :=
  follow program
    (opening 0 (ofSchedulers [⟨.bulk, {}, .ofList [(.content, 0)]⟩]
      [(zeroKey, [97])] [{}]))
    -- both responses are kept back, and then both arrive
    [.act (.create 0 zeroKey 0 {}) (), .act (.gate true) (),
      .act (.send 0) (), .turn, .act (.send 0) (), .turn, .act (.release 0) (), .turn,
      .act (.release 1) (), .turn]

theorem overtaken_told_le_one_iff :
    (overtaken.2.shared.told 0 ≤ 1 ↔ ∀ m ∈ overtaken.1, Moment.repeats 0 m = false) ∧
      ((∀ m ∈ overtaken.1, Moment.handsCancelled m = false) →
        ∀ m ∈ overtaken.1, Moment.repeats 0 m = Moment.isLate 0 m) :=
  told_le_one_iff (.schedulers _ _ _) (history_follow _ _) 0

/-- A block is delivered although another one was delivered before it. -/
theorem not_told_le_one :
    ¬ ∀ (start : Instant) (f : Fetcher) (hs : List Moment) (e : State) (id : RequestId),
      IsNew f → History program (opening start f) hs e →
      (∀ m ∈ hs, Moment.handsCancelled m = false) → e.shared.told id ≤ 1 := by
  intro once
  have bound := once 0 _ overtaken.1 overtaken.2 0 (.schedulers _ _ _) (history_follow _ _)
    (by decide)
  exact absurd bound (by decide)

end Fetcher
end MeteredFetch
