import MeteredFetch.Proofs.Fetcher.Tending

/-!
# Custody — requests are neither lost nor copied

A request that was registered is in one place at a time: in the mail of a dispatcher, among the
requests that wait there, chosen and waiting for tokens, or on its way in a task. It leaves when its
consumer is told how it ended.

* `Fetcher.custody` — the requests that are somewhere, once for every place;
* `Fetcher.Tends` — how far a request has come in a state of a run;
* `Fetcher.tends_of_step`, `Fetcher.tends_of_history` — no run loses or copies a request that leaves
  it to dispatchers to send requests;
* `Fetcher.custody_of_accepted` — a request that was registered is in one place or has ended, and
  is searched for at most once more than it may be retried.
-/

namespace MeteredFetch
namespace Fetcher

open Executor

/-! ## Places -/

/-- The requests that are in a task, in the mail of a dispatcher or wait there, once for every
place. -/
def custody (e : State) : List RequestId :=
  e.tasks.flatMap (fun t => (t.map Job.held).getD []) ++
    e.shared.schedulers.flatMap (·.waiting) ++
    e.shared.dispatchers.flatMap fun d => d.pending.map (·.request)

/-- The places where a request is are counted by task and by store. -/
theorem count_custody (id : RequestId) (e : State) :
    (custody e).count id = total (Job.holds id) e.tasks + e.shared.stored id := by
  have task : ∀ t : Option Job, ((t.map Job.held).getD []).count id = share (Job.holds id) t := by
    intro t
    cases t <;> rfl
  simp only [custody, List.count_append, List.count_flatMap, Function.comp_def, task]
  simp only [total, stored, mailed, queued, Nat.add_assoc]

/-! ## States of a run -/

structure Tends (n : Nat) (id : RequestId) (registered : Bool) (e : State) : Prop where
  shared : Tended n id (total (Job.holds id) e.tasks) (total (Job.awaits id) e.tasks) e.shared []
    registered
  tasks : ∀ job, some job ∈ e.tasks → job.Works n

variable {id : RequestId} {n rest flying rest' flying' : Nat} {registered : Bool} {f : Fetcher}
  {jobs jobs' : List Job} {e e' : State}

/-- Whoever awaits a response for a request holds it. -/
theorem awaits_le_holds_total (id : RequestId) (tasks : List (Option Job)) :
    total (Job.awaits id) tasks ≤ total (Job.holds id) tasks :=
  total_mono (awaits_le_holds id) tasks

/-- Tasks can be counted one by one or together with the rest. -/
theorem Tended.regroup (h : Tended n id rest flying f jobs registered)
    (busy : ∀ job ∈ jobs', job.Works n) (few : flying' ≤ rest')
    (holds : rest' + (jobs'.map (Job.holds id)).sum = rest + (jobs.map (Job.holds id)).sum)
    (awaits : flying' + (jobs'.map (Job.awaits id)).sum =
      flying + (jobs.map (Job.awaits id)).sum) :
    Tended n id rest' flying' f jobs' registered := by
  refine ⟨h.works, busy, few, ?_⟩
  rw [holds, awaits]
  exact h.stage

/-- A sweep leaves requests where they are. -/
theorem Tended.sweep (h : Tended n id rest flying f jobs registered) (tasks : List (Option Job)) :
    Tended n id rest flying (Fetcher.sweep tasks f).1 jobs registered := by
  rcases sweep_same tasks f with ⟨schedulers, same, kept⟩
  rw [same]
  have works : Works n { f with schedulers } := by
    refine h.works.congr rfl ?_ ?_ fun r member => ⟨r, member, rfl, rfl⟩
    · simpa using congrArg List.length kept
    · intro s member
      have seen : mail s ∈ f.schedulers.map mail := by
        rw [← kept]
        exact List.mem_map_of_mem member
      rcases List.mem_map.1 seen with ⟨s', before, alike⟩
      simp only [mail, Prod.mk.injEq] at alike
      rcases alike with ⟨_, reception, adjustable⟩
      rw [← reception, ← adjustable]
      exact h.works.fixed s' before
  have waits : ({ f with schedulers } : Fetcher).stored id = f.stored id :=
    congrArg (· + f.queued id) (mailed_of_mail kept id)
  exact h.of_eq works rfl rfl rfl h.busy (by rw [waits]) rfl

/-- Who is ready does not matter to how far a request has come. -/
theorem Tends.of_alike (h : Tends n id registered e) (alike : Alike e e') :
    Tends n id registered e' := by
  refine ⟨?_, ?_⟩
  · rw [alike.tasks, alike.shared]
    exact h.shared
  · rw [alike.tasks]
    exact h.tasks

/-- The tasks that a turn starts are counted where they stand in the end. -/
theorem Tends.carryOutAll {effects : List (Effect Job)} (gentle : Gentle effects)
    (tasks : ∀ job, some job ∈ e.tasks → job.Works n)
    (h : Tended n id (total (Job.holds id) e.tasks) (total (Job.awaits id) e.tasks) e.shared
      (spawned effects) registered) :
    Tends n id registered (e.carryOutAll program effects) := by
  refine Tends.of_alike ?_ (carryOutAll_alike program gentle e)
  refine ⟨Tended.sweep ?_ _, ?_⟩
  · refine h.regroup (by simp) (awaits_le_holds_total id _) ?_ ?_
    · simp
    · simp
  · intro job member
    rcases List.mem_append.1 member with old | new
    · exact tasks job old
    · rcases List.mem_map.1 new with ⟨_, started, same⟩
      cases same
      exact h.busy job started

/-! ## Moves -/

def Job.isGrab : Job → Bool
  | .grab _ _ => true
  | .send _ _ | .retry _ _ | .dispatch _ _ _ | .serve _ _ => false

namespace Moment

/-- Whether the move leaves it to dispatchers to send requests, and drops none of them. -/
def isProper (m : Moment) : Bool :=
  match m.2 with
  | .act action _ => action.isProper
  | .kill task => (m.1.task? task).all Job.isGrab
  | .turn | .clock _ => true

def schedules (id : RequestId) (m : Moment) : Bool :=
  match m.2 with
  | .act action _ => action.schedules id
  | _ => false

def registers (id : RequestId) (m : Moment) : Bool :=
  match m.2 with
  | .act action answer => action.schedules id && answer.isAccepted
  | _ => false

end Moment

/-- Every turn brings a request further, or leaves it where it is. -/
theorem tends_of_turn (h : Tends n id registered e) (turned : e.turn program = .ok e') :
    Tends n id registered e' := by
  rcases turn_cases turned with ⟨_, alike⟩ | ⟨number, job, t, middle, next, went, alike, rfl⟩
  · exact h.of_alike alike
  · have there := task?_of_next? next
    have out := fun count => total_set (M := Nat) count there none
    have back := fun count => total_set (M := Nat) count there (standing t.next)
    simp only [share_some, share_none, Nat.add_zero] at out back
    have busy : job.Works n := h.tasks job (List.mem_of_getElem? there)
    -- the task is counted for itself while it takes its turn
    have taken : Tended n id (total (Job.holds id) (e.tasks.set number none))
        (total (Job.awaits id) (e.tasks.set number none)) e.shared [job] registered := by
      refine h.shared.regroup (by simpa using busy) (awaits_le_holds_total id _) ?_ ?_
      · simpa using out (Job.holds id)
      · simpa using out (Job.awaits id)
    rcases tended_of_turn taken went with ⟨gentle, after⟩
    have joined : ∀ count : Job → Nat, total count (e.tasks.set number (standing t.next)) =
        total count (e.tasks.set number none) + ((standing t.next).toList.map count).sum := by
      intro count
      have before := out count
      have later := back count
      rw [share_eq_sum] at later
      omega
    refine Tends.carryOutAll gentle ?_ ?_
    · rw [alike.tasks]
      refine forall_task_set h.tasks ?_
      exact fun job' stands =>
        after.busy job' (List.mem_append_left _ (Option.mem_toList.2 stands))
    · rw [alike.tasks, alike.shared]
      refine after.regroup ?_ (awaits_le_holds_total id _) ?_ ?_
      · exact fun job' member => after.busy job' (List.mem_append_right _ member)
      · simp only [joined, List.map_append, List.sum_append, Nat.add_assoc]
      · simp only [joined, List.map_append, List.sum_append, Nat.add_assoc]

/-- A task that was never a dispatcher's takes no request along. -/
theorem tends_of_kill {task : TaskId} (h : Tends n id registered e)
    (proper : Moment.isProper (e, .kill task) = true) :
    Tends n id registered (e.kill program task) := by
  have swept : ∀ {e : State}, Tends n id registered e →
      Tends n id registered (e.sweep program) := by
    intro e h
    exact Tends.of_alike (e := { e with shared := (Fetcher.sweep e.tasks e.shared).1 })
      ⟨h.shared.sweep e.tasks, h.tasks⟩ (sweep_alike program e)
  refine swept ?_
  cases found : e.task? task with
  | none =>
      -- it is gone already
      rw [drop_of_task?_eq_none program found]
      exact h
  | some job =>
      refine Tends.of_alike ?_ (drop_alike program e found)
      have there := getElem?_of_task? found
      cases job with
      | grab tokens caller =>
          -- a withdrawal holds no request
          have gone := fun count => total_set (M := Nat) count there none
          have holds : total (Job.holds id) (e.tasks.set task none) =
              total (Job.holds id) e.tasks := gone (Job.holds id)
          have awaits : total (Job.awaits id) (e.tasks.set task none) =
              total (Job.awaits id) e.tasks := gone (Job.awaits id)
          refine ⟨?_, ?_⟩
          · simp only [holds, awaits]
            have works : Works n { e.shared with bucket := e.shared.bucket.leave task } :=
              h.shared.works.onwards (.refl _) rfl rfl
            exact h.shared.of_eq works rfl rfl rfl h.shared.busy rfl rfl
          · exact forall_task_set h.tasks (by simp)
      | _ =>
          simp [Moment.isProper, found, Job.isGrab] at proper

/-- In a proper run every move leaves a request in one place, or its consumer informed. -/
theorem tends_of_step {l : Label Action Answer} (h : Tends n id registered e)
    (proper : Moment.isProper (e, l) = true)
    (once : Moment.schedules id (e, l) = true → registered = false)
    (step : Step program e l e') :
    Tends n id (registered || Moment.registers id (e, l)) e' := by
  cases step with
  | act acted =>
      rcases act_cases acted with ⟨r, performed, rfl, rfl⟩
      rcases tended_of_perform h.shared proper once performed with ⟨gentle, after⟩
      exact Tends.carryOutAll gentle h.tasks after
  | turn turned =>
      simpa [Moment.registers] using tends_of_turn h turned
  | clock time =>
      have set : Tends n id registered { e with now := time } := ⟨h.shared, h.tasks⟩
      simpa [Moment.registers] using set.of_alike (setClock_alike e time)
  | kill task =>
      simpa [Moment.registers] using tends_of_kill h proper

/-! ## Runs -/

variable {hs : List Moment}

/-- Only a call that is to register a request registers it. -/
theorem schedules_of_registers {m : Moment} (h : m.registers id = true) :
    m.schedules id = true := by
  unfold Moment.registers at h
  unfold Moment.schedules
  split at h
  · exact (Bool.and_eq_true_iff.1 h).1
  · cases h

/-- How far a request has come is known in every state of a proper run that registers it once at most.
-/
theorem tends_of_history (h : Tends n id false e) (history : History program e hs e')
    (proper : ∀ m ∈ hs, m.isProper = true) (once : (hs.filter (Moment.schedules id)).length ≤ 1) :
    Tends n id (hs.any (Moment.registers id)) e' := by
  -- a request that is scheduled by the last move was not scheduled before it
  induction history with
  | refl =>
      exact h
  | @tail hs l e' e'' _ step ih =>
      have count : (hs ++ [(e', l)]).filter (Moment.schedules id) =
          hs.filter (Moment.schedules id) ++ [(e', l)].filter (Moment.schedules id) :=
        List.filter_append ..
      rw [count, List.length_append] at once
      have before := ih (fun m member => proper m (List.mem_append_left _ member))
        (Nat.le_of_add_right_le once)
      have first : Moment.schedules id (e', l) = true →
          hs.any (Moment.registers id) = false := by
        intro again
        cases some : hs.any (Moment.registers id) with
        | false =>
            rfl
        | true =>
            rcases List.any_eq_true.1 some with ⟨m, member, registers⟩
            have earlier : 0 < (hs.filter (Moment.schedules id)).length :=
              List.length_pos_of_mem
                (List.mem_filter.2 ⟨member, schedules_of_registers registers⟩)
            simp only [List.filter_cons, again, if_true, List.filter_nil,
              List.length_singleton] at once
            omega
      have after := tends_of_step before (proper (e', l) (by simp)) first step
      simpa using after

/-- At the beginning no request is anywhere. -/
theorem tends_opening (start : Instant) (bucket : Bucket) (groups : List Group)
    (blocks : List (Key × Bytes)) (costs : List UInt64) (id : RequestId) :
    Tends costs.length id false (opening start (ofDispatchers bucket groups blocks costs)) := by
  have works : Works costs.length (ofDispatchers bucket groups blocks costs) := by
    refine ⟨List.length_map _, List.length_map _, ?_, ?_, ?_⟩
    · intro s member
      rcases List.mem_map.1 member with ⟨_, _, rfl⟩
      exact ⟨rfl, .inl rfl⟩
    · intro r member
      cases member
    · intro r member
      cases member
  have nowhere : (ofDispatchers bucket groups blocks costs).stored id = 0 := by
    simp [stored, mailed, queued, ofDispatchers, Function.comp_def]
  have unborn : Stage id (ofDispatchers bucket groups blocks costs) 0 0 false :=
    .unborn rfl rfl rfl rfl
  refine ⟨⟨works, by simp, Nat.le_refl _, ?_⟩, fun job member => by cases member⟩
  simpa [opening, nowhere] using unborn

/-- A request whose registration was accepted is in exactly one place and its consumer was told
nothing, or it is in none and its consumer was told once how it ended. It was searched for at most
once more than it may be retried. -/
theorem custody_of_accepted {start : Instant} {bucket : Bucket} {groups : List Group}
    {blocks : List (Key × Bytes)} {costs : List UInt64}
    (h : History program (opening start (ofDispatchers bucket groups blocks costs)) hs e)
    (proper : ∀ m ∈ hs, m.isProper = true) (id : RequestId)
    (once : (hs.filter (Moment.schedules id)).length ≤ 1) :
    ((∃ m ∈ hs, m.2 = .act (.schedule id) .accepted) →
      ((custody e).count id = 1 ∧ e.shared.told id = 0) ∨
        ((custody e).count id = 0 ∧ e.shared.told id = 1)) ∧
      ∀ r, e.shared.requests[id]? = some r →
        ∀ most, r.retries = .limited most → e.shared.searches id ≤ most + 1 := by
  have tends := tends_of_history (tends_opening start bucket groups blocks costs id) h proper once
  have stage := tends.shared.stage
  simp only [List.map_nil, List.sum_nil, Nat.add_zero] at stage
  refine ⟨?_, ?_⟩
  · rintro ⟨m, member, accepts⟩
    have registered : hs.any (Moment.registers id) = true := by
      refine List.any_eq_true.2 ⟨m, member, ?_⟩
      simp [Moment.registers, accepts, Action.schedules, Answer.isAccepted]
    rw [registered] at stage
    rw [count_custody]
    exact stage.custody
  · intro r found most limited
    have few := awaits_le_holds_total id e.tasks
    exact stage.searches_le (Nat.le_add_right_of_le few) found limited

def resent : List Moment × State :=
  follow program
    (opening 0 (ofDispatchers ⟨10, 10, 1000000, 0, 0, []⟩ [⟨.bulk, {}, .ofList [(.content, 0)]⟩]
      [(zeroKey, [97])] [2]))
    -- the first attempt fails
    [.act (.script zeroKey (.fault (.classified .transferFailed))) (),
      .act (.create 0 zeroKey 2 {}) (), .act (.schedule 0) (),
      .act (.start 0) (), .turn, .turn, .turn, .turn]

theorem resent_custody_of_accepted :
    (∀ m ∈ resent.1, Moment.isProper m = true) ∧
      (resent.1.filter (Moment.schedules 0)).length ≤ 1 ∧
      (∃ m ∈ resent.1, m.2 = .act (.schedule 0) .accepted) ∧
      resent.2.shared.searches 0 = 2 ∧
      (((custody resent.2).count 0 = 1 ∧ resent.2.shared.told 0 = 0) ∨
        ((custody resent.2).count 0 = 0 ∧ resent.2.shared.told 0 = 1)) ∧
      ∀ r, resent.2.shared.requests[0]? = some r →
        ∀ most, r.retries = .limited most → resent.2.shared.searches 0 ≤ most + 1 := by
  have proper : ∀ m ∈ resent.1, Moment.isProper m = true := by decide
  have once : (resent.1.filter (Moment.schedules 0)).length ≤ 1 := by decide
  have accepted : ∃ m ∈ resent.1, m.2 = .act (.schedule 0) .accepted := by decide
  rcases custody_of_accepted (history_follow _ _) proper 0 once with ⟨kept, few⟩
  exact ⟨proper, once, accepted, by decide, kept accepted, few⟩

end Fetcher
end MeteredFetch
