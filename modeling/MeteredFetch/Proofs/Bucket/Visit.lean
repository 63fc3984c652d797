import MeteredFetch.Proofs.Bucket.Alone
import MeteredFetch.Proofs.Bucket.Bounds
import MeteredFetch.Proofs.Bucket.Rounds
import MeteredFetch.Proofs.Executor.Rest

/-!
# Visit — a lone caller while time passes

Time goes from alarm to alarm. If one caller only draws on a bucket, there is never more than one alarm,
that of its wait, and each turn is the next step in serving it. So it makes no difference in how many
pieces time passes: the caller is granted its tokens at one moment.

* `Bucket.Present` — whoever is ready stands, and `Bucket.present_of_history` says that it is so in every
  run;
* `Bucket.Visit` — the states of a run in which nobody stands but a caller that waits, or has ended;
* `Bucket.Visit.advance` — these are kept while time passes;
* `Bucket.granted_in_time` — when a lone caller is granted its tokens.
-/

namespace MeteredFetch
namespace Bucket

open Executor

variable {b b' : Bucket} {now t time : Instant} {id n : TaskId} {e e' : State}

/-! ## Who is ready -/

def Present (e : State) : Prop :=
  ∀ n ∈ e.ready, (e.task? n).isSome = true

namespace Present

theorem rouse (h : Present e) (id : TaskId) : Present (e.rouse id) := by
  unfold Executor.rouse
  split
  · rename_i stands
    intro n member
    rcases List.mem_append.1 member with old | new
    · exact h n old
    · cases List.mem_singleton.1 new
      exact (Bool.and_eq_true_iff.1 stands).1
  · exact h

theorem foldl_rouse (h : Present e) (ids : List TaskId) : Present (ids.foldl Executor.rouse e) := by
  induction ids generalizing e with
  | nil =>
      exact h
  | cons id rest ih =>
      exact ih (h.rouse id)

theorem foldl_wake (h : Present e) (ids : List TaskId) : Present (ids.foldl Executor.wake e) := by
  induction ids generalizing e with
  | nil =>
      exact h
  | cons id rest ih =>
      have cleared : Present (e.clearAlarm id) := h
      exact ih (cleared.rouse id)

/-- A task leaves the table and the ready list, and the others stay. -/
theorem set {task : Option Grab} (h : Present e) (tasks : e'.tasks = e.tasks.set id task)
    (ready : ∀ n ∈ e'.ready, n ∈ e.ready ∧ n ≠ id) : Present e' := by
  intro n member
  rcases ready n member with ⟨there, other⟩
  have before := h n there
  unfold task? at before ⊢
  rw [tasks, List.getElem?_set_ne (Ne.symm other)]
  exact before

end Present

/-- No move leaves a task ready that is gone. -/
theorem present_of_step (h : Present e) (roster : Roster e) {l : Label Action Answer}
    (step : Step program e l e') : Present e' := by
  cases step with
  | turn turned =>
      rcases turn_eq turned with ⟨_, rfl⟩ |
        ⟨id, rest, ready, ⟨_, rfl⟩ | ⟨_, rfl⟩ | ⟨g, b, o, _, _, rfl⟩⟩
      · exact h
      · exact fun n member => h n (ready ▸ List.mem_cons_of_mem _ member)
      · exact fun n member => h n (ready ▸ List.mem_cons_of_mem _ member)
      · refine h.set (tasks_afterTurn e id g b o) fun n member => ?_
        -- whose turn it was may be gone, but it is no longer ready
        have once := roster.once
        rw [ready_afterTurn, ready] at member
        rw [ready] at once ⊢
        refine ⟨List.mem_cons_of_mem _ member, ?_⟩
        rintro rfl
        exact (List.nodup_cons.1 once).1 member
  | clock time =>
      exact Present.foldl_rouse (e := { e with now := time, alarms := e.alarms.map (.ring time) }) h _
  | kill task =>
      rw [kill_eq]
      unfold Executor.drop
      split
      · exact h
      · refine h.set rfl fun n member => ?_
        rcases List.mem_filter.1 member with ⟨there, other⟩
        exact ⟨there, by simpa using other⟩
  | @act _ action answer acted =>
      cases action with
      | operate op =>
          rcases operate_eq acted with ⟨b, woken, _, rfl⟩
          exact Present.foldl_wake (e := { e with shared := b }) h woken
      | grab tokens =>
          cases grab_eq acted
          intro n member
          rcases List.mem_append.1 member with old | new
          · have inside := roster.known n old
            have before := h n old
            unfold task? at before ⊢
            simp only [spawn, List.getElem?_append_left inside]
            exact before
          · cases List.mem_singleton.1 new
            simp [task?, spawn]

theorem present_of_history {start : Instant} {hs : List Moment}
    (history : History program (opening start b) hs e) : Present e := by
  induction history with
  | refl =>
      exact fun n member => absurd member List.not_mem_nil
  | tail earlier step ih =>
      exact present_of_step ih (roster_of_history earlier) step

/-- Where nobody stands, nobody is ready and no alarm is set. -/
theorem quiet_of_history {start : Instant} {hs : List Moment}
    (history : History program (opening start b) hs e) (nobody : ∀ id, e.task? id = none) :
    e.ready = [] ∧ e.alarms = [] := by
  have present := present_of_history history
  have roster := roster_of_history history
  constructor
  · refine List.eq_nil_iff_forall_not_mem.2 fun n member => ?_
    have stands := present n member
    rw [nobody n] at stands
    cases stands
  · refine List.eq_nil_iff_forall_not_mem.2 fun a member => ?_
    have stands := roster.isSome_of_mem member
    rw [nobody a.task] at stands
    cases stands

/-! ## Turns -/

/-- A task that is ready and does not sleep on has its turn. -/
theorem turn_of_ready {rest : List TaskId} {g : Grab} {o : Option Caller} (ready : e.ready = id :: rest)
    (awake : e.sleepsOn id = false) (stands : e.task? id = some g)
    (turned : g.caller.turn e.now id e.shared = .ok (b, o)) :
    e.turn program = .ok (afterTurn e id g b o) := by
  unfold afterTurn
  rw [ready, List.tail_cons]
  cases o with
  | none =>
      exact turn_of_first (t := ⟨b, [], .finish g.tokens⟩) ready awake stands
        (by simp only [program, Bucket.turn, turned]; rfl)
  | some caller =>
      refine (turn_of_first (t := ⟨b, [], .wait { g with caller } caller.alarm⟩) ready awake stands
        (by simp only [program, Bucket.turn, turned]; rfl)).trans ?_
      cases caller <;> rfl

/-! ## The states of a visit -/

variable {tasks : List (Option Grab)} {finished : List (Completion UInt64)} {tokens : UInt64}

def asleep (tasks : List (Option Grab)) (finished : List (Completion UInt64)) (tokens : UInt64)
    (now : Instant) (b : Bucket) (w : Wait) (rest : Chunks) : State where
  now := now
  shared := b
  tasks := tasks ++ [some ⟨tokens, .waiting w rest⟩]
  alarms := [{ deadline := w.deadline, task := tasks.length }]
  finished := finished

def served (tasks : List (Option Grab)) (finished : List (Completion UInt64)) (tokens : UInt64)
    (time now : Instant) (b : Bucket) : State where
  now := now
  shared := b
  tasks := tasks ++ [none]
  finished := ⟨tasks.length, tokens, time⟩ :: finished

/-- Nobody stands but one caller, the last to come. It waits, and is served from the end of its wait on;
or it was granted its tokens at `time`. -/
inductive Visit (tasks : List (Option Grab)) (finished : List (Completion UInt64)) (tokens : UInt64)
    (time : Instant) : State → Prop
  | waits {now : Instant} {b b' : Bucket} {w : Wait} {rest : Chunks} :
      now < w.deadline → w.pricedAt = b.interval →
        Serves tasks.length w.deadline ((b.leave tasks.length).withdraw w.owed) rest time b' →
        Visit tasks finished tokens time (asleep tasks finished tokens now b w rest)
  | granted {now : Instant} {b : Bucket} : time ≤ now →
      Visit tasks finished tokens time (served tasks finished tokens time now b)

namespace Visit

/-- The turn of the caller leads to the next state of its visit. -/
theorem of_turn (tasks : List (Option Grab)) (finished : List (Completion UInt64)) (g : Grab)
    (alarms : List Alarm) {c : Chunks} (own : g.tokens = tokens) (due : ∀ a ∈ alarms, a.task = tasks.length ∧ a.deadline ≤ now)
    (turned : g.caller.turn now tasks.length b = b₁.drawAll now tasks.length c)
    (serves : Serves tasks.length now b₁ c time b') :
    ∃ e', ({ now, shared := b, tasks := tasks ++ [some g], ready := [tasks.length], alarms
             finished } : State).run program = .ok e' ∧
      Visit tasks finished tokens time e' ∧ e'.now = now := by
  generalize start : ({ now, shared := b, tasks := tasks ++ [some g], ready := [tasks.length], alarms
                        finished } : State) = e
  have ready : e.ready = [tasks.length] := by rw [← start]
  have stands : e.task? tasks.length = some g := by
    rw [← start]
    simp [task?]
  have awake : e.sleepsOn tasks.length = false := by
    rw [← start]
    unfold sleepsOn alarm?
    cases found : alarms.find? fun a => a.task == tasks.length with
    | none =>
        rfl
    | some a =>
        have past := (due a (List.mem_of_find?_eq_some found)).2
        simp [Alarm.isDue, past]
  have cleared : alarms.filter (fun a => a.task != tasks.length) = [] := by
    refine List.filter_eq_nil_iff.2 fun a member => ?_
    simp [(due a member).1]
  have looked : g.caller.turn e.now tasks.length e.shared = b₁.drawAll now tasks.length c := by
    rw [← start]
    exact turned
  have busy : e.ready ≠ [] := by
    rw [ready]
    exact List.cons_ne_nil _ _
  -- there is one turn, and then nobody is ready
  have next : ∀ {b₂ o}, b₁.drawAll now tasks.length c = .ok (b₂, o) →
      e.run program = .ok (afterTurn e tasks.length g b₂ o) := by
    intro b₂ o drawn
    refine run_of_turn busy (turn_of_ready ready awake stands (looked.trans drawn)) ?_
    rw [ready_afterTurn, ready]
    rfl
  -- either all chunks are drawn in it, or one has to be waited for
  rcases serves.drawAll with ⟨drawn, rfl⟩ | ⟨b₂, w, rest, drawn, later, priced, serves⟩
  · refine ⟨_, next drawn, ?_, ?_⟩
    · have left : afterTurn e tasks.length g b' none =
          served tasks finished tokens time time b' := by
        rw [← start, ← own]
        simp [served, afterTurn, clearAlarm, setAlarm, ended, cleared]
      rw [left]
      exact .granted (Nat.le_refl time)
    · rw [now_afterTurn, ← start]
  · refine ⟨_, next drawn, ?_, ?_⟩
    · have left : afterTurn e tasks.length g b₂ (some (.waiting w rest)) =
          asleep tasks finished tokens now b₂ w rest := by
        rw [← start, ← own]
        simp [asleep, afterTurn, clearAlarm, setAlarm, ended, cleared, Caller.alarm, Alarm.insert]
      rw [left]
      exact .waits later priced serves
    · rw [now_afterTurn, ← start]

/-- Between two commands of a visit nobody is ready. -/
theorem ready (visit : Visit tasks finished tokens time e) : e.ready = [] := by
  cases visit <;> rfl

/-- What has ended says whether the tokens were granted. -/
theorem finished_eq (visit : Visit tasks finished tokens time e) :
    e.finished = if time ≤ e.now then ⟨tasks.length, tokens, time⟩ :: finished else finished := by
  cases visit with
  | waits later _ serves =>
      exact (if_neg (Nat.not_le.2 (Nat.lt_of_lt_of_le later serves.le))).symm
  | granted past =>
      exact (if_pos past).symm

/-- Time passes up to a moment before the alarm. -/
theorem setClock_asleep {w : Wait} {rest : Chunks} {target : Instant} (early : target < w.deadline) :
    (asleep tasks finished tokens now b w rest).setClock target =
      asleep tasks finished tokens target b w rest := by
  have ahead : ¬ w.deadline ≤ target := Nat.not_le.2 early
  simp [asleep, setClock, Alarm.isDue, Alarm.ring, ahead]

/-- The alarm rings, and the caller is ready. -/
theorem setClock_due {w : Wait} {rest : Chunks} :
    (asleep tasks finished tokens now b w rest).setClock w.deadline =
      { now := w.deadline, shared := b, tasks := tasks ++ [some ⟨tokens, .waiting w rest⟩]
        ready := [tasks.length]
        alarms := [{ deadline := w.deadline, task := tasks.length, rung := true }], finished } := by
  simp [asleep, setClock, Alarm.isDue, Alarm.ring, rouse, task?]

/-- The wait of a caller is over when its alarm rings. -/
theorem turn_waiting {w : Wait} {rest : Chunks} (priced : w.pricedAt = b.interval) :
    Caller.turn w.deadline id b (.waiting w rest) =
      ((b.leave id).withdraw w.owed).drawAll w.deadline id rest := by
  have same : w.reprice w.deadline (b.leave id).interval = .ok w := by
    unfold Wait.reprice
    rw [priced]
    exact if_neg (Nat.lt_irrefl _)
  simp only [Caller.turn, same, bind, Except.bind, Nat.le_refl, if_true]

/-- Time passes. -/
theorem passFor {target : Instant} {k : Nat} (visit : Visit tasks finished tokens time e)
    (onward : e.now ≤ target) (enough : target < e.now + k) :
    ∃ e', e.passFor program target k = .ok e' ∧ Visit tasks finished tokens time e' ∧
      e'.now = target := by
  induction k generalizing e with
  | zero =>
      exact absurd enough (Nat.not_lt.2 onward)
  | succ k ih =>
      cases visit with
      | @waits now b _ w rest later priced serves =>
          have next : (asleep tasks finished tokens now b w rest).nextDeadline? = some w.deadline := rfl
          have stop : max now w.deadline = w.deadline := Nat.max_eq_right (Nat.le_of_lt later)
          simp only [Executor.passFor, next]
          split
          · -- the clock goes to the alarm, and the caller has its turn
            rename_i due
            rcases of_turn tasks finished ⟨tokens, .waiting w rest⟩
                [{ deadline := w.deadline, task := tasks.length, rung := true }] rfl (by simp) (turn_waiting priced) serves with ⟨e₁, ran, visit, now'⟩
            have further : target < e₁.now + k := by
              rw [now']
              change target < now + (k + 1) at enough
              unfold Instant at *
              omega
            rcases ih visit (now'.trans_le due) further with ⟨e', passed, there⟩
            refine ⟨e', ?_, there⟩
            change (((asleep tasks finished tokens now b w rest).setClock (max now w.deadline)).run
              program >>= _) = _
            rw [stop, setClock_due, ran]
            exact passed
          · rename_i beyond
            have early : target < w.deadline := Nat.lt_of_not_le beyond
            exact ⟨_, congrArg _ (setClock_asleep early), .waits early priced serves, rfl⟩
      | granted past =>
          exact ⟨_, rfl, .granted (Nat.le_trans past onward), rfl⟩

/-- Time that passes in a visit leads to a visit. -/
theorem advance (visit : Visit tasks finished tokens time e) (duration : Nat) :
    ∃ e', e.advance program duration = .ok e' ∧ Visit tasks finished tokens time e' ∧
      e'.now = e.now + duration := by
  unfold Executor.advance
  rw [run_of_rest visit.ready]
  exact visit.passFor (Nat.le_add_right _ _) (Nat.lt_succ_self _)

/-- In however many parts time passes, a visit goes on. -/
theorem advances (visit : Visit tasks finished tokens time e) (durations : List Nat) :
    ∃ e', durations.foldlM (fun e duration => e.advance program duration) e = .ok e' ∧
      Visit tasks finished tokens time e' ∧ e'.now = e.now + durations.sum := by
  induction durations generalizing e with
  | nil =>
      exact ⟨e, rfl, visit, rfl⟩
  | cons duration rest ih =>
      rcases visit.advance duration with ⟨e₁, advanced, visit₁, now⟩
      rcases ih visit₁ with ⟨e₂, rest, visit₂, now'⟩
      refine ⟨e₂, ?_, visit₂, ?_⟩
      · rw [List.foldlM_cons, advanced]
        exact rest
      · rw [now', now, List.sum_cons]
        exact Nat.add_assoc _ _ _

end Visit

/-! ## When a lone caller is granted its tokens -/

variable {capacity interval : UInt64} {initial : Int64} {start : Instant} {hs : List Moment}

/-- If the clock is never set back, all its readings lie in the past. -/
theorem latestReading_le (history : History program (opening start b) hs e)
    (forward : ∀ m ∈ hs, Executor.Moment.isForward m = true) : latestReading start hs ≤ e.now := by
  induction history with
  | refl =>
      exact Nat.le_refl start
  | @tail hs l e e' _ step ih =>
      have before := ih fun m member => forward m (List.mem_append_left _ member)
      have onward : e.now ≤ e'.now := by
        by_cases clock : ∃ time, l = .clock time
        · rcases clock with ⟨time, rfl⟩
          cases step
          rw [(setClock_alike e time).now]
          exact of_decide_eq_true (forward (e, .clock time) (by simp))
        · exact (silent_of_step step fun time same => clock ⟨time, same⟩).1.ge
      rw [latestReading_snoc]
      split
      · exact Nat.max_le.2 ⟨Nat.le_trans before onward, onward⟩
      · exact Nat.le_trans before onward

/-- A caller comes to a bucket that nobody draws on, whose cursor does not lie ahead, and that has no
debt unless one chunk is enough for the caller. Then there is a moment at which the caller is granted its
tokens, in however many pieces time passes. It is not before the tokens that were missing, with any debt,
have been earned since the last credit. It is later than that takes by less than a millisecond for each
chunk, and if nothing was missing it is at once. -/
theorem granted_in_time (made : create capacity interval initial start = .ok b)
    (history : History program (opening start b) hs e)
    (forward : ∀ m ∈ hs, Executor.Moment.isForward m = true)
    (nobody : ∀ id, e.task? id = none) (free : e.shared.cursor ≤ e.now) (tokens : UInt64)
    (apart : 0 ≤ (e.shared.credit e.now).balance ∨
      e.shared.chunkCount tokens = 1 ∧ e.shared.shortfall e.now tokens ≤ maxBalance)
    (inTime : e.shared.interval * e.shared.shortfall e.now tokens ≤ maxWord * 1000000) :
    ∃ e₁, e.act program (.grab tokens) = .ok (e₁, .done) ∧
      ∃ time, e.now ≤ time ∧
        (e.shared.credit e.now).creditedTo +
          e.shared.interval * e.shared.shortfall e.now tokens ≤ time ∧
        time < e.now + e.shared.interval * e.shared.shortfall e.now tokens +
          e.shared.chunkCount tokens * 1000000 ∧
        (e.shared.shortfall e.now tokens = 0 → time = e.now) ∧
        ∀ first durations, ∃ e₂,
          (first :: durations).foldlM (fun e duration => e.advance program duration) e₁ = .ok e₂ ∧
            e₂.now = e.now + (first :: durations).sum ∧
            e₂.finished = if time ≤ e₂.now then ⟨e.tasks.length, tokens, time⟩ :: e.finished
              else e.finished := by
  have bounded := ((keeps_of_history (bounded_of_create made) history).bounded.mono
    (latestReading_le history forward))
  have upTo := (bounded.credit e.now).upTo
  rw [Nat.max_self] at upTo
  rcases quiet_of_history history nobody with ⟨ready, alarms⟩
  rcases chunksOf_total bounded.positive tokens with ⟨c, split⟩
  rcases serves_of_arrival e.tasks.length bounded.earns bounded.positive bounded.fits free upTo
    split apart inTime with ⟨time, b', serves, later, long, short, exact⟩
  have arriving : (Grab.start tokens).caller.turn e.now e.tasks.length e.shared =
      e.shared.drawAll e.now e.tasks.length c := by
    simp only [Grab.start, Caller.turn, split]
    rfl
  rcases Visit.of_turn e.tasks e.finished (.start tokens) [] rfl
    (fun a member => absurd member List.not_mem_nil) arriving serves with ⟨e', ran, visit, now⟩
  have came : e.spawn (.start tokens) =
      { now := e.now, shared := e.shared, tasks := e.tasks ++ [some (.start tokens)]
        ready := [e.tasks.length], alarms := [], finished := e.finished } := by
    simp [spawn, ready, alarms]
  refine ⟨e.spawn (.start tokens), rfl, time, later, long, short, exact, fun first durations => ?_⟩
  rcases visit.advances (first :: durations) with ⟨e₂, advanced, visit₂, now₂⟩
  have same : (e.spawn (.start tokens)).advance program first = e'.advance program first := by
    unfold Executor.advance
    rw [came, ran, run_of_rest visit.ready]
  refine ⟨e₂, ?_, now₂.trans (by rw [now]), visit₂.finished_eq⟩
  rw [List.foldlM_cons] at advanced ⊢
  rw [same]
  exact advanced

def halfFull : List Moment × State :=
  follow program (opening 0 ⟨4, 10, 1500000, 0, 0, []⟩)
    -- half a millisecond has passed since the last token was earned
    [.clock 2000000, .act (.operate .credit) ()]

theorem halfFull_granted_in_time :
    halfFull.2.shared.chunkCount 25 = 3 ∧ halfFull.2.shared.shortfall halfFull.2.now 25 = 20 ∧
      ∃ e₁, halfFull.2.act program (.grab 25) = .ok (e₁, .done) ∧
        ∃ time, 31500000 ≤ time ∧ time < 35000000 ∧
          ∀ first durations, ∃ e₂,
            (first :: durations).foldlM (fun e duration => e.advance program duration) e₁ =
                .ok e₂ ∧
              e₂.now = 2000000 + (first :: durations).sum ∧
              e₂.finished = if time ≤ e₂.now then [⟨0, 25, time⟩] else [] := by
  have nobody : ∀ id, halfFull.2.task? id = none := fun id => rfl
  have missing : halfFull.2.shared.shortfall halfFull.2.now 25 = 20 := by decide
  have made : create 10 1500000 4 0 = .ok ⟨4, 10, 1500000, 0, 0, []⟩ := rfl
  rcases granted_in_time made (history_follow _ _) (by decide) nobody (by decide) 25 (by decide) (by decide) with
    ⟨e₁, came, time, _, long, short, _, passes⟩
  exact ⟨by decide, missing, e₁, came, time, long, short, passes⟩

end Bucket
end MeteredFetch
