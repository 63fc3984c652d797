import MeteredFetch.Proofs.Executor.Alarms
import MeteredFetch.Proofs.Bucket.Steps

/-!
# Roster — who is ready and whose alarm is set

The alarm of a caller that waits is set to the deadline of its wait. As long as it has not rung it lies
ahead of the clock, and the caller is not ready; when it has rung the caller is ready, once.

* `Bucket.alarms_afterTurn`, `Bucket.later_of_turn` — the alarm that a turn sets lies ahead of the clock;
* `Bucket.Roster` — ready list and alarms agree with each other and with the waits;
* `Bucket.roster_of_step`, `Bucket.roster_of_history` — they do so in every run.
-/

namespace MeteredFetch
namespace Bucket

open Executor

variable {b b' : Bucket} {now : Instant} {id n : TaskId} {e e' : State}

/-! ## The alarm that a turn sets -/

/-- Whoever has to wait waits for a moment to come. -/
theorem Draws.later {c : Chunks} {ds : List Draw} {o : Option Caller}
    (drawn : Draws now id c b ds b' o) :
    ∀ w, o.bind Caller.wait? = some w → now < w.deadline := by
  induction drawn with
  | done b last =>
      intro w waits
      cases waits
  | taken first drawn _ ih =>
      exact ih
  | held first drawn =>
      intro w waits
      cases waits
      exact (draw_eq_some drawn).2.1

/-- A caller that waits after its turn waits for a moment to come. -/
theorem later_of_turn {c : Caller} {o : Option Caller} (h : c.turn now id b = .ok (b', o)) :
    ∀ w, o.bind Caller.wait? = some w → now < w.deadline := by
  rcases Caller.turn_cases h with ⟨tokens, chunks, _, _, _, drawn⟩ |
    ⟨wait, rest, w, _, _, _, _, drawn⟩ | ⟨wait, rest, w, rfl, _, later, _, _, rfl, rfl⟩
  · exact drawn.later
  · exact drawn.later
  · intro w' waits
    cases waits
    exact later

/-- A caller sets its alarm to the end of its wait. -/
theorem alarm_eq (o : Option Caller) :
    o.bind Caller.alarm = (o.bind Caller.wait?).map Wait.deadline := by
  cases o with
  | none =>
      rfl
  | some c =>
      cases c <;> rfl

/-- After a turn the alarm of the task is set if it waits, and those of the others stay. -/
theorem alarms_afterTurn (e : State) (id : TaskId) (g : Grab) (b : Bucket) (o : Option Caller) :
    (afterTurn e id g b o).alarms =
      match o.bind Caller.wait? with
      | some w => Alarm.insert { deadline := w.deadline, task := id }
          (e.alarms.filter fun a => a.task != id)
      | none => e.alarms.filter fun a => a.task != id := by
  unfold afterTurn
  rw [alarm_eq]
  cases o.bind Caller.wait? <;> rfl

theorem now_afterTurn (e : State) (id : TaskId) (g : Grab) (b : Bucket) (o : Option Caller) :
    (afterTurn e id g b o).now = e.now :=
  (Alike.setAlarm _ id (o.bind Caller.alarm)).now

/-! ## Ready list and alarms -/

/-- Ready list and alarms agree with each other and with the waits. -/
structure Roster (e : State) : Prop where
  once : e.ready.Nodup
  known : ∀ n ∈ e.ready, n < e.tasks.length
  sorted : e.alarms.Pairwise fun a a' => a.deadline ≤ a'.deadline
  distinct : (e.alarms.map Alarm.task).Nodup
  stands : ∀ a ∈ e.alarms, ∃ w, waitOf e a.task = some w ∧ w.deadline = a.deadline
  rung : ∀ a ∈ e.alarms, (a.rung = true ↔ a.task ∈ e.ready)
  ahead : ∀ a ∈ e.alarms, a.rung = false → e.now < a.deadline

namespace Roster

/-- Only tasks that are there have alarms. -/
theorem isSome_of_mem (h : Roster e) {a : Alarm} (member : a ∈ e.alarms) :
    (e.task? a.task).isSome = true := by
  rcases h.stands a member with ⟨w, waits, _⟩
  rcases Option.bind_eq_some_iff.1 waits with ⟨g, stands, _⟩
  exact Option.isSome_iff_exists.2 ⟨g, stands⟩

theorem lt_of_mem (h : Roster e) {a : Alarm} (member : a ∈ e.alarms) :
    a.task < e.tasks.length := by
  rcases Option.isSome_iff_exists.1 (h.isSome_of_mem member) with ⟨g, stands⟩
  exact (List.getElem?_eq_some_iff.1 (getElem?_of_task? stands)).1

/-- An alarm that is due has rung. -/
theorem rung_of_due (h : Roster e) {a : Alarm} (member : a ∈ e.alarms) (due : a.deadline ≤ e.now) :
    a.rung = true := by
  cases rung : a.rung with
  | true =>
      rfl
  | false =>
      exact absurd due (Nat.not_le.2 (h.ahead a member rung))

/-- If nobody is ready, all alarms lie ahead of the clock. -/
theorem ahead_of_ready (h : Roster e) (nobody : e.ready = []) {a : Alarm} (member : a ∈ e.alarms) :
    a.rung = false ∧ e.now < a.deadline := by
  have silent : a.rung = false := by
    cases rung : a.rung with
    | false =>
        rfl
    | true =>
        have there := (h.rung a member).1 rung
        rw [nobody] at there
        cases there
  exact ⟨silent, h.ahead a member silent⟩

/-- Ready list and alarms stay, and so do the waits of those whose alarms are set. -/
theorem of_same (h : Roster e) (now : e'.now = e.now) (ready : e'.ready = e.ready)
    (alarms : e'.alarms = e.alarms) (tasks : e'.tasks = e.tasks) : Roster e' := by
  refine ⟨ready ▸ h.once, ?_, alarms ▸ h.sorted, alarms ▸ h.distinct, ?_, ?_, ?_⟩
  · rw [ready, tasks]
    exact h.known
  · intro a member
    rw [waitOf_of_tasks tasks]
    exact h.stands a (alarms ▸ member)
  · intro a member
    rw [ready]
    exact h.rung a (alarms ▸ member)
  · intro a member
    rw [now]
    exact h.ahead a (alarms ▸ member)

/-! ## Effects -/

/-- The alarm of a task is cleared, and the task may leave the ready list or join it. -/
theorem clear (h : Roster e) (now : e'.now = e.now) (id : TaskId)
    (alarms : e'.alarms = e.alarms.filter fun a => a.task != id)
    (waits : ∀ n, n ≠ id → waitOf e' n = waitOf e n)
    (ready : ∀ n, n ≠ id → (n ∈ e'.ready ↔ n ∈ e.ready)) (once : e'.ready.Nodup)
    (known : ∀ n ∈ e'.ready, n < e'.tasks.length) : Roster e' := by
  have kept : ∀ a ∈ e'.alarms, a ∈ e.alarms ∧ a.task ≠ id := by
    intro a member
    rw [alarms] at member
    exact ⟨List.mem_of_mem_filter member, by simpa using (List.mem_filter.1 member).2⟩
  refine ⟨once, known, ?_, ?_, ?_, ?_, ?_⟩
  · rw [alarms]
    exact h.sorted.filter _
  · rw [alarms]
    exact h.distinct.sublist (List.filter_sublist.map Alarm.task)
  · intro a member
    rw [waits a.task (kept a member).2]
    exact h.stands a (kept a member).1
  · intro a member
    rw [ready a.task (kept a member).2]
    exact h.rung a (kept a member).1
  · intro a member
    rw [now]
    exact h.ahead a (kept a member).1

/-- A task that is woken loses its alarm and is ready instead. -/
theorem wake (h : Roster e) (id : TaskId) : Roster (e.wake id) := by
  have alike := Alike.wake e id
  have ready : (e.wake id).ready = e.ready ∨
      ((e.wake id).ready = e.ready ++ [id] ∧ id ∉ e.ready ∧ id < e.tasks.length) := by
    unfold Executor.wake Executor.rouse
    split
    · rename_i asked
      have there : (e.task? id).isSome = true ∧ id ∉ e.ready := by
        simpa [clearAlarm, task?] using asked
      rcases Option.isSome_iff_exists.1 there.1 with ⟨g, stands⟩
      exact .inr ⟨rfl, there.2, (List.getElem?_eq_some_iff.1 (getElem?_of_task? stands)).1⟩
    · exact .inl rfl
  refine h.clear alike.now id (alarms_wake e id) (fun n _ => waitOf_of_tasks alike.tasks n) ?_ ?_ ?_
  · intro n other
    rcases ready with same | ⟨longer, _⟩
    · rw [same]
    · simp [longer, other]
  · rcases ready with same | ⟨longer, fresh, _⟩
    · rw [same]
      exact h.once
    · rw [longer]
      refine List.nodup_append.2 ⟨h.once, List.pairwise_singleton _ id, ?_⟩
      intro n member n' here
      cases List.mem_singleton.1 here
      rintro rfl
      exact fresh member
  · intro n member
    rw [alike.tasks]
    rcases ready with same | ⟨longer, _, inside⟩
    · exact h.known n (same ▸ member)
    · rw [longer] at member
      rcases List.mem_append.1 member with old | new
      · exact h.known n old
      · cases List.mem_singleton.1 new
        exact inside

theorem foldl_wake (h : Roster e) (ids : List TaskId) : Roster (ids.foldl Executor.wake e) := by
  induction ids generalizing e with
  | nil =>
      exact h
  | cons id rest ih =>
      exact ih (h.wake id)

/-! ## Moves -/

/-- A caller that comes is ready, and no alarm is set for it. -/
theorem spawn (h : Roster e) (tokens : UInt64) : Roster (e.spawn (.start tokens)) := by
  have longer : (e.spawn (.start tokens)).tasks.length = e.tasks.length + 1 := by
    simp [Executor.spawn]
  refine ⟨?_, ?_, h.sorted, h.distinct, ?_, ?_, h.ahead⟩
  · refine List.nodup_append.2 ⟨h.once, List.pairwise_singleton _ _, ?_⟩
    intro n member n' here
    cases List.mem_singleton.1 here
    exact Nat.ne_of_lt (h.known n member)
  · intro n member
    rw [longer]
    rcases List.mem_append.1 member with old | new
    · exact Nat.lt_succ_of_lt (h.known n old)
    · cases List.mem_singleton.1 new
      exact Nat.lt_succ_self _
  · intro a member
    rw [waitOf_spawn]
    exact h.stands a member
  · intro a member
    have older : a.task ≠ e.tasks.length := Nat.ne_of_lt (h.lt_of_mem member)
    simpa [Executor.spawn, older] using h.rung a member

/-- A task that is dropped leaves no alarm behind. -/
theorem drop (h : Roster e) (id : TaskId) : Roster (e.drop program id) := by
  cases found : e.task? id with
  | none =>
      rw [drop_of_task?_eq_none program found]
      exact h
  | some g =>
      have alike := drop_alike program e found
      rcases drop_of_task? program found with ⟨alarms, ready⟩
      refine h.clear alike.now id alarms ?_ ?_ ?_ ?_
      · intro n other
        rw [waitOf_drop, if_neg other]
      · intro n other
        simp [ready, other]
      · rw [ready]
        exact h.once.filter _
      · intro n member
        rw [ready] at member
        rw [alike.tasks, List.length_set]
        exact h.known n (List.mem_of_mem_filter member)

/-- No alarm rings for a task that is ready. -/
theorem not_ready_of_ringing (h : Roster e) {time : Instant} {n : TaskId}
    (rings : n ∈ ringing time e.alarms) : n ∉ e.ready := by
  intro ready
  rcases mem_ringing.1 rings with ⟨a, there, rfl, _, silent⟩
  rw [(h.rung a there).2 ready] at silent
  cases silent

theorem nodup_ringing (h : Roster e) (time : Instant) : (ringing time e.alarms).Nodup :=
  h.distinct.sublist (List.filter_sublist.map Alarm.task)

/-- The tasks whose alarms ring come behind all that are ready. -/
theorem ready_setClock (h : Roster e) (time : Instant) :
    (e.setClock time).ready = e.ready ++ ringing time e.alarms := by
  refine ready_foldl_rouse (h.nodup_ringing time) (fun n => h.not_ready_of_ringing)
    fun n member => ?_
  rcases mem_ringing.1 member with ⟨a, there, rfl, _, _⟩
  exact h.isSome_of_mem there

/-- Whether an alarm rings or has rung, its task is ready then. -/
theorem rung_setClock (h : Roster e) (time : Instant) {a : Alarm}
    (member : a ∈ (e.setClock time).alarms) :
    a.rung = true ↔ a.task ∈ (e.setClock time).ready := by
  rw [alarms_setClock] at member
  rcases List.mem_map.1 member with ⟨a', old, rfl⟩
  rw [h.ready_setClock, List.mem_append, Alarm.task_ring, rung_ring, ← h.rung a' old, mem_ringing]
  constructor
  · intro rings
    cases before : a'.rung with
    | true =>
        exact .inl rfl
    | false =>
        exact .inr ⟨a', old, rfl, by simpa [before] using rings, before⟩
  · rintro (before | ⟨a'', there, same, due, silent⟩)
    · simp [before]
    · -- no task has two alarms
      have own := alarm?_of_mem h.distinct there
      rw [same, alarm?_of_mem h.distinct old] at own
      cases own
      simp [due]

/-- A clock that is set lets the alarms ring that are due, and calls their tasks. -/
theorem setClock (h : Roster e) (time : Instant) : Roster (e.setClock time) := by
  have alike := setClock_alike e time
  have alarms := alarms_setClock e time
  refine ⟨?_, ?_, ?_, ?_, ?_, fun a => h.rung_setClock time, ?_⟩
  -- those that were ready come first, then those whose alarms ring now
  · rw [h.ready_setClock]
    refine List.nodup_append.2 ⟨h.once, h.nodup_ringing time, ?_⟩
    rintro n member n' new rfl
    exact h.not_ready_of_ringing new member
  · intro n member
    rw [alike.tasks]
    rw [h.ready_setClock] at member
    rcases List.mem_append.1 member with old | new
    · exact h.known n old
    · rcases mem_ringing.1 new with ⟨a, there, rfl, _, _⟩
      exact h.lt_of_mem there
  · rw [alarms]
    refine List.pairwise_map.2 (h.sorted.imp fun {a a'} le => ?_)
    rw [Alarm.deadline_ring, Alarm.deadline_ring]
    exact le
  · have same : (e.alarms.map (.ring time)).map Alarm.task = e.alarms.map Alarm.task := by
      rw [List.map_map]
      exact List.map_congr_left fun a _ => Alarm.task_ring time a
    rw [alarms, same]
    exact h.distinct
  · intro a member
    rw [alarms] at member
    rcases List.mem_map.1 member with ⟨a', old, rfl⟩
    rw [waitOf_of_tasks alike.tasks, Alarm.task_ring, Alarm.deadline_ring]
    exact h.stands a' old
  · intro a member silent
    rw [alarms] at member
    rcases List.mem_map.1 member with ⟨a', old, rfl⟩
    rw [rung_ring] at silent
    have early : ¬ a'.deadline ≤ time := by
      intro due
      simp [Alarm.isDue, due] at silent
    rw [alike.now, Alarm.deadline_ring]
    exact Nat.lt_of_not_le early

/-- The first of the ready list is taken from it, and sleeps on if its alarm is not due. -/
theorem resetAlarm (h : Roster e) {rest : List TaskId} (ready : e.ready = id :: rest)
    (asleep : e.sleepsOn id = true) : Roster (({ e with ready := rest } : State).resetAlarm id) := by
  have once := h.once
  rw [ready] at once
  rcases List.nodup_cons.1 once with ⟨first, later⟩
  have moved : ∀ a ∈ (({ e with ready := rest } : State).resetAlarm id).alarms,
      ∃ a' ∈ e.alarms, a.task = a'.task ∧ a.deadline = a'.deadline ∧
        a.rung = (a'.rung && a'.task != id) := by
    intro a member
    rcases List.mem_map.1 member with ⟨a', old, rfl⟩
    refine ⟨a', old, ?_⟩
    by_cases own : a'.task = id <;> simp [own]
  refine ⟨later, ?_, ?_, ?_, ?_, ?_, ?_⟩
  · intro n member
    exact h.known n (ready ▸ List.mem_cons_of_mem id member)
  · refine List.pairwise_map.2 (h.sorted.imp fun {a a'} le => ?_)
    by_cases own : a.task = id <;> by_cases own' : a'.task = id <;> simpa [own, own'] using le
  · have same : (({ e with ready := rest } : State).resetAlarm id).alarms.map Alarm.task =
        e.alarms.map Alarm.task := by
      simp only [Executor.resetAlarm, List.map_map]
      refine List.map_congr_left fun a _ => ?_
      by_cases own : a.task = id <;> simp [own]
    rw [same]
    exact h.distinct
  · intro a member
    rcases moved a member with ⟨a', old, task, deadline, _⟩
    rw [task, deadline]
    exact h.stands a' old
  · intro a member
    rcases moved a member with ⟨a', old, task, _, rung⟩
    have before := h.rung a' old
    rw [ready, List.mem_cons] at before
    rw [rung, task, Bool.and_eq_true, before]
    change _ ↔ a'.task ∈ rest
    by_cases own : a'.task = id
    · simp [own, first]
    · simp [own]
  · intro a member silent
    rcases moved a member with ⟨a', old, _, deadline, rung⟩
    rw [deadline]
    by_cases own : a'.task = id
    · -- it sleeps on because its alarm lies ahead
      unfold sleepsOn at asleep
      rw [← own, alarm?_of_mem h.distinct old] at asleep
      change e.now < a'.deadline
      simpa [Alarm.isDue] using asleep
    · refine h.ahead a' old ?_
      rw [rung] at silent
      simpa [own] using silent

/-- The roster after a turn, without the alarm that is set in the end. -/
theorem cleared_afterTurn (h : Roster e) {rest : List TaskId} (ready : e.ready = id :: rest)
    {g : Grab} (stands : e.tasks[id]? = some (some g)) (b : Bucket) (o : Option Caller) :
    Roster { Bucket.afterTurn e id g b o with alarms := e.alarms.filter fun a => a.task != id } := by
  have once := h.once
  rw [ready] at once
  rcases List.nodup_cons.1 once with ⟨_, nodup⟩
  have readied : (Bucket.afterTurn e id g b o).ready = rest := by
    rw [ready_afterTurn, ready, List.tail_cons]
  refine h.clear (now_afterTurn e id g b o) id rfl ?_ ?_ ?_ ?_
  · intro n other
    have same := waitOf_afterTurn stands b o n
    rw [if_neg other] at same
    exact same
  · intro n other
    change n ∈ (Bucket.afterTurn e id g b o).ready ↔ _
    rw [readied, ready, List.mem_cons]
    simp [other]
  · change (Bucket.afterTurn e id g b o).ready.Nodup
    rw [readied]
    exact nodup
  · intro n member
    change n ∈ (Bucket.afterTurn e id g b o).ready at member
    change n < (Bucket.afterTurn e id g b o).tasks.length
    rw [readied] at member
    rw [tasks_afterTurn, List.length_set]
    exact h.known n (ready ▸ List.mem_cons_of_mem id member)

/-- A caller that had its turn is no longer ready, and has an alarm exactly if it waits. -/
theorem afterTurn (h : Roster e) {rest : List TaskId} (ready : e.ready = id :: rest) {g : Grab}
    (stands : e.tasks[id]? = some (some g)) {b : Bucket} {o : Option Caller}
    (later : ∀ w, o.bind Caller.wait? = some w → e.now < w.deadline) :
    Roster (afterTurn e id g b o) := by
  have cleared := h.cleared_afterTurn ready stands b o
  have alarms := alarms_afterTurn e id g b o
  cases waiting : o.bind Caller.wait? with
  | none =>
      rw [waiting] at alarms
      exact cleared.of_same rfl rfl alarms rfl
  | some w =>
      rw [waiting] at alarms
      have members : ∀ a ∈ (Bucket.afterTurn e id g b o).alarms,
          a = { deadline := w.deadline, task := id } ∨
            a ∈ e.alarms.filter fun a => a.task != id := by
        intro a member
        rw [alarms] at member
        exact List.mem_cons.1 ((Alarm.insert_perm _ _).mem_iff.1 member)
      refine ⟨cleared.once, cleared.known, ?_, ?_, ?_, ?_, ?_⟩
      · rw [alarms]
        exact Alarm.pairwise_insert _ cleared.sorted
      · rw [alarms, ((Alarm.insert_perm _ _).map Alarm.task).nodup_iff, List.map_cons]
        refine List.nodup_cons.2 ⟨?_, cleared.distinct⟩
        simp
      · intro a member
        rcases members a member with rfl | old
        · refine ⟨w, ?_, rfl⟩
          rw [waitOf_afterTurn stands, if_pos rfl, waiting]
        · exact cleared.stands a old
      · intro a member
        rcases members a member with rfl | old
        · -- it was first in the ready list, and stands there only once
          have once := h.once
          rw [ready] at once
          have first := (List.nodup_cons.1 once).1
          rw [ready_afterTurn, ready, List.tail_cons]
          simp [first]
        · exact cleared.rung a old
      · intro a member silent
        rcases members a member with rfl | old
        · rw [now_afterTurn]
          exact later w waiting
        · exact cleared.ahead a old silent

theorem turn (h : Roster e) (turned : e.turn program = .ok e') : Roster e' := by
  rcases turn_eq turned with ⟨_, rfl⟩ |
    ⟨id, rest, ready, ⟨asleep, rfl⟩ | ⟨gone, rfl⟩ | ⟨g, b, o, next, looked, rfl⟩⟩
  · exact h
  · exact h.resetAlarm ready asleep
  · -- no alarm is set for a task that is gone
    have other : ∀ a ∈ e.alarms, a.task ≠ id := by
      intro a member same
      have there := h.isSome_of_mem member
      rw [same, gone] at there
      cases there
    have alarms : e.alarms = e.alarms.filter fun a => a.task != id :=
      (List.filter_eq_self.2 fun a member => by simpa using other a member).symm
    have once := h.once
    rw [ready] at once
    refine h.clear rfl id alarms (fun n _ => rfl) ?_ (List.nodup_cons.1 once).2 ?_
    · intro n ne
      simp [ready, ne]
    · intro n member
      exact h.known n (ready ▸ List.mem_cons_of_mem id member)
  · exact h.afterTurn ready (task?_of_next? next) (later_of_turn looked)

end Roster

/-- Every move keeps ready list and alarms in agreement. -/
theorem roster_of_step (h : Roster e) {l : Label Action Answer} (step : Step program e l e') :
    Roster e' := by
  cases step with
  | turn turned =>
      exact h.turn turned
  | clock time =>
      exact h.setClock time
  | kill task =>
      exact h.drop task
  | @act _ action answer acted =>
      cases action with
      | operate op =>
          rcases operate_eq acted with ⟨b, woken, _, rfl⟩
          have changed : Roster ({ e with shared := b } : State) := h.of_same rfl rfl rfl rfl
          exact changed.foldl_wake woken
      | grab tokens =>
          cases grab_eq acted
          exact h.spawn tokens

theorem roster_opening (start : Instant) (b : Bucket) : Roster (opening start b) := by
  refine ⟨List.nodup_nil, ?_, List.Pairwise.nil, List.nodup_nil, ?_, ?_, ?_⟩ <;>
    exact fun _ member => absurd member List.not_mem_nil

/-- Ready list and alarms agree in every state of a run. -/
theorem roster_of_history {start : Instant} {hs : List Moment}
    (history : History program (opening start b) hs e) : Roster e :=
  history.trace.invariant (fun roster step => roster_of_step roster step) (roster_opening start b)

end Bucket
end MeteredFetch
