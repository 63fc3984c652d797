import MeteredFetch.Proofs.Executor.Ready

/-!
# Alarms — who sleeps, and who was called

A task that waits has the next turn after its alarm has rung, unless somebody wakes it before. Then
its alarm is cleared, so that the turn comes whatever the clock says.

* `Executor.Called` — a task was woken: it is ready, and no alarm is set for it;
* `Executor.called_of_mem` — who is woken was called; `Executor.Called.foldl_wake`,
  `Executor.Called.setClock`, `Executor.Called.drop` — nobody else's affairs change that;
* `Executor.ready_foldl_rouse` — tasks that are not ready come behind those that are, in order;
* `Executor.rung` — the tasks whose alarms have rung, by deadline, and `Executor.rung_map_ring` — who
  comes to them when the clock is set.
-/

namespace MeteredFetch
namespace Executor

variable {σ τ ρ α β : Type} {e e' : Executor σ τ ρ} {n id : TaskId}

/-! ## Tasks that were called -/

structure Called (n : TaskId) (e : Executor σ τ ρ) : Prop where
  ready : n ∈ e.ready
  unset : ∀ a ∈ e.alarms, a.task ≠ n

namespace Called

/-- A task that was called stays so as long as it is ready and no alarm is set for it. -/
theorem mono (h : Called n e) (ready : n ∈ e.ready → n ∈ e'.ready)
    (alarms : ∀ a ∈ e'.alarms, a.task = n → ∃ b ∈ e.alarms, b.task = n) : Called n e' := by
  refine ⟨ready h.ready, ?_⟩
  intro a member own
  rcases alarms a member own with ⟨b, old, same⟩
  exact h.unset b old same

theorem rouse (h : Called n e) (id : TaskId) : Called n (e.rouse id) := by
  unfold Executor.rouse
  split
  · exact ⟨List.mem_append_left _ h.ready, h.unset⟩
  · exact h

theorem clearAlarm (h : Called n e) (id : TaskId) : Called n (e.clearAlarm id) :=
  h.mono (fun there => there) fun a member own => ⟨a, List.mem_of_mem_filter member, own⟩

theorem wake (h : Called n e) (id : TaskId) : Called n (e.wake id) :=
  (h.clearAlarm id).rouse id

theorem foldl_rouse (h : Called n e) (ids : List TaskId) :
    Called n (ids.foldl Executor.rouse e) := by
  induction ids generalizing e with
  | nil =>
      exact h
  | cons id rest ih =>
      exact ih (h.rouse id)

/-- Waking others does not undo a call. -/
theorem foldl_wake (h : Called n e) (ids : List TaskId) :
    Called n (ids.foldl Executor.wake e) := by
  induction ids generalizing e with
  | nil =>
      exact h
  | cons id rest ih =>
      exact ih (h.wake id)

/-- Whatever the clock says, a task that was called has its turn. -/
theorem setClock (h : Called n e) (time : Instant) : Called n (e.setClock time) := by
  apply foldl_rouse
  refine h.mono (fun there => there) fun a member own => ?_
  rcases List.mem_map.1 member with ⟨b, old, rfl⟩
  exact ⟨b, old, (Alarm.task_ring time b).symm.trans own⟩

/-- Dropping others does not undo a call. -/
theorem drop (p : Program σ τ ρ α β) (h : Called n e) (ne : n ≠ id) : Called n (e.drop p id) := by
  unfold Executor.drop
  split
  · exact h
  · refine h.mono (fun there => ?_) fun a member own => ⟨a, List.mem_of_mem_filter member, own⟩
    simpa [ne] using there

theorem alarm? (h : Called n e) : e.alarm? n = none := by
  refine List.find?_eq_none.2 fun a member => ?_
  simpa using h.unset a member

/-- Whoever was called does not sleep on. -/
theorem sleepsOn (h : Called n e) : e.sleepsOn n = false := by
  unfold Executor.sleepsOn
  rw [h.alarm?]
  rfl

end Called

/-- Whoever is woken was called. -/
theorem called_wake (stands : (e.task? n).isSome = true) : Called n (e.wake n) := by
  have cleared : ∀ a ∈ (e.clearAlarm n).alarms, a.task ≠ n := by
    intro a member
    simpa using (List.mem_filter.1 member).2
  have there : ((e.clearAlarm n).task? n).isSome = true := stands
  unfold Executor.wake Executor.rouse
  split
  · exact ⟨List.mem_append_right _ (List.mem_singleton_self n), cleared⟩
  · rename_i old
    refine ⟨?_, cleared⟩
    simpa [there] using old

/-- Whoever is woken together with others was called. -/
theorem called_of_mem {ids : List TaskId} (member : n ∈ ids) (stands : (e.task? n).isSome = true) :
    Called n (ids.foldl Executor.wake e) := by
  induction ids generalizing e with
  | nil =>
      cases member
  | cons id rest ih =>
      rcases List.mem_cons.1 member with rfl | later
      · exact (called_wake stands).foldl_wake rest
      · apply ih later
        unfold task?
        rw [(Alike.wake e id).tasks]
        exact stands

/-! ## Alarms -/

theorem alarms_foldl_rouse (e : Executor σ τ ρ) (ids : List TaskId) :
    (ids.foldl Executor.rouse e).alarms = e.alarms := by
  induction ids generalizing e with
  | nil =>
      rfl
  | cons id rest ih =>
      rw [List.foldl_cons, ih]
      unfold Executor.rouse
      split <;> rfl

theorem alarms_wake (e : Executor σ τ ρ) (id : TaskId) :
    (e.wake id).alarms = e.alarms.filter fun a => a.task != id :=
  alarms_foldl_rouse (e.clearAlarm id) [id]

/-- Waking sets no alarm. -/
theorem alarms_foldl_wake (e : Executor σ τ ρ) (ids : List TaskId) :
    (ids.foldl Executor.wake e).alarms.Sublist e.alarms := by
  induction ids generalizing e with
  | nil =>
      exact List.Sublist.refl _
  | cons id rest ih =>
      refine (ih (e.wake id)).trans ?_
      rw [alarms_wake]
      exact List.filter_sublist

/-- Whoever is dropped leaves neither an alarm nor a place in the ready list. -/
theorem drop_of_task? (p : Program σ τ ρ α β) {task : τ} (stands : e.task? id = some task) :
    (e.drop p id).alarms = (e.alarms.filter fun a => a.task != id) ∧
      (e.drop p id).ready = e.ready.filter (· != id) := by
  unfold Executor.drop
  rw [stands]
  exact ⟨rfl, rfl⟩

/-- Tasks that are not ready come behind those that are. -/
theorem ready_foldl_rouse {ids : List TaskId} (once : ids.Nodup)
    (apart : ∀ n ∈ ids, n ∉ e.ready) (stand : ∀ n ∈ ids, (e.task? n).isSome = true) :
    (ids.foldl Executor.rouse e).ready = e.ready ++ ids := by
  induction ids generalizing e with
  | nil =>
      simp
  | cons id rest ih =>
      rcases List.nodup_cons.1 once with ⟨first, later⟩
      have here := apart id List.mem_cons_self
      have there := stand id List.mem_cons_self
      have roused : e.rouse id = { e with ready := e.ready ++ [id] } := by
        simp [Executor.rouse, there, here]
      rw [List.foldl_cons, roused, ih later]
      · simp
      · intro n member
        have ne : n ≠ id := by
          rintro rfl
          exact first member
        simpa [ne] using apart n (List.mem_cons_of_mem _ member)
      · intro n member
        exact stand n (List.mem_cons_of_mem _ member)

/-- The alarm of a task, if each task has no more than one. -/
theorem alarm?_of_mem (distinct : (e.alarms.map Alarm.task).Nodup) {a : Alarm}
    (member : a ∈ e.alarms) : e.alarm? a.task = some a := by
  unfold Executor.alarm?
  generalize e.alarms = alarms at distinct member
  induction alarms with
  | nil =>
      cases member
  | cons first rest ih =>
      rcases List.nodup_cons.1 distinct with ⟨apart, later⟩
      rcases List.mem_cons.1 member with rfl | there
      · simp
      · have ne : first.task ≠ a.task := by
          intro same
          exact apart (same ▸ List.mem_map_of_mem there)
        simpa [ne] using ih later there

/-- The tasks whose alarms have rung, in the order of the deadlines. -/
def rung (alarms : List Alarm) : List TaskId :=
  (alarms.filter Alarm.rung).map Alarm.task

def ringing (time : Instant) (alarms : List Alarm) : List TaskId :=
  (alarms.filter fun a => a.isDue time && !a.rung).map Alarm.task

/-- The alarms that are due ring, and the others stay as they are. -/
theorem alarms_setClock (e : Executor σ τ ρ) (time : Instant) :
    (e.setClock time).alarms = e.alarms.map (.ring time) :=
  alarms_foldl_rouse _ _

theorem mem_ringing {time : Instant} {alarms : List Alarm} : n ∈ ringing time alarms ↔
    ∃ a ∈ alarms, a.task = n ∧ a.isDue time = true ∧ a.rung = false := by
  simp [ringing, and_comm, and_left_comm]

theorem rung_ring (time : Instant) (a : Alarm) : (a.ring time).rung = (a.isDue time || a.rung) := by
  unfold Alarm.ring
  split
  · rename_i due
    simp [due]
  · rename_i early
    simp [early]

/-- If no alarm has rung before one that has not, those that ring now come behind those that have
rung. -/
theorem rung_map_ring {alarms : List Alarm} (time : Instant)
    (front : alarms.Pairwise fun a a' => a'.rung = true → a.rung = true) :
    rung (alarms.map (.ring time)) = rung alarms ++ ringing time alarms := by
  induction alarms with
  | nil =>
      rfl
  | cons a rest ih =>
      rcases List.pairwise_cons.1 front with ⟨first, later⟩
      have tail := ih later
      unfold rung ringing at tail ⊢
      cases before : a.rung with
      | true =>
          simp [rung_ring, before, tail]
      | false =>
          -- after one that has not rung there is none that has
          have none : rest.filter Alarm.rung = [] := by
            refine List.filter_eq_nil_iff.2 fun a' member has => ?_
            rw [first a' member has] at before
            cases before
          rw [none] at tail
          cases due : a.isDue time <;> simp [rung_ring, before, due, none, tail]

end Executor
end MeteredFetch
