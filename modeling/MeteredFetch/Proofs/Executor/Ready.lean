import MeteredFetch.Proofs.Executor.History
import MeteredFetch.Proofs.Executor.Tasks

/-!
# Ready — tasks that have not had a turn

A task that starts stands in the ready list, and no alarm is set for it. Until its turn comes nothing
takes it from there but a drop, and whatever starts or wakes up meanwhile comes behind it. So it has
its turn when those before it have had theirs.

* `Executor.Prompt F e` — the tasks that stand as `F` says are in the ready list and do not sleep;
* `Executor.Prompt.next?` — the first of the list has the next turn;
* `Executor.Advances F turns e e'` — whoever still stands as `F` says has come forward in the ready
  list by this many turns;
* `Executor.advances_of_step`, `Executor.advances_of_history` — moves and runs do this if no turn
  leaves a task as `F` says.
-/

namespace MeteredFetch
namespace Executor

variable {σ τ ρ α β : Type} {F : τ → Prop} {e e' e'' : Executor σ τ ρ} {n id : TaskId} {x : τ}

/-- The tasks that stand as `F` says are in the ready list and do not sleep. No alarm is set for a
task that has not started. -/
structure Prompt (F : τ → Prop) (e : Executor σ τ ρ) : Prop where
  ready : ∀ {n x}, e.tasks[n]? = some (some x) → F x → n ∈ e.ready
  awake : ∀ {n x}, e.tasks[n]? = some (some x) → F x → ∀ a ∈ e.alarms, a.task ≠ n
  known : ∀ a ∈ e.alarms, a.task < e.tasks.length

/-- At the beginning nobody is ready and no alarm is set. -/
theorem Prompt.of_empty (tasks : e.tasks = []) (alarms : e.alarms = []) : Prompt F e := by
  refine ⟨fun stands _ => ?_, fun stands _ => ?_, fun a member => ?_⟩
  · simp [tasks] at stands
  · simp [tasks] at stands
  · simp [alarms] at member

/-- A task that stands so takes its next turn for certain. -/
theorem Prompt.sleepsOn (h : Prompt F e) (stands : e.tasks[n]? = some (some x)) (fresh : F x) :
    e.sleepsOn n = false := by
  have none : e.alarm? n = none := by
    refine List.find?_eq_none.2 fun a member => ?_
    simpa using h.awake stands fresh a member
  unfold Executor.sleepsOn
  rw [none]
  rfl

/-- A task that is the first of the ready list has the next turn. -/
theorem Prompt.next? (h : Prompt F e) (stands : e.tasks[n]? = some (some x)) (fresh : F x)
    {rest : List TaskId} (first : e.ready = n :: rest) : e.next? = some (n, x) := by
  simp [Executor.next?, first, h.sleepsOn stands fresh, task?, stands]

/-! ## Places in the ready list -/

def ahead (n : TaskId) (e : Executor σ τ ρ) : Nat :=
  (e.ready.takeWhile (· ≠ n)).length

/-- Whoever joins the ready list stands behind all that are there. -/
theorem takeWhile_append_of_mem {xs : List TaskId} (member : n ∈ xs) (ys : List TaskId) :
    (xs ++ ys).takeWhile (· ≠ n) = xs.takeWhile (· ≠ n) := by
  induction xs with
  | nil =>
      cases member
  | cons x rest ih =>
      by_cases here : x = n
      · simp [here]
      · have later : n ∈ rest := (List.mem_cons.1 member).resolve_left (Ne.symm here)
        simpa [here] using ih later

theorem length_takeWhile_filter_le {p : TaskId → Bool} (kept : p n = true) (xs : List TaskId) :
    ((xs.filter p).takeWhile (· ≠ n)).length ≤ (xs.takeWhile (· ≠ n)).length := by
  induction xs with
  | nil =>
      exact Nat.le_refl 0
  | cons x rest ih =>
      by_cases here : x = n
      · simp [here, kept]
      · by_cases stays : p x = true
        · simpa [here, stays] using ih
        · simpa [here, stays] using Nat.le_succ_of_le ih

/-- Tasks that stand as `F` says are ready in the end. Those that were there before have come forward
by some turns. -/
structure Advances (F : τ → Prop) (turns : Nat) (e e' : Executor σ τ ρ) : Prop where
  prompt : Prompt F e'
  length : e.tasks.length ≤ e'.tasks.length
  ahead : ∀ {n x}, n < e.tasks.length → e'.tasks[n]? = some (some x) → F x →
    e.tasks[n]? = some (some x) ∧ e'.ahead n + turns ≤ e.ahead n

/-- What comes forward twice has come forward by the sum of the turns. -/
theorem Advances.trans {turns turns' : Nat} (h : Advances F turns e e')
    (h' : Advances F turns' e' e'') : Advances F (turns + turns') e e'' := by
  refine ⟨h'.prompt, Nat.le_trans h.length h'.length, ?_⟩
  intro n x inside stands fresh
  rcases h'.ahead (Nat.lt_of_lt_of_le inside h.length) stands fresh with ⟨between, later⟩
  rcases h.ahead inside between fresh with ⟨before, sooner⟩
  refine ⟨before, ?_⟩
  omega

namespace Prompt

/-- No such task starts, none falls behind in the ready list, and no other alarm is set. -/
theorem mono (h : Prompt F e)
    (tasks : ∀ {n x}, e'.tasks[n]? = some (some x) → F x → e.tasks[n]? = some (some x) ∧
      (n ∈ e.ready → n ∈ e'.ready ∧ e'.ahead n ≤ e.ahead n))
    (alarms : ∀ a ∈ e'.alarms, a ∈ e.alarms ∨ ∃ b ∈ e.alarms, b.task = a.task)
    (length : e.tasks.length ≤ e'.tasks.length) : Advances F 0 e e' := by
  have old : ∀ a ∈ e'.alarms, ∃ b ∈ e.alarms, b.task = a.task := by
    intro a member
    rcases alarms a member with before | same
    · exact ⟨a, before, rfl⟩
    · exact same
  refine ⟨⟨?_, ?_, ?_⟩, length, ?_⟩
  · intro n x stands fresh
    rcases tasks stands fresh with ⟨before, stays⟩
    exact (stays (h.ready before fresh)).1
  · intro n x stands fresh a member
    rcases old a member with ⟨b, before, same⟩
    rw [← same]
    exact h.awake (tasks stands fresh).1 fresh b before
  · intro a member
    rcases old a member with ⟨b, before, same⟩
    rw [← same]
    exact Nat.lt_of_lt_of_le (h.known b before) length
  · intro n x _ stands fresh
    rcases tasks stands fresh with ⟨before, stays⟩
    exact ⟨before, (stays (h.ready before fresh)).2⟩

/-- Neither the tasks nor the ready list nor the alarms change. -/
theorem of_same (h : Prompt F e) (tasks : e'.tasks = e.tasks) (ready : e'.ready = e.ready)
    (alarms : e'.alarms = e.alarms) : Advances F 0 e e' := by
  apply h.mono _ _ (Nat.le_of_eq (by rw [tasks]))
  · intro n x stands _
    rw [tasks] at stands
    refine ⟨stands, fun there => ?_⟩
    unfold ahead
    rw [ready]
    exact ⟨there, Nat.le_refl _⟩
  · intro a member
    rw [alarms] at member
    exact .inl member

theorem refl (h : Prompt F e) : Advances F 0 e e :=
  h.of_same rfl rfl rfl

/-! ## Effects -/

/-- Rousing puts nobody in front. -/
theorem rouse (h : Prompt F e) (id : TaskId) : Advances F 0 e (e.rouse id) := by
  unfold Executor.rouse
  split
  · refine h.mono (fun stands _ => ⟨stands, fun there => ?_⟩) (fun _ => .inl) (Nat.le_refl _)
    refine ⟨List.mem_append_left _ there, Nat.le_of_eq ?_⟩
    unfold ahead
    rw [takeWhile_append_of_mem there]
  · exact h.refl

theorem clearAlarm (h : Prompt F e) (id : TaskId) : Advances F 0 e (e.clearAlarm id) := by
  refine h.mono (fun stands _ => ⟨stands, fun there => ⟨there, Nat.le_refl _⟩⟩) ?_ (Nat.le_refl _)
  intro a member
  exact .inl (List.mem_of_mem_filter member)

theorem wake (h : Prompt F e) (id : TaskId) : Advances F 0 e (e.wake id) := by
  have cleared := h.clearAlarm id
  exact cleared.trans (cleared.prompt.rouse id)

/-- A task that starts goes to the end. -/
theorem spawn (h : Prompt F e) (task : τ) : Advances F 0 e (e.spawn task) := by
  have cases : ∀ {n x}, (e.spawn task).tasks[n]? = some (some x) →
      e.tasks[n]? = some (some x) ∨ n = e.tasks.length := by
    intro n x stands
    have started : (e.tasks ++ [task].map some)[n]? = some (some x) := stands
    rcases stands_append started with old | ⟨i, here, there⟩
    · exact .inl old
    · have first : i = 0 := by
        have inside := (List.getElem?_eq_some_iff.1 there).1
        simpa using inside
      rw [first] at here
      exact .inr here
  have longer : e.tasks.length ≤ (e.spawn task).tasks.length := by simp [Executor.spawn]
  refine ⟨⟨?_, ?_, ?_⟩, longer, ?_⟩
  · intro n x stands fresh
    rcases cases stands with old | rfl
    · exact List.mem_append_left _ (h.ready old fresh)
    · exact List.mem_append_right _ (List.mem_singleton_self _)
  · intro n x stands fresh a member
    rcases cases stands with old | rfl
    · exact h.awake old fresh a member
    · -- all alarms are those of older tasks
      exact Nat.ne_of_lt (h.known a member)
  · intro a member
    exact Nat.lt_of_lt_of_le (h.known a member) longer
  · intro n x inside stands fresh
    rcases cases stands with old | rfl
    · refine ⟨old, Nat.le_of_eq ?_⟩
      simp only [ahead, Executor.spawn, Nat.add_zero]
      rw [takeWhile_append_of_mem (h.ready old fresh)]
    · exact absurd inside (Nat.lt_irrefl _)

theorem foldl_rouse (h : Prompt F e) (ids : List TaskId) :
    Advances F 0 e (ids.foldl Executor.rouse e) := by
  induction ids generalizing e with
  | nil =>
      exact h.refl
  | cons id rest ih =>
      have first := h.rouse id
      exact first.trans (ih first.prompt)

theorem foldl_wake (h : Prompt F e) (ids : List TaskId) :
    Advances F 0 e (ids.foldl Executor.wake e) := by
  induction ids generalizing e with
  | nil =>
      exact h.refl
  | cons id rest ih =>
      have first := h.wake id
      exact first.trans (ih first.prompt)

variable (p : Program σ τ ρ α β)

/-- Whoever is dropped leaves the others where they are, or lets them come forward. -/
theorem drop (h : Prompt F e) (id : TaskId) : Advances F 0 e (e.drop p id) := by
  unfold Executor.drop
  split
  · exact h.refl
  · refine h.mono ?_ ?_ (Nat.le_of_eq List.length_set.symm)
    · intro n x stands fresh
      have ne : id ≠ n := by
        rintro rfl
        simp [List.getElem?_set] at stands
      rw [List.getElem?_set_ne ne] at stands
      refine ⟨stands, fun there => ⟨?_, ?_⟩⟩
      · simpa [Ne.symm ne] using there
      · exact length_takeWhile_filter_le (by simpa using Ne.symm ne) _
    · intro a member
      exact .inl (List.mem_of_mem_filter member)

theorem sweep (h : Prompt F e) : Advances F 0 e (e.sweep p) := by
  have shared : Advances F 0 e { e with shared := (p.sweep e.tasks e.shared).1 } :=
    h.of_same rfl rfl rfl
  exact shared.trans (shared.prompt.foldl_wake _)

/-- No effect puts a task in front of one that is ready. -/
theorem carryOutAll (h : Prompt F e) (effects : List (Effect τ)) :
    Advances F 0 e (e.carryOutAll p effects) := by
  have each : Advances F 0 e (effects.foldl (carryOut p) e) := by
    induction effects generalizing e with
    | nil =>
        exact h.refl
    | cons effect rest ih =>
        have first : Advances F 0 e (e.carryOut p effect) := by
          cases effect with
          | wake id =>
              exact h.wake id
          | spawn task =>
              exact h.spawn task
          | drop id =>
              exact h.drop p id
        exact first.trans (ih first.prompt)
  exact each.trans (each.prompt.sweep p)

/-! ## Moves -/

/-- Alarms that ring put their tasks at the end. -/
theorem setClock (h : Prompt F e) (time : Instant) : Advances F 0 e (e.setClock time) := by
  have rung : Advances F 0 e { e with now := time, alarms := e.alarms.map (.ring time) } := by
    refine h.mono (fun stands _ => ⟨stands, fun there => ⟨there, Nat.le_refl _⟩⟩) ?_ (Nat.le_refl _)
    intro a member
    rcases List.mem_map.1 member with ⟨b, old, rfl⟩
    exact .inr ⟨b, old, (Alarm.task_ring time b).symm⟩
  exact rung.trans (rung.prompt.foldl_rouse _)

/-- The first task of the ready list is taken from it. It does not stand as `F` says any more, and may
sleep. -/
theorem passes (h : Prompt F e) {rest : List TaskId} (first : e.ready = id :: rest)
    (ready : e'.ready = rest)
    (others : ∀ {n x}, e'.tasks[n]? = some (some x) → F x → n ≠ id ∧ e.tasks[n]? = some (some x))
    (alarms : ∀ a ∈ e'.alarms, (a.task = id ∧ id < e.tasks.length) ∨ a ∈ e.alarms ∨
      ∃ b ∈ e.alarms, b.task = a.task)
    (length : e'.tasks.length = e.tasks.length) : Advances F 1 e e' := by
  refine ⟨⟨?_, ?_, ?_⟩, Nat.le_of_eq length.symm, ?_⟩
  · intro n x stands fresh
    rcases others stands fresh with ⟨ne, before⟩
    have there := h.ready before fresh
    rw [first] at there
    rw [ready]
    exact (List.mem_cons.1 there).resolve_left ne
  · intro n x stands fresh a member
    rcases others stands fresh with ⟨ne, before⟩
    rcases alarms a member with ⟨own, _⟩ | old | ⟨b, old, same⟩
    · rw [own]
      exact Ne.symm ne
    · exact h.awake before fresh a old
    · rw [← same]
      exact h.awake before fresh b old
  · intro a member
    rw [length]
    rcases alarms a member with ⟨own, inside⟩ | old | ⟨b, old, same⟩
    · rw [own]
      exact inside
    · exact h.known a old
    · rw [← same]
      exact h.known b old
  · intro n x _ stands fresh
    rcases others stands fresh with ⟨ne, before⟩
    refine ⟨before, Nat.le_of_eq ?_⟩
    simp [ahead, first, ready, Ne.symm ne]

end Prompt

/-- No turn leaves a task as `F` says. -/
def Departs (p : Program σ τ ρ α β) (F : τ → Prop) : Prop :=
  ∀ {now n x s t y}, p.turn now n x s = .ok t → standing t.next = some y → ¬ F y

theorem ready_proceed (e : Executor σ τ ρ) (id : TaskId) (next : Next τ ρ) :
    (e.proceed id next).ready = e.ready := by
  cases next with
  | finish result =>
      rfl
  | wait task alarm =>
      cases alarm <;> rfl

/-- The only alarm that is set after a turn is that of the task. -/
theorem mem_alarms_proceed {next : Next τ ρ} {a : Alarm}
    (member : a ∈ (e.proceed id next).alarms) : a.task = id ∨ a ∈ e.alarms := by
  cases next with
  | finish result =>
      exact .inr member
  | wait task alarm =>
      cases alarm with
      | none =>
          exact .inr member
      | some deadline =>
          rcases List.mem_cons.1 ((Alarm.insert_perm _ _).mem_iff.1 member) with rfl | old
          · exact .inl rfl
          · exact .inr old

/-- A task that has had its turn is done with it, or waits. -/
theorem Prompt.proceed (h : Prompt F e) {rest : List TaskId} (first : e.ready = id :: rest)
    (inside : id < e.tasks.length) (tasks : e'.tasks = e.tasks) (ready : e'.ready = rest)
    (alarms : ∀ a ∈ e'.alarms, a ∈ e.alarms) {next : Next τ ρ}
    (departs : ∀ y, standing next = some y → ¬ F y) : Advances F 1 e (e'.proceed id next) := by
  have changed : (e'.proceed id next).tasks = e.tasks.set id (standing next) := by
    rw [(proceed_alike e' id next).tasks, ← tasks]
  refine h.passes first ((ready_proceed e' id next).trans ready) ?_ ?_ ?_
  · intro n x stands fresh
    rw [changed] at stands
    by_cases here : id = n
    · subst here
      rw [List.getElem?_set_self inside] at stands
      exact absurd fresh (departs x (Option.some.inj stands))
    · rw [List.getElem?_set_ne here] at stands
      exact ⟨Ne.symm here, stands⟩
  · intro a member
    rcases mem_alarms_proceed member with own | old
    · exact .inl ⟨own, inside⟩
    · exact .inr (.inl (alarms a old))
  · rw [changed, List.length_set]

variable {p : Program σ τ ρ α β}

/-- A turn brings all tasks forward that still have had none. -/
theorem Prompt.turn (h : Prompt F e) (departs : Departs p F) (turned : e.turn p = .ok e') :
    Advances F 1 e e' := by
  unfold Executor.turn at turned
  split at turned
  · -- nobody is ready, so there is no such task
    rename_i nobody
    cases turned
    refine ⟨h, Nat.le_refl _, ?_⟩
    intro n x _ stands fresh
    have there := h.ready stands fresh
    rw [nobody] at there
    cases there
  · rename_i id rest first
    simp only at turned
    split at turned
    · -- who sleeps on has had a turn before
      rename_i asleep
      cases turned
      refine h.passes first rfl ?_ ?_ rfl
      · intro n x stands fresh
        refine ⟨?_, stands⟩
        rintro rfl
        have sleeps : e.sleepsOn n = true := asleep
        rw [h.sleepsOn stands fresh] at sleeps
        cases sleeps
      · intro a member
        rcases List.mem_map.1 member with ⟨b, old, rfl⟩
        exact .inr (.inr ⟨b, old, by split <;> rfl⟩)
    · unfold take at turned
      split at turned
      · rename_i gone
        cases turned
        refine h.passes first rfl ?_ (fun a member => .inr (.inl member)) rfl
        intro n x stands fresh
        refine ⟨?_, stands⟩
        rintro rfl
        simp [task?, stands] at gone
      · rename_i task found
        rcases ok_of_bind turned with ⟨t, went, same⟩
        cases same
        have stands : e.tasks[id]? = some (some task) := getElem?_of_task? (e := e) found
        have inside := (List.getElem?_eq_some_iff.1 stands).1
        have passed : Advances F 1 e
            (({ ({ e with ready := rest } : Executor σ τ ρ).clearAlarm id with
                shared := t.shared } : Executor σ τ ρ).proceed id t.next) := by
          refine h.proceed first inside ?_ ?_ ?_ fun y => departs went
          · rfl
          · rfl
          · exact fun a member => List.mem_of_mem_filter member
        exact passed.trans (passed.prompt.carryOutAll p t.effects)

/-- An action only adds tasks, which are ready when they start. -/
theorem Prompt.act {action : α} {answer : β} (h : Prompt F e) (acted : e.act p action = .ok (e', answer)) :
    Advances F 0 e e' := by
  rcases act_cases acted with ⟨r, _, _, rfl⟩
  have shared : Advances F 0 e { e with shared := r.shared } := h.of_same rfl rfl rfl
  exact shared.trans (shared.prompt.carryOutAll p r.effects)

def Moment.isTurn (m : Moment σ τ ρ α β) : Bool :=
  match m.2 with
  | .turn => true
  | .act _ _ | .clock _ | .kill _ => false

/-- Every move keeps those that are ready in their order, and a turn brings them forward by one. -/
theorem advances_of_step {l : Label α β} (h : Prompt F e) (departs : Departs p F)
    (step : Step p e l e') : Advances F (Moment.isTurn (e, l)).toNat e e' := by
  cases step with
  | act acted =>
      exact h.act acted
  | turn turned =>
      exact h.turn departs turned
  | clock time =>
      exact h.setClock time
  | kill task =>
      have dropped := h.drop p task
      exact dropped.trans (dropped.prompt.sweep p)

/-- A task that has had no turn in a run was reached by none of the turns of the run. -/
theorem advances_of_history {hs : List (Moment σ τ ρ α β)} (h : Prompt F e)
    (departs : Departs p F) (history : History p e hs e') :
    Advances F (hs.countP Moment.isTurn) e e' := by
  induction history with
  | refl =>
      exact h.refl
  | @tail hs l middle e' before step ih =>
      have last : [(middle, l)].countP Moment.isTurn = (Moment.isTurn (middle, l)).toNat := by
        rw [List.countP_singleton]
        cases Moment.isTurn (middle, l) <;> rfl
      rw [List.countP_append, last]
      exact ih.trans (advances_of_step ih.prompt departs step)

end Executor
end MeteredFetch
