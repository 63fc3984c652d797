import MeteredFetch.Proofs.Executor.History

/-!
# Step — what a move changes

Who is ready and when the alarms ring decides whose turn comes next, and nothing else. What a move
does to the clock, to the shared state, to the tasks and to the ends that are recorded is said here
once for each kind of move.

* `Executor.Alike` — two states that differ at most in who is ready and in the alarms;
* `Executor.next?` — the task that the next turn goes to;
* `Executor.turn_cases`, `Executor.act_cases`, `Executor.drop_alike` — what turns, actions and drops
  change;
* `Executor.Holds` — a property of the shared state and one of every task, kept by carrying out
  effects of any kind;
* `Executor.shared_of_step` — what actions and turns do to the shared state, every move does.
-/

namespace MeteredFetch

/-- A computation in two parts has a result only if both have one. -/
theorem ok_of_bind {ε α β : Type} {x : Except ε α} {f : α → Except ε β} {b : β}
    (h : (x >>= f) = .ok b) : ∃ a, x = .ok a ∧ f a = .ok b := by
  cases x with
  | error e =>
      cases h
  | ok a =>
      exact ⟨a, rfl, h⟩

namespace Executor

variable {σ τ ρ α β : Type}

/-! ## States that differ in readiness only -/

/-- The second state differs from the first at most in who is ready and in the alarms. -/
structure Alike (e e' : Executor σ τ ρ) : Prop where
  now : e'.now = e.now
  shared : e'.shared = e.shared
  tasks : e'.tasks = e.tasks
  finished : e'.finished = e.finished

namespace Alike

theorem refl (e : Executor σ τ ρ) : Alike e e :=
  ⟨rfl, rfl, rfl, rfl⟩

theorem trans {e e' e'' : Executor σ τ ρ} (h : Alike e e') (h' : Alike e' e'') : Alike e e'' :=
  ⟨h'.now.trans h.now, h'.shared.trans h.shared, h'.tasks.trans h.tasks,
    h'.finished.trans h.finished⟩

/-- Rousing changes nothing but who is ready. -/
theorem rouse (e : Executor σ τ ρ) (id : TaskId) : Alike e (e.rouse id) := by
  unfold Executor.rouse
  split
  · exact ⟨rfl, rfl, rfl, rfl⟩
  · exact refl e

theorem wake (e : Executor σ τ ρ) (id : TaskId) : Alike e (e.wake id) := by
  have cleared : Alike e (e.clearAlarm id) := ⟨rfl, rfl, rfl, rfl⟩
  exact cleared.trans (rouse _ id)

/-- Setting an alarm changes nothing but the alarms. -/
theorem setAlarm (e : Executor σ τ ρ) (id : TaskId) (alarm : Option Instant) :
    Alike e (e.setAlarm id alarm) := by
  cases alarm with
  | none =>
      exact refl e
  | some deadline =>
      exact ⟨rfl, rfl, rfl, rfl⟩

theorem foldl_rouse (ids : List TaskId) (e : Executor σ τ ρ) :
    Alike e (ids.foldl Executor.rouse e) := by
  induction ids generalizing e with
  | nil =>
      exact refl e
  | cons id rest ih =>
      exact (rouse e id).trans (ih (e.rouse id))

theorem foldl_wake (ids : List TaskId) (e : Executor σ τ ρ) :
    Alike e (ids.foldl Executor.wake e) := by
  induction ids generalizing e with
  | nil =>
      exact refl e
  | cons id rest ih =>
      exact (wake e id).trans (ih (e.wake id))

end Alike

/-- A change of the clock reaches tasks and shared state only through the alarms. -/
theorem setClock_alike (e : Executor σ τ ρ) (time : Instant) :
    Alike { e with now := time } (e.setClock time) := by
  have rung : Alike { e with now := time }
      { e with now := time, alarms := e.alarms.map (.ring time) } := ⟨rfl, rfl, rfl, rfl⟩
  exact rung.trans (Alike.foldl_rouse _ _)

/-! ## Effects -/

def spawned (effects : List (Effect τ)) : List τ :=
  effects.filterMap fun
    | .spawn task => some task
    | .wake _ | .drop _ => none

theorem mem_spawned {effects : List (Effect τ)} {task : τ} :
    task ∈ spawned effects ↔ .spawn task ∈ effects := by
  unfold spawned
  rw [List.mem_filterMap]
  constructor
  · rintro ⟨effect, member, same⟩
    cases effect with
    | spawn started =>
        cases same
        exact member
    | _ =>
        cases same
  · intro member
    exact ⟨_, member, rfl⟩

def Gentle (effects : List (Effect τ)) : Prop :=
  ∀ id, Effect.drop id ∉ effects

def Waking (effects : List (Effect τ)) : Prop :=
  ∀ effect ∈ effects, ∃ id, effect = .wake id

namespace Waking

variable {effects : List (Effect τ)}

theorem nil : Waking ([] : List (Effect τ)) :=
  fun _ member => absurd member List.not_mem_nil

theorem map_wake (ids : List TaskId) : Waking (ids.map (Effect.wake (τ := τ))) := by
  intro effect member
  rcases List.mem_map.1 member with ⟨id, _, same⟩
  exact ⟨id, same.symm⟩

theorem gentle (h : Waking effects) : Gentle effects := by
  intro id member
  rcases h _ member with ⟨_, same⟩
  cases same

theorem not_spawn_mem (h : Waking effects) (task : τ) : .spawn task ∉ effects := by
  intro member
  rcases h _ member with ⟨_, same⟩
  cases same

/-- Waking starts no task. -/
theorem spawned_eq_nil (h : Waking effects) : spawned effects = [] := by
  refine List.filterMap_eq_nil_iff.2 fun effect member => ?_
  rcases h effect member with ⟨id, rfl⟩
  rfl

end Waking

/-- Effects that drop nobody put the new tasks at the end, and leave the others in their place. -/
theorem foldl_carryOut_alike (p : Program σ τ ρ α β) {effects : List (Effect τ)}
    (gentle : Gentle effects) (e : Executor σ τ ρ) :
    Alike { e with tasks := e.tasks ++ (spawned effects).map some }
      (effects.foldl (carryOut p) e) := by
  induction effects generalizing e with
  | nil =>
      exact ⟨rfl, rfl, by simp [spawned], rfl⟩
  | cons effect rest ih =>
      have later := ih (fun id member => gentle id (List.mem_cons_of_mem _ member))
        (e.carryOut p effect)
      cases effect with
      | wake id =>
          have woken := Alike.wake e id
          exact ⟨later.now.trans woken.now, later.shared.trans woken.shared,
            by simpa [carryOut, spawned, woken.tasks] using later.tasks,
            later.finished.trans woken.finished⟩
      | spawn task =>
          exact ⟨later.now, later.shared,
            by simpa [carryOut, spawn, spawned] using later.tasks, later.finished⟩
      | drop id =>
          exact absurd (List.mem_cons_self ..) (gentle id)

/-- What is left when effects were carried out that drop nothing. -/
theorem carryOutAll_alike (p : Program σ τ ρ α β) {effects : List (Effect τ)}
    (gentle : Gentle effects) (e : Executor σ τ ρ) :
    Alike { e with
        tasks := e.tasks ++ (spawned effects).map some
        shared := (p.sweep (e.tasks ++ (spawned effects).map some) e.shared).1 }
      (e.carryOutAll p effects) := by
  have carried := foldl_carryOut_alike p gentle e
  have swept := Alike.foldl_wake (p.sweep (effects.foldl (carryOut p) e).tasks
      (effects.foldl (carryOut p) e).shared).2
    { effects.foldl (carryOut p) e with
      shared := (p.sweep (effects.foldl (carryOut p) e).tasks
        (effects.foldl (carryOut p) e).shared).1 }
  refine ⟨swept.now.trans carried.now, swept.shared.trans ?_, swept.tasks.trans carried.tasks,
    swept.finished.trans carried.finished⟩
  simp only [carried.tasks, carried.shared]

/-! ## Turns -/

/-- The task that the next turn goes to, with its number. There is none if nobody is ready, or if
the first of the ready list sleeps on or is gone. -/
def next? (e : Executor σ τ ρ) : Option (TaskId × τ) :=
  match e.ready with
  | [] => none
  | id :: _ => if e.sleepsOn id then none else (e.task? id).map fun task => (id, task)

/-- Where a task stands after a turn, unless it has ended. -/
def standing : Next τ ρ → Option τ
  | .wait task _ => some task
  | .finish _ => none

@[simp]
theorem standing_map {τ' ρ' : Type} (onWait : τ → τ') (onFinish : ρ → ρ') (next : Next τ ρ) :
    standing (next.map onWait onFinish) = (standing next).map onWait := by
  cases next <;> rfl

/-- The ends that are recorded after a turn. -/
def recorded (e : Executor σ τ ρ) (id : TaskId) : Next τ ρ → List (Completion ρ)
  | .wait _ _ => e.finished
  | .finish result => ⟨id, result, e.now⟩ :: e.finished

/-- The end of a turn is recorded, and its task put where it stands then. -/
theorem proceed_alike (e : Executor σ τ ρ) (id : TaskId) (next : Next τ ρ) :
    Alike { e with tasks := e.tasks.set id (standing next), finished := e.recorded id next }
      (e.proceed id next) := by
  cases next with
  | wait task alarm =>
      exact Alike.setAlarm _ id alarm
  | finish result =>
      exact ⟨rfl, rfl, rfl, rfl⟩

theorem getElem?_of_task? {e : Executor σ τ ρ} {id : TaskId} {task : τ}
    (h : e.task? id = some task) : e.tasks[id]? = some (some task) := by
  simpa [task?, Option.join_eq_some_iff] using h

theorem task?_of_next? {e : Executor σ τ ρ} {id : TaskId} {task : τ}
    (h : e.next? = some (id, task)) : e.tasks[id]? = some (some task) := by
  unfold next? at h
  split at h
  · cases h
  · split at h
    · cases h
    · rcases Option.map_eq_some_iff.1 h with ⟨found, standsThere, same⟩
      cases same
      exact getElem?_of_task? standsThere

/-- What is left after a turn: the move changed nothing but readiness, or it was a turn of the
task that it goes to. -/
theorem turn_cases {p : Program σ τ ρ α β} {e e' : Executor σ τ ρ} (h : e.turn p = .ok e') :
    (e.next? = none ∧ Alike e e') ∨
      ∃ id task t, ∃ middle : Executor σ τ ρ,
        e.next? = some (id, task) ∧ p.turn e.now id task e.shared = .ok t ∧
        Alike
          { e with
            shared := t.shared
            tasks := e.tasks.set id (standing t.next)
            finished := e.recorded id t.next } middle ∧
        e' = middle.carryOutAll p t.effects := by
  unfold turn at h
  split at h
  · rename_i nobody
    cases h
    exact .inl ⟨by simp [next?, nobody], .refl e⟩
  · rename_i id rest ready
    -- neither the sleep of a task nor where it stands depends on the ready list
    have sleeps : ({ e with ready := rest } : Executor σ τ ρ).sleepsOn id = e.sleepsOn id := rfl
    simp only [sleeps] at h
    split at h
    · rename_i asleep
      cases h
      exact .inl ⟨by simp [next?, ready, asleep], rfl, rfl, rfl, rfl⟩
    · rename_i awake
      unfold take at h
      have stands : ({ e with ready := rest } : Executor σ τ ρ).task? id = e.task? id := rfl
      rw [stands] at h
      cases found : e.task? id with
      | none =>
          simp only [found] at h
          cases h
          exact .inl ⟨by simp [next?, ready, found], rfl, rfl, rfl, rfl⟩
      | some task =>
          simp only [found] at h
          obtain ⟨t, turned, rfl⟩ : ∃ t, p.turn e.now id task e.shared = .ok t ∧ _ = e' := by
            obtain ⟨t, turned, same⟩ := ok_of_bind h
            exact ⟨t, turned, by simpa [pure, Except.pure] using same⟩
          refine .inr ⟨id, task, t, _, ?_, turned, ?_, rfl⟩
          · simp [next?, ready, awake, found]
          · have proceeded := proceed_alike
              { ({ e with ready := rest } : Executor σ τ ρ).clearAlarm id with shared := t.shared }
              id t.next
            refine ⟨proceeded.now, proceeded.shared, proceeded.tasks, ?_⟩
            refine proceeded.finished.trans ?_
            cases t.next <;> rfl

/-! ## Actions and drops -/

/-- What is done from outside is the reaction of the program and its effects. -/
theorem act_cases {p : Program σ τ ρ α β} {e e' : Executor σ τ ρ} {action : α} {answer : β}
    (h : e.act p action = .ok (e', answer)) :
    ∃ r, p.perform e.now e.tasks.length action e.shared = .ok r ∧ answer = r.answer ∧
      e' = ({ e with shared := r.shared } : Executor σ τ ρ).carryOutAll p r.effects := by
  rcases ok_of_bind h with ⟨r, performed, same⟩
  cases same
  exact ⟨r, performed, rfl, rfl⟩

/-- A drop takes the task out and leaves the program to clear up after it. -/
theorem drop_alike (p : Program σ τ ρ α β) (e : Executor σ τ ρ) {id : TaskId} {task : τ}
    (h : e.task? id = some task) :
    Alike { e with shared := p.drop id task e.shared, tasks := e.tasks.set id none }
      (e.drop p id) := by
  unfold drop
  rw [h]
  exact ⟨rfl, rfl, rfl, rfl⟩

theorem drop_of_task?_eq_none (p : Program σ τ ρ α β) {e : Executor σ τ ρ} {id : TaskId}
    (h : e.task? id = none) : e.drop p id = e := by
  unfold drop
  rw [h]

/-- A sweep changes what the program lets it change. -/
theorem sweep_alike (p : Program σ τ ρ α β) (e : Executor σ τ ρ) :
    Alike { e with shared := (p.sweep e.tasks e.shared).1 } (e.sweep p) :=
  Alike.foldl_wake _ _

/-- Effects neither let time pass nor end tasks. -/
theorem carryOutAll_same (p : Program σ τ ρ α β) (effects : List (Effect τ))
    (e : Executor σ τ ρ) :
    (e.carryOutAll p effects).now = e.now ∧ (e.carryOutAll p effects).finished = e.finished := by
  have swept := sweep_alike p (effects.foldl (carryOut p) e)
  suffices carried : (effects.foldl (carryOut p) e).now = e.now ∧
      (effects.foldl (carryOut p) e).finished = e.finished from
    ⟨swept.now.trans carried.1, swept.finished.trans carried.2⟩
  clear swept
  induction effects generalizing e with
  | nil =>
      exact ⟨rfl, rfl⟩
  | cons effect rest ih =>
      have later := ih (e.carryOut p effect)
      have first : (e.carryOut p effect).now = e.now ∧
          (e.carryOut p effect).finished = e.finished := by
        cases effect with
        | wake id =>
            exact ⟨(Alike.wake e id).now, (Alike.wake e id).finished⟩
        | spawn task =>
            exact ⟨rfl, rfl⟩
        | drop id =>
            cases found : e.task? id with
            | none =>
                simp only [carryOut, drop_of_task?_eq_none p found, and_self]
            | some task =>
                have alike := drop_alike p e found
                exact ⟨alike.now, alike.finished⟩
      exact ⟨later.1.trans first.1, later.2.trans first.2⟩

/-! ## Properties that effects keep -/

/-- What every task has is kept if one of them changes, or ends. -/
theorem forall_task_set {T : τ → Prop} {tasks : List (Option τ)} {id : TaskId} {task : Option τ}
    (h : ∀ x, some x ∈ tasks → T x) (good : ∀ x, task = some x → T x) :
    ∀ x, some x ∈ tasks.set id task → T x := by
  intro x member
  rcases List.mem_or_eq_of_mem_set member with old | new
  · exact h x old
  · exact good x new.symm

structure Holds (S : σ → Prop) (T : τ → Prop) (e : Executor σ τ ρ) : Prop where
  shared : S e.shared
  tasks : ∀ task, some task ∈ e.tasks → T task

namespace Holds

variable {S : σ → Prop} {T : τ → Prop} {p : Program σ τ ρ α β}

/-- Who is ready matters neither to the shared state nor to where tasks stand. -/
theorem of_alike {e e' : Executor σ τ ρ} (h : Holds S T e) (alike : Alike e e') :
    Holds S T e' :=
  ⟨alike.shared ▸ h.shared, fun task member => h.tasks task (alike.tasks ▸ member)⟩

theorem drop (dropped : ∀ id task s, S s → S (p.drop id task s)) {e : Executor σ τ ρ}
    (h : Holds S T e) (id : TaskId) : Holds S T (e.drop p id) := by
  cases found : e.task? id with
  | none =>
      rw [drop_of_task?_eq_none p found]
      exact h
  | some task =>
      have gone : Holds S T { e with
          shared := p.drop id task e.shared, tasks := e.tasks.set id none } :=
        ⟨dropped id task _ h.shared, forall_task_set h.tasks (by simp)⟩
      exact gone.of_alike (drop_alike p e found)

theorem sweep (swept : ∀ tasks s, S s → S (p.sweep tasks s).1) {e : Executor σ τ ρ}
    (h : Holds S T e) : Holds S T (e.sweep p) :=
  of_alike (e := { e with shared := (p.sweep e.tasks e.shared).1 })
    ⟨swept e.tasks e.shared h.shared, h.tasks⟩ (sweep_alike p e)

/-- Effects keep what drops, sweeps and new tasks keep. -/
theorem carryOutAll (dropped : ∀ id task s, S s → S (p.drop id task s))
    (swept : ∀ tasks s, S s → S (p.sweep tasks s).1) {effects : List (Effect τ)}
    (fresh : ∀ task, .spawn task ∈ effects → T task) {e : Executor σ τ ρ} (h : Holds S T e) :
    Holds S T (e.carryOutAll p effects) := by
  refine sweep swept ?_
  induction effects generalizing e with
  | nil =>
      exact h
  | cons effect rest ih =>
      refine ih (fun task member => fresh task (List.mem_cons_of_mem _ member)) ?_
      cases effect with
      | wake id =>
          exact h.of_alike (Alike.wake e id)
      | spawn task =>
          refine ⟨h.shared, ?_⟩
          intro x member
          rcases List.mem_append.1 member with old | new
          · exact h.tasks x old
          · cases List.mem_singleton.1 new
            exact fresh task (List.mem_cons_self ..)
      | drop id =>
          exact h.drop dropped id

end Holds

/-! ## What every move does to the shared state -/

/-- What the shared state has that drops and sweeps do not take from it, it has after every move if
it has it after the action or the turn of this move. -/
theorem shared_of_step {p : Program σ τ ρ α β} {S : σ → Prop} {e e' : Executor σ τ ρ}
    {l : Label α β} (step : Step p e l e') (start : S e.shared)
    (dropped : ∀ id task s, S s → S (p.drop id task s))
    (swept : ∀ tasks s, S s → S (p.sweep tasks s).1)
    (acted : ∀ {action r}, p.perform e.now e.tasks.length action e.shared = .ok r → S r.shared)
    (turned : ∀ {id task t}, e.next? = some (id, task) →
      p.turn e.now id task e.shared = .ok t → S t.shared) : S e'.shared := by
  -- the tasks make no difference to it
  have carried : ∀ (effects : List (Effect τ)) (e₁ : Executor σ τ ρ), S e₁.shared →
      S (e₁.carryOutAll p effects).shared := by
    intro effects e₁ before
    have holds : Holds S (fun _ => True) e₁ := ⟨before, fun _ _ => trivial⟩
    exact (holds.carryOutAll dropped swept fun _ _ => trivial).shared
  cases step with
  | act done =>
      rcases act_cases done with ⟨r, performed, _, rfl⟩
      exact carried r.effects { e with shared := r.shared } (acted performed)
  | turn done =>
      rcases turn_cases done with ⟨_, alike⟩ | ⟨id, task, t, middle, next, went, alike, rfl⟩
      · rw [alike.shared]
        exact start
      · apply carried
        rw [alike.shared]
        exact turned next went
  | clock time =>
      rw [(setClock_alike e time).shared]
      exact start
  | kill task =>
      have holds : Holds S (fun _ => True) e := ⟨start, fun _ _ => trivial⟩
      exact ((holds.drop dropped task).sweep swept).shared

end Executor
end MeteredFetch
