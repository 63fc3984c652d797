import MeteredFetch.Panic

/-!
# Executor — cooperative tasks on a virtual clock

One thread runs *tasks* that take turns. A turn goes on until the task ends or has to wait, and
takes no time. Tasks whose turn has come stand in the ready list, first in first out.

* `Program` says what a turn of a task does, what may be done from outside, and what dropping a
  task leaves behind. It knows nothing of clocks and lists.
* `Executor` is the state of a run: the clock, the state that the tasks share, the tasks, the
  ready list, and the alarms that were set.
* `Alarm` — an alarm that has rung ends a sleep only if it is still due when the turn of the task
  comes. If the clock was set back meanwhile, the alarm is set again, in its old place.
* `Executor.turn`, `Executor.act`, `Executor.setClock` and `Executor.kill` are the moves of a run.
  Everything else is made of them.
-/

namespace MeteredFetch

/-- A moment, in nanoseconds since the epoch. -/
abbrev Instant := Nat

/-- The number of a task, in the order in which the tasks came to be. -/
abbrev TaskId := Nat

/-! ## Programs -/

inductive Effect (τ : Type)
  /-- Let a waiting task go on. -/
  | wake (task : TaskId)
  /-- Start a task. -/
  | spawn (task : τ)
  /-- Drop a task where it stands. -/
  | drop (task : TaskId)
  deriving DecidableEq, Repr

inductive Next (τ ρ : Type)
  /-- The task waits to be woken, at the latest by the alarm if it sets one. -/
  | wait (task : τ) (alarm : Option Instant)
  /-- The task has ended. -/
  | finish (result : ρ)
  deriving DecidableEq, Repr

def Next.map {τ ρ τ' ρ' : Type} (onWait : τ → τ') (onFinish : ρ → ρ') : Next τ ρ → Next τ' ρ'
  | .wait task alarm => .wait (onWait task) alarm
  | .finish result => .finish (onFinish result)

structure Turn (σ τ ρ : Type) where
  shared : σ
  effects : List (Effect τ)
  next : Next τ ρ

/-- What an action from outside leaves behind, and the answer to it. -/
structure Reaction (σ τ β : Type) where
  shared : σ
  effects : List (Effect τ)
  answer : β

/-- The behaviour of tasks of type `τ` that share a state of type `σ` and end with a result of
type `ρ`, under actions of type `α` that are answered by `β`. -/
structure Program (σ τ ρ α β : Type) where
  /-- The turn of a task, at the present moment and under its number. -/
  turn : Instant → TaskId → τ → σ → Except Panic (Turn σ τ ρ)
  /-- An action from outside, at the present moment; the number is the one that the first task
  it starts will get. -/
  perform : Instant → TaskId → α → σ → Except Panic (Reaction σ τ β)
  /-- What dropping a task does to the shared state. -/
  drop : TaskId → τ → σ → σ
  /-- Notices what no task can bring about any more, and names the tasks that waited for it. -/
  sweep : List (Option τ) → σ → σ × List TaskId

/-! ## State of a run -/

structure Alarm where
  deadline : Instant
  task : TaskId
  /-- Whether it has rung, and the turn of the task has not come since. -/
  rung : Bool := false
  deriving DecidableEq, Repr

def Alarm.isDue (a : Alarm) (time : Instant) : Bool :=
  decide (a.deadline ≤ time)

def Alarm.ring (time : Instant) (a : Alarm) : Alarm :=
  if a.isDue time then { a with rung := true } else a

/-- Puts an alarm behind all that are due no later. -/
def Alarm.insert (a : Alarm) : List Alarm → List Alarm
  | [] => [a]
  | b :: rest => if b.deadline ≤ a.deadline then b :: insert a rest else a :: b :: rest

namespace Alarm

theorem insert_perm (a : Alarm) (alarms : List Alarm) : (insert a alarms).Perm (a :: alarms) := by
  induction alarms with
  | nil => exact List.Perm.refl _
  | cons b rest ih =>
      unfold insert
      split
      · exact (ih.cons b).trans (List.Perm.swap a b rest)
      · exact List.Perm.refl _

/-- Alarms stay in the order of their deadlines. -/
theorem pairwise_insert (a : Alarm) {alarms : List Alarm}
    (h : alarms.Pairwise fun x y => x.deadline ≤ y.deadline) :
    (insert a alarms).Pairwise fun x y => x.deadline ≤ y.deadline := by
  induction alarms with
  | nil => exact List.pairwise_singleton _ _
  | cons b rest ih =>
      obtain ⟨first, later⟩ := List.pairwise_cons.1 h
      unfold insert
      split
      · -- the new alarm goes behind the first one
        rename_i le
        refine List.pairwise_cons.2 ⟨?_, ih later⟩
        intro x member
        rcases List.mem_cons.1 ((insert_perm a rest).mem_iff.1 member) with rfl | old
        · exact le
        · exact first x old
      · -- the new alarm goes before all others
        rename_i lt
        refine List.pairwise_cons.2 ⟨?_, h⟩
        intro x member
        rcases List.mem_cons.1 member with rfl | old
        · exact Nat.le_of_not_le lt
        · exact Nat.le_trans (Nat.le_of_not_le lt) (first x old)

@[simp] theorem deadline_ring (time : Instant) (a : Alarm) : (a.ring time).deadline = a.deadline := by
  unfold ring
  split <;> rfl

@[simp] theorem task_ring (time : Instant) (a : Alarm) : (a.ring time).task = a.task := by
  unfold ring
  split <;> rfl

end Alarm

structure Completion (ρ : Type) where
  task : TaskId
  result : ρ
  time : Instant
  deriving DecidableEq, Repr

/-- The state of a run. -/
structure Executor (σ τ ρ : Type) where
  /-- The clock. -/
  now : Instant
  /-- What the tasks share. -/
  shared : σ
  /-- Where each task stands, by number; those that ended or were dropped are gone. -/
  tasks : List (Option τ) := []
  /-- The tasks whose turn has come, the next one first. -/
  ready : List TaskId := []
  /-- The alarms of the tasks that sleep, by deadline and then in the order in which the tasks
  began to sleep. -/
  alarms : List Alarm := []
  /-- The tasks that ended, the latest first. -/
  finished : List (Completion ρ) := []
  deriving DecidableEq, Repr

namespace Executor

variable {σ τ ρ α β : Type}

def task? (e : Executor σ τ ρ) (id : TaskId) : Option τ :=
  (e.tasks[id]?).join

/-! ## Effects -/

/-- Puts a task at the end of the ready list, unless it stands there already or is gone. -/
def rouse (e : Executor σ τ ρ) (id : TaskId) : Executor σ τ ρ :=
  if (e.task? id).isSome && !e.ready.contains id then { e with ready := e.ready ++ [id] } else e

def spawn (e : Executor σ τ ρ) (task : τ) : Executor σ τ ρ :=
  { e with tasks := e.tasks ++ [some task], ready := e.ready ++ [e.tasks.length] }

def alarm? (e : Executor σ τ ρ) (id : TaskId) : Option Alarm :=
  e.alarms.find? fun a => a.task == id

def setAlarm (e : Executor σ τ ρ) (id : TaskId) : Option Instant → Executor σ τ ρ
  | some deadline => { e with alarms := Alarm.insert { deadline, task := id } e.alarms }
  | none => e

def clearAlarm (e : Executor σ τ ρ) (id : TaskId) : Executor σ τ ρ :=
  { e with alarms := e.alarms.filter fun a => a.task != id }

/-- Sets the alarm of a task again, in its old place. -/
def resetAlarm (e : Executor σ τ ρ) (id : TaskId) : Executor σ τ ρ :=
  { e with alarms := e.alarms.map fun a => if a.task == id then { a with rung := false } else a }

/-- Wakes a task otherwise than by its alarm, which is not needed any more. -/
def wake (e : Executor σ τ ρ) (id : TaskId) : Executor σ τ ρ :=
  (e.clearAlarm id).rouse id

/-- Whether the turn of a task has come only because of an alarm that is not due any more. -/
def sleepsOn (e : Executor σ τ ρ) (id : TaskId) : Bool :=
  (e.alarm? id).any fun a => !a.isDue e.now

def drop (p : Program σ τ ρ α β) (e : Executor σ τ ρ) (id : TaskId) : Executor σ τ ρ :=
  match e.task? id with
  | none => e
  | some task =>
      { e.clearAlarm id with
        shared := p.drop id task e.shared
        tasks := e.tasks.set id none
        ready := e.ready.filter (· != id) }

def carryOut (p : Program σ τ ρ α β) (e : Executor σ τ ρ) : Effect τ → Executor σ τ ρ
  | .wake id => e.wake id
  | .spawn task => e.spawn task
  | .drop id => e.drop p id

def sweep (p : Program σ τ ρ α β) (e : Executor σ τ ρ) : Executor σ τ ρ :=
  let (shared, stranded) := p.sweep e.tasks e.shared
  stranded.foldl wake { e with shared }

/-- Carries out effects in order and then sweeps. -/
def carryOutAll (p : Program σ τ ρ α β) (e : Executor σ τ ρ) (effects : List (Effect τ)) :
    Executor σ τ ρ :=
  (effects.foldl (carryOut p) e).sweep p

def proceed (e : Executor σ τ ρ) (id : TaskId) : Next τ ρ → Executor σ τ ρ
  | .wait task alarm => { e with tasks := e.tasks.set id (some task) }.setAlarm id alarm
  | .finish result =>
      { e with
        tasks := e.tasks.set id none
        finished := ⟨id, result, e.now⟩ :: e.finished }

/-! ## Moves -/

/-- A task takes its turn. Its sleep is over. -/
def take (p : Program σ τ ρ α β) (e : Executor σ τ ρ) (id : TaskId) :
    Except Panic (Executor σ τ ρ) :=
  match e.task? id with
  | none => .ok e
  | some task => do
      let t ← p.turn e.now id task e.shared
      return ({ e.clearAlarm id with shared := t.shared }.proceed id t.next).carryOutAll p t.effects

/-- The next task of the ready list takes its turn, unless it sleeps on. -/
def turn (p : Program σ τ ρ α β) (e : Executor σ τ ρ) : Except Panic (Executor σ τ ρ) :=
  match e.ready with
  | [] => .ok e
  | id :: rest =>
      let e := { e with ready := rest }
      if e.sleepsOn id then .ok (e.resetAlarm id) else e.take p id

def act (p : Program σ τ ρ α β) (e : Executor σ τ ρ) (action : α) :
    Except Panic (Executor σ τ ρ × β) := do
  let r ← p.perform e.now e.tasks.length action e.shared
  return ({ e with shared := r.shared }.carryOutAll p r.effects, r.answer)

/-- Sets the clock, to earlier or later, and lets the alarms ring that are due. -/
def setClock (e : Executor σ τ ρ) (time : Instant) : Executor σ τ ρ :=
  let due := e.alarms.filter fun a => a.isDue time && !a.rung
  (due.map Alarm.task).foldl rouse { e with now := time, alarms := e.alarms.map (.ring time) }

def kill (p : Program σ τ ρ α β) (e : Executor σ τ ρ) (id : TaskId) : Executor σ τ ρ :=
  (e.drop p id).sweep p

end Executor
end MeteredFetch
