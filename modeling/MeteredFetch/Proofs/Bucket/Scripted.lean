import Mathlib.Data.List.Perm.Subperm
import MeteredFetch.Bucket.Script
import MeteredFetch.Proofs.Executor.Ready
import MeteredFetch.Proofs.Bucket.Rounds

/-!
# Scripted — the moves of scripted runs

Between two commands of a script, turns are given out until nobody is ready, unless the command is held.
When time passes, it stops at every alarm on the way, and turns are given out there. So the moves of a
script are unbroken, and the clock is set as `Moment.letsPass` says unless a command sets it.

* `Bucket.Whole` — moves that are unbroken, and leave nobody ready if they end with a turn;
* `Bucket.whole_of_runFor`, `Bucket.whole_of_advance`, `Bucket.whole_of_step` — giving out turns, letting
  time pass and carrying out a command are such moves;
* `Bucket.whole_of_plays` — a script is.
-/

namespace MeteredFetch
namespace Bucket

open Executor

variable {e e' e'' : State} {hs hs' : List Moment}

/-! ## Unbroken moves -/

/-- Moves that are unbroken, and leave nobody ready if they end with a turn. -/
structure Whole (e : State) (hs : List Moment) (e' : State) : Prop where
  history : History program e hs e'
  unbroken : Unbroken hs
  rests : midway hs → e'.ready = []

namespace Whole

theorem refl (e : State) : Whole e [] e :=
  ⟨.refl, List.IsChain.nil, fun ⟨m, last, _⟩ => by cases last⟩

theorem roster (h : Whole e hs e') (roster : Roster e) : Roster e' :=
  h.history.trace.invariant (fun roster step => roster_of_step roster step) roster

/-- A move that is not a turn. -/
theorem single {l : Label Action Answer} (step : Step program e l e') (other : l ≠ .turn) :
    Whole e [(e, l)] e' := by
  refine ⟨History.refl.tail step, List.isChain_singleton _, fun turning => ?_⟩
  exact absurd ((midway_snoc [] (e, l)).1 turning) other

/-- Unbroken moves can be put together. -/
theorem trans (h : Whole e hs e') (h' : Whole e' hs' e'') : Whole e (hs ++ hs') e'' := by
  refine ⟨h.history.trans h'.history, ?_, ?_⟩
  · refine List.isChain_append.2 ⟨h.unbroken, h'.unbroken, ?_⟩
    intro m last m' first turned
    -- the second part begins where the first one has left nobody ready
    cases hs' with
    | nil =>
        cases first
    | cons m'' rest =>
        cases first
        rcases (show History program e' ([] ++ m' :: rest) e'' from h'.history).split_cons with
          ⟨start, _⟩
        right
        rw [start.of_nil]
        exact h.rests ⟨m, last, turned⟩
  · rintro ⟨m, last, turned⟩
    rcases List.eq_nil_or_concat hs' with rfl | ⟨rest, m', rfl⟩
    · rw [List.append_nil] at last
      rw [h'.history.of_nil]
      exact h.rests ⟨m, last, turned⟩
    · exact h'.rests ⟨m, by simpa using last, turned⟩

end Whole

/-! ## Turns until nobody is ready -/

/-- No more tasks are ready than there are. -/
theorem ready_length_le (roster : Roster e) : e.ready.length ≤ e.tasks.length := by
  have inside : e.ready ⊆ List.range e.tasks.length := fun n member =>
    List.mem_range.2 (roster.known n member)
  have fewer := (List.subperm_of_subset roster.once inside).length_le
  rwa [List.length_range] at fewer

/-- Every turn takes a task from the ready list, so nobody is ready in the end. -/
theorem whole_of_runFor {k : Nat} (roster : Roster e) (few : e.ready.length ≤ k)
    (h : e.runFor program k = .ok e') :
    ∃ hs, Whole e hs e' ∧ (∀ m ∈ hs, m.2 = .turn) ∧ e'.ready = [] := by
  induction k generalizing e with
  | zero =>
      cases h
      exact ⟨[], Whole.refl _, fun m member => absurd member List.not_mem_nil,
        List.length_eq_zero_iff.1 (Nat.le_zero.1 few)⟩
  | succ k ih =>
      unfold runFor at h
      split at h
      · rename_i nobody
        cases h
        exact ⟨[], Whole.refl _, fun m member => absurd member List.not_mem_nil, nobody⟩
      · rename_i id rest ready
        rcases ok_of_bind h with ⟨middle, turned, later⟩
        rcases rung_of_turn roster turned with ⟨nobody, _⟩ | ⟨id', rest', ready', left, _⟩
        · rw [ready] at nobody
          cases nobody
        -- a turn wakes nobody here, so one task less is ready after it
        · have fewer : middle.ready.length ≤ k := by
            rw [ready', List.length_cons] at few
            rw [left]
            exact Nat.le_of_succ_le_succ few
          rcases ih (roster.turn turned) fewer later with ⟨hs, whole, turns, nobody⟩
          refine ⟨(e, .turn) :: hs, ⟨whole.history.head (.turn turned), ?_, fun _ => nobody⟩, ?_,
            nobody⟩
          · refine List.isChain_cons.2 ⟨fun m' first _ => .inl ?_, whole.unbroken⟩
            exact turns m' (List.mem_of_mem_head? first)
          · intro m member
            rcases List.mem_cons.1 member with rfl | there
            · rfl
            · exact turns m there

theorem letsPass_of_turn {m : Moment} (turned : m.2 = .turn) : Moment.letsPass m = true := by
  unfold Moment.letsPass
  rw [turned]

/-- Turns let no time pass and start nobody. -/
theorem same_of_turns (history : History program e hs e') (turns : ∀ m ∈ hs, m.2 = .turn) :
    e'.now = e.now ∧ e'.tasks.length = e.tasks.length := by
  induction history with
  | refl =>
      exact ⟨rfl, rfl⟩
  | @tail hs l e' e'' _ step ih =>
      rcases ih fun m member => turns m (List.mem_append_left _ member) with ⟨now, length⟩
      have turned : l = .turn := turns (e', l) (by simp)
      subst turned
      cases step with
      | turn turned =>
          rcases turn_alike turned with ⟨_, alike⟩ | ⟨id, g, b, o, _, _, alike⟩
          · exact ⟨alike.now.trans now, (congrArg List.length alike.tasks).trans length⟩
          · refine ⟨alike.now.trans now, ?_⟩
            rw [alike.tasks, List.length_set, length]

/-! ## Time that passes -/

/-- The clock may be set to a moment that no alarm lies before. -/
theorem letsPass_clock {time : Instant} (nobody : e.ready = []) (later : e.now ≤ time)
    (first : ∀ a ∈ e.alarms, time ≤ max e.now a.deadline) :
    Moment.letsPass (e, .clock time) = true := by
  simp only [Moment.letsPass, nobody, List.isEmpty_nil, Bool.true_and, Bool.and_eq_true,
    decide_eq_true_eq, List.all_eq_true]
  exact ⟨later, first⟩

/-- The next alarm is the first one that is set. -/
theorem nextDeadline_le (roster : Roster e) (nobody : e.ready = []) {a : Alarm}
    (member : a ∈ e.alarms) :
    ∃ deadline, e.nextDeadline? = some deadline ∧ e.now < deadline ∧ deadline ≤ a.deadline := by
  unfold nextDeadline?
  have sorted := roster.sorted
  have ahead := fun a (member : a ∈ e.alarms) => roster.ahead_of_ready nobody member
  cases alarms : e.alarms with
  | nil =>
      rw [alarms] at member
      cases member
  | cons first rest =>
      rw [alarms] at sorted member ahead
      rcases ahead first List.mem_cons_self with ⟨silent, later⟩
      refine ⟨first.deadline, by simp [silent], later, ?_⟩
      rcases List.mem_cons.1 member with rfl | there
      · exact Nat.le_refl _
      · exact (List.pairwise_cons.1 sorted).1 a there

/-- In the end the clock is set once more. -/
theorem whole_of_setClock {target : Instant} (nobody : e.ready = []) (before : e.now ≤ target)
    (ahead : ∀ a ∈ e.alarms, target ≤ a.deadline)
    (h : (Except.ok (e.setClock target) : Except Panic State) = .ok e') :
    ∃ hs, Whole e hs e' ∧ ∀ m ∈ hs, Moment.letsPass m = true := by
  cases h
  refine ⟨_, Whole.single (.clock e target) (by simp), fun m member => ?_⟩
  cases List.mem_singleton.1 member
  exact letsPass_clock nobody before fun a there =>
    Nat.le_trans (ahead a there) (Nat.le_max_right _ _)

/-- Time stops at every alarm on the way. There are no more stops than nanoseconds. -/
theorem whole_of_passFor {target : Instant} {k : Nat} (roster : Roster e) (nobody : e.ready = [])
    (few : e.tasks.length ≤ patience) (before : e.now ≤ target) (enough : target < e.now + k)
    (h : e.passFor program target k = .ok e') :
    ∃ hs, Whole e hs e' ∧ ∀ m ∈ hs, Moment.letsPass m = true := by
  induction k generalizing e with
  | zero =>
      exact absurd enough (Nat.not_lt.2 before)
  | succ k ih =>
      unfold passFor at h
      split at h
      · rename_i none
        refine whole_of_setClock nobody before (fun a member => ?_) h
        rcases nextDeadline_le roster nobody member with ⟨deadline, next, _⟩
        rw [none] at next
        cases next
      · rename_i deadline next
        have first : ∀ a ∈ e.alarms, e.now < deadline ∧ deadline ≤ a.deadline := by
          intro a member
          rcases nextDeadline_le roster nobody member with ⟨deadline', next', bounds⟩
          cases next.symm.trans next'
          exact bounds
        split at h
        · rename_i due
          rcases Option.map_eq_some_iff.1 next with ⟨a, found, _⟩
          have later : e.now < deadline := (first a (List.mem_of_find?_eq_some found)).1
          have stop : max e.now deadline = deadline := Nat.max_eq_right (Nat.le_of_lt later)
          rw [stop] at h
          rcases ok_of_bind h with ⟨middle, ran, rest⟩
          -- the turns that follow take no time
          have alike := setClock_alike e deadline
          have set := roster.setClock deadline
          have inside : (e.setClock deadline).tasks.length ≤ patience := by
            rw [alike.tasks]
            exact few
          rcases whole_of_runFor set (Nat.le_trans (ready_length_le set) inside) ran with
            ⟨turns, whole, areTurns, resting⟩
          rcases same_of_turns whole.history areTurns with ⟨now, length⟩
          have now' : middle.now = deadline := now.trans alike.now
          have onwards : target < middle.now + k := by
            unfold Instant at *
            omega
          rcases ih (whole.roster set) resting (length.trans_le inside) (now'.trans_le due) onwards
            rest with ⟨hs, whole', passes⟩
          have clocked := Whole.single (.clock e deadline) (by simp)
          refine ⟨_, (clocked.trans whole).trans whole', fun m member => ?_⟩
          rcases List.mem_append.1 member with early | late
          · rcases List.mem_append.1 early with clock | turned
            · cases List.mem_singleton.1 clock
              exact letsPass_clock nobody (Nat.le_of_lt later) fun a there =>
                Nat.le_trans (first a there).2 (Nat.le_max_right _ _)
            · exact letsPass_of_turn (areTurns m turned)
          · exact passes m late
        · rename_i beyond
          exact whole_of_setClock nobody before (fun a member =>
            Nat.le_trans (Nat.le_of_lt (Nat.lt_of_not_le beyond)) (first a member).2) h

/-- A run up to the rest of all tasks is unbroken. -/
theorem whole_of_run (roster : Roster e) (few : e.tasks.length ≤ patience)
    (h : e.run program = .ok e') :
    ∃ hs, Whole e hs e' ∧ (∀ m ∈ hs, m.2 = .turn) ∧ e'.ready = [] :=
  whole_of_runFor roster (Nat.le_trans (ready_length_le roster) few) h

/-- Time that passes does not break a run. -/
theorem whole_of_advance {duration : Nat} (roster : Roster e) (few : e.tasks.length ≤ patience)
    (h : e.advance program duration = .ok e') :
    ∃ hs, Whole e hs e' ∧ ∀ m ∈ hs, Moment.letsPass m = true := by
  rcases ok_of_bind h with ⟨middle, ran, passed⟩
  rcases whole_of_run roster few ran with ⟨turns, whole, areTurns, nobody⟩
  rcases same_of_turns whole.history areTurns with ⟨_, length⟩
  rcases whole_of_passFor (whole.roster roster) nobody (length.trans_le few) (Nat.le_add_right _ _)
    (Nat.lt_succ_self _) passed with ⟨hs, whole', passes⟩
  refine ⟨_, whole.trans whole', fun m member => ?_⟩
  rcases List.mem_append.1 member with turned | late
  · exact letsPass_of_turn (areTurns m turned)
  · exact passes m late

/-! ## Scripts -/

def setsClock : Command Action → Bool
  | .setClock _ => true
  | .act _ | .launch _ | .advance _ | .kill _ | .idle => false

/-- A command without the turns that follow from it. -/
theorem whole_of_perform {s s' : Script.State} {command : Command Action} {reply : Reply Answer}
    (roster : Roster s.executor) (few : s.executor.tasks.length ≤ patience)
    (h : s.perform program command = .ok (s', reply)) :
    ∃ hs, Whole s.executor hs s'.executor ∧
      (setsClock command = false → ∀ m ∈ hs, Moment.letsPass m = true) := by
  have acting : ∀ {action answer} {e' : State}, s.executor.act program action = .ok (e', answer) →
      ∃ hs, Whole s.executor hs e' ∧
        (setsClock command = false → ∀ m ∈ hs, Moment.letsPass m = true) := by
    intro action answer e' acted
    refine ⟨_, Whole.single (.act acted) (by simp), fun _ m member => ?_⟩
    cases List.mem_singleton.1 member
    rfl
  cases command with
  | act action =>
      rcases ok_of_bind h with ⟨⟨e, answer⟩, acted, rest⟩
      cases rest
      exact acting acted
  | launch action =>
      rcases ok_of_bind h with ⟨⟨s₁, number⟩, launched, rest⟩
      cases rest
      rcases ok_of_bind launched with ⟨⟨e, answer⟩, acted, rest⟩
      simp only at rest
      split at rest <;> cases rest <;> exact acting acted
  | advance duration =>
      rcases ok_of_bind h with ⟨e, advanced, rest⟩
      cases rest
      rcases whole_of_advance roster few advanced with ⟨hs, whole, passes⟩
      exact ⟨hs, whole, fun _ => passes⟩
  | setClock time =>
      cases h
      exact ⟨_, Whole.single (.clock s.executor time) (by simp), fun other => by cases other⟩
  | kill number =>
      simp only [Session.perform] at h
      split at h
      · rename_i id _
        cases h
        refine ⟨_, Whole.single (.kill s.executor id) (by simp), fun _ m member => ?_⟩
        cases List.mem_singleton.1 member
        rfl
      · cases h
        exact ⟨[], Whole.refl _, fun _ m member => absurd member List.not_mem_nil⟩
  | idle =>
      cases h
      exact ⟨[], Whole.refl _, fun _ m member => absurd member List.not_mem_nil⟩

/-- The number of tasks never falls. -/
theorem length_tasks_le {ls : List (Label Action Answer)} (roster : Roster e)
    (trace : Trace program e ls e') : e.tasks.length ≤ e'.tasks.length := by
  rcases trace.exists_history with ⟨hs, history, _⟩
  have prompt : Prompt (fun _ => False) e :=
    ⟨fun _ never => never.elim, fun _ never => never.elim, fun a member => roster.lt_of_mem member⟩
  exact (advances_of_history prompt (fun _ _ never => never) history).length

/-- A command of a script with the turns that follow from it. -/
theorem whole_of_step {s s' : Script.State} {command : Command Action} {hold : Bool}
    {entry : Script.Entry} (roster : Roster s.executor)
    (few : s'.executor.tasks.length ≤ patience)
    (h : Script.step s command hold = .ok (s', entry)) :
    ∃ hs, Whole s.executor hs s'.executor ∧
      (setsClock command = false → ∀ m ∈ hs, Moment.letsPass m = true) := by
  rcases ok_of_bind h with ⟨⟨s₂, reply⟩, carried, rest⟩
  cases rest
  rcases Session.trace_of_carryOut carried with ⟨_, all⟩
  rcases ok_of_bind carried with ⟨⟨s₁, reply₁⟩, performed, rest⟩
  rcases ok_of_bind rest with ⟨s₃, settled, rest⟩
  cases rest
  have before : s.executor.tasks.length ≤ patience :=
    Nat.le_trans (length_tasks_le roster all) few
  rcases whole_of_perform roster before performed with ⟨hs, whole, passes⟩
  have roster' := whole.roster roster
  rcases Session.trace_of_settle settled with ⟨_, later, _⟩
  have between : s₁.executor.tasks.length ≤ patience :=
    Nat.le_trans (length_tasks_le roster' later) few
  unfold Session.settle at settled
  split at settled
  · cases settled
    exact ⟨hs, whole, passes⟩
  · rcases ok_of_bind settled with ⟨e, ran, rest⟩
    cases rest
    rcases whole_of_run roster' between ran with ⟨turns, whole', areTurns, _⟩
    refine ⟨_, whole.trans whole', fun quiet m member => ?_⟩
    rcases List.mem_append.1 member with first | turned
    · exact passes quiet m first
    · exact letsPass_of_turn (areTurns m turned)

inductive Plays (s : Script.State) : List (Command Action × Bool) → Script.State → Prop
  | refl : Plays s [] s
  | tail {steps : List (Command Action × Bool)} {s' s'' : Script.State} {command : Command Action}
      {hold : Bool} {entry : Script.Entry} :
      Plays s steps s' → Script.step s' command hold = .ok (s'', entry) →
        Plays s (steps ++ [(command, hold)]) s''

/-- A script is a run of the tasks that share the bucket. -/
theorem trace_of_plays {s s' : Script.State} {steps : List (Command Action × Bool)}
    (plays : Plays s steps s') : ∃ ls, Trace program s.executor ls s'.executor := by
  induction plays with
  | refl =>
      exact ⟨[], .refl⟩
  | tail _ step ih =>
      rcases ih with ⟨ls, trace⟩
      rcases ok_of_bind step with ⟨⟨s₂, reply⟩, carried, rest⟩
      cases rest
      rcases Session.trace_of_carryOut carried with ⟨ls', trace'⟩
      exact ⟨ls ++ ls', trace.trans trace'⟩

/-- The moves of a script are unbroken. Unless a command sets the clock, time only passes from one alarm
to the next. No more tasks may be started than turns are given out at once. -/
theorem whole_of_plays {start : Instant} {b : Bucket} {steps : List (Command Action × Bool)}
    {s : Script.State} (plays : Plays (.start start b) steps s)
    (few : s.executor.tasks.length ≤ patience) :
    ∃ hs, History program (opening start b) hs s.executor ∧ Unbroken hs ∧
      ((∀ step ∈ steps, setsClock step.1 = false) → ∀ m ∈ hs, Moment.letsPass m = true) := by
  suffices all : ∃ hs, Whole (opening start b) hs s.executor ∧
      ((∀ step ∈ steps, setsClock step.1 = false) → ∀ m ∈ hs, Moment.letsPass m = true) by
    rcases all with ⟨hs, whole, passes⟩
    exact ⟨hs, whole.history, whole.unbroken, passes⟩
  induction plays with
  | refl =>
      exact ⟨[], Whole.refl _, fun _ m member => absurd member List.not_mem_nil⟩
  | @tail steps s' s'' command hold entry before step ih =>
      rcases trace_of_plays before with ⟨_, trace⟩
      have roster : Roster s'.executor :=
        trace.invariant (fun roster step => roster_of_step roster step) (roster_opening start b)
      rcases trace_of_plays (Plays.refl.tail step) with ⟨_, onwards⟩
      rcases ih (Nat.le_trans (length_tasks_le roster onwards) few) with ⟨hs, whole, passes⟩
      rcases whole_of_step roster few step with ⟨hs', whole', passes'⟩
      refine ⟨_, whole.trans whole', fun quiet m member => ?_⟩
      rcases List.mem_append.1 member with early | late
      · exact passes (fun step there => quiet step (List.mem_append_left _ there)) m early
      · exact passes' (quiet (command, hold) (by simp)) m late

end Bucket
end MeteredFetch
