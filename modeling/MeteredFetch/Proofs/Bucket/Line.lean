import Mathlib.Data.List.Nodup
import MeteredFetch.Proofs.Bucket.Tickets
import MeteredFetch.Proofs.Bucket.Scripted
import MeteredFetch.Proofs.Bucket.Signals

/-!
# Line — callers are served in the order of their tickets

As long as the interval stays what it is, nobody is woken before its alarm rings, and no wait is priced
anew. The alarms that are set are those of the tickets that are waited for, in the order of the tickets.

* `Bucket.Lined` — the alarms are those of the line, and the cursor is where the last ticket is due;
* `Bucket.lined_of_step`, `Bucket.lined_of_history` — they stay so at a constant rate;
* `Bucket.served_in_line` — no chunk is granted before it is due, the chunks that have to be waited for
  are granted in the order of their tickets, and each at its deadline if time only passes.
-/

namespace MeteredFetch

/-- The task of an alarm and when it is due. -/
def Alarm.entry (a : Alarm) : TaskId × Instant :=
  (a.task, a.deadline)

/-- An alarm that is due no earlier than all others comes behind them. -/
theorem Alarm.insert_eq_append {a : Alarm} {alarms : List Alarm}
    (last : ∀ a' ∈ alarms, a'.deadline ≤ a.deadline) : Alarm.insert a alarms = alarms ++ [a] := by
  induction alarms with
  | nil =>
      rfl
  | cons first rest ih =>
      unfold Alarm.insert
      rw [if_pos (last first List.mem_cons_self),
        ih fun a' member => last a' (List.mem_cons_of_mem _ member)]
      rfl

namespace Bucket

open Executor

variable {b : Bucket} {interval : Nat} {e e' : State} {l : Line} {id n : TaskId}

/-! ## Alarms and tickets -/

/-- The alarms that are set are those of the line, and the cursor is where the last ticket is due. All
who wait have an alarm, and are priced at the interval in force. -/
structure Lined (interval : Nat) (l : Line) (e : State) : Prop where
  rate : e.shared.interval = interval
  cursor : e.shared.cursor = l.last
  entries : e.alarms.map Alarm.entry = l.asleep.map Ticket.entry
  behind : ∀ a ∈ e.alarms, a.deadline ≤ e.shared.cursor
  alarmed : ∀ {n w}, waitOf e n = some w → w.pricedAt = interval ∧ ∃ a ∈ e.alarms, a.task = n

/-- Alarms and tickets of a task go together. -/
theorem entries_filter {alarms : List Alarm} {asleep : List Ticket}
    (same : alarms.map Alarm.entry = asleep.map Ticket.entry) (id : TaskId) :
    (alarms.filter fun a => a.task != id).map Alarm.entry =
      (asleep.filter fun t => decide (some id ≠ some t.task)).map Ticket.entry := by
  have ours : (alarms.filter fun a => a.task != id).map Alarm.entry =
      (alarms.map Alarm.entry).filter fun entry => entry.1 != id := by
    rw [List.filter_map]
    rfl
  have theirs : (asleep.filter fun t => decide (some id ≠ some t.task)).map Ticket.entry =
      (asleep.map Ticket.entry).filter fun entry => entry.1 != id := by
    rw [List.filter_map]
    refine congrArg (List.map Ticket.entry) (List.filter_congr fun t _ => ?_)
    by_cases own : t.task = id
    · simp [Ticket.entry, own]
    · simp [Ticket.entry, own, Ne.symm own]
  rw [ours, theirs, same]

theorem shorts_of_draws {m : Moment} (nothing : m.draws = []) : m.shorts = [] := by
  unfold Moment.shorts
  rw [nothing]
  split <;> rfl

/-- If no chunk is drawn, nobody comes to the line. -/
theorem next_of_draws {m : Moment} (nothing : m.draws = []) (l : Line) :
    l.next interval m =
      ⟨l.last, l.asleep.filter fun t => decide (Moment.leaves? m ≠ some t.task)⟩ := by
  simp [Line.next, shorts_of_draws nothing, issue, latest]

/-- A move in which nobody draws and nobody leaves is none to the line. -/
theorem next_of_quiet {m : Moment} (nothing : m.draws = []) (stay : Moment.leaves? m = none)
    (l : Line) : l.next interval m = l := by
  rw [next_of_draws nothing, stay]
  simp

namespace Lined

/-- The alarm of a task that waits. -/
theorem alarm?_of_wait (h : Lined interval l e) (roster : Roster e) {w : Wait}
    (waits : waitOf e n = some w) :
    ∃ a ∈ e.alarms, a.task = n ∧ a.deadline = w.deadline ∧ e.alarm? n = some a := by
  rcases (h.alarmed waits).2 with ⟨a, member, rfl⟩
  rcases roster.stands a member with ⟨w', waits', deadline⟩
  cases waits.symm.trans waits'
  exact ⟨a, member, rfl, deadline.symm, alarm?_of_mem roster.distinct member⟩

/-- Whoever waits and has its turn is due. -/
theorem due_of_next (h : Lined interval l e) (roster : Roster e) {g : Grab}
    (next : e.next? = some (id, g)) {w : Wait} (waits : waitOf e id = some w) :
    w.deadline ≤ e.now := by
  rcases h.alarm?_of_wait roster waits with ⟨a, _, _, deadline, found⟩
  unfold Executor.next? at next
  split at next
  · cases next
  · split at next
    · cases next
    · rename_i awake
      rcases Option.map_eq_some_iff.1 next with ⟨g', _, same⟩
      cases same
      unfold sleepsOn at awake
      rw [found] at awake
      rw [← deadline]
      simpa [Alarm.isDue] using awake

/-! ## Moves -/

/-- A caller leaves the line if its wait is over, draws chunks, and comes to the end of the line if it
has to wait for one of them. -/
theorem draws (h : Lined interval l e) {g : Grab} (stands : e.tasks[id]? = some (some g))
    {chunks : Chunks} {ds : List Draw} {b₀ : Bucket} {o : Option Caller}
    (drawn : Draws e.now id chunks b₀ ds b o) (terms : b₀.interval = e.shared.interval)
    (cursor : b₀.cursor = e.shared.cursor) (fits : ∀ d ∈ ds, d.Fits) {m : Moment}
    (shorts : m.shorts = (ds.filter Draw.isShort).map fun d => (id, d))
    (stays : (e.alarms.filter fun a => a.task != id).map Alarm.entry =
      (l.asleep.filter fun t => decide (Moment.leaves? m ≠ some t.task)).map Ticket.entry) :
    Lined interval (l.next interval m) (afterTurn e id g b o) ∧
      ∀ t ∈ issue interval l.last m.shorts, t.Kept := by
  rcases drawn.tickets fits (terms.trans h.rate) (cursor.trans h.cursor) with
    ⟨moved, asleep, kept⟩
  rcases drawn.ahead with ⟨interval', further, waits⟩
  rw [← shorts] at moved asleep kept
  have alarms := alarms_afterTurn e id g b o
  have behind : ∀ a ∈ e.alarms.filter fun a => a.task != id, a.deadline ≤ b.cursor := by
    intro a member
    refine Nat.le_trans (h.behind a (List.mem_of_mem_filter member)) ?_
    rw [← cursor]
    exact further
  -- the alarm that is set comes behind the others
  have last : (afterTurn e id g b o).alarms =
      (e.alarms.filter fun a => a.task != id) ++
        (o.bind Caller.wait?).toList.map fun w => { deadline := w.deadline, task := id } := by
    rw [alarms]
    cases stays : o with
    | none =>
        simp
    | some c =>
        rcases waits c stays with ⟨_, w, rest, rfl, deadline, _⟩
        refine Alarm.insert_eq_append fun a' member => ?_
        rw [deadline]
        exact behind a' member
  have wait : ∀ w, o.bind Caller.wait? = some w → w.deadline = b.cursor ∧ w.pricedAt = interval := by
    intro w waiting
    rcases Option.bind_eq_some_iff.1 waiting with ⟨c, stays, waiting⟩
    rcases waits c stays with ⟨_, w', rest, rfl, deadline, priced⟩
    cases waiting
    exact ⟨deadline, priced.trans (terms.trans h.rate)⟩
  refine ⟨⟨?_, ?_, ?_, ?_, ?_⟩, kept⟩
  · rw [shared_afterTurn, interval', terms, h.rate]
  · rw [shared_afterTurn]
    exact moved
  · rw [last, List.map_append, stays]
    simp only [Line.next, List.map_append, asleep, List.map_map]
    rfl
  · intro a member
    rw [shared_afterTurn]
    rw [last] at member
    rcases List.mem_append.1 member with old | new
    · exact behind a old
    · rcases List.mem_map.1 new with ⟨w, waiting, rfl⟩
      exact Nat.le_of_eq (wait w (Option.mem_toList.1 waiting)).1
  · intro n w waiting
    rw [waitOf_afterTurn stands] at waiting
    rw [last]
    split at waiting
    · rename_i own
      refine ⟨(wait w waiting).2, { deadline := w.deadline, task := id }, ?_, own.symm⟩
      rw [waiting]
      exact List.mem_append_right _ (List.mem_singleton_self _)
    · rename_i other
      rcases h.alarmed waiting with ⟨priced, a, member, own⟩
      refine ⟨priced, a, List.mem_append_left _ (List.mem_filter.2 ⟨member, ?_⟩), own⟩
      simpa [own] using other

/-- A turn takes its task out of the line, and puts it at the end again if it has to wait anew. -/
theorem turn (h : Lined interval l e) (roster : Roster e) (turned : e.turn program = .ok e')
    (fits : ∀ d ∈ Moment.draws (e, .turn), d.Fits) :
    Lined interval (l.next interval (e, .turn)) e' ∧
      ∀ t ∈ issue interval l.last (Moment.shorts (e, .turn)), t.Kept := by
  -- nothing happens to the line if nobody has a turn
  have idle : e.next? = none → Lined interval l e' →
      Lined interval (l.next interval (e, .turn)) e' ∧
        ∀ t ∈ issue interval l.last (Moment.shorts (e, .turn)), t.Kept := by
    intro nobody same
    have nothing : Moment.draws (e, .turn) = [] := by simp [Moment.draws, nobody]
    have stay : Moment.leaves? (e, .turn) = none := by
      simp [Moment.leaves?, Moment.granted?, nobody]
    rw [next_of_quiet nothing stay, shorts_of_draws nothing]
    exact ⟨same, fun t member => by cases member⟩
  rcases turn_eq turned with ⟨nobody, rfl⟩ |
    ⟨id, rest, ready, ⟨asleep, rfl⟩ | ⟨gone, rfl⟩ | ⟨g, b, o, next, looked, rfl⟩⟩
  · exact idle (by simp [Executor.next?, nobody]) h
  · refine idle (by simp [Executor.next?, ready, asleep]) ?_
    have entries : (({ e with ready := rest } : State).resetAlarm id).alarms.map Alarm.entry =
        e.alarms.map Alarm.entry := by
      simp only [resetAlarm, List.map_map]
      refine List.map_congr_left fun a _ => ?_
      by_cases own : a.task = id <;> simp [Alarm.entry, own]
    refine ⟨h.rate, h.cursor, entries.trans h.entries, ?_, ?_⟩
    · intro a member
      rcases List.mem_map.1 member with ⟨a', old, rfl⟩
      have before := h.behind a' old
      by_cases own : a'.task = id <;> simpa [own, resetAlarm] using before
    · intro n w waiting
      rcases h.alarmed waiting with ⟨priced, a, member, own⟩
      refine ⟨priced, _, List.mem_map_of_mem member, ?_⟩
      split
      · exact own
      · exact own
  · exact idle (by simp [Executor.next?, ready, gone]) ⟨h.rate, h.cursor, h.entries, h.behind, h.alarmed⟩
  · have stands := task?_of_next? next
    have draws : Moment.draws (e, .turn) = g.caller.draws e.now id e.shared := by
      simp [Moment.draws, next]
    have shorts : Moment.shorts (e, .turn) =
        ((g.caller.draws e.now id e.shared).filter Draw.isShort).map fun d => (id, d) := by
      simp [Moment.shorts, next, draws]
    have leaves : Moment.leaves? (e, .turn) = (g.caller.over? e.now e.shared).map fun _ => id := by
      simp [Moment.leaves?, Moment.granted?, next]
    have waits : waitOf e id = g.caller.wait? := by
      simp [waitOf, task?, stands]
    rw [draws] at fits
    rcases Caller.turn_cases looked with ⟨tokens, chunks, arriving, _, past, drawn⟩ |
      ⟨wait, rest', w, _, _, _, past, drawn⟩ | ⟨wait, rest', w, waiting, repriced, later, _⟩
    · -- it has no alarm yet
      refine h.draws stands drawn rfl rfl fits shorts ?_
      have absent : ∀ a ∈ e.alarms, a.task ≠ id := by
        intro a member own
        rcases roster.stands a member with ⟨w, there, _⟩
        rw [own, waits, arriving] at there
        cases there
      have all : (e.alarms.filter fun a => a.task != id) = e.alarms :=
        List.filter_eq_self.2 fun a member => by simpa using absent a member
      rw [all, leaves, past, h.entries]
      simp
    · refine h.draws stands drawn rfl rfl fits shorts ?_
      rw [leaves, past, Option.map_some]
      exact entries_filter h.entries id
    · -- it has its turn because it is due
      rw [waiting] at waits
      have due := h.due_of_next roster next waits
      rw [eq_of_reprice ((h.alarmed waits).1.trans h.rate.symm) repriced] at due
      exact absurd due (Nat.not_le.2 later)

/-- A constant interval wakes nobody. -/
theorem operate (h : Lined interval l e) {op : Operation} {answer : Answer}
    (acted : e.act program (.operate op) = .ok (e', answer))
    (steady : e'.shared.interval = e.shared.interval) : Lined interval l e' := by
  rcases operate_eq acted with ⟨b, woken, operated, rfl⟩
  rw [(Alike.foldl_wake woken _).shared] at steady
  rcases operate_waiters operated with ⟨_, rfl, _⟩ | ⟨_, _, faster⟩
  · rcases operate_rate operated with ⟨_, cursor⟩ | ⟨faster, _⟩
    · refine ⟨steady.trans h.rate, cursor.trans h.cursor, h.entries, ?_, h.alarmed⟩
      intro a member
      change a.deadline ≤ b.cursor
      rw [cursor]
      exact h.behind a member
    · exact absurd steady (Nat.ne_of_lt faster)
  · exact absurd steady (Nat.ne_of_lt faster)

/-- Whoever is dropped leaves the line. -/
theorem drop (h : Lined interval l e) (roster : Roster e) (id : TaskId) :
    Lined interval (l.next interval (e, .kill id)) (e.drop program id) := by
  have nothing : Moment.draws (e, .kill id) = [] := rfl
  have leaves : Moment.leaves? (e, .kill id) = some id := rfl
  rw [next_of_draws nothing, leaves]
  -- who still waits afterwards is another caller, so its alarm is not among those removed
  have kept : ∀ {n w}, waitOf (e.drop program id) n = some w → n ≠ id ∧ waitOf e n = some w := by
    intro n w waiting
    rw [waitOf_drop] at waiting
    split at waiting
    · cases waiting
    · rename_i other
      exact ⟨other, waiting⟩
  have shared : (e.drop program id).shared.interval = e.shared.interval ∧
      (e.drop program id).shared.cursor = e.shared.cursor := by
    unfold Executor.drop
    split <;> exact ⟨rfl, rfl⟩
  have alarms : (e.drop program id).alarms = e.alarms.filter fun a => a.task != id := by
    cases found : e.task? id with
    | some g =>
        exact (drop_of_task? program found).1
    | none =>
        rw [drop_of_task?_eq_none program found]
        refine (List.filter_eq_self.2 fun a member => ?_).symm
        have stands := roster.isSome_of_mem member
        have other : a.task ≠ id := by
          intro same
          rw [same, found] at stands
          cases stands
        simpa using other
  refine ⟨shared.1.trans h.rate, shared.2.trans h.cursor, ?_, ?_, ?_⟩
  · rw [alarms]
    exact entries_filter h.entries id
  · intro a member
    rw [alarms] at member
    rw [shared.2]
    exact h.behind a (List.mem_of_mem_filter member)
  · intro n w waiting
    rcases kept waiting with ⟨other, before⟩
    rcases h.alarmed before with ⟨priced, a, member, own⟩
    rw [alarms]
    refine ⟨priced, a, List.mem_filter.2 ⟨member, ?_⟩, own⟩
    simpa [own] using other

end Lined

/-- The line follows the alarms in every move that leaves the interval as it is. -/
theorem lined_of_step {label : Label Action Answer} (h : Lined interval l e) (roster : Roster e)
    (step : Step program e label e') (steady : e'.shared.interval = e.shared.interval)
    (fits : ∀ d ∈ Moment.draws (e, label), d.Fits) :
    Lined interval (l.next interval (e, label)) e' ∧
      ∀ t ∈ issue interval l.last (Moment.shorts (e, label)), t.Kept := by
  cases step with
  | turn turned =>
      exact h.turn roster turned fits
  | clock time =>
      have nothing : Moment.draws (e, .clock time) = [] := rfl
      have stay : Moment.leaves? (e, .clock time) = none := rfl
      rw [next_of_quiet nothing stay, shorts_of_draws nothing]
      refine ⟨?_, fun t member => by cases member⟩
      -- alarms ring, but their entries stay what they are
      have alike := setClock_alike e time
      have alarms := alarms_setClock e time
      refine ⟨?_, ?_, ?_, ?_, ?_⟩
      · rw [alike.shared]
        exact h.rate
      · rw [alike.shared]
        exact h.cursor
      · rw [alarms, List.map_map, ← h.entries]
        refine List.map_congr_left fun a _ => ?_
        simp only [Function.comp_apply, Alarm.entry, Alarm.task_ring, Alarm.deadline_ring]
      · intro a member
        rw [alarms] at member
        rcases List.mem_map.1 member with ⟨a', old, rfl⟩
        rw [alike.shared, Alarm.deadline_ring]
        exact h.behind a' old
      · intro n w waiting
        rw [waitOf_of_tasks alike.tasks] at waiting
        rcases h.alarmed waiting with ⟨priced, a, member, own⟩
        rw [alarms]
        exact ⟨priced, _, List.mem_map_of_mem member, (Alarm.task_ring time a).trans own⟩
  | kill task =>
      rw [shorts_of_draws rfl]
      exact ⟨h.drop roster task, fun t member => by cases member⟩
  | @act _ action answer acted =>
      have nothing : Moment.draws (e, .act action answer) = [] := rfl
      have stay : Moment.leaves? (e, .act action answer) = none := rfl
      rw [next_of_quiet nothing stay, shorts_of_draws nothing]
      refine ⟨?_, fun t member => by cases member⟩
      cases action with
      | operate op =>
          exact h.operate acted steady
      | grab tokens =>
          cases grab_eq acted
          -- whoever comes waits for nothing yet
          refine ⟨h.rate, h.cursor, h.entries, h.behind, fun {n w} waiting => ?_⟩
          rw [waitOf_spawn] at waiting
          exact h.alarmed waiting

/-! ## Runs -/

variable {hs : List Moment} {start : Instant}

/-- The interval is the same before and after the move of a moment. -/
def Moment.IsConstant (m : Moment) : Prop :=
  (Executor.Moment.after program m).shared.interval = m.1.shared.interval

instance (m : Moment) : Decidable m.IsConstant :=
  inferInstanceAs (Decidable (_ = _))

/-- At a constant interval the alarms of every run are those of its line, and every ticket is kept. -/
theorem lined_of_history (terms : b.interval = interval) (cursor : b.cursor = start)
    (history : History program (opening start b) hs e) (constant : ∀ m ∈ hs, Moment.IsConstant m)
    (fits : ∀ m ∈ hs, ∀ d ∈ Moment.draws m, d.Fits) :
    Lined interval (line interval start hs) e ∧ ∀ t ∈ tickets interval start hs, t.Kept := by
  induction history with
  | refl =>
      refine ⟨⟨terms, cursor, rfl, ?_, ?_⟩, fun t member => by cases member⟩
      · exact fun a member => absurd member List.not_mem_nil
      · intro n w waiting
        simp [waitOf, task?, opening] at waiting
  | @tail hs label e e' before step ih =>
      have earlier := ih (fun m member => constant m (List.mem_append_left _ member))
        fun m member => fits m (List.mem_append_left _ member)
      have steady := constant (e, label) (by simp)
      rw [Moment.IsConstant, after_of_step step] at steady
      rcases lined_of_step earlier.1 (roster_of_history before) step steady
        (fits (e, label) (by simp)) with ⟨lined, kept⟩
      rw [line_snoc]
      refine ⟨lined, fun t member => ?_⟩
      rw [tickets, List.flatMap_append, List.flatMap_singleton, issue_append] at member
      rcases List.mem_append.1 member with old | new
      · exact earlier.2 t old
      · rw [(line_sublist interval start hs).1] at kept
        exact kept t new

namespace Lined

/-- The alarms and the tickets of the line, one by one. -/
theorem mem_entries (h : Lined interval l e) {deadline : Instant} :
    (∃ a ∈ e.alarms, a.task = n ∧ a.deadline = deadline) ↔
      ∃ t ∈ l.asleep, t.task = n ∧ t.deadline = deadline := by
  have ours : (∃ a ∈ e.alarms, a.task = n ∧ a.deadline = deadline) ↔
      (n, deadline) ∈ e.alarms.map Alarm.entry := by
    simp [Alarm.entry]
  have theirs : (∃ t ∈ l.asleep, t.task = n ∧ t.deadline = deadline) ↔
      (n, deadline) ∈ l.asleep.map Ticket.entry := by
    simp [Ticket.entry]
  rw [ours, theirs, h.entries]

/-- Those who wait, and until when. -/
theorem mem_line (h : Lined interval l e) (roster : Roster e) {deadline : Instant} :
    (∃ w, waitOf e n = some w ∧ w.deadline = deadline) ↔
      ∃ t ∈ l.asleep, t.task = n ∧ t.deadline = deadline := by
  rw [← h.mem_entries]
  constructor
  · rintro ⟨w, waits, rfl⟩
    rcases h.alarm?_of_wait roster waits with ⟨a, member, own, due, _⟩
    exact ⟨a, member, own, due⟩
  · rintro ⟨a, member, rfl, rfl⟩
    exact roster.stands a member

/-- Nobody stands in the line twice. -/
theorem nodup_tasks (h : Lined interval l e) (roster : Roster e) :
    (l.asleep.map Ticket.task).Nodup := by
  have ours : l.asleep.map Ticket.task = (l.asleep.map Ticket.entry).map Prod.fst := by
    rw [List.map_map]
    rfl
  have theirs : (e.alarms.map Alarm.entry).map Prod.fst = e.alarms.map Alarm.task := by
    rw [List.map_map]
    rfl
  rw [ours, ← h.entries, theirs]
  exact roster.distinct

end Lined

/-- A wait that is found over is that of the next task. -/
theorem next_of_granted (h : Moment.granted? (e, .turn) = some n) :
    ∃ g w, e.next? = some (n, g) ∧ waitOf e n = some w := by
  unfold Moment.granted? at h
  simp only at h
  split at h
  · rename_i id g _ next
    rcases Option.map_eq_some_iff.1 h with ⟨w, found, rfl⟩
    have stands := task?_of_next? next
    cases caller : g.caller with
    | arriving tokens =>
        rw [caller] at found
        cases found
    | waiting wait rest =>
        refine ⟨g, wait, next, ?_⟩
        simp [waitOf, task?, stands, caller, Caller.wait?]
  · cases h

theorem ready_of_next {g : Grab} (h : e.next? = some (n, g)) : ∃ rest, e.ready = n :: rest := by
  unfold Executor.next? at h
  split at h
  · cases h
  · rename_i id rest ready
    split at h
    · cases h
    · rcases Option.map_eq_some_iff.1 h with ⟨g', _, same⟩
      cases same
      exact ⟨rest, ready⟩

/-- Callers are served in the order of their tickets. At a constant interval every chunk that the balance
does not exceed is due as its ticket says: it is taken at once if it is due, and is waited for until then
otherwise. Those that are waited for and were not dropped stand in line, in the order of their tickets;
as soon as nobody is ready, all of them lie ahead. Whoever is granted what it waits for is due. It is the
first of the line, if turns are given out until nobody is ready; and if time only passes from one alarm
to the next, it is due at that moment. The moves of a script are of the first kind, and of the second as
well if no command sets the clock. -/
theorem served_in_line {capacity interval : UInt64} {initial : Int64}
    (made : create capacity interval initial start = .ok b) :
    (∀ hs e, History program (opening start b) hs e → (∀ m ∈ hs, Moment.IsConstant m) →
      (∀ m ∈ hs, ∀ d ∈ Moment.draws m, d.Fits) →
      (∀ t ∈ tickets interval.toNat start hs, t.Kept) ∧
        (line interval.toNat start hs).asleep.Sublist (tickets interval.toNat start hs) ∧
        ((line interval.toNat start hs).asleep.map Ticket.task).Nodup ∧
        (∀ n deadline, (∃ w, waitOf e n = some w ∧ w.deadline = deadline) ↔
          ∃ t ∈ (line interval.toNat start hs).asleep, t.task = n ∧ t.deadline = deadline) ∧
        (e.ready = [] → ∀ t ∈ (line interval.toNat start hs).asleep, e.now < t.deadline) ∧
        ∀ n, Moment.granted? (e, .turn) = some n →
          ∃ t ∈ (line interval.toNat start hs).asleep, t.task = n ∧ t.deadline ≤ e.now ∧
            (Unbroken hs → (line interval.toNat start hs).asleep.head? = some t) ∧
            ((∀ m ∈ hs, Moment.letsPass m = true) → t.deadline = e.now)) ∧
      ∀ steps s, Plays (.start start b) steps s → s.executor.tasks.length ≤ patience →
        ∃ hs, History program (opening start b) hs s.executor ∧ Unbroken hs ∧
          ((∀ step ∈ steps, setsClock step.1 = false) → ∀ m ∈ hs, Moment.letsPass m = true) := by
  rcases create_eq_ok made with ⟨shape, _, _⟩
  refine ⟨?_, fun steps s plays few => whole_of_plays plays few⟩
  intro hs e history constant fits
  have roster := roster_of_history history
  have terms : b.interval = interval.toNat := by rw [shape]
  have cursor : b.cursor = start := by rw [shape]
  rcases lined_of_history terms cursor history constant fits with ⟨lined, kept⟩
  have distinct := lined.nodup_tasks roster
  refine ⟨kept, (line_sublist _ start hs).2, distinct, fun n deadline => lined.mem_line roster,
    ?_, ?_⟩
  · intro nobody t member
    rcases lined.mem_entries.2 ⟨t, member, rfl, rfl⟩ with ⟨a, there, _, due⟩
    rw [← due]
    exact (roster.ahead_of_ready nobody there).2
  · intro n granted
    rcases next_of_granted granted with ⟨g, w, next, waits⟩
    rcases ready_of_next next with ⟨rest, ready⟩
    have due := lined.due_of_next roster next waits
    rcases lined.alarm?_of_wait roster waits with ⟨a, there, own, deadline, _⟩
    rw [← deadline] at due
    rcases lined.mem_entries.1 ⟨a, there, own, rfl⟩ with ⟨t, member, task, same⟩
    refine ⟨t, member, task, same ▸ due, ?_, ?_⟩
    · intro unbroken
      -- its alarm is the first one, so its ticket is as well
      have head := head_of_inTurn (inTurn_of_history history unbroken) roster ready there own due
      have first : (line interval.toNat start hs).asleep.head?.map Ticket.entry =
          some (n, a.deadline) := by
        rw [← List.head?_map, ← lined.entries, List.head?_map, head, ← own]
        rfl
      rcases Option.map_eq_some_iff.1 first with ⟨t', head', entry⟩
      have task' : t'.task = t.task := (congrArg Prod.fst entry).trans task.symm
      have only := List.inj_on_of_nodup_map distinct (List.mem_of_mem_head? head') member task'
      rw [head', only]
    · intro passes
      rw [same]
      exact onTime_of_history history passes a there (roster.rung_of_due there due)

def queueing : List Moment × State :=
  follow program (opening 0 ⟨1, 100, 10000000, 0, 0, []⟩)
    -- two callers wait, one behind the other, until the first of them is due
    [.act (.grab 3) (), .act (.grab 2) (), .turn, .turn, .clock 20000000]

theorem queueing_served_in_line :
    create 100 10000000 1 0 = .ok ⟨1, 100, 10000000, 0, 0, []⟩ ∧
      Moment.granted? (queueing.2, .turn) = some 0 ∧
      ∃ t ∈ (line 10000000 0 queueing.1).asleep, t.task = 0 ∧ t.deadline = 20000000 ∧
        (line 10000000 0 queueing.1).asleep.head? = some t := by
  have made : create 100 10000000 1 0 = .ok ⟨1, 100, 10000000, 0, 0, []⟩ := rfl
  have constant : ∀ m ∈ queueing.1, Moment.IsConstant m := by decide
  have fits : ∀ m ∈ queueing.1, ∀ d ∈ Moment.draws m, d.Fits := by decide
  have unbroken : Unbroken queueing.1 := by decide
  have passes : ∀ m ∈ queueing.1, Moment.letsPass m = true := by decide
  have granted : Moment.granted? (queueing.2, .turn) = some 0 := by decide
  rcases (served_in_line made).1 _ _ (history_follow _ _) constant fits with ⟨_, _, _, _, _, grants⟩
  rcases grants 0 granted with ⟨t, member, task, _, first, due⟩
  exact ⟨made, granted, t, member, task, due passes, first unbroken⟩

end Bucket
end MeteredFetch
