import MeteredFetch.Proofs.Bucket.Moves
import MeteredFetch.Proofs.Executor.Tasks

/-!
# Queue — callers that wait are served one after another

Every wait begins where the one before it ends, or now if that has passed, and takes as long as
the tokens that it pays for take to be earned. What waits have paid for was therefore earned since
the first of them began.

* `Bucket.Draw.Fits` — what is missing for a chunk does not have to be cut to be waited for;
* `Bucket.Draws.queue` — what drawing chunks does to the cursor, and how long the wait is;
* `Bucket.Served` — the waits that were paid for or end by a moment fit the time until then;
* `Bucket.Orderly`, `Bucket.orderly_of_step` — the invariant of runs in which tokens are only waited
  for.
-/

namespace MeteredFetch
namespace Bucket

open Executor

/-! ## Waits -/

/-- What is missing for a chunk, and how long it takes to be earned, are within range. -/
def Draw.Fits (d : Draw) : Prop :=
  d.missing ≤ maxBalance ∧ (d.bucket.interval * d.missing + 999999) / 1000000 ≤ maxWord

instance (d : Draw) : Decidable d.Fits :=
  inferInstanceAs (Decidable (_ ∧ _))

/-- A delay that need not be cut is long enough for the tokens to be earned. -/
theorem mul_le_delay {b : Bucket} {n : Nat}
    (fits : (b.interval * n + 999999) / 1000000 ≤ maxWord) : b.interval * n ≤ b.delay n := by
  unfold delay
  rw [Nat.min_eq_left fits]
  omega

/-- How a wait is queued: it is priced as tokens are earned now, begins no earlier than now and
not before the cursor, and ends when the new cursor does. -/
structure Queued (interval : Nat) (now cursor cursor' : Instant) (w : Wait) : Prop where
  priced : w.pricedAt = interval
  long : max cursor now + interval * w.owed ≤ w.deadline
  last : w.deadline ≤ cursor'

/-- A wait that is priced as tokens are earned now stays as it is. -/
theorem eq_of_reprice {w w' : Wait} {now : Instant} {interval : Nat}
    (priced : w.pricedAt = interval) (h : w.reprice now interval = .ok w') : w = w' := by
  have same : w.reprice now interval = .ok w :=
    if_neg (by rw [priced]; exact Nat.lt_irrefl interval)
  rw [same] at h
  exact Except.ok.inj h

/-- Chunks that have to be waited for are queued behind the cursor. -/
theorem Draws.queue {interval : Nat} {now : Instant} {id : TaskId} {c : Chunks} {b b' : Bucket}
    {ds : List Draw} {o : Option Caller} (drawn : Draws now id c b ds b' o)
    (positive : 0 < interval) (terms : b.interval = interval) (fits : ∀ d ∈ ds, d.Fits) :
    b'.interval = interval ∧ b.cursor ≤ b'.cursor ∧
      ∀ c', o = some c' → ∃ w rest, c' = .waiting w rest ∧
        Queued interval now b.cursor b'.cursor w := by
  -- only the last chunk can have to wait; those before it move the cursor no further than to now
  induction drawn with
  | done b last =>
      exact ⟨terms, Nat.le_refl _, by simp⟩
  | @taken c rest n b b₁ b' ds o first drawn _ ih =>
      have pos : 0 < b.interval := by
        rw [terms]
        exact positive
      rcases draw_eq_none pos drawn with ⟨_, cursor, moved, same⟩
      have ahead : b.cursor ≤ b₁.cursor := by
        rw [same]
        rcases moved with rfl | ⟨passed, rfl⟩
        · exact Nat.le_refl _
        · exact passed
      rcases ih (by rw [same]; exact terms)
        (fun d member => fits d (List.mem_cons_of_mem _ member)) with ⟨terms', further, waits⟩
      refine ⟨terms', Nat.le_trans ahead further, ?_⟩
      intro c' waiting
      rcases waits c' waiting with ⟨w, rest, rfl, queued⟩
      refine ⟨w, rest, rfl, queued.priced, ?_, queued.last⟩
      -- the wait was queued behind the cursor that the chunk has left
      have earlier : max b.cursor now ≤ max b₁.cursor now := by
        unfold Instant at *
        omega
      exact Nat.le_trans (Nat.add_le_add_right earlier _) queued.long
  | @held c rest n b b₁ w first drawn =>
      rcases draw_eq_some drawn with ⟨short, later, same, rfl⟩
      rcases fits ⟨now, b, n⟩ (List.mem_singleton_self _) with ⟨whole, inTime⟩
      -- the delay is that of the tokens that are missing, and of those no fewer are owed
      have enough := mul_le_delay inTime
      have owed : w.owed ≤ Draw.missing ⟨now, b, n⟩ := by
        rw [same]
        simp only [Draw.missing, Draw.found]
        omega
      have product : interval * w.owed ≤ b.interval * Draw.missing ⟨now, b, n⟩ := by
        rw [terms]
        exact Nat.mul_le_mul_left interval owed
      have deadline : w.deadline = max b.cursor now + b.delay (Draw.missing ⟨now, b, n⟩) := by
        rw [same, Nat.min_eq_left whole]
      have priced : w.pricedAt = interval := by rw [same, terms]
      have long : max b.cursor now + interval * w.owed ≤ w.deadline := by
        rw [deadline]
        exact Nat.add_le_add_left (Nat.le_trans product enough) _
      refine ⟨terms, ?_, ?_⟩
      · change b.cursor ≤ w.deadline
        unfold Instant at *
        omega
      · intro c' waiting
        cases waiting
        exact ⟨w, rest, rfl, priced, long, Nat.le_refl _⟩

/-! ## Waits that were paid for -/

/-- What a withdrawal pays if its wait ends by a moment. -/
def Grab.due (time : Instant) (g : Grab) : Nat :=
  match g.caller with
  | .arriving _ => 0
  | .waiting wait _ => if wait.deadline ≤ time then wait.owed else 0

/-- The longer one looks ahead, the more is due. -/
theorem due_mono {time time' : Instant} (le : time ≤ time') (g : Grab) :
    g.due time ≤ g.due time' := by
  unfold Grab.due
  cases g.caller with
  | arriving tokens =>
      exact Nat.le_refl 0
  | waiting wait rest =>
      simp only
      split
      · rename_i ended
        simp [Nat.le_trans ended le]
      · exact Nat.zero_le _

/-- The waits that were paid for or end by a moment fit the time from the beginning until then. -/
def Served (interval : Nat) (start now : Instant) (paid : Nat) (tasks : List (Option Grab)) :
    Prop :=
  ∀ time, start + interval * (paid + total (Grab.due time) tasks) ≤ max time now

def Behind (interval : Nat) (cursor : Instant) (tasks : List (Option Grab)) : Prop :=
  ∀ g wait rest, some g ∈ tasks → g.caller = .waiting wait rest →
    wait.pricedAt = interval ∧ wait.deadline ≤ cursor

section Served

variable {interval paid : Nat} {start now cursor cursor' : Instant} {tasks : List (Option Grab)}
  {id : TaskId} {g : Grab} {wait : Wait} {rest : Chunks}

/-- What fits the time until now fits the time until later. -/
theorem Served.later {now' : Instant} (h : Served interval start now paid tasks)
    (le : now ≤ now') : Served interval start now' paid tasks := by
  intro time
  have grown : max time now ≤ max time now' :=
    Nat.max_le.2 ⟨Nat.le_max_left _ _, Nat.le_trans le (Nat.le_max_right _ _)⟩
  exact Nat.le_trans (h time) grown

/-- Somebody who was not waiting goes. -/
theorem Served.leave (h : Served interval start now paid tasks)
    (stands : tasks[id]? = some (some g)) :
    Served interval start now paid (tasks.set id none) := by
  intro time
  have moved := total_set (Grab.due time) stands none
  have fewer : total (Grab.due time) (tasks.set id none) ≤ total (Grab.due time) tasks := by
    simp only [share_none] at moved
    omega
  have product := Nat.mul_le_mul_left interval (Nat.add_le_add_left fewer paid)
  exact Nat.le_trans (Nat.add_le_add_left product start) (h time)

/-- A wait is over, and is paid for. -/
theorem Served.pay (h : Served interval start now paid tasks)
    (stands : tasks[id]? = some (some g)) (waits : g.caller = .waiting wait rest)
    (expired : wait.deadline ≤ now) :
    Served interval start now (paid + wait.owed) (tasks.set id none) := by
  have exchanged : ∀ time, wait.deadline ≤ time →
      paid + wait.owed + total (Grab.due time) (tasks.set id none) =
        paid + total (Grab.due time) tasks := by
    intro time ended
    have moved := total_set (Grab.due time) stands none
    have due : g.due time = wait.owed := by
      simp [Grab.due, waits, ended]
    simp only [share_none, share_some, due] at moved
    omega
  intro time
  by_cases ended : wait.deadline ≤ time
  · rw [exchanged time ended]
    exact h time
  · -- what is due by then is due by now
    have early : time ≤ now := Nat.le_trans (Nat.le_of_not_le ended) expired
    have fewer := total_mono (due_mono early) (tasks.set id none)
    have product := Nat.mul_le_mul_left interval (Nat.add_le_add_left fewer (paid + wait.owed))
    rw [exchanged now expired] at product
    calc
      start + interval * (paid + wait.owed + total (Grab.due time) (tasks.set id none))
          ≤ start + interval * (paid + total (Grab.due now) tasks) :=
            Nat.add_le_add_left product start
      _ ≤ max now now := h now
      _ = now := Nat.max_self now
      _ ≤ max time now := Nat.le_max_right _ _

/-- Somebody begins to wait behind all others. -/
theorem Served.join (h : Served interval start now paid tasks)
    (behind : Behind interval cursor tasks) (gone : tasks[id]? = some none)
    (waits : g.caller = .waiting wait rest) (queued : Queued interval now cursor cursor' wait) :
    Served interval start now paid (tasks.set id (some g)) := by
  intro time
  have moved := total_set (Grab.due time) gone (some g)
  simp only [share_none, share_some, Nat.add_zero] at moved
  rw [moved]
  by_cases ended : wait.deadline ≤ time
  · -- all others have ended before the new wait begins
    have sameDue : ∀ other, some other ∈ tasks →
        Grab.due time other = Grab.due (max cursor now) other := by
      intro other member
      cases stage : other.caller with
      | arriving tokens =>
          simp [Grab.due, stage]
      | waiting w r =>
          have first := (behind other w r member stage).2
          have begun : w.deadline ≤ max cursor now := Nat.le_trans first (Nat.le_max_left _ _)
          have past : w.deadline ≤ time :=
            Nat.le_trans (Nat.le_trans begun (Nat.le_add_right _ _))
              (Nat.le_trans queued.long ended)
          simp [Grab.due, stage, begun, past]
    have due : g.due time = wait.owed := by
      simp [Grab.due, waits, ended]
    have before := h (max cursor now)
    rw [Nat.max_assoc, Nat.max_self] at before
    rw [total_congr sameDue, due]
    calc
      start + interval * (paid + (total (Grab.due (max cursor now)) tasks + wait.owed))
          = start + interval * (paid + total (Grab.due (max cursor now)) tasks) +
              interval * wait.owed := by rw [← Nat.add_assoc paid, Nat.mul_add, Nat.add_assoc]
      _ ≤ max cursor now + interval * wait.owed := Nat.add_le_add_right before _
      _ ≤ wait.deadline := queued.long
      _ ≤ max time now := Nat.le_trans ended (Nat.le_max_left _ _)
  · have due : g.due time = 0 := by
      simp [Grab.due, waits, ended]
    rw [due]
    exact h time

/-- What becomes of the others when a turn has drawn its chunks, and of whoever took it. -/
theorem Served.draw {o : Option Caller}
    (h : Served interval start now paid (tasks.set id none))
    (behind : Behind interval cursor tasks) (stands : tasks[id]? = some (some g))
    (ahead : cursor ≤ cursor')
    (waits : ∀ c, o = some c → ∃ wait rest, c = .waiting wait rest ∧
      Queued interval now cursor cursor' wait) :
    Served interval start now paid (tasks.set id (o.map fun caller => { g with caller })) ∧
      Behind interval cursor' (tasks.set id (o.map fun caller => { g with caller })) := by
  -- for a while the task is not there, so that it can join behind all others
  have others : Behind interval cursor (tasks.set id none) := by
    intro other wait rest member stage
    rcases List.mem_or_eq_of_mem_set member with old | new
    · exact behind other wait rest old stage
    · cases new
  cases o with
  | none =>
      refine ⟨h, ?_⟩
      intro other wait rest member stage
      rcases others other wait rest member stage with ⟨priced, early⟩
      exact ⟨priced, Nat.le_trans early ahead⟩
  | some c =>
      rcases waits c rfl with ⟨wait, rest, rfl, queued⟩
      have gone : (tasks.set id none)[id]? = some none := by
        have inside : id < tasks.length := (List.getElem?_eq_some_iff.1 stands).1
        simp [inside]
      have joined := h.join (g := { g with caller := .waiting wait rest }) others gone rfl queued
      rw [List.set_set] at joined
      refine ⟨joined, ?_⟩
      intro other w r member stage
      rcases List.mem_or_eq_of_mem_set member with old | new
      · rcases behind other w r old stage with ⟨priced, early⟩
        exact ⟨priced, Nat.le_trans early ahead⟩
      · cases new
        cases stage
        exact ⟨queued.priced, queued.last⟩

end Served

/-! ## Moves -/

namespace Moment

/-- Whether tokens are only waited for, and no time runs back. -/
def isPatient (m : Moment) : Bool :=
  match m.2 with
  | .act (.operate .credit) _ | .act (.grab _) _ | .turn => true
  | .clock time => decide (m.1.now ≤ time)
  | .act (.operate _) _ | .kill _ => false

def paid (m : Moment) : Nat :=
  match m.2, m.1.next? with
  | .turn, some (_, g) => ((g.caller.over? m.1.now m.1.shared).map (·.owed)).getD 0
  | _, _ => 0

end Moment

/-- Waits follow one another, at the interval at which tokens are earned. -/
structure Orderly (interval : Nat) (start : Instant) (paid : Nat) (e : State) : Prop where
  begun : start ≤ e.now
  rate : e.shared.interval = interval
  served : Served interval start e.now paid e.tasks
  behind : Behind interval e.shared.cursor e.tasks

section Moves

variable {interval paid : Nat} {start : Instant} {e e' : State}

theorem Orderly.of_alike (alike : Alike e e') (h : Orderly interval start paid e) :
    Orderly interval start paid e' := by
  refine ⟨?_, ?_, ?_, ?_⟩
  · rw [alike.now]
    exact h.begun
  · rw [alike.shared]
    exact h.rate
  · rw [alike.now, alike.tasks]
    exact h.served
  · rw [alike.shared, alike.tasks]
    exact h.behind

/-- A turn pays for the wait that is over, and queues whatever has to be waited for next. -/
theorem orderly_of_turn (positive : 0 < interval) (h : Orderly interval start paid e)
    (fits : ∀ d ∈ Moment.draws (e, .turn), d.Fits) (turned : e.turn program = .ok e') :
    Orderly interval start (paid + Moment.paid (e, .turn)) e' := by
  rcases turn_alike turned with ⟨nobody, alike⟩ | ⟨id, g, b, o, next, looked, alike⟩
  · have nothing : Moment.paid (e, .turn) = 0 := by simp [Moment.paid, nobody]
    rw [nothing]
    exact .of_alike alike h
  · have stands := task?_of_next? next
    have draws : Moment.draws (e, .turn) = g.caller.draws e.now id e.shared := by
      simp [Moment.draws, next]
    have owed : Moment.paid (e, .turn) =
        ((g.caller.over? e.now e.shared).map (·.owed)).getD 0 := by
      simp [Moment.paid, next]
    rw [draws] at fits
    rw [owed]
    rcases Caller.turn_cases looked with ⟨tokens, chunks, begins, _, early, drawn⟩ |
      ⟨wait, rest, w, waits, repriced, past, expired, drawn⟩ |
      ⟨wait, rest, w, waits, repriced, _, early, _, rfl, rfl⟩
    · -- it begins
      rcases drawn.queue positive h.rate fits with ⟨terms, ahead, queue⟩
      rcases (h.served.leave stands).draw h.behind stands ahead queue with ⟨served, behind⟩
      simp only [early, Option.map_none, Option.getD_none, Nat.add_zero]
      exact .of_alike alike ⟨h.begun, terms, served, behind⟩
    · -- its wait is over
      have member := List.mem_of_getElem? stands
      rcases h.behind g wait rest member waits with ⟨priced, _⟩
      obtain rfl := eq_of_reprice (priced.trans h.rate.symm) repriced
      rcases drawn.queue positive h.rate fits with ⟨terms, ahead, queue⟩
      rcases (h.served.pay stands waits past).draw h.behind stands ahead queue with ⟨served, behind⟩
      simp only [expired, Option.map_some, Option.getD_some]
      exact .of_alike alike ⟨h.begun, terms, served, behind⟩
    · -- it waits on
      have member := List.mem_of_getElem? stands
      rcases h.behind g wait rest member waits with ⟨priced, _⟩
      obtain rfl := eq_of_reprice (priced.trans h.rate.symm) repriced
      have kept : e.tasks.set id (some { g with caller := .waiting wait rest }) = e.tasks := by
        rcases List.getElem?_eq_some_iff.1 stands with ⟨inside, found⟩
        have unmoved : { g with caller := .waiting wait rest } = g := by rw [← waits]
        rw [unmoved, ← found]
        exact List.set_getElem_self inside
      simp only [early, Option.map_none, Option.getD_none, Nat.add_zero]
      refine .of_alike (e := { e with shared := (e.shared.leave id).join id }) ?_
        ⟨h.begun, h.rate, h.served, h.behind⟩
      exact ⟨alike.now, alike.shared, alike.tasks.trans kept, alike.finished⟩

/-- In a patient run every move keeps the waits one behind the other. -/
theorem orderly_of_step {l : Label Action Answer} (positive : 0 < interval)
    (h : Orderly interval start paid e) (patient : Moment.isPatient (e, l) = true)
    (fits : ∀ d ∈ Moment.draws (e, l), d.Fits) (step : Step program e l e') :
    Orderly interval start (paid + Moment.paid (e, l)) e' := by
  cases step with
  | turn turned =>
      exact orderly_of_turn positive h fits turned
  | clock time =>
      have later : e.now ≤ time := of_decide_eq_true patient
      exact .of_alike (setClock_alike e time)
        ⟨Nat.le_trans h.begun later, h.rate, h.served.later later, h.behind⟩
  | kill task =>
      cases patient
  | @act _ action answer acted =>
      cases action with
      | grab tokens =>
          refine .of_alike (grab_alike acted) ⟨h.begun, h.rate, ?_, ?_⟩
          · -- a withdrawal that has not begun owes nothing
            intro time
            have added := total_append (Grab.due time) e.tasks [.start tokens]
            have nothing : (Grab.start tokens).due time = 0 := rfl
            simp only [List.map_cons, List.map_nil, List.sum_cons, List.sum_nil, nothing,
              Nat.add_zero] at added
            simp only [added]
            exact h.served time
          · intro g wait rest member stage
            rcases List.mem_append.1 member with old | new
            · exact h.behind g wait rest old stage
            · cases List.mem_singleton.1 new
              cases stage
      | operate op =>
          cases op with
          | credit =>
              rcases operate_alike acted with ⟨b, woken, operated, alike⟩
              cases operated
              exact .of_alike alike ⟨h.begun, h.rate, h.served, h.behind⟩
          | _ =>
              cases patient

end Moves

end Bucket
end MeteredFetch
