import MeteredFetch.Proofs.Bucket.Conservation
import MeteredFetch.Proofs.Executor.Tasks

/-!
# Order — whoever began to wait earlier is not due later

A chunk that has to be waited for is due when the cursor is, and the cursor moves on with every such
chunk. When tokens begin to be earned faster, the cursor is brought forward by the interval that was
in force, and every wait by the interval that it was priced at. The order of the waits is kept as
long as these are the same.

* `rescaled` — what is left until a moment, scaled from one interval to another;
* `Wait.dueAt` — when a wait is over, once its caller has looked at the interval in force;
* `Bucket.draw_ahead`, `Bucket.Draws.ahead`, `Bucket.ahead_of_turn` — a chunk that has to be waited
  for is due with the cursor;
* `Moment.isFaithful` — a move that leaves the order of the waits after a given one as it is;
* `Bucket.InOrder` — a wait is over no later than the cursor, and no later than waits that began
  after it;
* `Bucket.served_in_order` — no wait is over before one that began earlier.
-/

namespace MeteredFetch

/-! ## Scaling -/

def rescaled (now deadline : Instant) (old new : Nat) : Instant :=
  if deadline < now then deadline else now + min ((deadline - now) * new / old) maxWord

theorem rescale_eq {now deadline deadline' : Instant} {old new : Nat}
    (h : rescale now deadline old new = .ok deadline') :
    deadline' = rescaled now deadline old new := by
  unfold rescale at h
  unfold rescaled
  split at h
  · rename_i past
    cases h
    rw [if_pos past]
  · rename_i ahead
    split at h
    · cases h
      rw [if_neg ahead]
    · cases h

/-- Shares of two times compare as the times do, each at its own rate. -/
theorem share_le_share {x y new old old' : Nat} (positive : 0 < old) (positive' : 0 < old')
    (h : x * old' ≤ y * old) : x * new / old ≤ y * new / old' := by
  refine (Nat.le_div_iff_mul_le positive').2 (Nat.le_of_mul_le_mul_right ?_ positive)
  calc
    x * new / old * old' * old
        = x * new / old * old * old' := by rw [Nat.mul_right_comm]
    _ ≤ x * new * old' := Nat.mul_le_mul_right _ (Nat.div_mul_le_self _ _)
    _ = x * old' * new := by rw [Nat.mul_right_comm]
    _ ≤ y * old * new := Nat.mul_le_mul_right _ h
    _ = y * new * old := by rw [Nat.mul_right_comm]

variable {now now' deadline deadline' : Instant} {old old' new new' : Nat}

/-- Deadlines keep their order if what is left of them, each at its own rate, has it. -/
theorem rescaled_le_rescaled (positive : 0 < old) (positive' : 0 < old')
    (le : deadline ≤ deadline')
    (h : now ≤ deadline → (deadline - now) * old' ≤ (deadline' - now) * old) :
    rescaled now deadline old new ≤ rescaled now deadline' old' new := by
  unfold rescaled
  by_cases past : deadline < now
  · rw [if_pos past]
    split
    · exact le
    · exact Nat.le_trans (Nat.le_of_lt past) (Nat.le_add_right now _)
  · have ahead : now ≤ deadline := Nat.le_of_not_lt past
    rw [if_neg past, if_neg (Nat.not_lt.2 (Nat.le_trans ahead le))]
    have shares : (deadline - now) * new / old ≤ (deadline' - now) * new / old' :=
      share_le_share positive positive' (h ahead)
    -- what does not fit is cut off alike on both sides
    refine Nat.add_le_add_left ?_ now
    unfold Instant at *
    omega

/-- What is left gets no longer at a shorter interval. -/
theorem rescaled_le (le : new ≤ old) :
    rescaled now deadline old new ≤ deadline := by
  unfold rescaled
  split
  · exact Nat.le_refl deadline
  · have share : (deadline - now) * new / old ≤ deadline - now := by
      refine Nat.div_le_of_le_mul ?_
      rw [Nat.mul_comm old]
      exact Nat.mul_le_mul_left _ le
    unfold Instant at *
    omega

/-- The later a deadline is scaled to a shorter interval, the less is gained. -/
theorem rescaled_mono_now (positive : 0 < old) (le : new ≤ old) (later : now ≤ now') :
    rescaled now deadline old new ≤ rescaled now' deadline old new := by
  by_cases past' : deadline < now'
  · have same : rescaled now' deadline old new = deadline := if_pos past'
    rw [same]
    exact rescaled_le le
  · have ahead : ¬ deadline < now := by
      unfold Instant at *
      omega
    unfold rescaled
    rw [if_neg ahead, if_neg past']
    -- of the time that has passed no more than all of it counts
    have split : (deadline - now) * new ≤ (deadline - now') * new + (now' - now) * old := by
      have parts : deadline - now = (deadline - now') + (now' - now) := by
        unfold Instant at *
        omega
      rw [parts, Nat.add_mul]
      exact Nat.add_le_add_left (Nat.mul_le_mul_left _ le) _
    have share : (deadline - now) * new / old ≤ (deadline - now') * new / old + (now' - now) := by
      refine Nat.le_trans (Nat.div_le_div_right split) ?_
      exact Nat.le_of_eq (Nat.add_mul_div_right _ _ positive)
    unfold Instant at *
    omega

theorem rescaled_mono_interval (le : new ≤ new') :
    rescaled now deadline old new ≤ rescaled now deadline old new' := by
  unfold rescaled
  split
  · exact Nat.le_refl deadline
  · have shares : (deadline - now) * new / old ≤ (deadline - now) * new' / old :=
      Nat.div_le_div_right (Nat.mul_le_mul_left _ le)
    refine Nat.add_le_add_left ?_ now
    unfold Instant at *
    omega

/-! ## Waits -/

namespace Wait

/-- When a wait is over, once its caller has looked at the interval in force. -/
def dueAt (now : Instant) (interval : Nat) (w : Wait) : Instant :=
  if interval < w.pricedAt then rescaled now w.deadline w.pricedAt interval else w.deadline

variable {interval interval' : Nat} {w w' : Wait}

/-- A wait that was priced no higher than now is over when it was to be over. -/
theorem dueAt_of_pricedAt_le (h : w.pricedAt ≤ interval) : w.dueAt now interval = w.deadline :=
  if_neg (Nat.not_lt.2 h)

/-- A caller that has looked at the interval in force does not see the wait change. -/
theorem dueAt_of_reprice (h : w.reprice now interval = .ok w') :
    w'.deadline = w.dueAt now interval ∧ w'.dueAt now interval = w.dueAt now interval := by
  unfold reprice at h
  unfold dueAt
  split at h
  · rename_i faster
    rcases ok_of_bind h with ⟨deadline, scaled, rest⟩
    cases rest
    rw [if_pos faster, if_neg (Nat.lt_irrefl interval), rescale_eq scaled]
    exact ⟨rfl, rfl⟩
  · rename_i slower
    cases h
    rw [if_neg slower]
    exact ⟨rfl, rfl⟩

/-- The later a caller looks at a shorter interval, the later its wait is over. -/
theorem dueAt_mono_now (later : now ≤ now') (w : Wait) :
    w.dueAt now interval ≤ w.dueAt now' interval := by
  unfold dueAt
  split
  · rename_i faster
    exact rescaled_mono_now (Nat.lt_of_le_of_lt (Nat.zero_le _) faster) (Nat.le_of_lt faster) later
  · exact Nat.le_refl w.deadline

/-- The slower tokens are earned, the later a wait is over. -/
theorem dueAt_mono_interval (le : interval ≤ interval') (w : Wait) :
    w.dueAt now interval ≤ w.dueAt now interval' := by
  unfold dueAt
  by_cases faster : interval < w.pricedAt
  · rw [if_pos faster]
    split
    · exact rescaled_mono_interval le
    · exact rescaled_le (Nat.le_of_lt faster)
  · have slower : ¬ interval' < w.pricedAt :=
      Nat.not_lt.2 (Nat.le_trans (Nat.not_lt.1 faster) le)
    exact Nat.le_of_eq (by rw [if_neg faster, if_neg slower])

/-- A deadline that is priced at the interval in force stays ahead of every wait that it is ahead
of when tokens begin to be earned faster, whatever that wait is priced at. -/
theorem rescaled_le_dueAt (faster : interval' < interval)
    (le : deadline ≤ w.dueAt now interval) :
    rescaled now deadline interval interval' ≤ w.dueAt now interval' := by
  have positive : 0 < interval := Nat.lt_of_le_of_lt (Nat.zero_le _) faster
  unfold dueAt at le ⊢
  by_cases dearer : interval < w.pricedAt
  · -- the wait was not looked at yet, and is scaled in one go
    rw [if_pos dearer] at le
    rw [if_pos (Nat.lt_trans faster dearer)]
    have positive' : 0 < w.pricedAt := Nat.lt_trans positive dearer
    have earlier : rescaled now w.deadline w.pricedAt interval ≤ w.deadline :=
      rescaled_le (Nat.le_of_lt dearer)
    refine rescaled_le_rescaled positive positive' (Nat.le_trans le earlier) ?_
    intro ahead
    have scaled : deadline ≤ now + (w.deadline - now) * interval / w.pricedAt := by
      unfold rescaled at le
      split at le
      · unfold Instant at *
        omega
      · exact Nat.le_trans le (Nat.add_le_add_left (Nat.min_le_left _ _) now)
    refine (Nat.le_div_iff_mul_le positive').1 ?_
    unfold Instant at *
    omega
  · -- the wait is priced no higher than the deadline, so it is brought forward by less, if at all
    rw [if_neg dearer] at le
    by_cases scaled : interval' < w.pricedAt
    · rw [if_pos scaled]
      have positive' : 0 < w.pricedAt := Nat.lt_of_le_of_lt (Nat.zero_le _) scaled
      refine rescaled_le_rescaled positive positive' le fun _ => ?_
      exact Nat.mul_le_mul (Nat.sub_le_sub_right le now) (Nat.not_lt.1 dearer)
    · rw [if_neg scaled]
      exact Nat.le_trans (rescaled_le (Nat.le_of_lt faster)) le

end Wait

def Caller.wait? : Caller → Option Wait
  | .arriving _ => none
  | .waiting wait _ => some wait

/-! ## Chunks -/

namespace Bucket

open Executor

variable {b b' : Bucket}

/-- A chunk never moves the cursor back. If it has to be waited for, it is due when the cursor is. -/
theorem draw_ahead {tokens : Nat} {o : Option Wait} (h : b.draw now tokens = .ok (b', o)) :
    b'.interval = b.interval ∧ b.cursor ≤ b'.cursor ∧
      ∀ w, o = some w → w.deadline = b'.cursor ∧ w.pricedAt = b.interval := by
  rcases ok_of_bind h with ⟨⟨claimed, wait⟩, claim, rest⟩
  unfold Bucket.claim at claim
  simp only at claim
  split at claim
  · cases claim
    cases rest
    exact ⟨rfl, Nat.le_refl _, fun w none => by cases none⟩
  · split at claim
    · cases claim
    · cases claim
      have further : ∀ n, b.cursor ≤ max b.cursor now + n := fun n =>
        Nat.le_trans (Nat.le_max_left _ _) (Nat.le_add_right _ n)
      simp only at rest
      split at rest
      · cases rest
        exact ⟨rfl, further _, fun w none => by cases none⟩
      · cases rest
        refine ⟨rfl, further _, ?_⟩
        intro w same
        cases same
        exact ⟨rfl, rfl⟩

/-- Whoever has to wait after drawing chunks waits up to the cursor. -/
theorem Draws.ahead {id : TaskId} {c : Chunks} {ds : List Draw} {o : Option Caller}
    (drawn : Draws now id c b ds b' o) :
    b'.interval = b.interval ∧ b.cursor ≤ b'.cursor ∧
      ∀ c', o = some c' → ds ≠ [] ∧ ∃ w rest, c' = .waiting w rest ∧
        w.deadline = b'.cursor ∧ w.pricedAt = b.interval := by
  induction drawn with
  | done b last =>
      exact ⟨rfl, Nat.le_refl _, fun c' none => by cases none⟩
  | taken first drawn _ ih =>
      rcases draw_ahead drawn with ⟨interval, cursor, _⟩
      rcases ih with ⟨interval', cursor', waits⟩
      refine ⟨interval'.trans interval, Nat.le_trans cursor cursor', ?_⟩
      intro c' stands
      rcases waits c' stands with ⟨_, w, rest, same, deadline, priced⟩
      exact ⟨List.cons_ne_nil _ _, w, rest, same, deadline, priced.trans interval⟩
  | held first drawn =>
      rcases draw_ahead drawn with ⟨interval, cursor, waits⟩
      refine ⟨interval, cursor, ?_⟩
      intro c' stands
      cases stands
      rcases waits _ rfl with ⟨deadline, priced⟩
      exact ⟨List.cons_ne_nil _ _, _, _, rfl, deadline, priced⟩

/-- A caller that draws on the bucket and waits then is due when the cursor is. One that draws nothing
looks at the interval in force, and its wait is over when it was before. -/
theorem ahead_of_turn {id : TaskId} {c : Caller} {o : Option Caller}
    (h : c.turn now id b = .ok (b', o)) :
    b'.interval = b.interval ∧ b.cursor ≤ b'.cursor ∧
      ∀ c', o = some c' → (c'.wait?.map fun w => w.dueAt now b.interval) =
        if c.draws now id b = [] then c.wait?.map fun w => w.dueAt now b.interval
        else some b'.cursor := by
  -- before chunks are drawn, a wait that is over may have been paid for
  have drawing : ∀ {chunks : Chunks} (b₀ : Bucket), b₀.interval = b.interval →
      b₀.cursor = b.cursor → Draws now id chunks b₀ (c.draws now id b) b' o →
      b'.interval = b.interval ∧ b.cursor ≤ b'.cursor ∧
        ∀ c', o = some c' → (c'.wait?.map fun w => w.dueAt now b.interval) =
          if c.draws now id b = [] then c.wait?.map fun w => w.dueAt now b.interval
          else some b'.cursor := by
    intro chunks b₀ interval cursor drawn
    rcases drawn.ahead with ⟨interval', further, waits⟩
    refine ⟨interval'.trans interval, cursor ▸ further, ?_⟩
    intro c' stands
    rcases waits c' stands with ⟨some, w, rest, rfl, deadline, priced⟩
    have cheap : w.pricedAt ≤ b.interval := Nat.le_of_eq (priced.trans interval)
    rw [if_neg some, Caller.wait?, Option.map_some, Wait.dueAt_of_pricedAt_le cheap, deadline]
  rcases Caller.turn_cases h with ⟨tokens, chunks, _, _, _, drawn⟩ |
    ⟨wait, rest, w, _, _, _, _, drawn⟩ | ⟨wait, rest, w, rfl, repriced, _, _, none, rfl, rfl⟩
  · exact drawing b rfl rfl drawn
  · exact drawing ((b.leave id).withdraw w.owed) rfl rfl drawn
  · refine ⟨rfl, Nat.le_refl _, ?_⟩
    intro c' stands
    cases stands
    rw [if_pos none]
    exact congrArg some (Wait.dueAt_of_reprice repriced).2

/-! ## Rates -/

theorem setInterval_rate {interval : Nat} {woken : List TaskId}
    (h : b.setInterval now interval = .ok (b', woken)) :
    b.interval ≤ b'.interval ∧ b'.cursor = b.cursor ∨
      b'.interval < b.interval ∧ b'.cursor = rescaled now b.cursor b.interval b'.interval := by
  unfold setInterval at h
  split at h
  · rename_i faster
    rcases ok_of_bind h with ⟨cursor, scaled, rest⟩
    cases rest
    exact .inr ⟨faster, rescale_eq scaled⟩
  · rename_i slower
    cases h
    exact .inl ⟨Nat.le_of_not_lt slower, rfl⟩

/-- An operation brings the cursor forward if it makes tokens be earned faster, and leaves it where
it is otherwise. -/
theorem operate_rate {op : Operation} {woken : List TaskId} {answer : Answer}
    (h : b.operate now op = .ok (b', woken, answer)) :
    b.interval ≤ b'.interval ∧ b'.cursor = b.cursor ∨
      b'.interval < b.interval ∧ b'.cursor = rescaled now b.cursor b.interval b'.interval := by
  cases op with
  | instantGrab tokens =>
      left
      simp only [operate, instantGrab] at h
      split at h <;> cases h <;> exact ⟨Nat.le_refl _, rfl⟩
  | changeInterval interval =>
      simp only [operate, change] at h
      split at h
      · cases h
        exact .inl ⟨Nat.le_refl _, rfl⟩
      · rcases ok_of_bind h with ⟨⟨b₁, woken₁⟩, changed, rest⟩
        cases rest
        exact setInterval_rate (b := b.credit now) changed
  | changeCapacity capacity =>
      left
      simp only [operate, change] at h
      split at h <;> cases h <;> exact ⟨Nat.le_refl _, rfl⟩
  | changeBoth interval capacity =>
      simp only [operate, change] at h
      split at h
      · cases h
        exact .inl ⟨Nat.le_refl _, rfl⟩
      · rcases ok_of_bind h with ⟨⟨b₁, woken₁⟩, changed, rest⟩
        cases rest
        rcases ok_of_bind changed with ⟨⟨b₂, woken₂⟩, set, rest⟩
        cases rest
        -- the capacity makes no difference to it
        have rate := setInterval_rate (b := b.creditUnclipped now) set
        exact rate
  | _ =>
      cases h
      exact .inl ⟨Nat.le_refl _, rfl⟩

/-! ## Moments -/

def waitOf (e : State) (id : TaskId) : Option Wait :=
  (e.task? id).bind fun g => g.caller.wait?

/-- When the wait of a task is over, once it has looked at the interval in force. -/
def due (e : State) (id : TaskId) : Option Instant :=
  (waitOf e id).map fun w => w.dueAt e.now e.shared.interval

namespace Moment

/-- The task that begins to wait for a chunk in the move. -/
def began? (m : Moment) : Option TaskId :=
  match m.2, m.1.next? with
  | .turn, some (id, g) =>
      match g.caller.turn m.1.now id m.1.shared with
      | .ok (_, some _) => if g.caller.draws m.1.now id m.1.shared = [] then none else some id
      | .ok (_, none) | .error _ => none
  | _, _ => none

/-- The task whose wait is found over in the move, so that its chunk is granted. -/
def granted? (m : Moment) : Option TaskId :=
  match m.2, m.1.next? with
  | .turn, some (id, g) => (g.caller.over? m.1.now m.1.shared).map fun _ => id
  | _, _ => none

/-- Whether the move leaves the order of the waits after that of a task as it is. While the task
has still to look at the interval in force, the interval stays and no time passes. While its wait is
priced at a shorter interval than the one in force, the interval is not shortened. No time runs
back. -/
def isFaithful (id : TaskId) (m : Moment) : Bool :=
  match m.2, waitOf m.1 id with
  | .clock time, some w => decide (m.1.now ≤ time ∧ w.pricedAt ≤ m.1.shared.interval)
  | .act (.operate op) _, some w =>
      match m.1.shared.operate m.1.now op with
      | .ok (b, _, _) =>
          decide (b.interval ≠ m.1.shared.interval → w.pricedAt ≤ m.1.shared.interval) &&
            decide (b.interval < m.1.shared.interval → w.pricedAt = m.1.shared.interval)
      | .error _ => true
  | _, _ => true

end Moment

variable {e e' : State} {id other : TaskId} {t t' : Instant}

/-- When a wait is over does not depend on who is ready. -/
theorem due_of_alike (h : Alike e e') : due e' id = due e id := by
  unfold due waitOf task?
  rw [h.now, h.shared, h.tasks]

theorem due_of_caller {g : Grab} (stands : e.tasks[id]? = some (some g)) :
    due e id = g.caller.wait?.map fun w => w.dueAt e.now e.shared.interval := by
  simp [due, waitOf, task?, stands]

/-- What a turn does to the waits. Whoever begins to wait is due with the cursor. -/
theorem due_of_turn (turned : e.turn program = .ok e') :
    e.shared.cursor ≤ e'.shared.cursor ∧
      ∀ id, if Moment.began? (e, .turn) = some id then due e' id = some e'.shared.cursor
        else due e' id = due e id ∨ due e' id = none := by
  rcases turn_alike turned with ⟨nobody, alike⟩ | ⟨number, g, b, o, next, looked, alike⟩
  · refine ⟨Nat.le_of_eq (by rw [alike.shared]), fun id => ?_⟩
    have none : Moment.began? (e, .turn) = none := by simp [Moment.began?, nobody]
    rw [none, if_neg (by simp)]
    exact .inl (due_of_alike alike)
  · have stands := task?_of_next? next
    have inside : number < e.tasks.length := (List.getElem?_eq_some_iff.1 stands).1
    rcases ahead_of_turn looked with ⟨interval, further, waits⟩
    have cursor : e'.shared.cursor = b.cursor := by rw [alike.shared]
    rw [cursor]
    refine ⟨further, fun id => ?_⟩
    by_cases same : number = id
    · subst same
      have own : due e' number =
          (o.bind Caller.wait?).map fun w => w.dueAt e.now e.shared.interval := by
        rw [due_of_alike alike]
        cases o <;> simp [due, waitOf, task?, inside, interval]
      cases o with
      | none =>
          have none : Moment.began? (e, .turn) = none := by simp [Moment.began?, next, looked]
          rw [none, if_neg (by simp)]
          exact .inr own
      | some c' =>
          have due := waits c' rfl
          rw [own, Option.bind_some, due, due_of_caller stands]
          by_cases drew : g.caller.draws e.now number e.shared = [] <;>
            simp [Moment.began?, next, looked, drew]
    · -- the others are due when they were
      have other : Moment.began? (e, .turn) ≠ some id := by
        cases o with
        | none =>
            simp [Moment.began?, next, looked]
        | some c' =>
            by_cases drew : g.caller.draws e.now number e.shared = [] <;>
              simp [Moment.began?, next, looked, drew, same]
      rw [if_neg other, due_of_alike alike]
      left
      simp only [due, waitOf, task?, List.getElem?_set_ne same, interval]

/-! ## Order -/

/-- The wait of a task is over no later than the cursor, and no later than those of the tasks in a
list. -/
structure InOrder (id : TaskId) (later : List TaskId) (e : State) : Prop where
  cursor : ∀ {t : Instant}, due e id = some t → t ≤ e.shared.cursor
  order : ∀ {other : TaskId}, other ∈ later → ∀ {t t' : Instant},
    due e id = some t → due e other = some t' → t ≤ t'

variable {later : List TaskId} {interval : Nat}

/-- A task that has its turn keeps its place, and whoever begins to wait comes behind it. -/
theorem InOrder.turn (h : InOrder id later e) (turned : e.turn program = .ok e')
    (same : Moment.began? (e, .turn) ≠ some id) :
    InOrder id (later ++ (Moment.began? (e, .turn)).toList) e' := by
  rcases due_of_turn turned with ⟨further, dues⟩
  have kept : ∀ {t : Instant}, due e' id = some t → due e id = some t := by
    intro t after
    have own := dues id
    rw [if_neg same, after] at own
    rcases own with before | none
    · exact before.symm
    · cases none
  refine ⟨fun after => Nat.le_trans (h.cursor (kept after)) further, ?_⟩
  intro other member t t' mine theirs
  have own := dues other
  by_cases began : Moment.began? (e, .turn) = some other
  · -- it begins to wait now, behind the cursor
    rw [if_pos began, theirs] at own
    rw [Option.some.inj own]
    exact Nat.le_trans (h.cursor (kept mine)) further
  · rw [if_neg began, theirs] at own
    rcases own with before | none
    · rcases List.mem_append.1 member with old | new
      · exact h.order old (kept mine) before.symm
      · exact absurd (Option.mem_toList.1 new) began
    · cases none

/-- The order is kept if the waits stay, and a wait that is over no later than the cursor or another
one is so afterwards. -/
theorem InOrder.of_waits {after : Wait → Instant} (h : InOrder id later e)
    (view : ∀ other, due e' other = (waitOf e other).map after)
    (cursor : ∀ w, waitOf e id = some w →
      w.dueAt e.now e.shared.interval ≤ e.shared.cursor → after w ≤ e'.shared.cursor)
    (order : ∀ w w', waitOf e id = some w →
      w.dueAt e.now e.shared.interval ≤ w'.dueAt e.now e.shared.interval → after w ≤ after w') :
    InOrder id later e' := by
  have before : ∀ {other : TaskId} {w : Wait}, waitOf e other = some w →
      due e other = some (w.dueAt e.now e.shared.interval) := by
    intro other w waits
    simp [due, waits]
  refine ⟨?_, ?_⟩
  · intro t mine
    rw [view] at mine
    rcases Option.map_eq_some_iff.1 mine with ⟨w, waits, rfl⟩
    exact cursor w waits (h.cursor (before waits))
  · intro other member t t' mine theirs
    rw [view] at mine theirs
    rcases Option.map_eq_some_iff.1 mine with ⟨w, waits, rfl⟩
    rcases Option.map_eq_some_iff.1 theirs with ⟨w', waits', rfl⟩
    exact order w w' waits (h.order member (before waits) (before waits'))

/-- Time passes while the wait is priced no higher than at the interval in force. Nobody else gains
by that. -/
theorem InOrder.clock {time : Instant} (h : InOrder id later e)
    (faithful : Moment.isFaithful id (e, .clock time) = true) :
    InOrder id later (e.setClock time) := by
  have view : ∀ other, due (e.setClock time) other =
      (waitOf e other).map fun w => w.dueAt time e.shared.interval := by
    intro other
    rw [due_of_alike (setClock_alike e time)]
    rfl
  have terms : ∀ {w : Wait}, waitOf e id = some w →
      e.now ≤ time ∧ w.pricedAt ≤ e.shared.interval := by
    intro w waits
    simpa only [Moment.isFaithful, waits, decide_eq_true_eq] using faithful
  refine h.of_waits view ?_ ?_
  · intro w waits ahead
    rw [Wait.dueAt_of_pricedAt_le (terms waits).2] at ahead ⊢
    rw [(setClock_alike e time).shared]
    exact ahead
  · intro w w' waits earlier
    rw [Wait.dueAt_of_pricedAt_le (terms waits).2] at earlier ⊢
    exact Nat.le_trans earlier (Wait.dueAt_mono_now (terms waits).1 w')

/-- Tokens are earned no faster than before. The wait is not changed, and others only get longer. -/
theorem InOrder.slow (h : InOrder id later e) (slower : e.shared.interval ≤ interval)
    (view : ∀ other, due e' other = (waitOf e other).map fun w => w.dueAt e.now interval)
    (cursor : e'.shared.cursor = e.shared.cursor)
    (priced : ∀ {w : Wait}, waitOf e id = some w → interval ≠ e.shared.interval →
      w.pricedAt ≤ e.shared.interval) : InOrder id later e' := by
  have own : ∀ {w : Wait}, waitOf e id = some w →
      w.dueAt e.now interval = w.dueAt e.now e.shared.interval := by
    intro w waits
    by_cases same : interval = e.shared.interval
    · rw [same]
    · have cheap := priced waits same
      rw [Wait.dueAt_of_pricedAt_le cheap, Wait.dueAt_of_pricedAt_le (Nat.le_trans cheap slower)]
  refine h.of_waits view ?_ ?_
  · intro w waits ahead
    rw [own waits, cursor]
    exact ahead
  · intro w w' waits earlier
    rw [own waits]
    exact Nat.le_trans earlier (Wait.dueAt_mono_interval slower w')

/-- Tokens begin to be earned faster, while the wait is priced at the interval in force. It is
brought forward as the cursor is. -/
theorem InOrder.hasten (h : InOrder id later e) (faster : interval < e.shared.interval)
    (view : ∀ other, due e' other = (waitOf e other).map fun w => w.dueAt e.now interval)
    (cursor : e'.shared.cursor = rescaled e.now e.shared.cursor e.shared.interval interval)
    (priced : ∀ {w : Wait}, waitOf e id = some w → w.pricedAt = e.shared.interval) :
    InOrder id later e' := by
  have positive : 0 < e.shared.interval := Nat.lt_of_le_of_lt (Nat.zero_le _) faster
  have own : ∀ {w : Wait}, waitOf e id = some w →
      w.dueAt e.now interval = rescaled e.now w.deadline e.shared.interval interval := by
    intro w waits
    unfold Wait.dueAt
    rw [priced waits, if_pos faster]
  refine h.of_waits view ?_ ?_
  · intro w waits ahead
    rw [Wait.dueAt_of_pricedAt_le (Nat.le_of_eq (priced waits))] at ahead
    rw [own waits, cursor]
    -- both are scaled by the same interval
    exact rescaled_le_rescaled positive positive ahead fun _ =>
      Nat.mul_le_mul_right _ (Nat.sub_le_sub_right ahead e.now)
  · intro w w' waits earlier
    rw [Wait.dueAt_of_pricedAt_le (Nat.le_of_eq (priced waits))] at earlier
    rw [own waits]
    exact Wait.rescaled_le_dueAt faster earlier

/-- The interval is changed while the wait is priced no higher than at the interval in force, and
shortened only while it is priced at this interval. -/
theorem InOrder.operate {op : Operation} {answer : Answer} (h : InOrder id later e)
    (faithful : Moment.isFaithful id (e, .act (.operate op) answer) = true)
    (acted : e.act program (.operate op) = .ok (e', answer)) : InOrder id later e' := by
  rcases operate_alike acted with ⟨b, woken, operated, alike⟩
  have view : ∀ other, due e' other =
      (waitOf e other).map fun w => w.dueAt e.now b.interval := by
    intro other
    rw [due_of_alike alike]
    rfl
  have cursor : e'.shared.cursor = b.cursor := by rw [alike.shared]
  -- what the wait is priced at, as far as it matters
  have terms : ∀ {w : Wait}, waitOf e id = some w →
      (b.interval ≠ e.shared.interval → w.pricedAt ≤ e.shared.interval) ∧
        (b.interval < e.shared.interval → w.pricedAt = e.shared.interval) := by
    intro w waits
    simp only [Moment.isFaithful, waits, operated, Bool.and_eq_true, decide_eq_true_eq] at faithful
    exact faithful
  rcases operate_rate operated with ⟨slower, kept⟩ | ⟨faster, scaled⟩
  · exact h.slow slower view (cursor.trans kept) fun waits => (terms waits).1
  · exact h.hasten faster view (cursor.trans scaled) fun waits => (terms waits).2 faster

/-- Tasks that do not wait may come, and those that wait may go. -/
theorem InOrder.of_due (h : InOrder id later e) (cursor : e'.shared.cursor = e.shared.cursor)
    (same : ∀ {other : TaskId} {t : Instant}, due e' other = some t → due e other = some t) :
    InOrder id later e' := by
  refine ⟨?_, ?_⟩
  · intro t after
    rw [cursor]
    exact h.cursor (same after)
  · intro other member t t' mine theirs
    exact h.order member (same mine) (same theirs)

/-- Whoever comes has still to draw its chunks and waits for nothing. -/
theorem InOrder.grab {tokens : UInt64} {answer : Answer} (h : InOrder id later e)
    (acted : e.act program (.grab tokens) = .ok (e', answer)) : InOrder id later e' := by
  have alike := grab_alike acted
  refine h.of_due (by rw [alike.shared]) ?_
  intro other t after
  rw [due_of_alike alike] at after
  by_cases inside : other < e.tasks.length
  · simpa [due, waitOf, task?, List.getElem?_append_left inside] using after
  · -- it has not begun, so it waits for nothing
    have beyond : e.tasks.length ≤ other := Nat.le_of_not_lt inside
    simp only [due, waitOf, task?, List.getElem?_append_right beyond] at after
    cases place : other - e.tasks.length with
    | zero =>
        simp [place, Grab.start, Caller.wait?] at after
    | succ n =>
        simp [place] at after

/-- Nobody comes before its turn because another one is dropped. -/
theorem InOrder.kill {task : TaskId} (h : InOrder id later e) :
    InOrder id later (e.kill program task) := by
  have swept : Alike (e.drop program task) (e.kill program task) :=
    sweep_alike program (e.drop program task)
  cases found : e.task? task with
  | none =>
      rw [drop_of_task?_eq_none program found] at swept
      refine h.of_due (by rw [swept.shared]) ?_
      intro other t after
      rw [due_of_alike swept] at after
      exact after
  | some g =>
      have alike := (drop_alike program e found).trans swept
      have inside : task < e.tasks.length :=
        (List.getElem?_eq_some_iff.1 (getElem?_of_task? found)).1
      refine h.of_due ?_ ?_
      · rw [alike.shared]
        rfl
      · intro other t after
        rw [due_of_alike alike] at after
        by_cases same : task = other
        · subst same
          simp [due, waitOf, task?, inside] at after
        · simpa [due, waitOf, task?, List.getElem?_set_ne same, program, Bucket.leave] using after

/-- Every faithful move keeps the order, and adds the task that begins to wait. -/
theorem inOrder_of_step {l : Label Action Answer} (h : InOrder id later e)
    (faithful : Moment.isFaithful id (e, l) = true) (same : Moment.began? (e, l) ≠ some id)
    (step : Step program e l e') :
    InOrder id (later ++ (Moment.began? (e, l)).toList) e' := by
  cases step with
  | turn turned =>
      exact h.turn turned same
  | clock time =>
      simpa [Moment.began?] using h.clock faithful
  | kill task =>
      simpa [Moment.began?] using h.kill
  | @act _ action answer acted =>
      cases action with
      | operate op =>
          simpa [Moment.began?] using h.operate faithful acted
      | grab tokens =>
          simpa [Moment.began?] using h.grab acted

/-! ## Histories -/

variable {hs : List Moment}

/-- Over a faithful run, all who began to wait meanwhile are behind the task. -/
theorem inOrder_of_history (h : InOrder id later e) (history : History program e hs e')
    (faithful : ∀ m ∈ hs, Moment.isFaithful id m = true)
    (same : id ∉ hs.filterMap Moment.began?) :
    InOrder id (later ++ hs.filterMap Moment.began?) e' := by
  -- the list of those that began later grows by whoever begins in the last move
  induction history with
  | refl =>
      simpa using h
  | @tail hs l e' e'' _ step ih =>
      have split : (hs ++ [(e', l)]).filterMap Moment.began? =
          hs.filterMap Moment.began? ++ (Moment.began? (e', l)).toList := by
        rw [List.filterMap_append]
        cases began : Moment.began? (e', l) <;> simp [began]
      rw [split] at same ⊢
      have before := ih (fun m member => faithful m (List.mem_append_left _ member))
        fun member => same (List.mem_append_left _ member)
      rw [← List.append_assoc]
      refine inOrder_of_step before (faithful _ (by simp)) ?_ step
      intro again
      exact same (List.mem_append_right _ (Option.mem_toList.2 again))

/-- A wait that is found over is due. -/
theorem due_of_granted (h : Moment.granted? (e, .turn) = some id) :
    ∃ t, due e id = some t ∧ t ≤ e.now := by
  unfold Moment.granted? at h
  simp only at h
  split at h
  · rename_i number g _ next
    rcases Option.map_eq_some_iff.1 h with ⟨w, expired, rfl⟩
    rw [due_of_caller (task?_of_next? next)]
    cases caller : g.caller with
    | arriving tokens =>
        rw [caller] at expired
        cases expired
    | waiting wait rest =>
        rw [caller] at expired
        simp only [Caller.over?] at expired
        split at expired
        · rename_i w' repriced
          split at expired
          · rename_i past
            rw [(Wait.dueAt_of_reprice repriced).1] at past
            exact ⟨_, rfl, past⟩
          · cases expired
        · cases expired
  · cases h

/-- Callers that wait are served in the order in which they began to wait. After a task has begun to
wait, its wait is over no later than the cursor, and no later than that of any task that has begun to
wait since; so if such a wait is found over, this one is over as well. It takes that the interval is
not changed while the task has still to look at it, nor shortened while the task waits at the price
of a shorter one. -/
theorem served_in_order {e₀ e₁ e₂ : State} (step : Step program e₀ .turn e₁)
    (began : Moment.began? (e₀, .turn) = some id) (history : History program e₁ hs e₂)
    (faithful : ∀ m ∈ hs, Moment.isFaithful id m = true)
    (same : id ∉ hs.filterMap Moment.began?) (waits : due e₂ id = some t) :
    t ≤ e₂.shared.cursor ∧
      ∀ other ∈ hs.filterMap Moment.began?,
        (∀ t', due e₂ other = some t' → t ≤ t') ∧
          (Moment.granted? (e₂, .turn) = some other → t ≤ e₂.now) := by
  have first : InOrder id [] e₁ := by
    cases step with
    | turn turned =>
        have own := (due_of_turn turned).2 id
        rw [if_pos began] at own
        refine ⟨?_, fun member => absurd member List.not_mem_nil⟩
        intro t after
        rw [own] at after
        cases after
        exact Nat.le_refl _
  have ordered := inOrder_of_history first history faithful same
  rw [List.nil_append] at ordered
  refine ⟨ordered.cursor waits, fun other member => ⟨?_, ?_⟩⟩
  · intro t' theirs
    exact ordered.order member waits theirs
  · intro granted
    rcases due_of_granted granted with ⟨t', theirs, past⟩
    exact Nat.le_trans (ordered.order member waits theirs) past

/-! ## Two runs -/

def blocked : State :=
  (follow program (opening 0 ⟨0, 100, 10000000, 0, 0, []⟩) [.act (.grab 99) ()]).2

/-- The second one begins to wait, then tokens begin to be earned faster, and the first wait ends. -/
def hastened : List Moment × State :=
  follow program (follow program blocked [.turn]).2
    [.act (.grab 1) (), .turn, .act (.operate (.changeInterval 5000000)) (), .turn, .turn,
      .clock 495000000]

theorem hastened_served_in_order :
    Moment.began? (blocked, .turn) = some 0 ∧
      (∀ m ∈ hastened.1, Moment.isFaithful 0 m = true) ∧
      0 ∉ hastened.1.filterMap Moment.began? ∧ due hastened.2 0 = some 495000000 ∧
      495000000 ≤ hastened.2.shared.cursor ∧
      ∀ other ∈ hastened.1.filterMap Moment.began?,
        (∀ t', due hastened.2 other = some t' → 495000000 ≤ t') ∧
          (Moment.granted? (hastened.2, .turn) = some other → 495000000 ≤ hastened.2.now) := by
  have step : Step program blocked .turn (follow program blocked [.turn]).2 := .turn rfl
  have began : Moment.began? (blocked, .turn) = some 0 := by decide
  have faithful : ∀ m ∈ hastened.1, Moment.isFaithful 0 m = true := by decide
  have same : 0 ∉ hastened.1.filterMap Moment.began? := by decide
  have waits : due hastened.2 0 = some 495000000 := by decide
  exact ⟨began, faithful, same, waits,
    served_in_order step began (history_follow _ _) faithful same waits⟩

/-- Tokens are earned slower and then as before. The cursor is brought forward, and the wait is not;
a caller that comes later is served first. -/
def overtaking : List Moment × State :=
  follow program (follow program blocked [.turn]).2
    [.act (.operate (.changeInterval 20000000)) (), .act (.operate (.changeInterval 10000000)) (),
      .turn, .act (.grab 1) (), .turn, .clock 505000000]

/-- It is not enough that no time runs back and that the callers have taken their turns before time
passes or anything is done. -/
theorem not_served_in_order :
    ¬ ∀ (capacity interval : UInt64) (initial : Int64) (start : Instant) (b : Bucket)
        (hs₀ hs : List Moment) (e₀ e₁ e₂ : State) (id : TaskId) (t : Instant),
      create capacity interval initial start = .ok b →
      History program (opening start b) hs₀ e₀ → Step program e₀ .turn e₁ →
      Moment.began? (e₀, .turn) = some id → History program e₁ hs e₂ →
      (∀ m ∈ hs, Executor.Moment.isForward m = true) →
      (∀ m ∈ hs, m.2 = .turn ∨ m.1.ready = []) →
      id ∉ hs.filterMap Moment.began? → due e₂ id = some t →
      t ≤ e₂.shared.cursor ∧
        ∀ other ∈ hs.filterMap Moment.began?,
          Moment.granted? (e₂, .turn) = some other → t ≤ e₂.now := by
  intro ordered
  have step : Step program blocked .turn (follow program blocked [.turn]).2 := .turn rfl
  have waits : due overtaking.2 0 = some 990000000 := by decide
  have bound := (ordered 100 10000000 0 0 ⟨0, 100, 10000000, 0, 0, []⟩ _ overtaking.1 blocked _
    overtaking.2 0 _ rfl (history_follow _ _) step (by decide) (history_follow _ _) (by decide)
    (by decide) (by decide) waits).2 1 (by decide) (by decide)
  exact absurd bound (by decide)

end Bucket
end MeteredFetch
