import MeteredFetch.Proofs.Bucket.Bounds
import MeteredFetch.Proofs.Bucket.Signals
import MeteredFetch.Proofs.Executor.Attention

/-!
# Repriced — what a change of the interval does to those that wait

A caller that waits keeps its deadline until it looks at the interval in force. When tokens begin to be
earned faster, all that wait are woken for that, so after the turns that follow what is left of every wait
is scaled, as far as it fits 64 bits. When they are earned slower, the waits stay as they are.

* `Wait.reprice_eq` — a wait that was looked at, in full;
* `Operation.interval?`, `Bucket.interval_of_changed` — the interval that an operation puts in force;
* `Bucket.Stage` — how far a caller is that waited when the interval was changed;
* `Bucket.stage_of_turn`, `Bucket.stage_of_turns` — turns bring it forward;
* `Bucket.exists_turns` — turns can be given out until nobody is ready, unless one panics;
* `Bucket.repriced_of_changed` — what is left of a wait after a change of the interval.
-/

namespace MeteredFetch

open Executor

/-! ## Waits that were looked at -/

namespace Wait

variable {now : Instant} {interval : Nat} {w w' : Wait}

/-- A wait that was looked at is over when it was going to be, at a price no higher than at the interval
in force. -/
theorem reprice_eq (h : w.reprice now interval = .ok w') :
    w' = ⟨w.owed, w.dueAt now interval, min w.pricedAt interval⟩ := by
  unfold reprice at h
  unfold dueAt
  split at h
  · rename_i faster
    rcases ok_of_bind h with ⟨deadline, scaled, rest⟩
    cases rest
    rw [if_pos faster, rescale_eq scaled, Nat.min_eq_right (Nat.le_of_lt faster)]
  · rename_i slower
    cases h
    rw [if_neg slower, Nat.min_eq_left (Nat.le_of_not_lt slower)]

/-- Looking at the interval in force again changes nothing. -/
theorem reprice_of_pricedAt_le (h : w.pricedAt ≤ interval) : w.reprice now interval = .ok w :=
  if_neg (Nat.not_lt.2 h)

/-- No wait gets longer. -/
theorem dueAt_le (now : Instant) (interval : Nat) (w : Wait) : w.dueAt now interval ≤ w.deadline := by
  unfold dueAt
  split
  · rename_i faster
    exact rescaled_le (Nat.le_of_lt faster)
  · exact Nat.le_refl _

/-- What is left of a wait, scaled from the interval that it is priced at to another one, rounded down and
limited to 64 bits of nanoseconds. -/
def left (now : Instant) (interval : Nat) (w : Wait) : Nat :=
  min ((w.deadline - now) * interval / w.pricedAt) maxWord

/-- A wait that is going on ends when what is left of it has passed at the new interval. -/
theorem dueAt_of_lt (faster : interval < w.pricedAt) (ahead : now < w.deadline) :
    w.dueAt now interval = now + w.left now interval := by
  unfold dueAt rescaled left
  rw [if_pos faster, if_neg (Nat.lt_asymm ahead)]

end Wait

namespace Bucket

variable {b b' : Bucket} {now : Instant} {interval : Nat} {op : Operation} {woken : List TaskId}

/-! ## Changes of the interval -/

def Operation.interval? : Operation → Option Nat
  | .changeInterval interval | .changeBoth interval _ => some interval.toNat
  | .instantGrab _ | .forceGrab _ | .recycle _ | .credit | .changeCapacity _ => none

/-- A change that is accepted puts its interval in force. -/
theorem interval_of_changed (puts : op.interval? = some interval)
    (operated : b.operate now op = .ok (b', woken, .changed)) : b'.interval = interval := by
  cases op with
  | changeInterval q =>
      cases puts
      rcases change_cases operated with ⟨error, refused, _⟩ | ⟨_, n, checked, made⟩
      · cases refused
      · exact (interval_of_setInterval made).1.trans (eq_of_checkInterval checked)
  | changeBoth q c =>
      cases puts
      rcases change_cases operated with ⟨error, refused, _⟩ | ⟨_, ⟨i, n⟩, checked, made⟩
      · cases refused
      · rcases ok_of_bind checked with ⟨i, earns, checked⟩
        rcases ok_of_bind checked with ⟨n, inRange, checked⟩
        cases checked
        rcases ok_of_bind made with ⟨⟨b₁, woken₁⟩, set, rest⟩
        cases rest
        exact (interval_of_setInterval set).1.trans (eq_of_checkInterval earns)
  | instantGrab tokens => cases puts
  | forceGrab tokens => cases puts
  | recycle tokens => cases puts
  | credit => cases puts
  | changeCapacity capacity => cases puts

/-! ## Turns -/

variable {e e' e₁ e₂ : State} {n : TaskId} {tokens : UInt64} {w w' : Wait} {rest : Chunks}

/-- A turn leaves the clock and the interval as they are, and what another caller waits for. -/
theorem frame_of_turn (turned : e.turn program = .ok e') :
    e'.now = e.now ∧ e'.shared.interval = e.shared.interval ∧
      ((∀ g, e.next? ≠ some (n, g)) → e'.task? n = e.task? n) := by
  rcases turn_alike turned with ⟨_, alike⟩ | ⟨id, g, b, o, next, looked, alike⟩
  · refine ⟨alike.now, by rw [alike.shared], fun _ => ?_⟩
    unfold task?
    rw [alike.tasks]
  · refine ⟨alike.now, ?_, fun other => ?_⟩
    · rw [alike.shared]
      exact (registered_of_turn looked).1
    · have ne : id ≠ n := by
        rintro rfl
        exact other g next
      unfold task?
      rw [alike.tasks, List.getElem?_set_ne ne]

/-- Each turn takes one task from the ready list, and puts none there. So turns can be given out until
nobody is ready, unless one of them panics. -/
theorem exists_turns (e : State) : ∃ hs e', History program e hs e' ∧ (∀ m ∈ hs, m.2 = .turn) ∧
    (e'.ready = [] ∨ ∃ panic, e'.turn program = .error panic) := by
  induction ready : e.ready generalizing e with
  | nil =>
      exact ⟨[], e, .refl, by simp, .inl ready⟩
  | cons id rest ih =>
      cases turned : e.turn program with
      | error panic =>
          exact ⟨[], e, .refl, by simp, .inr ⟨panic, turned⟩⟩
      | ok e₁ =>
          have left : e₁.ready = rest := by
            rcases turn_eq turned with ⟨nobody, _⟩ |
              ⟨id', rest', first, ⟨_, rfl⟩ | ⟨_, rfl⟩ | ⟨g, b, o, _, _, rfl⟩⟩
            · cases nobody.symm.trans ready
            · cases first.symm.trans ready
              rfl
            · cases first.symm.trans ready
              rfl
            · rw [ready_afterTurn, ready, List.tail_cons]
          rcases ih e₁ left with ⟨hs, e', history, turns, last⟩
          refine ⟨_, e', History.head (.turn turned) history, ?_, last⟩
          intro m member
          rcases List.mem_cons.1 member with rfl | later
          · rfl
          · exact turns m later

/-! ## Callers that waited -/

/-- How far a caller is that waited when the interval was changed, if the chunks of some tasks were
granted since. -/
inductive Stage (n : TaskId) (tokens : UInt64) (w : Wait) (rest : Chunks) (granted : List TaskId)
    (e : State) : Prop
  /-- It has still to look at the interval in force, or need not do so. -/
  | unseen : n ∉ granted → e.task? n = some ⟨tokens, .waiting w rest⟩ →
      (Called n e ∨ w.pricedAt ≤ e.shared.interval) → Stage n tokens w rest granted e
  /-- It has looked at it, and waits on. -/
  | seen (w' : Wait) : n ∉ granted → e.task? n = some ⟨tokens, .waiting w' rest⟩ →
      w.reprice e.now e.shared.interval = .ok w' → e.now < w'.deadline →
      Stage n tokens w rest granted e
  /-- Its wait was found over. -/
  | granted : n ∈ granted → w.dueAt e.now e.shared.interval ≤ e.now →
      Stage n tokens w rest granted e

/-- A caller that is called no longer, and was priced higher than at the interval in force, has looked at
it. Its wait was found over, or is over when it is due at that interval. -/
theorem Stage.looked {granted : List TaskId} (h : Stage n tokens w rest granted e) (ran : n ∉ e.ready)
    (faster : e.shared.interval < w.pricedAt) :
    (n ∈ granted ∧ w.dueAt e.now e.shared.interval ≤ e.now) ∨
      (n ∉ granted ∧ e.now < w.dueAt e.now e.shared.interval ∧ e.task? n =
        some ⟨tokens, .waiting ⟨w.owed, w.dueAt e.now e.shared.interval, e.shared.interval⟩ rest⟩) := by
  cases h with
  | unseen _ _ looks =>
      rcases looks with called | cheap
      · exact absurd called.ready ran
      · exact absurd faster (Nat.not_lt.2 cheap)
  | seen w' missing stands repriced ahead =>
      have same := Wait.reprice_eq repriced
      rw [Nat.min_eq_right (Nat.le_of_lt faster)] at same
      subst same
      exact .inr ⟨missing, ahead, stands⟩
  | granted member expired =>
      exact .inl ⟨member, expired⟩

abbrev grantedIn (hs : List Moment) : List TaskId :=
  hs.filterMap Moment.granted?

theorem grantedIn_concat (hs : List Moment) (m : Moment) :
    grantedIn (hs ++ [m]) = grantedIn hs ++ m.granted?.toList := by
  unfold grantedIn
  rw [List.filterMap_append]
  cases granted : m.granted? <;> simp [granted]

/-- The turn of a caller that waits finds its wait over, or leaves it waiting. -/
theorem stage_of_own_turn {granted : List TaskId} (missing : n ∉ granted)
    (turned : e.turn program = .ok e') (next : e.next? = some (n, ⟨tokens, .waiting w' rest⟩))
    (same : ∀ {w''}, w'.reprice e.now e.shared.interval = .ok w'' →
      w.reprice e.now e.shared.interval = .ok w'') :
    Stage n tokens w rest (granted ++ (Moment.granted? (e, .turn)).toList) e' := by
  have stands := task?_of_next? next
  have inside : n < e.tasks.length := (List.getElem?_eq_some_iff.1 stands).1
  rcases turn_eq turned with ⟨nobody, rfl⟩ |
    ⟨id, ready, first, ⟨asleep, rfl⟩ | ⟨gone, rfl⟩ | ⟨g, b, o, next', looked, rfl⟩⟩
  · simp [next?, nobody] at next
  · simp [next?, first, asleep] at next
  · simp [next?, first, gone] at next
  -- it has its turn, and is granted its tokens or goes on to wait
  · cases next.symm.trans next'
    have now : (afterTurn e n ⟨tokens, .waiting w' rest⟩ b o).now = e.now :=
      (frame_of_turn (n := n) turned).1
    have interval := (frame_of_turn (n := n) turned).2.1
    rcases Caller.turn_cases looked with ⟨_, _, arriving, _⟩ |
      ⟨_, _, w'', waiting, repriced, past, expired, _⟩ |
      ⟨_, _, w'', waiting, repriced, ahead, unexpired, _, _, rfl⟩
    · cases arriving
    · cases waiting
      have found : Moment.granted? (e, .turn) = some n := by
        simp [Moment.granted?, next, expired]
      have due := (Wait.dueAt_of_reprice (same repriced)).1
      refine .granted (by simp [found]) ?_
      rw [now, interval, ← due]
      exact past
    · cases waiting
      have found : Moment.granted? (e, .turn) = none := by
        simp [Moment.granted?, next, unexpired]
      refine .seen w'' (by simpa [found] using missing) ?_ ?_ ?_
      · unfold task?
        rw [tasks_afterTurn, List.getElem?_set_self inside]
        rfl
      · rw [now, interval]
        exact same repriced
      · rw [now]
        exact ahead

/-- A turn of any task takes the caller to the next stage, or leaves it at its own. -/
theorem stage_of_turn {granted : List TaskId} (h : Stage n tokens w rest granted e)
    (turned : e.turn program = .ok e') :
    Stage n tokens w rest (granted ++ (Moment.granted? (e, .turn)).toList) e' := by
  rcases frame_of_turn (n := n) turned with ⟨now, interval, others⟩
  -- a turn of another task finds no wait of this one over
  have apart : (∀ g, e.next? ≠ some (n, g)) → n ∉ granted →
      n ∉ granted ++ (Moment.granted? (e, .turn)).toList := by
    intro other missing member
    rcases List.mem_append.1 member with old | new
    · exact missing old
    · have found := Option.mem_toList.1 new
      unfold Moment.granted? at found
      simp only at found
      split at found
      · rename_i id g _ next
        rcases Option.map_eq_some_iff.1 found with ⟨_, _, rfl⟩
        exact other g next
      · cases found
  have own : ∀ {g w'}, e.next? = some (n, g) → e.task? n = some ⟨tokens, .waiting w' rest⟩ →
      e.next? = some (n, ⟨tokens, .waiting w' rest⟩) := by
    intro g w' next stands
    have same := task?_of_next? next
    rw [getElem?_of_task? stands] at same
    cases same
    exact next
  cases h with
  | granted member expired =>
      refine .granted (List.mem_append_left _ member) ?_
      rw [now, interval]
      exact expired
  | unseen missing stands looks =>
      by_cases mine : ∃ g, e.next? = some (n, g)
      · rcases mine with ⟨g, next⟩
        exact stage_of_own_turn missing turned (own next stands) fun repriced => repriced
      · have other : ∀ g, e.next? ≠ some (n, g) := fun g next => mine ⟨g, next⟩
        have still := (others other).trans stands
        refine .unseen (apart other missing) still ?_
        rw [interval]
        refine looks.imp_left fun called => ?_
        have inside : n < e.tasks.length :=
          (List.getElem?_eq_some_iff.1 (getElem?_of_task? stands)).1
        have attends : Attends n e := ⟨inside, fun _ => called⟩
        exact (attends.turn other turned).called (by simp [still])
  | seen w' missing stands repriced ahead =>
      by_cases mine : ∃ g, e.next? = some (n, g)
      · rcases mine with ⟨g, next⟩
        refine stage_of_own_turn missing turned (own next stands) fun again => ?_
        -- it has looked at this interval before
        rw [Wait.reprice_of_pricedAt_le (Wait.pricedAt_of_reprice repriced)] at again
        cases again
        exact repriced
      · have other : ∀ g, e.next? ≠ some (n, g) := fun g next => mine ⟨g, next⟩
        refine .seen w' (apart other missing) ((others other).trans stands) ?_ ?_
        · rw [now, interval]
          exact repriced
        · rw [now]
          exact ahead

/-- All turns of an instant, in whatever order, leave the caller at one of the stages. -/
theorem stage_of_turns {hs : List Moment} (history : History program e hs e')
    (turns : ∀ m ∈ hs, m.2 = .turn) (start : Stage n tokens w rest [] e) :
    e'.now = e.now ∧ e'.shared.interval = e.shared.interval ∧
      Stage n tokens w rest (grantedIn hs) e' := by
  induction history with
  | refl =>
      exact ⟨rfl, rfl, start⟩
  | @tail hs l e' e'' _ step ih =>
      rcases ih fun m member => turns m (List.mem_append_left _ member) with ⟨now, interval, stage⟩
      have last : l = .turn := turns (e', l) (by simp)
      subst last
      cases step with
      | turn turned =>
          rcases frame_of_turn (n := n) turned with ⟨now', interval', _⟩
          rw [grantedIn_concat]
          exact ⟨now'.trans now, interval'.trans interval, stage_of_turn stage turned⟩

/-! ## Changes of the interval, and the turns that follow -/

/-- Right after a change of the interval each caller that waits was called, unless it is priced no higher
than at the new interval. -/
theorem stage_of_changed {start : Instant} {hs : List Moment}
    (history : History program (opening start b) hs e) (puts : op.interval? = some interval)
    (acted : e.act program (.operate op) = .ok (e₁, .changed))
    (waits : e.task? n = some ⟨tokens, .waiting w rest⟩) :
    e₁.now = e.now ∧ e₁.shared.interval = interval ∧ Stage n tokens w rest [] e₁ := by
  have heard := heard_of_history (history.tail (.act acted))
  rcases operate_eq acted with ⟨b₁, woken, operated, rfl⟩
  have alike := Alike.foldl_wake woken ({ e with shared := b₁ } : State)
  have put : (woken.foldl Executor.wake { e with shared := b₁ }).shared.interval = interval := by
    rw [alike.shared]
    exact interval_of_changed puts operated
  have stands : (woken.foldl Executor.wake { e with shared := b₁ }).task? n =
      some ⟨tokens, .waiting w rest⟩ := by
    unfold task?
    rw [alike.tasks]
    exact waits
  refine ⟨alike.now, put, .unseen List.not_mem_nil stands ?_⟩
  rcases heard.waits (n := n) (w := w) (by simp [waitOf, stands, Caller.wait?]) with
    ⟨_, priced⟩ | ⟨_, called⟩
  · exact .inr priced
  · exact .inl called

/-- After a change of the interval, and any number of turns at that moment, a caller that waited before
waits on for the same chunk, until no later than before, unless its wait was found over. Once its turn
has come, if it was called, what is left of its wait was scaled to the new interval if that is shorter than
the one it was priced at. It is rounded down, and limited to 64 bits of nanoseconds. If nothing is left,
the wait was found over. If the new interval is not shorter, the wait is what it was before. Such turns can
be given out until nobody is ready, unless one panics. -/
theorem repriced_of_changed {start : Instant} {hs hs' : List Moment}
    (history : History program (opening start b) hs e) (puts : op.interval? = some interval)
    (acted : e.act program (.operate op) = .ok (e₁, .changed))
    (turned : History program e₁ hs' e₂) (turns : ∀ m ∈ hs', m.2 = .turn)
    (waits : e.task? n = some ⟨tokens, .waiting w rest⟩) :
    e₂.now = e.now ∧ e₂.shared.interval = interval ∧
      (n ∉ grantedIn hs' → ∃ w', e₂.task? n = some ⟨tokens, .waiting w' rest⟩ ∧
        w'.owed = w.owed ∧ w'.deadline ≤ w.deadline) ∧
      (e.now < w.deadline → n ∉ e₂.ready →
        (interval < w.pricedAt →
            (w.left e.now interval = 0 → n ∈ grantedIn hs') ∧
            (0 < w.left e.now interval → n ∉ grantedIn hs' ∧ e₂.task? n =
              some ⟨tokens, .waiting ⟨w.owed, e.now + w.left e.now interval, interval⟩ rest⟩)) ∧
          (w.pricedAt ≤ interval → n ∉ grantedIn hs' ∧
            e₂.task? n = some ⟨tokens, .waiting w rest⟩)) ∧
      ∃ hs'' e₃, History program e₁ (hs' ++ hs'') e₃ ∧ (∀ m ∈ hs'', m.2 = .turn) ∧
        (e₃.ready = [] ∨ ∃ panic, e₃.turn program = .error panic) := by
  rcases stage_of_changed history puts acted waits with ⟨now₁, interval₁, begun⟩
  rcases stage_of_turns turned turns begun with ⟨now₂, interval₂, stage⟩
  have now := now₂.trans now₁
  have put := interval₂.trans interval₁
  refine ⟨now, put, fun missing => ?_, fun ahead ran => ⟨fun faster => ?_, fun slower => ?_⟩, ?_⟩
  · cases stage with
    | unseen _ stands _ =>
        exact ⟨w, stands, rfl, Nat.le_refl _⟩
    | seen w' _ stands repriced _ =>
        have same := Wait.reprice_eq repriced
        refine ⟨w', stands, ?_, ?_⟩
        · rw [same]
        · rw [same]
          exact Wait.dueAt_le _ _ w
    | granted member _ =>
        exact absurd member missing
  -- a faster rate: the stage decides, by whether the rest of the wait came to nothing
  · have due := Wait.dueAt_of_lt faster ahead
    have looked := stage.looked ran (put ▸ faster)
    rw [now, put, due] at looked
    rcases looked with ⟨member, expired⟩ | ⟨missing, later, stands⟩
    · exact ⟨fun _ => member,
        fun some => absurd expired (Nat.not_le.2 (Nat.lt_add_of_pos_right some))⟩
    · refine ⟨fun nothing => ?_, fun _ => ⟨missing, stands⟩⟩
      rw [nothing] at later
      exact absurd later (Nat.lt_irrefl _)
  -- a slower rate leaves the wait as it is, so only its own deadline could grant it
  · have same : w.reprice e.now interval = .ok w := Wait.reprice_of_pricedAt_le slower
    cases stage with
    | unseen missing stands _ =>
        exact ⟨missing, stands⟩
    | seen w' missing stands repriced _ =>
        rw [now, put, same] at repriced
        cases repriced
        exact ⟨missing, stands⟩
    | granted _ expired =>
        rw [now, put, Wait.dueAt_of_pricedAt_le slower] at expired
        exact absurd ahead (Nat.not_lt.2 expired)
  · rcases exists_turns e₂ with ⟨hs'', e₃, onward, areTurns, last⟩
    exact ⟨hs'', e₃, turned.trans onward, areTurns, last⟩

def halved : List Moment × State :=
  follow program (opening 0 ⟨0, 100, 10000000, 0, 0, []⟩)
    -- half of the first wait is over at the end
    [.act (.grab 10) (), .act (.grab 5) (), .turn, .turn, .clock 50000000]

theorem halved_repriced_of_changed :
    halved.2.task? 0 = some ⟨10, .waiting ⟨10, 100000000, 10000000⟩ ⟨10, 0, none⟩⟩ ∧
      (follow program halved.2 [.act (.operate (.changeInterval 5000000)) (), .turn, .turn]).2.task? 0 =
        some ⟨10, .waiting ⟨10, 75000000, 5000000⟩ ⟨10, 0, none⟩⟩ := by
  have waits : halved.2.task? 0 =
      some ⟨10, .waiting ⟨10, 100000000, 10000000⟩ ⟨10, 0, none⟩⟩ := by decide
  have acted : halved.2.act program (.operate (.changeInterval 5000000)) =
      .ok ((follow program halved.2 [.act (.operate (.changeInterval 5000000)) ()]).2, .changed) := rfl
  have turned := history_follow (p := program)
    (follow program halved.2 [.act (.operate (.changeInterval 5000000)) ()]).2 [.turn, .turn]
  have repriced := repriced_of_changed (history_follow _ _) rfl acted turned (by decide) waits
  refine ⟨waits, ?_⟩
  exact ((repriced.2.2.2.1 (by decide) (by decide)).1 (by decide)).2 (by decide) |>.2

/-- A wait of more than 584 years. -/
def distant : List Moment × State :=
  follow program (opening 0 ⟨0, 100, 4000000000000000000, 0, 0, []⟩) [.act (.grab 10) (), .turn]

/-- What is left of a wait is less than its share if that does not fit 64 bits of nanoseconds. -/
theorem not_repriced_exactly :
    ¬ ∀ (capacity interval : UInt64) (initial : Int64) (start : Instant) (b : Bucket)
        (hs hs' : List Moment) (e e₁ e₂ : State) (op : Operation) (new : Nat) (n : TaskId)
        (tokens : UInt64) (w w' : Wait) (rest : Chunks),
      create capacity interval initial start = .ok b →
      History program (opening start b) hs e → op.interval? = some new →
      e.act program (.operate op) = .ok (e₁, .changed) →
      History program e₁ hs' e₂ → (∀ m ∈ hs', m.2 = .turn) → e₂.ready = [] →
      e.task? n = some ⟨tokens, .waiting w rest⟩ → e.now < w.deadline → new < w.pricedAt →
      e₂.task? n = some ⟨tokens, .waiting w' rest⟩ →
      w'.deadline - e₂.now = (w.deadline - e.now) * new / w.pricedAt := by
  intro exact
  have acted : distant.2.act program (.operate (.changeInterval 3000000000000000000)) =
      .ok ((follow program distant.2 [.act (.operate (.changeInterval 3000000000000000000)) ()]).2,
        .changed) := rfl
  have turned := history_follow (p := program)
    (follow program distant.2 [.act (.operate (.changeInterval 3000000000000000000)) ()]).2 [.turn]
  have share := exact 100 4000000000000000000 0 0 _ _ _ _ _ _ _ _ 0 10
    ⟨10, 40000000000000000000, 4000000000000000000⟩
    ⟨10, 18446744073709551615, 3000000000000000000⟩ ⟨10, 0, none⟩ rfl (history_follow _ _) rfl acted
    turned (by decide) (by decide) (by decide) (by decide) (by decide) (by decide)
  exact absurd share (by decide)

end Bucket
end MeteredFetch
