import MeteredFetch.Proofs.Executor.Alarms
import MeteredFetch.Proofs.Bucket.Steps

/-!
# Signals — nobody sleeps through a faster rate

A caller that begins to wait, or waits on, puts itself on the list of those to be woken when tokens
begin to be earned faster. Whoever is woken is taken from the list, has its turn whatever its alarm
says, and looks at the interval that is in force then.

* `Bucket.operate_waiters` — an operation leaves the list alone, or makes the interval shorter and wakes
  all of the list;
* `Bucket.registered_of_turn` — who waits after its turn is on the list, and priced at the interval
  in force;
* `Bucket.Heard` — every task that waits is on the list once, or was called;
* `Bucket.no_wakeup_lost` — this holds in every run.
-/

namespace MeteredFetch

/-- A wait that was looked at is priced no higher than at the interval in force. -/
theorem Wait.pricedAt_of_reprice {now : Instant} {interval : Nat} {w w' : Wait}
    (h : w.reprice now interval = .ok w') : w'.pricedAt ≤ interval := by
  unfold reprice at h
  split at h
  · rcases ok_of_bind h with ⟨deadline, _, rest⟩
    cases rest
    exact Nat.le_refl interval
  · rename_i slower
    cases h
    exact Nat.le_of_not_lt slower

namespace Bucket

open Executor

variable {b b' : Bucket} {now : Instant} {id n : TaskId}

/-! ## The list of those to be woken -/

/-- Whoever leaves takes nobody else along. -/
theorem count_leave (b : Bucket) (ne : n ≠ id) :
    (b.leave id).waiters.count n = b.waiters.count n :=
  List.count_filter (by simpa using ne)

theorem count_join (b : Bucket) (ne : n ≠ id) :
    (b.join id).waiters.count n = b.waiters.count n := by
  have left : (b.waiters.filter (· != id)).count n = b.waiters.count n := count_leave b ne
  have new : [id].count n = 0 := List.count_singleton.trans (by simp [Ne.symm ne])
  simp only [join, List.count_append, left, new, Nat.add_zero]

/-- Nobody is on the list twice. -/
theorem count_join_self (b : Bucket) (id : TaskId) : (b.join id).waiters.count id = 1 := by
  have left : (b.waiters.filter (· != id)).count id = 0 := List.count_eq_zero.2 (by simp)
  simp only [join, List.count_append, left, List.count_singleton_self]

/-- To draw a chunk is not yet to be on the list. -/
theorem draw_waiters {tokens : Nat} {o : Option Wait} (h : b.draw now tokens = .ok (b', o)) :
    b'.waiters = b.waiters := by
  rcases ok_of_bind h with ⟨⟨claimed, wait⟩, claim, rest⟩
  unfold Bucket.claim at claim
  simp only at claim
  split at claim
  · cases claim
    cases rest
    rfl
  · split at claim
    · cases claim
    · cases claim
      simp only at rest
      split at rest <;> cases rest <;> rfl

/-- A caller that has to wait is on the list once, and the others are there as before. -/
theorem Draws.registered {c : Chunks} {ds : List Draw} {o : Option Caller}
    (drawn : Draws now id c b ds b' o) :
    (∀ n, n ≠ id → b'.waiters.count n = b.waiters.count n) ∧
      (o ≠ none → b'.waiters.count id = 1) := by
  induction drawn with
  | done b last =>
      exact ⟨fun n ne => rfl, fun some => absurd rfl some⟩
  | taken first drawn _ ih =>
      rw [draw_waiters drawn] at ih
      exact ih
  | @held c rest tokens b b' w first drawn =>
      refine ⟨?_, fun _ => count_join_self b' id⟩
      intro n ne
      rw [count_join b' ne, draw_waiters drawn]

/-- A caller that waits after its turn is on the list, and priced no higher than at the interval in
force. Nobody else is put on the list or taken from it. -/
theorem registered_of_turn {c : Caller} {o : Option Caller} (h : c.turn now id b = .ok (b', o)) :
    b'.interval = b.interval ∧ (∀ n, n ≠ id → b'.waiters.count n = b.waiters.count n) ∧
      ∀ w, o.bind Caller.wait? = some w →
        b'.waiters.count id = 1 ∧ w.pricedAt ≤ b.interval := by
  -- a chunk that has to be waited for is priced at the interval in force
  have drawing : ∀ {chunks : Chunks} {ds : List Draw} (b₀ : Bucket), b₀.interval = b.interval →
      (∀ n, n ≠ id → b₀.waiters.count n = b.waiters.count n) → Draws now id chunks b₀ ds b' o →
      b'.interval = b.interval ∧ (∀ n, n ≠ id → b'.waiters.count n = b.waiters.count n) ∧
        ∀ w, o.bind Caller.wait? = some w →
          b'.waiters.count id = 1 ∧ w.pricedAt ≤ b.interval := by
    intro chunks ds b₀ interval before drawn
    rcases drawn.ahead with ⟨same, _, waits⟩
    rcases drawn.registered with ⟨others, own⟩
    refine ⟨same.trans interval, fun n ne => (others n ne).trans (before n ne), ?_⟩
    intro w waiting
    rcases Option.bind_eq_some_iff.1 waiting with ⟨c', stands, waiting⟩
    rcases waits c' stands with ⟨_, w', rest, rfl, _, priced⟩
    cases waiting
    exact ⟨own (by simp [stands]), Nat.le_of_eq (priced.trans interval)⟩
  rcases Caller.turn_cases h with ⟨tokens, chunks, _, _, _, drawn⟩ |
    ⟨wait, rest, w, _, _, _, _, drawn⟩ | ⟨wait, rest, w, rfl, repriced, _, _, _, rfl, rfl⟩
  · exact drawing b rfl (fun n _ => rfl) drawn
  · exact drawing ((b.leave id).withdraw w.owed) rfl (fun n ne => count_leave b ne) drawn
  · refine ⟨rfl, fun n ne => (count_join (b.leave id) ne).trans (count_leave b ne), ?_⟩
    intro w' waiting
    cases waiting
    exact ⟨count_join_self (b.leave id) id, Wait.pricedAt_of_reprice repriced⟩

/-! ## Operations -/

/-- The list is left alone and the interval gets no shorter, or the interval gets shorter and all of the
list are woken. -/
theorem setInterval_waiters {interval : Nat} {woken : List TaskId}
    (h : b.setInterval now interval = .ok (b', woken)) :
    (b'.waiters = b.waiters ∧ woken = [] ∧ b.interval ≤ b'.interval) ∨
      (b'.waiters = [] ∧ woken = b.waiters ∧ b'.interval < b.interval) := by
  unfold setInterval at h
  split at h
  · rename_i faster
    rcases ok_of_bind h with ⟨cursor, _, rest⟩
    cases rest
    exact .inr ⟨rfl, rfl, faster⟩
  · rename_i slower
    cases h
    exact .inl ⟨rfl, rfl, Nat.le_of_not_lt slower⟩

/-- Only a shorter interval empties the list, and then everybody on it is woken. -/
theorem operate_waiters {op : Operation} {woken : List TaskId} {answer : Answer}
    (h : b.operate now op = .ok (b', woken, answer)) :
    (b'.waiters = b.waiters ∧ woken = [] ∧ b.interval ≤ b'.interval) ∨
      (b'.waiters = [] ∧ woken = b.waiters ∧ b'.interval < b.interval) := by
  cases op with
  | instantGrab tokens =>
      left
      simp only [operate, instantGrab] at h
      split at h <;> cases h <;> exact ⟨rfl, rfl, Nat.le_refl _⟩
  | changeInterval interval =>
      simp only [operate, change] at h
      split at h
      · cases h
        exact .inl ⟨rfl, rfl, Nat.le_refl _⟩
      · rcases ok_of_bind h with ⟨⟨b₁, woken₁⟩, changed, rest⟩
        cases rest
        exact setInterval_waiters (b := b.credit now) changed
  | changeCapacity capacity =>
      left
      simp only [operate, change] at h
      split at h <;> cases h <;> exact ⟨rfl, rfl, Nat.le_refl _⟩
  | changeBoth interval capacity =>
      simp only [operate, change] at h
      split at h
      · cases h
        exact .inl ⟨rfl, rfl, Nat.le_refl _⟩
      · rcases ok_of_bind h with ⟨⟨b₁, woken₁⟩, changed, rest⟩
        cases rest
        rcases ok_of_bind changed with ⟨⟨b₂, woken₂⟩, set, rest⟩
        cases rest
        -- the capacity makes no difference to it
        have listed := setInterval_waiters (b := b.creditUnclipped now) set
        exact listed
  | _ =>
      cases h
      exact .inl ⟨rfl, rfl, Nat.le_refl _⟩

/-! ## Moves -/

/-- Every task that waits is on the list once and priced no higher than at the interval in force, or
it was called and is not on the list. -/
structure Heard (e : State) : Prop where
  waits : ∀ {n w}, waitOf e n = some w →
    (e.shared.waiters.count n = 1 ∧ w.pricedAt ≤ e.shared.interval) ∨
      (e.shared.waiters.count n = 0 ∧ Called n e)

variable {e e' : State}

/-- Whoever waited before waits as before, on the same list, and stays called if it was. -/
theorem Heard.of_same (h : Heard e)
    (waits : ∀ {n : TaskId} {w : Wait}, waitOf e' n = some w → waitOf e n = some w ∧
      e'.shared.waiters.count n = e.shared.waiters.count n ∧ (Called n e → Called n e'))
    (interval : e.shared.interval ≤ e'.shared.interval) : Heard e' := by
  refine ⟨fun {n w} waiting => ?_⟩
  rcases waits waiting with ⟨before, count, stays⟩
  rw [count]
  rcases h.waits before with ⟨once, priced⟩ | ⟨never, called⟩
  · exact .inl ⟨once, Nat.le_trans priced interval⟩
  · exact .inr ⟨never, stays called⟩

/-- A caller that was called sees its turn. The others do not notice it. -/
theorem Heard.turn (h : Heard e) (turned : e.turn program = .ok e') : Heard e' := by
  rcases turn_eq turned with ⟨_, rfl⟩ |
    ⟨id, rest, ready, ⟨asleep, rfl⟩ | ⟨gone, rfl⟩ | ⟨g, b, o, next, looked, rfl⟩⟩
  · exact h
  · -- who sleeps on was not called
    refine h.of_same (fun {n w} waits => ⟨waits, rfl, fun called => ?_⟩) (Nat.le_refl _)
    have other : n ≠ id := by
      rintro rfl
      rw [called.sleepsOn] at asleep
      cases asleep
    refine called.mono (fun there => ?_) fun a member own => ?_
    · rw [ready] at there
      exact (List.mem_cons.1 there).resolve_left other
    · rcases List.mem_map.1 member with ⟨a', old, rfl⟩
      refine ⟨a', old, ?_⟩
      rw [← own]
      split <;> rfl
  · refine h.of_same (fun {n w} waits => ⟨waits, rfl, fun called => ?_⟩) (Nat.le_refl _)
    have other : n ≠ id := by
      rintro rfl
      -- a task that is gone waits for nothing
      have nothing : waitOf e n = none := by simp [waitOf, gone]
      cases nothing.symm.trans waits
    refine called.mono (fun there => ?_) fun a member own => ⟨a, member, own⟩
    rw [ready] at there
    exact (List.mem_cons.1 there).resolve_left other
  · have stands := task?_of_next? next
    -- the task that looks again registers anew, and the others stay as they were
    rcases registered_of_turn looked with ⟨interval, others, own⟩
    refine ⟨fun {n w} waiting => ?_⟩
    rw [waitOf_afterTurn stands] at waiting
    rw [shared_afterTurn, interval]
    split at waiting
    · rename_i same
      rw [same]
      exact .inl (own w waiting)
    · rename_i other
      rw [others n other]
      rcases h.waits waiting with ⟨once, priced⟩ | ⟨never, called⟩
      · exact .inl ⟨once, priced⟩
      · refine .inr ⟨never, called.mono (fun there => ?_) fun a member own => ?_⟩
        · rw [ready] at there
          rw [ready_afterTurn, ready]
          exact (List.mem_cons.1 there).resolve_left other
        · rcases mem_alarms_afterTurn member with mine | old
          · exact absurd (own.symm.trans mine) other
          · exact ⟨a, old, own⟩

/-- An operation that shortens the interval calls everybody that it takes off the list. -/
theorem Heard.operate (h : Heard e) {op : Operation} {answer : Answer}
    (acted : e.act program (.operate op) = .ok (e', answer)) : Heard e' := by
  rcases operate_eq acted with ⟨b, woken, operated, rfl⟩
  have alike := Alike.foldl_wake woken ({ e with shared := b } : State)
  have waits : ∀ n, waitOf (woken.foldl Executor.wake { e with shared := b }) n = waitOf e n :=
    fun n => waitOf_of_tasks alike.tasks n
  have changed : ∀ {n}, Called n e → Called n ({ e with shared := b } : State) :=
    fun called => called.mono (fun there => there) fun a member own => ⟨a, member, own⟩
  refine ⟨fun {n w} waiting => ?_⟩
  rw [waits] at waiting
  rw [alike.shared]
  rcases operate_waiters operated with ⟨kept, rfl, slower⟩ | ⟨emptied, rfl, _⟩
  · simp only [kept]
    rcases h.waits waiting with ⟨once, priced⟩ | ⟨never, called⟩
    · exact .inl ⟨once, Nat.le_trans priced slower⟩
    · exact .inr ⟨never, changed called⟩
  · -- all of the list are called, and the others were called before
    simp only [emptied, List.count_nil, true_and]
    right
    rcases h.waits waiting with ⟨once, _⟩ | ⟨_, called⟩
    · have listed : n ∈ e.shared.waiters := List.count_pos_iff.1 (by omega)
      refine called_of_mem listed ?_
      rcases Option.bind_eq_some_iff.1 waiting with ⟨g, stands, _⟩
      exact Option.isSome_iff_exists.2 ⟨g, stands⟩
    · exact (changed called).foldl_wake e.shared.waiters

/-- No move leaves a task that is neither on the list nor called. -/
theorem Heard.step (h : Heard e) {l : Label Action Answer} (step : Step program e l e') :
    Heard e' := by
  cases step with
  | turn turned =>
      exact h.turn turned
  | clock time =>
      have alike := setClock_alike e time
      refine h.of_same (fun {n w} waits => ?_) (Nat.le_of_eq (by rw [alike.shared]))
      rw [waitOf_of_tasks alike.tasks] at waits
      rw [alike.shared]
      exact ⟨waits, rfl, fun called => called.setClock time⟩
  | kill task =>
      rw [kill_eq]
      refine h.of_same (fun {n w} waits => ?_) ?_
      · rw [waitOf_drop] at waits
        split at waits
        · cases waits
        · rename_i other
          refine ⟨waits, ?_, fun called => called.drop program other⟩
          unfold Executor.drop
          split
          · rfl
          · exact count_leave e.shared other
      · unfold Executor.drop
        split <;> exact Nat.le_refl _
  | @act _ action answer acted =>
      cases action with
      | operate op =>
          exact h.operate acted
      | grab tokens =>
          cases grab_eq acted
          refine h.of_same (fun {n w} waits => ?_) (Nat.le_refl _)
          rw [waitOf_spawn] at waits
          refine ⟨waits, rfl, fun called => ?_⟩
          exact called.mono (List.mem_append_left _) fun a member own => ⟨a, member, own⟩

/-! ## Runs -/

/-- In every state of a run, each task that waits is on the list or was called. -/
theorem heard_of_history {start : Instant} {hs : List Moment}
    (history : History program (opening start b) hs e) : Heard e := by
  refine history.trace.invariant (fun heard step => Heard.step heard step) ⟨fun waits => ?_⟩
  simp [waitOf, task?, opening] at waits

/-- No wake-up is lost. A task that waits is on the list of those to be woken exactly once, or it was
woken: then it is ready, and its turn comes whatever its alarm says. Unless it is ready it is priced no
higher than at the interval in force, so its deadline was not computed for tokens that are earned
slower than they are now. -/
theorem no_wakeup_lost {start : Instant} {hs : List Moment}
    (history : History program (opening start b) hs e) {w : Wait} (waits : waitOf e n = some w) :
    (e.shared.waiters.count n = 1 ∨
        (n ∉ e.shared.waiters ∧ n ∈ e.ready ∧ e.sleepsOn n = false)) ∧
      (n ∉ e.ready → w.pricedAt ≤ e.shared.interval) := by
  rcases (heard_of_history history).waits waits with ⟨once, priced⟩ | ⟨never, called⟩
  · exact ⟨.inl once, fun _ => priced⟩
  · exact ⟨.inr ⟨List.count_eq_zero.1 never, called.ready, called.sleepsOn⟩,
      fun idle => absurd called.ready idle⟩

def hastenedTwice : List Moment × State :=
  follow program (opening 0 ⟨0, 100, 10000000, 0, 0, []⟩)
    -- the interval is shortened twice before the caller has its turn
    [.act (.grab 99) (), .turn, .act (.operate (.changeInterval 5000000)) (),
      .act (.operate (.changeInterval 2000000)) (), .turn]

theorem no_wakeup_lost_twice :
    waitOf hastenedTwice.2 0 = some ⟨99, 198000000, 2000000⟩ ∧
      (hastenedTwice.2.shared.waiters.count 0 = 1 ∨
        (0 ∉ hastenedTwice.2.shared.waiters ∧ 0 ∈ hastenedTwice.2.ready ∧
          hastenedTwice.2.sleepsOn 0 = false)) ∧
      (0 ∉ hastenedTwice.2.ready → 2000000 ≤ hastenedTwice.2.shared.interval) := by
  have waits : waitOf hastenedTwice.2 0 = some ⟨99, 198000000, 2000000⟩ := by decide
  exact ⟨waits, no_wakeup_lost (history_follow _ _) waits⟩

end Bucket
end MeteredFetch
