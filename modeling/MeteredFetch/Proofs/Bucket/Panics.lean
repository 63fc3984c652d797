import MeteredFetch.Proofs.Bucket.Draw

/-!
# Panics — when an operation or a turn has no outcome

There are three ways to panic, and a bucket with a capacity cannot come to one of them. The other two are
the opposite of the least balance and a product of more than 128 bits.

* `Bucket.operate_eq_error_iff` — when an operation panics;
* `Bucket.drawAll_eq_error_iff` — when drawing chunks panics;
* `Bucket.turn_eq_error_iff` — when the turn of a caller panics.
-/

namespace MeteredFetch
namespace Bucket

open Executor

variable {now : Instant} {b b' : Bucket} {id : TaskId} {n : Nat}

/-! ## When an operation panics -/

variable {panic : Panic}

/-- A computation in two parts fails in one of them. -/
theorem bind_eq_error_iff {ε α β : Type} {x : Except ε α} {f : α → Except ε β} {error : ε} :
    (x >>= f) = .error error ↔ x = .error error ∨ ∃ a, x = .ok a ∧ f a = .error error := by
  cases x with
  | error other =>
      have same : ((Except.error other : Except ε α) >>= f) = .error other := rfl
      rw [same]
      constructor
      · intro failed
        cases failed
        exact .inl rfl
      · rintro (failed | ⟨_, never, _⟩)
        · cases failed
          rfl
        · cases never
  | ok a =>
      constructor
      · exact fun failed => .inr ⟨a, rfl, failed⟩
      · rintro (never | ⟨_, same, failed⟩)
        · cases never
        · cases same
          exact failed

/-- Scaling a deadline fails exactly if the product is too large. -/
theorem rescale_eq_error_iff {deadline : Instant} {old new : Nat} :
    rescale now deadline old new = .error panic ↔
      panic = .multiply ∧ productLimit ≤ (deadline - now) * new := by
  unfold rescale
  split
  · rename_i past
    have nothing : deadline - now = 0 := Nat.sub_eq_zero_of_le (Nat.le_of_lt past)
    rw [nothing, Nat.zero_mul]
    exact ⟨nofun, fun ⟨_, large⟩ => absurd large (by decide)⟩
  · split
    · rename_i fits
      exact ⟨nofun, fun ⟨_, large⟩ => absurd fits (Nat.not_lt.2 large)⟩
    · rename_i large
      refine ⟨fun failed => ?_, fun ⟨same, _⟩ => by rw [same]⟩
      cases failed
      exact ⟨rfl, Nat.le_of_not_lt large⟩

theorem setInterval_eq_error_iff {interval : Nat} :
    b.setInterval now interval = .error panic ↔
      panic = .multiply ∧ interval < b.interval ∧ productLimit ≤ (b.cursor - now) * interval := by
  unfold setInterval
  split
  · rename_i faster
    rw [bind_eq_error_iff, rescale_eq_error_iff]
    refine ⟨fun either => ?_, fun ⟨same, _, large⟩ => .inl ⟨same, large⟩⟩
    rcases either with ⟨same, large⟩ | ⟨_, _, never⟩
    · exact ⟨same, faster, large⟩
    · cases never
  · rename_i slower
    exact ⟨nofun, fun ⟨_, faster, _⟩ => absurd faster slower⟩

/-- A change that is refused cannot fail. -/
theorem change_eq_error_iff {α : Type} {checked : Except FetchError α}
    {make : α → Except Panic (Bucket × List TaskId)} :
    b.change checked make = .error panic ↔ ∃ x, checked = .ok x ∧ make x = .error panic := by
  unfold change
  cases checked with
  | error error =>
      exact ⟨nofun, fun ⟨_, never, _⟩ => nomatch never⟩
  | ok x =>
      simp only [bind_eq_error_iff]
      refine ⟨fun either => ?_, fun ⟨_, same, failed⟩ => ?_⟩
      · rcases either with failed | ⟨_, _, never⟩
        · exact ⟨x, rfl, failed⟩
        · cases never
      · cases same
        exact .inl failed

/-- A change that is accepted puts `interval` in force, which is shorter than the one before. -/
def Operation.Hastens (b : Bucket) (interval : Nat) : Operation → Prop
  | .changeInterval q => checkInterval q = .ok interval ∧ interval < b.interval
  | .changeBoth q c =>
      (checkInterval q = .ok interval ∧ ∃ capacity, checkCapacity c = .ok capacity) ∧
        interval < b.interval
  | .instantGrab _ | .forceGrab _ | .recycle _ | .credit | .changeCapacity _ => False

/-- An operation panics exactly if it shortens the interval while what is left until the cursor, times
the new interval, does not fit 128 bits. -/
theorem operate_eq_error_iff {op : Operation} :
    b.operate now op = .error panic ↔ panic = .multiply ∧
      ∃ interval, op.Hastens b interval ∧ productLimit ≤ (b.cursor - now) * interval := by
  cases op with
  | instantGrab tokens =>
      exact ⟨nofun, fun ⟨_, _, never, _⟩ => never.elim⟩
  | forceGrab tokens =>
      exact ⟨nofun, fun ⟨_, _, never, _⟩ => never.elim⟩
  | recycle tokens =>
      exact ⟨nofun, fun ⟨_, _, never, _⟩ => never.elim⟩
  | credit =>
      exact ⟨nofun, fun ⟨_, _, never, _⟩ => never.elim⟩
  | changeCapacity capacity =>
      refine change_eq_error_iff.trans ⟨?_, fun ⟨_, _, never, _⟩ => never.elim⟩
      rintro ⟨_, _, never⟩
      cases never
  | changeInterval q =>
      -- only a faster rate has to scale how far the cursor is ahead
      refine change_eq_error_iff.trans ⟨?_, ?_⟩
      · rintro ⟨interval, checked, failed⟩
        rcases setInterval_eq_error_iff.1 failed with ⟨same, faster, large⟩
        exact ⟨same, interval, ⟨checked, faster⟩, large⟩
      · rintro ⟨same, interval, ⟨checked, faster⟩, large⟩
        exact ⟨interval, checked, setInterval_eq_error_iff.2 ⟨same, faster, large⟩⟩
  | changeBoth q c =>
      refine change_eq_error_iff.trans ⟨?_, ?_⟩
      · rintro ⟨⟨interval, capacity⟩, checked, failed⟩
        rcases ok_of_bind checked with ⟨i, earns, checked⟩
        rcases ok_of_bind checked with ⟨n, inRange, checked⟩
        cases checked
        rcases bind_eq_error_iff.1 failed with failed | ⟨_, _, never⟩
        · rcases setInterval_eq_error_iff.1 failed with ⟨same, faster, large⟩
          exact ⟨same, interval, ⟨⟨earns, capacity, inRange⟩, faster⟩, large⟩
        · cases never
      · rintro ⟨same, interval, ⟨⟨earns, capacity, inRange⟩, faster⟩, large⟩
        refine ⟨(interval, capacity), ?_, ?_⟩
        · rw [earns, inRange]
          rfl
        · exact bind_eq_error_iff.2 (.inl (setInterval_eq_error_iff.2 ⟨same, faster, large⟩))

/-! ## When a turn panics -/

/-- A chunk panics exactly if it finds the least balance. -/
theorem draw_eq_error_iff :
    b.draw now n = .error panic ↔ panic = .negate ∧ (b.credit now).balance = minBalance := by
  by_cases worst : (b.credit now).balance = minBalance
  · have short : ¬ (b.credit now).balance > n := by
      have below := minBalance_eq
      omega
    have failed : b.draw now n = .error .negate := by
      unfold draw claim
      simp only [if_neg short, if_pos worst]
      rfl
    rw [failed]
    refine ⟨fun same => ?_, fun ⟨same, _⟩ => by rw [same]⟩
    cases same
    exact ⟨rfl, worst⟩
  · have total : ∃ b' o, b.draw now n = .ok (b', o) := draw_total worst
    rcases total with ⟨b', o, drawn⟩
    rw [drawn]
    exact ⟨nofun, fun ⟨_, least⟩ => absurd least worst⟩

/-- Chunks panic exactly if one of those that are drawn finds the least balance. -/
theorem drawAll_eq_error_iff (id : TaskId) {c : Chunks} :
    b.drawAll now id c = .error panic ↔
      panic = .negate ∧ ∃ d ∈ drawsOf now c.toList b, d.found.balance = minBalance := by
  generalize same : c.toList = left
  induction left generalizing b c with
  | nil =>
      rw [drawAll_of_none (next?_of_toList_eq_nil same)]
      constructor
      · intro never
        cases never
      · rintro ⟨_, _, never, _⟩
        cases never
  | cons n left ih =>
      cases next : c.next? with
      | none =>
          rw [Chunks.toList_eq_nil_of_next? next] at same
          cases same
      | some first =>
          rcases first with ⟨m, rest⟩
          rw [Chunks.toList_of_next? next] at same
          cases same
          rw [drawAll_of_next? next, drawsOf]
          cases drawn : b.draw now n with
          | error other =>
              rcases draw_eq_error_iff.1 drawn with ⟨rfl, worst⟩
              constructor
              · intro failed
                cases failed
                exact ⟨rfl, _, List.mem_cons_self, worst⟩
              · rintro ⟨rfl, _⟩
                rfl
          | ok r =>
              have above : (b.credit now).balance ≠ minBalance := by
                intro worst
                rw [draw_eq_error_iff.2 ⟨rfl, worst⟩] at drawn
                cases drawn
              rcases r with ⟨b₁, _ | w⟩
              · -- the first chunk is taken, so it is one of the others
                refine Iff.trans (ih rfl) ⟨?_, ?_⟩
                · rintro ⟨negated, d, member, worst⟩
                  exact ⟨negated, d, List.mem_cons_of_mem _ member, worst⟩
                · rintro ⟨negated, d, member, worst⟩
                  rcases List.mem_cons.1 member with rfl | later
                  · exact absurd worst above
                  · exact ⟨negated, d, later, worst⟩
              · constructor
                · intro never
                  cases never
                · rintro ⟨_, d, member, worst⟩
                  cases List.mem_singleton.1 member
                  exact absurd worst above

/-- A wait that is priced anew fails exactly if the product is too large. -/
theorem reprice_eq_error_iff {w : Wait} {interval : Nat} :
    w.reprice now interval = .error panic ↔ panic = .multiply ∧ interval < w.pricedAt ∧
      productLimit ≤ (w.deadline - now) * interval := by
  unfold Wait.reprice
  split
  · rename_i faster
    rw [bind_eq_error_iff, rescale_eq_error_iff]
    refine ⟨fun either => ?_, fun ⟨same, _, large⟩ => .inl ⟨same, large⟩⟩
    rcases either with ⟨same, large⟩ | ⟨_, _, never⟩
    · exact ⟨same, faster, large⟩
    · cases never
  · rename_i slower
    exact ⟨nofun, fun ⟨_, faster, _⟩ => absurd faster slower⟩

/-- A caller that comes panics exactly if one of its chunks finds the least balance. -/
theorem arriving_eq_error_iff {tokens : UInt64} (positive : 1 ≤ b.capacity) :
    (Caller.arriving tokens).turn now id b = .error panic ↔ panic = .negate ∧
      ∃ d ∈ Caller.draws now id b (.arriving tokens), d.found.balance = minBalance := by
  rcases chunksOf_total positive tokens with ⟨chunks, split⟩
  have looked : Caller.turn now id b (.arriving tokens) = b.drawAll now id chunks := by
    simp only [Caller.turn, split]
    rfl
  have drawn : Caller.draws now id b (.arriving tokens) = drawsOf now chunks.toList b := by
    simp only [Caller.draws, split]
  rw [looked, drawn, drawAll_eq_error_iff]

/-- A caller that looks again at its wait panics exactly if the wait cannot be priced anew, or if one of
the chunks that it draws then finds the least balance. -/
theorem waiting_eq_error_iff {wait : Wait} {rest : Chunks} :
    (Caller.waiting wait rest).turn now id b = .error panic ↔
      (panic = .negate ∧
        ∃ d ∈ Caller.draws now id b (.waiting wait rest), d.found.balance = minBalance) ∨
      wait.reprice now b.interval = .error panic := by
  have interval : (b.leave id).interval = b.interval := rfl
  cases repriced : wait.reprice now b.interval with
  | error other =>
      have turned : Caller.turn now id b (.waiting wait rest) = .error other := by
        simp only [Caller.turn, interval, repriced]
        rfl
      have undrawn : Caller.draws now id b (.waiting wait rest) = [] := by
        simp only [Caller.draws, Caller.over?, repriced]
      rw [turned, undrawn]
      refine ⟨fun failed => ?_, ?_⟩
      · cases failed
        exact .inr rfl
      · rintro (⟨_, _, never, _⟩ | failed)
        · cases never
        · cases failed
          rfl
  | ok w =>
      -- a wait that is over goes on to draw the rest of the chunks, any other draws nothing
      by_cases past : w.deadline ≤ now
      · have turned : Caller.turn now id b (.waiting wait rest) =
            ((b.leave id).withdraw w.owed).drawAll now id rest := by
          simp only [Caller.turn, interval, repriced]
          exact if_pos past
        have drawn : Caller.draws now id b (.waiting wait rest) =
            drawsOf now rest.toList ((b.leave id).withdraw w.owed) := by
          simp only [Caller.draws, Caller.over?, repriced, if_pos past]
        rw [turned, drawn, drawAll_eq_error_iff]
        refine ⟨.inl, ?_⟩
        rintro (failed | never)
        · exact failed
        · cases never
      · have turned : Caller.turn now id b (.waiting wait rest) =
            .ok ((b.leave id).join id, some (.waiting w rest)) := by
          simp only [Caller.turn, interval, repriced]
          exact if_neg past
        have undrawn : Caller.draws now id b (.waiting wait rest) = [] := by
          simp only [Caller.draws, Caller.over?, repriced, if_neg past]
        rw [turned, undrawn]
        constructor
        · intro never
          cases never
        · rintro (⟨_, _, never, _⟩ | never)
          · cases never
          · cases never

/-- A turn panics exactly if one of the chunks that it draws finds the least balance, or if the wait was
priced for a longer interval and what is left of it, times the interval in force, does not fit 128
bits. -/
theorem turn_eq_error_iff {c : Caller} (positive : 1 ≤ b.capacity) :
    c.turn now id b = .error panic ↔
      (panic = .negate ∧ ∃ d ∈ c.draws now id b, d.found.balance = minBalance) ∨
        (panic = .multiply ∧ ∃ w rest, c = .waiting w rest ∧ b.interval < w.pricedAt ∧
          productLimit ≤ (w.deadline - now) * b.interval) := by
  cases c with
  | arriving tokens =>
      rw [arriving_eq_error_iff positive]
      refine ⟨.inl, fun either => either.elim (fun failed => failed) ?_⟩
      rintro ⟨_, _, _, never, _⟩
      cases never
  | waiting wait rest =>
      rw [waiting_eq_error_iff, reprice_eq_error_iff]
      refine or_congr_right ⟨?_, ?_⟩
      · rintro ⟨same, large⟩
        exact ⟨same, wait, rest, rfl, large⟩
      · rintro ⟨same, w, rest', here, large⟩
        cases here
        exact ⟨same, large⟩

end Bucket
end MeteredFetch
