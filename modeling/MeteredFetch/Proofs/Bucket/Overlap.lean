import MeteredFetch.Proofs.Bucket.Conservation
import MeteredFetch.Proofs.Bucket.Queue

/-!
# Overlap — what callers are granted that only wait

Whoever waits pays with the time that the wait takes. What is earned in this time is credited as
well, and a caller that comes meanwhile can take it from the balance. A token may so be granted
twice, but no more often.

* `Bucket.cover` — what can be taken from the balance, less what was credited since a moment;
* `Bucket.covered_of_history` — whatever was granted was taken from the balance or paid for by a
  wait;
* `Bucket.granted_le_ticks` — at most two tokens are granted for an interval, and at most one
  exactly as long as the debts that were cleared do not exceed what is kept elsewhere.
-/

namespace MeteredFetch
namespace Bucket

open Executor

/-! ## Chunks -/

def cover (start : Instant) (b : Bucket) : Int :=
  max b.balance 0 - b.credited start

/-- A credit covers no more than it covered before. -/
theorem cover_credit {start : Instant} (now : Instant) {b : Bucket} (positive : 0 < b.interval)
    (since : start ≤ b.creditedTo) : (b.credit now).cover start ≤ b.cover start := by
  have balance := balance_credit now b
  unfold cover
  rw [credited_credit positive since]
  omega

theorem cover_of_balance (start : Instant) (b b' : Bucket)
    (creditedTo : b'.creditedTo = b.creditedTo) (interval : b'.interval = b.interval) :
    b'.cover start = b.cover start + (max b'.balance 0 - max b.balance 0) := by
  unfold cover credited
  rw [creditedTo, interval]
  omega

/-- What chunks were granted at once is no longer in the balance. -/
theorem Draws.cover {capacity interval : Nat} {start now : Instant} {id : TaskId} {c : Chunks}
    {b b' : Bucket} {ds : List Draw} {o : Option Caller} (drawn : Draws now id c b ds b' o)
    (positive : 0 < interval) (terms : Terms capacity interval start now b) :
    b'.cover start + c.toList.sum ≤ b.cover start + left o := by
  -- as for the net balance, but a debt counts for nothing, and so does clearing it
  induction drawn with
  | done b last =>
      rw [Chunks.toList_eq_nil_of_next? last]
      simp
  | @taken c rest n b b₁ b' ds o first drawn _ ih =>
      have pos : 0 < b.interval := by
        rw [terms.interval]
        exact positive
      rcases draw_eq_none pos drawn with ⟨covered, cursor, _, same⟩
      have kept : Terms capacity interval start now b₁ :=
        (terms.credit positive).of_eq (by rw [same]) (by rw [same]) (by rw [same])
      have later := ih kept
      have credit := cover_credit now pos terms.since
      have taken := cover_of_balance start (b.credit now) b₁
        (by rw [same]) (by rw [same])
      have balance : b₁.balance = (b.credit now).balance - n := by rw [same]
      rw [Chunks.toList_of_next? first]
      simp only [List.sum_cons]
      omega
  | @held c rest n b b₁ w first drawn =>
      have pos : 0 < b.interval := by
        rw [terms.interval]
        exact positive
      rcases draw_eq_some drawn with ⟨short, _, same, rfl⟩
      have owed : w.owed = n - (b.credit now).balance.toNat := by rw [same]
      have credit := cover_credit now pos terms.since
      have emptied := cover_of_balance start (b.credit now)
        (({ b.credit now with balance := 0, cursor := w.deadline } : Bucket).join id) rfl rfl
      rw [Chunks.toList_of_next? first]
      simp only [left_some, Caller.outstanding, List.sum_cons]
      simp only [join] at emptied ⊢
      omega

theorem cover_withdraw_le (start : Instant) (tokens : Nat) (b : Bucket) :
    (b.withdraw tokens).cover start ≤ b.cover start := by
  have same := cover_of_balance start b (b.withdraw tokens) rfl rfl
  have least : minBalance ≤ 0 := by decide
  have lower : (b.withdraw tokens).balance = max (b.balance - tokens) minBalance := rfl
  omega

/-- What is granted in a turn is taken from the balance or was paid for by the wait that is over. -/
theorem cover_of_turn {capacity interval : Nat} {start now : Instant} {id : TaskId}
    {b b' : Bucket} {c : Caller} {o : Option Caller} (positive : 0 < interval)
    (terms : Terms capacity interval start now b) (h : c.turn now id b = .ok (b', o)) :
    b'.cover start + c.outstanding ≤
      b.cover start + left o + ((c.over? now b).map (·.owed)).getD 0 := by
  rcases Caller.turn_cases h with ⟨tokens, chunks, rfl, split, early, drawn⟩ |
    ⟨wait, rest, w, rfl, repriced, _, expired, drawn⟩ |
    ⟨wait, rest, w, rfl, repriced, _, early, _, rfl, rfl⟩
  · -- it begins with its chunks
    have covered := drawn.cover positive terms
    rw [sum_chunksOf split] at covered
    rw [early]
    simpa [Caller.outstanding] using covered
  · -- its wait is over, and has paid for what is withdrawn first
    have paid := cover_withdraw_le start w.owed (b.leave id)
    have same : (b.leave id).cover start = b.cover start := rfl
    have covered := drawn.cover positive (terms.of_eq rfl rfl rfl)
    have owed : Caller.outstanding (.waiting wait rest) = w.owed + rest.toList.sum := by
      rw [Wait.owed_of_reprice repriced]
      rfl
    rw [expired, owed]
    simp only [Option.map_some, Option.getD_some]
    omega
  · -- it waits on
    have same : ((b.leave id).join id).cover start = b.cover start := rfl
    have owed : left (some (.waiting w rest)) = Caller.outstanding (.waiting wait rest) := by
      simp [Caller.outstanding, Wait.owed_of_reprice repriced]
    rw [early, same, owed]
    simp

/-! ## Histories -/

/-- What was granted and what can still be taken from the balance. -/
def covered (start : Instant) (e : State) : Int :=
  granted e + held e + e.shared.cover start

variable {capacity interval : Nat} {start : Instant} {e e' : State} {hs : List Moment}

theorem covered_of_alike (h : Alike e e') : covered start e' = covered start e := by
  unfold covered held granted
  rw [h.shared, h.tasks, h.finished]

theorem Moment.of_isPatient {m : Moment} (h : m.isPatient = true) :
    m.isSteady = true ∧ m.taken = 0 ∧ m.returned = 0 := by
  rcases m with ⟨e, l⟩
  cases l with
  | turn =>
      exact ⟨rfl, rfl, rfl⟩
  | clock time =>
      exact ⟨h, rfl, rfl⟩
  | kill task =>
      cases h
  | act action answer =>
      cases action with
      | grab tokens =>
          exact ⟨rfl, rfl, rfl⟩
      | operate op =>
          cases op with
          | credit =>
              exact ⟨rfl, rfl, rfl⟩
          | _ =>
              cases h

/-- Only a wait that is over covers more than was covered before. -/
theorem covered_of_turn (positive : 0 < interval) (sound : Sound capacity interval start e)
    (h : e.turn program = .ok e') :
    covered start e' ≤ covered start e + Moment.paid (e, .turn) := by
  rcases turn_alike h with ⟨nobody, alike⟩ | ⟨id, g, b, o, next, turned, alike⟩
  · rw [covered_of_alike alike]
    omega
  · have asked := sound.tasks g (List.mem_of_getElem? (task?_of_next? next))
    have taken := cover_of_turn positive sound.shared turned
    rcases Caller.turn_net positive sound.shared turned with ⟨_, bounded, _⟩
    have moved := total_set Grab.held (task?_of_next? next) (o.map fun caller => { g with caller })
    have paid : Moment.paid (e, .turn) =
        ((g.caller.over? e.now e.shared).map (·.owed)).getD 0 := by
      simp [Moment.paid, next]
    rw [paid, covered_of_alike alike]
    unfold covered held granted
    -- what was asked for is granted in full, or some of it is held on
    cases o with
    | none =>
        simp only [ended, List.map_cons, List.sum_cons, Option.map_none, share_none, share_some,
          left_none, Grab.held] at moved taken ⊢
        omega
    | some caller =>
        simp only [ended, Option.map_some, share_some, left_some,
          Grab.held] at moved taken bounded ⊢
        omega

/-- In a patient run nothing is covered but by waits. -/
theorem covered_of_step {l : Label Action Answer} (positive : 0 < interval)
    (sound : Sound capacity interval start e) (patient : Moment.isPatient (e, l) = true)
    (step : Step program e l e') :
    covered start e' ≤ covered start e + Moment.paid (e, l) := by
  cases step with
  | turn turned =>
      exact covered_of_turn positive sound turned
  | clock time =>
      rw [covered_of_alike (setClock_alike e time)]
      exact Int.le_add_of_nonneg_right (Int.natCast_nonneg _)
  | kill task =>
      cases patient
  | @act _ action answer acted =>
      cases action with
      | grab tokens =>
          have added := total_append Grab.held e.tasks [.start tokens]
          have nothing : Grab.held (.start tokens) = 0 := Nat.sub_self _
          simp only [List.map_cons, List.map_nil, List.sum_cons, List.sum_nil, nothing,
            Nat.add_zero] at added
          rw [covered_of_alike (grab_alike acted)]
          simp only [covered, held, granted, added]
          exact Int.le_add_of_nonneg_right (Int.natCast_nonneg _)
      | operate op =>
          cases op with
          | credit =>
              rcases operate_alike acted with ⟨b, woken, operated, alike⟩
              cases operated
              have pos : 0 < e.shared.interval := by
                rw [sound.shared.interval]
                exact positive
              have credit := cover_credit e.now pos sound.shared.since
              rw [covered_of_alike alike]
              simp only [covered, held, granted]
              omega
          | _ =>
              cases patient

/-- Whatever was granted was taken from the balance or paid for by a wait, and the waits followed
one another. -/
theorem covered_of_history {paid : Nat} (fits : capacity ≤ maxBalance) (positive : 0 < interval)
    (sound : Sound capacity interval start e) (orderly : Orderly interval start paid e)
    (h : History program e hs e') (patient : ∀ m ∈ hs, Moment.isPatient m = true)
    (inRange : ∀ m ∈ hs, ∀ d ∈ Moment.draws m, d.Fits) :
    covered start e' ≤ covered start e + along Moment.paid hs ∧
      Orderly interval start (paid + along Moment.paid hs) e' := by
  induction h with
  | refl =>
      exact ⟨by simp, orderly⟩
  | @tail hs l e' e'' before step ih =>
      have patientBefore : ∀ m ∈ hs, Moment.isPatient m = true :=
        fun m member => patient m (List.mem_append_left _ member)
      rcases ih patientBefore
        fun m member => inRange m (List.mem_append_left _ member) with ⟨bound, queued⟩
      have kept := (ledger_of_history fits positive sound before
        fun m member => (Moment.of_isPatient (patientBefore m member)).1).1
      have last : (e', l) ∈ hs ++ [(e', l)] := by simp
      have moved := covered_of_step positive kept (patient (e', l) last) step
      have next :=
        orderly_of_step positive queued (patient (e', l) last) (inRange (e', l) last) step
      rw [along_snoc]
      refine ⟨?_, ?_⟩
      · omega
      · rw [← Nat.add_assoc]
        exact next

section New

variable {capacity interval : UInt64} {initial : Int64} {b : Bucket}

theorem orderly_opening (made : create capacity interval initial start = .ok b) :
    Orderly interval.toNat start 0 (opening start b) := by
  rcases create_eq_ok made with ⟨rfl, _, _⟩
  refine ⟨Nat.le_refl start, rfl, ?_, ?_⟩
  · intro time
    simp only [opening, total_nil, Nat.add_zero, Nat.mul_zero]
    exact Nat.le_max_right time start
  · intro g wait rest member
    cases member

/-- What the waits have paid for was earned since the beginning. -/
theorem paid_le_ticks {interval paid : Nat} (positive : 0 < interval)
    (h : Orderly interval start paid e) : paid ≤ ticks interval start e.now := by
  have served := h.served e.now
  rw [Nat.max_self] at served
  refine (Nat.le_div_iff_mul_le positive).2 ?_
  have product : interval * paid ≤ interval * (paid + total (Grab.due e.now) e.tasks) :=
    Nat.mul_le_mul_left interval (Nat.le_add_right _ _)
  have begun := h.begun
  rw [Nat.mul_comm]
  unfold Instant at *
  omega

/-- Callers that wait are granted no more than what was there and twice what was earned, and no more
than what was there and what was earned exactly if what is cleared or spared is made up for. -/
theorem granted_le_ticks (made : create capacity interval initial start = .ok b)
    (h : History program (opening start b) hs e)
    (patient : ∀ m ∈ hs, Moment.isPatient m = true)
    (inRange : ∀ m ∈ hs, ∀ d ∈ Moment.draws m, d.Fits) :
    granted e ≤ max initial.toInt 0 + 2 * ticks interval.toNat start e.now ∧
      (granted e ≤ max initial.toInt 0 + ticks interval.toNat start e.now ↔
        along Moment.cleared hs + along Moment.spared hs ≤
          max (-initial.toInt) 0 + e.shared.balance + held e + along Moment.lost hs +
            uncredited start e) := by
  rcases create_eq_ok made with ⟨same, fits, positive⟩
  have steady : ∀ m ∈ hs, Moment.isSteady m = true :=
    fun m member => (Moment.of_isPatient (patient m member)).1
  have sound := (ledger_of_history fits positive (sound_opening made) h steady).1
  rcases covered_of_history fits positive (sound_opening made)
    (orderly_opening made) h patient inRange with ⟨bound, orderly⟩
  have earned := credited_add_uncredited sound
  constructor
  · -- what is granted was in the balance, or a wait has paid for it, or a tick was credited for it
    have paid := paid_le_ticks positive orderly
    have first : covered start (opening start b) = max initial.toInt 0 := by
      rw [same]
      simp [covered, cover, credited, held, granted, opening]
    rw [first] at bound
    unfold covered cover at bound
    omega
  · -- nothing is taken out at once or given back, so the books tell exactly what is granted
    have books := balance_add_withdrawn made h steady
    have taken : along Moment.taken hs = 0 :=
      along_eq_zero fun m member => (Moment.of_isPatient (patient m member)).2.1
    have returned : along Moment.returned hs = 0 :=
      along_eq_zero fun m member => (Moment.of_isPatient (patient m member)).2.2
    unfold withdrawn at books
    omega

end New

/-- Two callers want ten tokens each. The second comes when nine were earned for the first. -/
def overlapping : List Moment × State :=
  follow program (opening 0 ⟨0, 100, 1000000, 0, 0, []⟩)
    [.act (.grab 10) (), .turn, .clock 9000000, .act (.grab 10) (), .turn, .clock 11000000, .turn,
      .turn]

theorem overlapping_granted_le_ticks :
    create 100 1000000 0 0 = .ok ⟨0, 100, 1000000, 0, 0, []⟩ ∧
      (∀ m ∈ overlapping.1, Moment.isPatient m = true) ∧
      (∀ m ∈ overlapping.1, ∀ d ∈ Moment.draws m, d.Fits) ∧
      granted overlapping.2 ≤ max (0 : Int64).toInt 0 + 2 * ticks 1000000 0 overlapping.2.now := by
  have made : create 100 1000000 0 0 = .ok ⟨0, 100, 1000000, 0, 0, []⟩ := rfl
  have patient : ∀ m ∈ overlapping.1, Moment.isPatient m = true := by decide
  have inRange : ∀ m ∈ overlapping.1, ∀ d ∈ Moment.draws m, d.Fits := by decide
  exact ⟨made, patient, inRange,
    (granted_le_ticks made (history_follow _ _) patient inRange).1⟩

/-- What is earned while one caller waits is granted to another as well. -/
theorem not_granted_le_ticks :
    ¬ ∀ (capacity interval : UInt64) (initial : Int64) (start : Instant) (b : Bucket)
        (hs : List Moment) (e : State),
      create capacity interval initial start = .ok b →
      History program (opening start b) hs e →
      (∀ m ∈ hs, Moment.isPatient m = true) → (∀ m ∈ hs, ∀ d ∈ Moment.draws m, d.Fits) →
      granted e ≤ max initial.toInt 0 + ticks interval.toNat start e.now := by
  intro bounded
  have bound := bounded 100 1000000 0 0 ⟨0, 100, 1000000, 0, 0, []⟩ overlapping.1 overlapping.2 rfl
    (history_follow _ _) (by decide) (by decide)
  exact absurd bound (by decide)

end Bucket
end MeteredFetch
