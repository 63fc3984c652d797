import MeteredFetch.Proofs.Bucket.Books
import MeteredFetch.Proofs.Executor.Tasks

/-!
# Ledger — the books of a run on a bucket

What is in the balance, what callers have been granted of withdrawals that are not complete, and
what was granted in full make up the stock of a run. It grows by what is given back and by what
was earned, and shrinks by what is taken out at once and by what does not fit. It also grows
whenever a chunk clears a debt, for the tokens that pay off the debt are earned by everybody.

* `Bucket.stock` — the stock, less what was credited since a moment;
* `Bucket.ledger_of_step`, `Bucket.ledger_of_history` — the books of a move and of a history;
* `Bucket.Sound` — the terms of the bucket hold, and nobody waits for more than was asked for.
-/

namespace MeteredFetch
namespace Bucket

open Executor

/-! ## Stock -/

def granted (e : State) : Nat :=
  (e.finished.map fun c => c.result.toNat).sum

def Grab.held (g : Grab) : Nat :=
  g.tokens.toNat - g.caller.outstanding

def held (e : State) : Nat :=
  total Grab.held e.tasks

/-- The stock of a run, less what was credited since a moment. -/
def stock (start : Instant) (e : State) : Int :=
  e.shared.net start + held e + granted e

/-- The terms of the bucket hold, and nobody waits for more than was asked for. -/
def Sound (capacity interval : Nat) (start : Instant) (e : State) : Prop :=
  Holds (Terms capacity interval start e.now) (fun g => g.caller.outstanding ≤ g.tokens.toNat) e

/-! ## Entries -/

namespace Moment

def cleared (m : Moment) : Nat :=
  (m.draws.map Draw.debt).sum

/-- What was earned or given back and does not fit. -/
def lost (m : Moment) : Nat :=
  (m.draws.map Draw.lost).sum +
    match m.2 with
    | .act (.operate op) _ => op.lost m.1.now m.1.shared
    | _ => 0

/-- What withdrawals leave in because the balance can fall no further. -/
def spared (m : Moment) : Nat :=
  match m.2, m.1.next? with
  | .act (.operate op) _, _ => op.spared m.1.now m.1.shared
  | .turn, some (_, g) => g.caller.spared m.1.now m.1.shared
  | _, _ => 0

def taken (m : Moment) : Nat :=
  match m.2 with
  | .act (.operate op) answer => op.taken answer
  | _ => 0

def returned (m : Moment) : Nat :=
  match m.2 with
  | .act (.operate op) _ => op.returned
  | _ => 0

end Moment

/-- The sum of entries over moments. -/
def along (entry : Moment → Nat) (hs : List Moment) : Nat :=
  (hs.map entry).sum

@[simp]
theorem along_nil (entry : Moment → Nat) : along entry [] = 0 := rfl

@[simp]
theorem along_snoc (entry : Moment → Nat) (hs : List Moment) (m : Moment) :
    along entry (hs ++ [m]) = along entry hs + entry m := by
  simp [along]

/-- A sum of entries none of which counts is nothing. -/
theorem along_eq_zero {entry : Moment → Nat} {hs : List Moment}
    (zero : ∀ m ∈ hs, entry m = 0) : along entry hs = 0 := by
  refine List.sum_eq_zero fun n member => ?_
  rcases List.mem_map.1 member with ⟨m, occurs, rfl⟩
  exact zero m occurs

/-! ## Moves -/

variable {capacity interval : Nat} {start : Instant} {e e' : State}

/-- Who is ready and which alarms are set does not matter to the stock. -/
theorem stock_of_alike (h : Alike e e') : stock start e' = stock start e := by
  unfold stock held granted
  rw [h.shared, h.tasks, h.finished]

theorem Sound.of_alike (h : Sound capacity interval start e) (alike : Alike e e') :
    Sound capacity interval start e' := by
  have kept := Holds.of_alike h alike
  rw [← alike.now] at kept
  exact kept

/-- A turn moves tokens between the bucket and the callers; only losses and cleared debts change the
sum. -/
theorem ledger_of_turn (positive : 0 < interval) (sound : Sound capacity interval start e)
    (h : e.turn program = .ok e') :
    Sound capacity interval start e' ∧
      stock start e' + Moment.lost (e, .turn) =
        stock start e + Moment.cleared (e, .turn) + Moment.spared (e, .turn) := by
  rcases turn_alike h with ⟨nobody, alike⟩ | ⟨id, g, b, o, next, turned, alike⟩
  · refine ⟨sound.of_alike alike, ?_⟩
    rw [stock_of_alike alike]
    simp [Moment.lost, Moment.cleared, Moment.spared, Moment.draws, nobody]
  · have asked := sound.tasks g (List.mem_of_getElem? (task?_of_next? next))
    rcases Caller.turn_net positive sound.shared turned with ⟨terms, bounded, books⟩
    have moved := total_set Grab.held (task?_of_next? next) (o.map fun caller => { g with caller })
    -- the entries of the moment are those of the caller whose turn it is
    have lost : Moment.lost (e, .turn) =
        ((g.caller.draws e.now id e.shared).map Draw.lost).sum := by
      simp [Moment.lost, Moment.draws, next]
    have cleared : Moment.cleared (e, .turn) =
        ((g.caller.draws e.now id e.shared).map Draw.debt).sum := by
      simp [Moment.cleared, Moment.draws, next]
    have spared : Moment.spared (e, .turn) = g.caller.spared e.now e.shared := by
      simp [Moment.spared, next]
    rw [lost, cleared, spared, stock_of_alike alike]
    constructor
    · refine Sound.of_alike ⟨terms, ?_⟩ alike
      refine forall_task_set sound.tasks ?_
      intro g' same
      cases o with
      | none =>
          cases same
      | some caller =>
          cases same
          exact Nat.le_trans bounded asked
    · unfold stock held granted
      -- what was asked for is granted in full, or some of it is held on
      cases o with
      | none =>
          simp only [ended, List.map_cons, List.sum_cons, Option.map_none, share_none, share_some,
            left_none, Grab.held] at moved books ⊢
          omega
      | some caller =>
          simp only [ended, Option.map_some, share_some, left_some,
            Grab.held] at moved books bounded ⊢
          omega

/-- An operation changes the stock by what it takes out or gives back, and by what does not fit. -/
theorem ledger_of_operate {op : Operation} {answer : Answer} (fits : capacity ≤ maxBalance)
    (positive : 0 < interval) (sound : Sound capacity interval start e)
    (steady : op.isSteady = true) (h : e.act program (.operate op) = .ok (e', answer)) :
    Sound capacity interval start e' ∧
      stock start e' + op.taken answer + op.lost e.now e.shared =
        stock start e + op.returned + op.spared e.now e.shared := by
  rcases operate_alike h with ⟨b, woken, operated, alike⟩
  rcases operate_net fits positive sound.shared steady operated with ⟨_, terms, books⟩
  have kept : Sound capacity interval start { e with shared := b } := ⟨terms, sound.tasks⟩
  refine ⟨kept.of_alike alike, ?_⟩
  rw [stock_of_alike alike]
  unfold stock held granted
  simp only
  omega

/-- A withdrawal that has not begun holds nothing. -/
theorem ledger_of_grab {tokens : UInt64} {answer : Answer}
    (sound : Sound capacity interval start e)
    (h : e.act program (.grab tokens) = .ok (e', answer)) :
    Sound capacity interval start e' ∧ stock start e' = stock start e := by
  have alike := grab_alike h
  constructor
  · refine Sound.of_alike (e := { e with tasks := e.tasks ++ [some (.start tokens)] })
      ⟨sound.shared, ?_⟩ alike
    intro g member
    rcases List.mem_append.1 member with old | new
    · exact sound.tasks g old
    · cases List.mem_singleton.1 new
      exact Nat.le_refl _
  · rw [stock_of_alike alike]
    have added := total_append Grab.held e.tasks [.start tokens]
    have none : Grab.held (.start tokens) = 0 := Nat.sub_self _
    unfold stock held granted
    simp only [List.map_cons, List.map_nil, List.sum_cons, List.sum_nil, none, add_zero] at added
    simp only [added]

/-- The books are kept by every move, whoever makes it. -/
theorem ledger_of_step {l : Label Action Answer} (fits : capacity ≤ maxBalance)
    (positive : 0 < interval) (sound : Sound capacity interval start e)
    (steady : Moment.isSteady (e, l) = true) (step : Step program e l e') :
    Sound capacity interval start e' ∧
      stock start e' + Moment.taken (e, l) + Moment.lost (e, l) =
        stock start e + Moment.returned (e, l) + Moment.cleared (e, l) + Moment.spared (e, l) := by
  -- drops are not steady, and the clock has no entries
  cases step with
  | turn turned =>
      rcases ledger_of_turn positive sound turned with ⟨kept, books⟩
      refine ⟨kept, ?_⟩
      simp only [Moment.taken, Moment.returned]
      omega
  | clock time =>
      have later : e.now ≤ time := of_decide_eq_true steady
      have alike := setClock_alike e time
      have kept : Sound capacity interval start { e with now := time } :=
        ⟨sound.shared.later later, sound.tasks⟩
      refine ⟨kept.of_alike alike, ?_⟩
      rw [stock_of_alike alike]
      simp [Moment.taken, Moment.lost, Moment.returned, Moment.cleared, Moment.spared,
        Moment.draws, stock, held, granted]
  | kill task =>
      cases steady
  | @act _ action answer acted =>
      cases action with
      | operate op =>
          rcases ledger_of_operate fits positive sound steady acted with ⟨kept, books⟩
          refine ⟨kept, ?_⟩
          simpa [Moment.taken, Moment.lost, Moment.returned, Moment.cleared, Moment.spared,
            Moment.draws] using books
      | grab tokens =>
          rcases ledger_of_grab sound acted with ⟨kept, same⟩
          refine ⟨kept, ?_⟩
          simp [Moment.taken, Moment.lost, Moment.returned, Moment.cleared, Moment.spared,
            Moment.draws, same]

/-! ## Histories -/

/-- The books of a whole run: what was taken, given back, lost and cleared explains the stock. -/
theorem ledger_of_history {hs : List Moment} (fits : capacity ≤ maxBalance)
    (positive : 0 < interval) (sound : Sound capacity interval start e)
    (h : History program e hs e') (steady : ∀ m ∈ hs, Moment.isSteady m = true) :
    Sound capacity interval start e' ∧
      stock start e' + along Moment.taken hs + along Moment.lost hs =
        stock start e + along Moment.returned hs + along Moment.cleared hs +
          along Moment.spared hs := by
  -- the last move is added at the end, where the state before it is known
  induction h with
  | refl =>
      exact ⟨sound, by simp⟩
  | @tail hs l e' e'' _ step ih =>
      rcases ih fun m member => steady m (List.mem_append_left _ member) with ⟨kept, books⟩
      rcases ledger_of_step fits positive kept (steady (e', l) (by simp)) step with ⟨kept', moved⟩
      refine ⟨kept', ?_⟩
      simp only [along_snoc]
      omega

end Bucket
end MeteredFetch
