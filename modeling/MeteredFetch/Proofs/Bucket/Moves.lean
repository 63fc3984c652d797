import MeteredFetch.Proofs.Bucket.Draw

/-!
# Moves — runs of callers on a bucket

A run on a bucket is a history of `Bucket.program`. Its tasks withdraw amounts, and everything else
is done from outside.

* `Bucket.turn_alike`, `Bucket.grab_alike`, `Bucket.operate_alike` — what the moves leave behind, up
  to who is ready and when the alarms ring;
* `Bucket.Moment.isSteady` — the moves that leave capacity and interval as they are, let no time
  run back and drop nobody;
* `Bucket.Moment.draws` — the chunks that are drawn at a moment.
-/

namespace MeteredFetch
namespace Bucket

open Executor

abbrev State := Executor Bucket Grab UInt64

abbrev Moment := Executor.Moment Bucket Grab UInt64 Action Answer

/-! ## What the moves leave behind -/

def ended (e : State) (id : TaskId) (g : Grab) : Option Caller → List (Completion UInt64)
  | none => ⟨id, g.tokens, e.now⟩ :: e.finished
  | some _ => e.finished

variable {e e' : State}

/-- Waking callers changes nothing but who is ready. -/
theorem carryOutAll_wake (ids : List TaskId) (e : State) :
    Alike e (e.carryOutAll program (ids.map .wake)) := by
  have gentle : Gentle (ids.map (Effect.wake (τ := Grab))) := by simp [Gentle]
  have none : spawned (ids.map (Effect.wake (τ := Grab))) = [] := by
    simp [spawned, List.filterMap_map]
  have carried := carryOutAll_alike program gentle e
  rw [none] at carried
  exact ⟨carried.now, carried.shared, by simpa using carried.tasks, carried.finished⟩

/-- What a turn does, apart from who is ready and which alarms are set. -/
theorem turn_alike (h : e.turn program = .ok e') :
    (e.next? = none ∧ Alike e e') ∨
      ∃ id g b o, e.next? = some (id, g) ∧ g.caller.turn e.now id e.shared = .ok (b, o) ∧
        Alike
          { e with
            shared := b
            tasks := e.tasks.set id (o.map fun caller => { g with caller })
            finished := ended e id g o } e' := by
  rcases Executor.turn_cases h with idle | ⟨id, g, t, middle, next, turned, alike, rfl⟩
  · exact .inl idle
  · rcases ok_of_bind turned with ⟨⟨b, o⟩, looked, rest⟩
    refine .inr ⟨id, g, b, o, next, looked, ?_⟩
    cases o with
    | none =>
        cases rest
        exact alike.trans (carryOutAll_wake [] middle)
    | some caller =>
        cases rest
        exact alike.trans (carryOutAll_wake [] middle)

theorem grab_alike {tokens : UInt64} {answer : Answer}
    (h : e.act program (.grab tokens) = .ok (e', answer)) :
    Alike { e with tasks := e.tasks ++ [some (.start tokens)] } e' := by
  rcases act_cases h with ⟨r, performed, _, rfl⟩
  cases performed
  have gentle : Gentle [Effect.spawn (Grab.start tokens)] := by simp [Gentle]
  have carried := carryOutAll_alike program gentle e
  exact ⟨carried.now, carried.shared, carried.tasks, carried.finished⟩

/-- What an operation does, apart from who is ready and which alarms are set. -/
theorem operate_alike {op : Operation} {answer : Answer}
    (h : e.act program (.operate op) = .ok (e', answer)) :
    ∃ b woken, e.shared.operate e.now op = .ok (b, woken, answer) ∧
      Alike { e with shared := b } e' := by
  rcases act_cases h with ⟨r, performed, rfl, rfl⟩
  rcases ok_of_bind performed with ⟨⟨b, woken, answer⟩, operated, rest⟩
  cases rest
  exact ⟨b, woken, operated, carryOutAll_wake woken { e with shared := b }⟩

/-! ## Moments -/

namespace Operation

/-- Whether an operation leaves capacity and interval as they are. -/
def isSteady : Operation → Bool
  | .instantGrab _ | .forceGrab _ | .recycle _ | .credit => true
  | .changeInterval _ | .changeCapacity _ | .changeBoth _ _ => false

end Operation

namespace Moment

/-- Whether capacity and interval stay what they are, no time runs back, and nobody is dropped. -/
def isSteady (m : Moment) : Bool :=
  match m.2 with
  | .act (.operate op) _ => op.isSteady
  | .act (.grab _) _ | .turn => true
  | .clock time => decide (m.1.now ≤ time)
  | .kill _ => false

def draws (m : Moment) : List Draw :=
  match m.2, m.1.next? with
  | .turn, some (id, g) => g.caller.draws m.1.now id m.1.shared
  | _, _ => []

end Moment
end Bucket
end MeteredFetch
