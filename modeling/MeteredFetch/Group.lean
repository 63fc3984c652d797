import MeteredFetch.FetchError
import MeteredFetch.Priority

/-!
# Group — what requests of one origin share

* `Client` is on whose behalf a group works;
* `Bindings` says which scheduler serves which family of keys;
* `Group` is what the requests of a group depend on.
-/

namespace MeteredFetch

structure Client where
  id : UInt64 := 0
  deriving DecidableEq, Repr, Inhabited

def Client.display (c : Client) : String :=
  "client-" ++ toString c.id.toNat

structure Bindings (α : Type) where
  content : Option α := none
  subspace : Option α := none
  deriving DecidableEq, Repr, Inhabited

namespace Bindings

variable {α : Type}

/-- Binds a scheduler to a family, in place of the one bound before. -/
def bind (b : Bindings α) (family : Family) (scheduler : α) : Bindings α :=
  match family with
  | .content => { b with content := some scheduler }
  | .subspace => { b with subspace := some scheduler }

def lookup? (b : Bindings α) : Family → Option α
  | .content => b.content
  | .subspace => b.subspace

def get (b : Bindings α) (family : Family) : Except FetchError α :=
  match b.lookup? family with
  | some scheduler => .ok scheduler
  | none => .error (.unbound family)

/-- The table that results from binding the given schedulers in order. -/
def ofList (pairs : List (Family × α)) : Bindings α :=
  pairs.foldl (fun b p => b.bind p.1 p.2) {}

def serves [DecidableEq α] (b : Bindings α) (scheduler : α) : Bool :=
  b.content == some scheduler || b.subspace == some scheduler

/-- A scheduler takes the place of the one bound to its family, and of no other. -/
@[simp]
theorem lookup?_bind (b : Bindings α) (f g : Family) (s : α) :
    (b.bind f s).lookup? g = if g = f then some s else b.lookup? g := by
  cases f <;> cases g <;> rfl

end Bindings

abbrev SchedulerId := Nat

structure Group where
  priority : Priority
  client : Client
  bindings : Bindings SchedulerId
  deriving DecidableEq, Repr, Inhabited

end MeteredFetch
