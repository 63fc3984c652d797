import MeteredFetch.Failure
import MeteredFetch.Key
import MeteredFetch.Scheduler
import MeteredFetch.Settings

/-!
# Lookup — a search whose results are laid down beforehand

A lookup answers from a script: the oldest response laid down for the key, else the block known
for it, else a failure. It may be slow: a closed gate keeps each response back until it is
released, and otherwise a latency may pass before the response arrives.

* `Lookup` is what is laid down;
* `Lookup.respond` fixes the response to a search;
* `Call` records a search.
-/

namespace MeteredFetch

inductive Response
  | block (data : Bytes)
  | fault (fault : Fault)
  deriving DecidableEq, Repr

structure Call where
  /-- The task that made it. -/
  task : TaskId
  /-- The request it was made for. -/
  request : RequestId
  key : Key
  settings : Settings
  deriving DecidableEq, Repr

/-- What is laid down for searches to come. -/
structure Lookup where
  /-- The blocks that are known, the latest first. -/
  blocks : List (Key × Bytes) := []
  /-- Responses to be given once, the oldest first. -/
  scripted : List (Key × Response) := []
  /-- The requests that a search for their key cancels, in order. -/
  hook : List RequestId := []
  /-- Whether responses are kept back. -/
  gated : Bool := false
  /-- How long a response takes that is not kept back. -/
  latency : Nat := 0
  /-- The tasks whose response was kept back, in order; those that go on or are gone are blank. -/
  held : List (Option TaskId) := []
  deriving DecidableEq, Repr

namespace Lookup

/-- Lays down the block for a key, in place of the one before. -/
def insert (l : Lookup) (key : Key) (block : Bytes) : Lookup :=
  { l with blocks := (key, block) :: l.blocks }

/-- A lookup that knows blocks; of two for one key, the later one. -/
def ofBlocks (blocks : List (Key × Bytes)) : Lookup :=
  blocks.foldl (fun l x => l.insert x.1 x.2) {}

def script (l : Lookup) (key : Key) (response : Response) : Lookup :=
  { l with scripted := l.scripted ++ [(key, response)] }

/-- The response for a key that has none laid down. -/
def fallback (l : Lookup) (key : Key) (localOnly : Bool) : Response :=
  match l.blocks.lookup key with
  | some block => .block block
  | none =>
      .fault (.classified (if localOnly then .notFoundLocally else .notFoundInNetwork))

/-- Fixes the response to a search, and uses it up if it was laid down for one search. -/
def respond (l : Lookup) (key : Key) (localOnly : Bool) : Lookup × Response :=
  match l.scripted.lookup key with
  | some response =>
      ({ l with scripted := l.scripted.eraseP fun entry => entry.1 == key }, response)
  | none => (l, l.fallback key localOnly)

/-! ## Responses kept back -/

def hold (l : Lookup) (task : TaskId) : Lookup :=
  { l with held := l.held ++ [some task] }

def release (l : Lookup) (number : Nat) : Lookup × Option TaskId :=
  ({ l with held := l.held.set number none }, (l.held[number]?).join)

def forgo (l : Lookup) (task : TaskId) : Lookup :=
  { l with held := l.held.map fun h => if h = some task then none else h }

end Lookup
end MeteredFetch
