/-!
# Failure — why a lookup returned no block

* `Failure` is the taxonomy of known reasons, each with a stable code and a description;
* `Failure.describe` is the description of any code, known or not;
* `Fault` is what a lookup reports: a known reason or an error outside of the taxonomy.

Whether a failure is retried is decided by the request that observed it, not here.
-/

namespace MeteredFetch

/-- A known reason why a lookup returned no block. -/
inductive Failure
  /-- The data could not be decoded. -/
  | decodeFailed
  /-- The data was not in the local store, and the search was restricted to it. -/
  | notFoundLocally
  /-- Something went wrong on this side. -/
  | internalError
  /-- Many nodes were visited without finding the data. -/
  | notFoundInNetwork
  /-- Too few nodes were found to be sure that the data does not exist. -/
  | noRouteFound
  /-- A node timed out or was overloaded. -/
  | overloadRejected
  /-- The transfer began and broke off. -/
  | transferFailed
  /-- The data did not verify against its key. -/
  | verifyFailed
  /-- The request was cancelled on this side. -/
  | cancelled
  deriving DecidableEq, Repr

namespace Failure

def all : List Failure :=
  [.decodeFailed, .notFoundLocally, .internalError, .notFoundInNetwork, .noRouteFound,
   .overloadRejected, .transferFailed, .verifyFailed, .cancelled]

def code : Failure → Nat
  | .decodeFailed => 1
  | .notFoundLocally => 2
  | .internalError => 3
  | .notFoundInNetwork => 4
  | .noRouteFound => 5
  | .overloadRejected => 6
  | .transferFailed => 7
  | .verifyFailed => 8
  | .cancelled => 9

def message : Failure → String
  | .decodeFailed => "Decode of data failed, probably was bogus at source"
  | .notFoundLocally => "Data was not in store and request was local-only"
  | .internalError => "Internal error - probably a bug"
  | .notFoundInNetwork => "Could not find the data"
  | .noRouteFound =>
      "Could not find enough nodes to be sure that the data is not out there somewhere"
  | .overloadRejected => "A node downstream either timed out or was overloaded (retry)"
  | .transferFailed => "Started to transfer data, then failed (should be rare)"
  | .verifyFailed => "Node sent us invalid data"
  | .cancelled => "Request cancelled"

def ofCode? (code : Nat) : Option Failure :=
  all.find? fun f => f.code == code

/-- The description that goes with a code. Codes relayed from elsewhere may be unknown and can
still be displayed. -/
def describe (code : Int) : String :=
  match code with
  | .ofNat n =>
      match ofCode? n with
      | some f => f.message
      | none => "Unknown error code: " ++ toString code
  | .negSucc _ => "Unknown error code: " ++ toString code

/-- A failure can be told by its code. -/
theorem ofCode?_code (f : Failure) : ofCode? f.code = some f := by
  cases f <;> rfl

end Failure

/-- What a lookup reports when it has no block. -/
inductive Fault
  /-- It failed for a known reason. -/
  | classified (failure : Failure)
  /-- It failed for a reason outside of the taxonomy. -/
  | unexpected (text : String)
  deriving DecidableEq, Repr

namespace Fault

/-- The known reason closest to a fault: anything unexpected counts as an internal error. -/
def failure : Fault → Failure
  | .classified f => f
  | .unexpected _ => .internalError

def message : Fault → String
  | .classified f => "lookup failed: " ++ f.message
  | .unexpected text => "unexpected lookup error: " ++ text

end Fault
end MeteredFetch
