/-!
# Settings — how a request consults the local store
-/

namespace MeteredFetch

/-- How a request consults the local store. The default searches store and network and lets
the result be stored. -/
structure Settings where
  /-- Search the local store only. -/
  localOnly : Bool := false
  /-- Let fetched data be written into the local store. -/
  cache : Bool := true
  /-- Leave the local store out of the search. -/
  ignoreStore : Bool := false
  deriving DecidableEq, Repr, Inhabited

end MeteredFetch
