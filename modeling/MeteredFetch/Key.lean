import MeteredFetch.Digest.Sha256

/-!
# Key — names of data in the network

Keys come in two disjoint families, and each family is served by its own scheduler:

* a content key is the digest of the data it names;
* a subspace key is a name within the subspace of a long-lived identity, so the data behind it
  may change.

`Key.routing` is the digest by which a key is looked for, `Key.display` its text, and keys are
ordered family by family.
-/

namespace MeteredFetch

inductive Family
  | content
  | subspace
  deriving DecidableEq, Repr

namespace Family

def all : List Family :=
  [.content, .subspace]

def display : Family → String
  | .content => "content"
  | .subspace => "subspace"

theorem mem_all (f : Family) : f ∈ all := by
  cases f <;> decide

end Family

/-- A name of data that can be fetched. -/
inductive Key
  /-- Data named by its digest. -/
  | content (digest : Digest)
  /-- The document called `name` in the subspace of `identity`. -/
  | subspace (identity : Digest) (name : String)
  deriving DecidableEq, Repr

namespace Key

def ofData (data : Bytes) : Key :=
  .content (Sha256.hash data)

def family : Key → Family
  | .content _ => .content
  | .subspace _ _ => .subspace

/-- The bytes of a name, as it is hashed. -/
def nameBytes (name : String) : Bytes :=
  name.toUTF8.data.toList

/-- The digest by which requests for a key are routed: the digest of the content itself, or
that of the identity followed by the digest of the name. -/
def routing : Key → Digest
  | .content digest => digest
  | .subspace identity name =>
      Sha256.hash (identity.bytes ++ (Sha256.hash (nameBytes name)).bytes)

/-- The text of a key. The name is written as it is. -/
def display : Key → String
  | .content digest => "content:" ++ digest.hex
  | .subspace identity name => "subspace:" ++ identity.hex ++ "/" ++ name

/-! ## Order -/

/-- Content keys come first, by digest; subspace keys follow, by identity and then by name.
Names are compared by code point, which is also the order of their UTF-8 bytes. -/
instance : Ord Key where
  compare
    | .content d, .content e => compare d e
    | .content _, .subspace _ _ => .lt
    | .subspace _ _, .content _ => .gt
    | .subspace i n, .subspace j m => (compare i j).then (compare n m)

/-- The positions of a list of keys in ascending order of the keys; equal keys keep the order
in which they stand. -/
def ascending (keys : List Key) : List Nat :=
  (keys.zipIdx.mergeSort fun x y => (compare x.1 y.1).isLE).map Prod.snd

end Key
end MeteredFetch
