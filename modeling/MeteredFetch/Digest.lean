import MeteredFetch.Hex

/-!
# Digest — fixed-length fingerprints

A `Digest` is a byte string of exactly thirty-two bytes. It stands for content, for the
identity of a publisher, or for the place in the network where a key is looked for.
-/

namespace MeteredFetch

structure Digest where
  bytes : Bytes
  length_bytes : bytes.length = 32
  deriving DecidableEq, Repr

namespace Digest

/-- The digest made of the given bytes, if they are thirty-two. -/
def ofBytes? (bytes : Bytes) : Option Digest :=
  if h : bytes.length = 32 then some ⟨bytes, h⟩ else none

def hex (d : Digest) : String :=
  Hex.encode d.bytes

/-- Digests are ordered byte by byte. -/
instance : Ord Digest where
  compare d e := compare d.bytes e.bytes

end Digest

end MeteredFetch
