import MeteredFetch.Bucket.Basic

/-!
# Rate — changing the interval and the capacity

When tokens begin to be earned faster, what is left of a wait shrinks in proportion: that of the
cursor at once, that of a waiting caller when it is woken.

* `rescale` shrinks what is left until a moment;
* `Bucket.changeInterval`, `Bucket.changeCapacity` and `Bucket.changeBoth` are the changes. They
  return the callers to be woken.
-/

namespace MeteredFetch

/-- The least number that does not fit 128 bits. -/
def productLimit : Nat := 0x100000000000000000000000000000000

/-- Scales what is left until `deadline` from one interval to another. A deadline that has
passed stays as it is. The product has to fit 128 bits, and no more than 64 bits of nanoseconds
are left. -/
def rescale (now deadline : Instant) (old new : Nat) : Except Panic Instant :=
  if deadline < now then .ok deadline
  else if (deadline - now) * new < productLimit then
    .ok (now + min ((deadline - now) * new / old) maxWord)
  else .error .multiply

namespace Bucket

def setInterval (now : Instant) (interval : Nat) (b : Bucket) :
    Except Panic (Bucket × List TaskId) :=
  if interval < b.interval then do
    let cursor ← rescale now b.cursor b.interval interval
    return ({ b with interval, cursor, waiters := [] }, b.waiters)
  else .ok ({ b with interval }, [])

def setCapacity (capacity : Nat) (b : Bucket) : Bucket :=
  { b with capacity }.clip

/-- Changes the interval. What was earned before is credited first. -/
def changeInterval (now : Instant) (interval : Nat) (b : Bucket) :
    Except Panic (Bucket × List TaskId) :=
  (b.credit now).setInterval now interval

/-- Changes the capacity. What was earned before is credited first, under the new capacity. -/
def changeCapacity (now : Instant) (capacity : Nat) (b : Bucket) : Bucket :=
  (b.creditUnclipped now).setCapacity capacity

def changeBoth (now : Instant) (interval capacity : Nat) (b : Bucket) :
    Except Panic (Bucket × List TaskId) := do
  let (b, woken) ← (b.creditUnclipped now).setInterval now interval
  return (b.setCapacity capacity, woken)

end Bucket
end MeteredFetch
