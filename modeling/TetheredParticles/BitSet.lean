import TetheredParticles.Fault
/-!
# Bit sets of fixed length

A set of indices below a length, kept in words of 64 bits. Graph searches mark visited points
with it. Adding an index at or past the length is a fault; every other operation accepts any
index. Indices and lengths fit a word of 64 bits.

* `ofLength`, `get`, `set`, `insert`, `unset`, `clear`, `resize`, `count`.
* `covering` — the empty set that is just long enough for an index.
* `mask` — the word in which exactly one bit is set.
-/

namespace TetheredParticles

/-- A set of indices below `length`, 64 of them in a word. -/
structure BitSet where
  /-- Bit `i % 64` of word `i / 64` tells whether `i` belongs to the set. -/
  words : Array UInt64
  /-- Indices below this can belong to the set. -/
  length : Nat
deriving DecidableEq, Repr

namespace BitSet

/-- How many words a number of bits needs. -/
def wordCount (bits : Nat) : Nat := (bits + 63) / 64

/-- The empty set of the given length. -/
def ofLength (length : Nat) : BitSet := ⟨.replicate (wordCount length) 0, length⟩

/-- The largest index, and the largest length. -/
def largestIndex : Nat := 0xffffffffffffffff

/-- The empty set that can hold every index up to the given one. The largest index would take a
length beyond the largest one. -/
def covering (index : Nat) : Except Fault BitSet :=
  if index < largestIndex then .ok (.ofLength (index + 1)) else .error .lengthOverflow

/-- The word in which only the bit of the given index is set. -/
def mask (index : Nat) : UInt64 := 1 <<< UInt64.ofNat (index % 64)

/-- Whether an index belongs to the set. -/
def get (s : BitSet) (index : Nat) : Bool :=
  if index < s.length then s.words.getD (index / 64) 0 &&& mask index != 0 else false

/-- The set with an index added. -/
def set (s : BitSet) (index : Nat) : Except Fault BitSet :=
  if index < s.length then .ok { s with words := s.words.modify (index / 64) (· ||| mask index) }
  else .error (.bitOutOfRange index s.length)

/-- The set with an index added, and whether it was absent. -/
def insert (s : BitSet) (index : Nat) : Except Fault (Bool × BitSet) := do
  let absent := !s.get index
  return (absent, ← s.set index)

/-- The set without an index. -/
def unset (s : BitSet) (index : Nat) : BitSet :=
  if index < s.length then { s with words := s.words.modify (index / 64) (· &&& ~~~mask index) }
  else s

/-- The empty set of the same length. -/
def clear (s : BitSet) : BitSet := { s with words := s.words.map fun _ => 0 }

/-- The empty set of another length. -/
def resize (s : BitSet) (length : Nat) : BitSet :=
  { s with words := .replicate (wordCount length) 0, length := length }

/-- How many bits of a word are set. -/
def popCount (word : UInt64) : Nat :=
  if word = 0 then 0 else (List.range 64).countP (word.toNat.testBit ·)

/-- How many indices belong to the set. -/
def count (s : BitSet) : Nat := s.words.foldl (fun n word => n + popCount word) 0

/-- Whether no index could belong to the set. -/
def isEmpty (s : BitSet) : Bool := s.length == 0

end BitSet

end TetheredParticles
