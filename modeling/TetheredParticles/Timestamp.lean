import TetheredParticles.Fault
/-!
# Timestamps

Snapshots are numbered. A timestamp is such a number; it fits a word of 64 bits, and there is
none after the largest one.
-/

namespace TetheredParticles

/-- The number of a snapshot. -/
structure Timestamp where
  /-- How many snapshots came before. -/
  ticks : Nat
deriving DecidableEq, Repr, Inhabited

namespace Timestamp

instance : Ord Timestamp := ⟨fun a b => compare a.ticks b.ticks⟩
instance : LT Timestamp := ⟨fun a b => a.ticks < b.ticks⟩
instance : LE Timestamp := ⟨fun a b => a.ticks ≤ b.ticks⟩
instance : DecidableLT Timestamp := fun a b => inferInstanceAs (Decidable (a.ticks < b.ticks))
instance : DecidableLE Timestamp := fun a b => inferInstanceAs (Decidable (a.ticks ≤ b.ticks))

/-- The timestamp before every snapshot. -/
def zero : Timestamp := ⟨0⟩

/-- The largest timestamp. -/
def largest : Timestamp := ⟨0xffffffffffffffff⟩

/-- The following timestamp; the largest one has none. -/
def next (t : Timestamp) : Except Fault Timestamp :=
  if t < largest then .ok ⟨t.ticks + 1⟩ else .error .timestampOverflow

/-- The later of two timestamps. -/
def latest (a b : Timestamp) : Timestamp := if a ≤ b then b else a

/-- How a timestamp is written in messages. -/
def text (t : Timestamp) : String := "#" ++ toString t.ticks

end Timestamp

end TetheredParticles
