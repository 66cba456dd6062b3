/-!
# Faults

A fault is a broken promise of the caller: an index past the end of its list, a tether that does
not run from an anchored to a free particle, a count that cannot grow any more. The computation
that meets one has no result.
-/

namespace TetheredParticles

/-- Why a computation has no result. -/
inductive Fault where
  | bitOutOfRange (index length : Nat)
  | particleOutOfRange (index : Nat)
  /-- A tether that starts at a particle which can move. -/
  | startNotAnchored (index : Nat)
  /-- A tether that ends at a particle which cannot move. -/
  | endNotFree (index : Nat)
  | lengthMismatch (first second : Nat)
  | timestampOverflow
  /-- No set of bits is long enough for the largest index. -/
  | lengthOverflow
deriving DecidableEq, Repr

/-- The entry of a list, or the fault that there is none. -/
def Fault.entry {α : Type} (entries : Array α) (index : Nat) : Except Fault α :=
  if h : index < entries.size then .ok entries[index] else .error (.particleOutOfRange index)

end TetheredParticles
