import TetheredParticles.Vec3
import TetheredParticles.Fault
/-!
# Tethers

A tether runs from an anchored particle to a free one and pulls the free one back as soon as it is
farther away than a reference length. It never pushes.

* `Tether.delta` — where and how far a tether would have to pull. It insists on an anchor with
  inverse mass zero and a tip with a positive one.
* `Tether.offset` — the violation alone.
-/

namespace TetheredParticles

/-- A one-sided constraint from an anchored particle to a free one, its tip, which may be as far
away as the reference length. -/
structure Tether (S : Type) where
  anchor : Nat
  tip : Nat
  referenceLength : S
deriving Repr

namespace Tether

variable {S : Type} [Scalar S]

/-- How far a distance exceeds the reference length; never negative. -/
def excess (t : Tether S) (distance : S) : S := Scalar.maxNum (distance - t.referenceLength) 0

/-- The direction from the tip to the anchor, and by how much their distance exceeds the reference
length. -/
def delta (t : Tether S) (positions : Array (Vec3 S)) (inverseMasses : Array S) :
    Except Fault (Vec3 S × S) := do
  let anchorMass ← Fault.entry inverseMasses t.anchor
  unless anchorMass == 0 do throw (.startNotAnchored t.anchor)
  let tipMass ← Fault.entry inverseMasses t.tip
  unless 0 < tipMass do throw (.endNotFree t.tip)
  let anchor ← Fault.entry positions t.anchor
  let tip ← Fault.entry positions t.tip
  let (direction, length) := (anchor - tip).directionAndLength
  return (direction, t.excess length)

/-- By how much the distance of anchor and tip exceeds the reference length. -/
def offset (t : Tether S) (positions : Array (Vec3 S)) : Except Fault S := do
  let anchor ← Fault.entry positions t.anchor
  let tip ← Fault.entry positions t.tip
  return t.excess (anchor.distance tip)

end Tether

end TetheredParticles
