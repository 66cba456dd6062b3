import TetheredParticles.Compliance
import TetheredParticles.Fault
/-!
# Joints

A joint keeps two particles at a distance and gives way according to its compliance.

* `Joint.solve` — one projection of both particles.
* `Joint.force` — what the joint did to its second particle during the step.
-/

namespace TetheredParticles

/-- A compliant distance constraint between two particles, rigid if the compliance is zero. The
multiplier accumulates during a step; the direction leads from the first to the second particle, as
it was when the joint was last solved. -/
structure Joint (S : Type) where
  first : Nat
  second : Nat
  restLength : S
  compliance : S
  multiplier : S
  direction : Vec3 S
deriving Repr

namespace Joint

variable {S : Type} [Scalar S]

/-- A joint that has not been solved yet. -/
def create (first second : Nat) (restLength compliance : S) : Joint S :=
  ⟨first, second, restLength, compliance, 0, 0⟩

/-- The joint at the start of a step. -/
def restart (j : Joint S) : Joint S := { j with multiplier := 0 }

/-- Projects both particles once. Particles that are not apart stay where they are. -/
def solve (j : Joint S) (inverseMasses : Array S) (dt : S) (positions : Array (Vec3 S)) :
    Except Fault (Joint S × Array (Vec3 S)) := do
  let wa ← Fault.entry inverseMasses j.first
  let wb ← Fault.entry inverseMasses j.second
  let a ← Fault.entry positions j.first
  let b ← Fault.entry positions j.second
  let (direction, distance) := (b - a).directionAndLength
  if direction == 0 then return (j, positions)
  let update := Compliance.update j.multiplier (distance - j.restLength) [wa, wb] j.compliance dt
  let impulse := direction * update
  let positions := positions.modify j.first (· - impulse * wa)
  let positions := positions.modify j.second (· + impulse * wb)
  return ({ j with multiplier := j.multiplier + update, direction := direction }, positions)

/-- The force on the second particle during a step. -/
def force (j : Joint S) (dt : S) : Vec3 S := Compliance.force j.multiplier j.direction dt

end Joint

end TetheredParticles
