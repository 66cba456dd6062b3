import TetheredParticles.Compliance
import TetheredParticles.Fault
/-!
# Suspensions

A suspension keeps a particle at a distance from a point in space, like a spring.

* `Suspension.solve` — one projection of the particle.
* `Suspension.force` — what the suspension did to its particle during the step.
-/

namespace TetheredParticles

/-- A compliant distance constraint between a particle and the point it hangs from, rigid if the
compliance is zero. The multiplier accumulates during a step; the direction leads from the point to
the particle, as it was when the suspension was last solved. -/
structure Suspension (S : Type) where
  particle : Nat
  target : Vec3 S
  restLength : S
  compliance : S
  multiplier : S
  direction : Vec3 S
deriving Repr

namespace Suspension

variable {S : Type} [Scalar S]

/-- A suspension that has not been solved yet. -/
def create (particle : Nat) (target : Vec3 S) (restLength compliance : S) : Suspension S :=
  ⟨particle, target, restLength, compliance, 0, 0⟩

/-- The suspension at the start of a step. -/
def restart (s : Suspension S) : Suspension S := { s with multiplier := 0 }

/-- Projects the particle once. A particle at the target stays where it is. -/
def solve (s : Suspension S) (inverseMasses : Array S) (dt : S) (positions : Array (Vec3 S)) :
    Except Fault (Suspension S × Array (Vec3 S)) := do
  let w ← Fault.entry inverseMasses s.particle
  let p ← Fault.entry positions s.particle
  let (direction, distance) := (p - s.target).directionAndLength
  if direction == 0 then return (s, positions)
  let update := Compliance.update s.multiplier (distance - s.restLength) [w] s.compliance dt
  let positions := positions.modify s.particle (· + direction * update * w)
  return ({ s with multiplier := s.multiplier + update, direction := direction }, positions)

/-- The force on the particle during a step. -/
def force (s : Suspension S) (dt : S) : Vec3 S := Compliance.force s.multiplier s.direction dt

end Suspension

end TetheredParticles
