import TetheredParticles.Vec3
/-!
# Compliant constraints

A compliant constraint gives way to a force in proportion to its compliance. Its projections
accumulate a multiplier, from which the force can be told. Because every update accounts for the
multiplier so far, the response depends neither on the number of passes nor on the step size.

* `Compliance.update` — by how much one projection changes the multiplier.
* `Compliance.force` — the force behind a multiplier.
-/

namespace TetheredParticles.Compliance

variable {S : Type} [Scalar S]

/-- The sum of inverse masses. -/
def total (inverseMasses : List S) : S := inverseMasses.foldl (· + ·) Scalar.emptySum

/-- The change of the multiplier of a constraint that is violated by `violation`. Nothing changes
if the masses cannot be moved or no time passes. -/
def update (multiplier violation : S) (inverseMasses : List S) (compliance dt : S) : S :=
  let mobility := total inverseMasses
  if mobility ≤ Scalar.epsilon ∨ dt ≤ 0 then 0
  else
    let softness := compliance / (dt * dt)
    (-violation - softness * multiplier) / (mobility + softness)

/-- The force along a direction that a multiplier stands for. -/
def force (multiplier : S) (direction : Vec3 S) (dt : S) : Vec3 S :=
  if dt ≤ 0 then 0 else direction * (multiplier / (dt * dt))

end TetheredParticles.Compliance
