import TetheredParticles.Particle.Store
/-!
# Integration

Semi-implicit Euler: the velocity at the end of the step moves the position. This predicts where
particles would go without constraints; after the constraints have corrected the positions, the
velocity is what moved each particle there.

* `accelerate` — the velocity after gravity, forces and damping.
* `coast` — free flight for a number of steps.
* `ParticleSlot.predict`, `ParticleStore.predict` — the prediction for a step.
* `meanVelocity` — the velocity between two places.
-/

namespace TetheredParticles

namespace Integration

variable {S : Type} [Scalar S]

/-- The acceleration by gravity and a force. What cannot be moved is not accelerated. -/
def acceleration (force : Vec3 S) (inverseMass : S) (gravity : Vec3 S) : Vec3 S :=
  if 0 < inverseMass then gravity + force * inverseMass else 0

/-- The velocity after a step: accelerated first, then damped. -/
def accelerate (velocity force : Vec3 S) (inverseMass : S) (gravity : Vec3 S) (damping dt : S) :
    Vec3 S :=
  let faster := velocity + acceleration force inverseMass gravity * dt
  if damping == 0 then faster else faster / (1 + dt * damping)

/-- The position after moving at a velocity for a while. -/
def advance (position velocity : Vec3 S) (dt : S) : Vec3 S := position + velocity * dt

/-- The position and velocity after a number of steps under forces that do not change. -/
def coast (steps : Nat) (position velocity force : Vec3 S) (inverseMass : S) (gravity : Vec3 S)
    (damping dt : S) : Vec3 S × Vec3 S :=
  match steps with
  | 0 => (position, velocity)
  | steps + 1 =>
    let velocity := accelerate velocity force inverseMass gravity damping dt
    coast steps (advance position velocity dt) velocity force inverseMass gravity damping dt

/-- The velocity that moves a particle from one place to another within a step, or none if the
step has no length. -/
def meanVelocity (before after : Vec3 S) (dt : S) : Vec3 S :=
  if 0 < dt then (after - before) / dt else 0

end Integration

open Integration

variable {S : Type} [Scalar S]

/-- The prediction for one particle: a kinematic one goes exactly to its target if it has one and
otherwise keeps its velocity; any other is accelerated. -/
def ParticleSlot.predict (s : ParticleSlot S) (gravity : Vec3 S) (damping dt : S) :
    ParticleSlot S :=
  if s.flags.kinematic then
    match s.target with
    | some target =>
      { s with velocity := meanVelocity s.position target dt, predicted := target }
    | none => { s with predicted := advance s.position s.velocity dt }
  else
    let velocity := accelerate s.velocity s.force s.inverseMass gravity damping dt
    { s with velocity := velocity, predicted := advance s.position velocity dt }

/-- The prediction for every particle of the store. -/
def ParticleStore.predict (store : ParticleStore S) (gravity : Vec3 S) (damping dt : S) :
    ParticleStore S :=
  { store with
    slots := store.slots.map fun s => if s.flags.alive then s.predict gravity damping dt else s }

end TetheredParticles
