import TetheredParticles.Vec3
/-!
# Particles

What a particle is created with. Its mass is given by its inverse, so that a particle which
nothing can move has the inverse mass zero.
-/

namespace TetheredParticles

/-- The state a particle starts in. Nothing moves it if the inverse mass is zero. -/
structure Particle (S : Type) where
  position : Vec3 S
  velocity : Vec3 S
  inverseMass : S
deriving Repr

namespace Particle

variable {S : Type} [Scalar S]

/-- A particle at rest that forces can move. -/
def dynamic (position : Vec3 S) (inverseMass : S) : Particle S := ⟨position, 0, inverseMass⟩

/-- A particle at rest that only its owner moves. -/
def kinematic (position : Vec3 S) : Particle S := ⟨position, 0, 0⟩

/-- A particle at rest of the given mass; without mass it is kinematic. -/
def ofMass (position : Vec3 S) (mass : S) : Particle S :=
  dynamic position (Scalar.recipOrZero mass)

/-- The same particle with a velocity. -/
def withVelocity (p : Particle S) (velocity : Vec3 S) : Particle S :=
  { p with velocity := velocity }

/-- Whether only its owner moves the particle. -/
def isKinematic (p : Particle S) : Bool := p.inverseMass == 0

end Particle

end TetheredParticles
