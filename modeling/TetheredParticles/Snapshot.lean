import TetheredParticles.Timestamp
import TetheredParticles.Handle
import TetheredParticles.Particle
import TetheredParticles.Graph
import TetheredParticles.Diagnostics
/-!
# Snapshots

The producer and the world exchange numbered snapshots. A push snapshot asks for one step and
carries the producer's writes; a pull snapshot with the same number answers it with the state of
everything that changed.

* `Creation`, `Command`, `Delta` — writes addressed to proxies.
* `PushSnapshot`, `PullSnapshot` — the input and the output of a step.
* `ResultData.lerp` — a state between two results.
-/

namespace TetheredParticles

/-- What the world needs to know about a new proxy. -/
inductive Creation (S : Type) where
  | particle (handle : ParticleHandle) (particle : Particle S)
  | cluster (handles : List ParticleHandle) (particles : List (Particle S)) (adjacency : Graph)
      (stiffness : S)
  | joint (handle : ConstraintHandle) (first second : ParticleHandle) (restLength compliance : S)
  | suspension (handle : ConstraintHandle) (particle : ParticleHandle) (target : Vec3 S)
      (restLength compliance : S)

/-- A write of the producer. -/
inductive Command (S : Type) where
  | create (creation : Creation S)
  | destroy
  | setPosition (particle : ParticleHandle) (position : Vec3 S)
  | setVelocity (particle : ParticleHandle) (velocity : Vec3 S)
  /-- Moves a kinematic particle during the step. -/
  | setKinematicTarget (particle : ParticleHandle) (target : Vec3 S)
  /-- Adds a force for the step. -/
  | addForce (particle : ParticleHandle) (force : Vec3 S)
  | setInverseMass (particle : ParticleHandle) (inverseMass : S)
  | setTetherStiffness (stiffness : S)
  | setSuspensionTarget (handle : ConstraintHandle) (target : Vec3 S)
  | setJointRestLength (handle : ConstraintHandle) (restLength : S)

/-- The name of the kind of write. -/
def Command.name {S : Type} : Command S → String
  | .create (.particle ..) => "create_particle"
  | .create (.cluster ..) => "create_cluster"
  | .create (.joint ..) => "create_joint"
  | .create (.suspension ..) => "create_suspension"
  | .destroy => "destroy"
  | .setPosition .. => "set_position"
  | .setVelocity .. => "set_velocity"
  | .setKinematicTarget .. => "set_kinematic_target"
  | .addForce .. => "add_force"
  | .setInverseMass .. => "set_inverse_mass"
  | .setTetherStiffness .. => "set_tether_stiffness"
  | .setSuspensionTarget .. => "set_suspension_target"
  | .setJointRestLength .. => "set_joint_rest_length"

/-- A write addressed to a proxy. -/
structure Delta (S : Type) where
  proxy : ProxyId
  command : Command S

/-- The input of one step. -/
structure PushSnapshot (S T : Type) where
  timestamp : Timestamp
  startTime : T
  /-- The size of the step; nothing moves unless it is positive. -/
  dt : S
  /-- The place of the step among those of its advance. -/
  step : UInt32
  stepCount : UInt32
  /-- The producer's writes in the order they were made. -/
  deltas : List (Delta S)

/-- What a step tells about a proxy. -/
inductive ResultData (S : Type) where
  | particles (positions velocities : Array (Vec3 S))
  | constraint (force : Vec3 S)
deriving Repr

/-- What a step tells about one proxy. -/
structure ProxyResult (S : Type) where
  proxy : ProxyId
  data : ResultData S
deriving Repr

/-- The output of one step. -/
structure PullSnapshot (S T : Type) where
  timestamp : Timestamp
  startTime : T
  endTime : T
  /-- The proxies that changed, in order. -/
  results : List (ProxyResult S)
  counts : StepCounts

namespace ResultData

variable {S : Type} [Scalar S]

/-- The state a fraction of the way to the next one. Forces, and particles that differ in number,
are not blended: the next state is taken. -/
def lerp (previous next : ResultData S) (alpha : S) : ResultData S :=
  match previous, next with
  | .particles positions₀ velocities₀, .particles positions velocities =>
    if positions₀.size = positions.size ∧ velocities₀.size = velocities.size then
      .particles (positions₀.zipWith (·.lerp · alpha) positions)
        (velocities₀.zipWith (·.lerp · alpha) velocities)
    else next
  | _, _ => next

end ResultData

/-- Something with a place in the order of snapshots. -/
class Stamped (α : Type) where
  timestamp : α → Timestamp

instance {S T : Type} : Stamped (PushSnapshot S T) := ⟨PushSnapshot.timestamp⟩
instance {S T : Type} : Stamped (PullSnapshot S T) := ⟨PullSnapshot.timestamp⟩

end TetheredParticles
