import TetheredParticles.Island.Workspace
import TetheredParticles.Graph.Islands
import TetheredParticles.Snapshot
/-!
# The world

The world holds every particle and every constraint by proxy, and the islands they are solved in.
Constraints exist twice: as they were created, and as copies in the workspaces of their islands,
which are rebuilt when the topology has changed.

* `Cluster`, `JointRecord`, `SuspensionRecord` — constraints as they were created.
* `World` — everything between two steps.
-/

namespace TetheredParticles

/-- Particles with neighbors and the tethers laid out for them. -/
structure Cluster (S : Type) where
  /-- The particles; neighbors are given by their place in this list. -/
  particles : Array ParticleHandle
  /-- Where the particles were created. -/
  restPositions : Array (Vec3 S)
  adjacency : Graph
  stiffness : S
  /-- The tethers, between slots. -/
  tethers : List (Tether S)

/-- A joint between particles of the world. -/
structure JointRecord (S : Type) where
  handle : ConstraintHandle
  first : ParticleHandle
  second : ParticleHandle
  restLength : S
  compliance : S

/-- A suspension of a particle of the world. -/
structure SuspensionRecord (S : Type) where
  handle : ConstraintHandle
  particle : ParticleHandle
  target : Vec3 S
  restLength : S
  compliance : S

/-- The world between two steps. -/
structure World (S : Type) where
  config : Config S
  store : ParticleStore S
  /-- The particles of every particle or cluster. -/
  members : Std.TreeMap ProxyId (List ParticleHandle)
  /-- What is known about clusters beyond their particles. -/
  clusters : Std.TreeMap ProxyId (Cluster S)
  joints : Std.TreeMap ProxyId (JointRecord S)
  suspensions : Std.TreeMap ProxyId (SuspensionRecord S)
  /-- The islands, by slot. -/
  partition : Partition
  workspaces : Array (Workspace S)
  /-- Tethers, islands and workspaces have to be rebuilt before the next step. -/
  topologyDirty : Bool
  /-- The forces of constraints in the last step that moved. -/
  forces : Std.TreeMap ProxyId (Vec3 S)
  /-- The proxies that a delta of the current step was applied to. -/
  touched : Std.TreeSet ProxyId
  latest : Timestamp

namespace World

variable {S : Type} [Scalar S]

/-- The world without particles. -/
def empty (config : Config S) : World S where
  config := config
  store := .empty
  members := ∅
  clusters := ∅
  joints := ∅
  suspensions := ∅
  partition := .empty
  workspaces := #[]
  topologyDirty := false
  forces := ∅
  touched := ∅
  latest := .zero

/-- The world under another configuration; everything is rebuilt before the next step. -/
def setConfig (w : World S) (config : Config S) : World S :=
  { w with config, topologyDirty := true }

/-- Whether a proxy is known. -/
def knows (w : World S) (proxy : ProxyId) : Bool :=
  w.members.contains proxy || w.joints.contains proxy || w.suspensions.contains proxy

/-- Whether a particle exists and belongs to a proxy. -/
def owns (w : World S) (proxy : ProxyId) (particle : ParticleHandle) : Bool :=
  w.store.owner? particle == some proxy

end World

end TetheredParticles
