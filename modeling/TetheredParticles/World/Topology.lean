import TetheredParticles.World
import TetheredParticles.Tether.Layout
/-!
# The topology of the world

Tethers, islands and workspaces follow from the particles and the constraints. They are rebuilt
from scratch whenever something was created or destroyed, a particle has become kinematic or
stopped being so, or the configuration was replaced.

* `Cluster.layTethers` — the tethers of one cluster over its rest pose and current anchors.
* `World.edges` — everything that has to be solved together.
* `World.rebuild` — tethers, islands and one workspace for each island.
-/

namespace TetheredParticles

variable {S : Type} [Scalar S]

/-- The tether between other indices. -/
def Tether.relabel (t : Tether S) (index : Nat → Nat) : Tether S :=
  { t with anchor := index t.anchor, tip := index t.tip }

/-- Lays the tethers of a cluster. A cluster that has lost a particle gets none. -/
def Cluster.layTethers (c : Cluster S) (config : Config S) (store : ParticleStore S) :
    Except Fault (Cluster S) := do
  if c.particles.any (!store.contains ·) then return { c with tethers := [] }
  let inverseMasses := c.particles.map fun h => (store.slot h.index).inverseMass
  let layout ← TetherLayout.build c.restPositions inverseMasses c.adjacency config.maxIslands
    config.tether.mode config.tether.limitScale
  let slotOf := fun i => (c.particles.getD i default).index
  return { c with tethers := layout.tethers.map (·.relabel slotOf) }

/-- The edges between the slots of neighbors. -/
def Cluster.edges (c : Cluster S) : Except Fault (List (Nat × Nat)) :=
  c.adjacency.edges.mapM fun (a, b) => do
    let a ← Fault.entry c.particles a
    let b ← Fault.entry c.particles b
    return (a.index, b.index)

namespace World

/-- The world with the tethers of all clusters laid out anew. -/
def layTethers (w : World S) : Except Fault (World S) := do
  let clusters ← w.clusters.foldlM
    (fun clusters proxy c => return clusters.insert proxy (← c.layTethers w.config w.store)) ∅
  return { w with clusters }

/-- The world without constraints whose particles are gone. -/
def dropDangling (w : World S) : World S :=
  { w with
    joints := w.joints.filter fun _ j => w.store.contains j.first && w.store.contains j.second
    suspensions := w.suspensions.filter fun _ s => w.store.contains s.particle }

/-- The edges between all slots that have to be solved together: neighbors, ends of tethers, and
ends of joints. -/
def edges (w : World S) : Except Fault (List (Nat × Nat)) := do
  let ofClusters ← w.clusters.toList.mapM fun (_, c) => do
    return (← c.edges) ++ c.tethers.map fun t => (t.anchor, t.tip)
  return ofClusters.flatten ++ w.joints.toList.map fun (_, j) => (j.first.index, j.second.index)

/-- The islands of the occupied slots. -/
def computePartition (w : World S) : Except Fault Partition := do
  let points := w.store.aliveSlots.foldl (fun s p => s.insert p) (∅ : Points)
  Partition.compute points (Graph.ofEdges (← w.edges))
    (fun slot => (w.store.slot slot).flags.kinematic) w.config.maxIslands

/-- The place of each slot in its island. A slot outside all islands has a place past the end of
every one. -/
def placesIn (slotCount : Nat) (partition : Partition) : Array Nat :=
  partition.islands.foldl
    (fun places island =>
      island.zipIdx.foldl (fun places (slot, place) => places.setIfInBounds slot place) places)
    (Array.replicate slotCount slotCount)

/-- The tethers whose tips lie in an island, by cluster. -/
def tethersOf (w : World S) (partition : Partition) (place : Nat → Nat) (island : Nat) :
    List (ProxyId × TetherSet S) :=
  w.clusters.toList.filterMap fun (proxy, c) =>
    let held := c.tethers.filter (partition.islandOf? ·.tip == some island)
    if held.isEmpty then none
    else
      let batches := TetherBatches.ofTethers (held.map (·.relabel place)) c.stiffness
      some (proxy, .ofBatches w.config.tether.solver batches)

/-- The joints whose first particle lies in an island. -/
def jointsOf (w : World S) (partition : Partition) (place : Nat → Nat) (island : Nat) :
    List (ProxyId × Joint S) :=
  (w.joints.toList.filter (partition.islandOf? ·.2.first.index == some island)).map
    fun (proxy, j) =>
      (proxy, .create (place j.first.index) (place j.second.index) j.restLength j.compliance)

/-- The suspensions whose particle lies in an island. -/
def suspensionsOf (w : World S) (partition : Partition) (place : Nat → Nat) (island : Nat) :
    List (ProxyId × Suspension S) :=
  (w.suspensions.toList.filter (partition.islandOf? ·.2.particle.index == some island)).map
    fun (proxy, s) =>
      (proxy, .create (place s.particle.index) s.target s.restLength s.compliance)

/-- The workspace of an island, before any step. -/
def workspaceOf (w : World S) (partition : Partition) (place : Nat → Nat)
    (slots : List Nat) (island : Nat) : Workspace S where
  particles := slots.toArray
  tethers := w.tethersOf partition place island
  joints := w.jointsOf partition place island
  suspensions := w.suspensionsOf partition place island

/-- One workspace for each island. -/
def workspacesOf (w : World S) (partition : Partition) : Array (Workspace S) :=
  let places := placesIn w.store.slotCount partition
  partition.islands.mapIdx fun island slots =>
    w.workspaceOf partition (places.getD · w.store.slotCount) slots island

/-- Rebuilds tethers, islands and workspaces. -/
def rebuild (w : World S) : Except Fault (World S) := do
  let w ← layTethers { w with topologyDirty := false }
  let w := w.dropDangling
  let partition ← w.computePartition
  return { w with partition, workspaces := w.workspacesOf partition }

/-- Rebuilds what follows from the topology, if it has changed. -/
def refresh (w : World S) : Except Fault (World S) :=
  if w.topologyDirty then w.rebuild else .ok w

end World

end TetheredParticles
