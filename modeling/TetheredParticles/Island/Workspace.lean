import TetheredParticles.Handle
import TetheredParticles.Particle.Store
import TetheredParticles.Tether.Projection
import TetheredParticles.Joint
import TetheredParticles.Suspension
/-!
# Solving one island

A workspace holds the constraints of one island and a copy of its particles. It gathers predicted
positions, projects all constraints on the copy for a number of passes, and then runs rigid tether
passes whose corrections are kept apart from the solved positions.

* `gather`, `solve`, `pushOut` — the three stages, in this order.
* `solved`, `positions` — where the particles are before and after the rigid passes.
* `constraintForces` — the forces of joints and suspensions.

Constraints name particles by their place in the island.
-/

namespace TetheredParticles

/-- Repeats an action that can fail. -/
def repeatAction {α : Type} (action : α → Except Fault α) : Nat → α → Except Fault α
  | 0, a => .ok a
  | n + 1, a => do repeatAction action n (← action a)

/-- Visits constraints in order; each may change itself and the positions. -/
def visitOwned {C P : Type} (visit : C → P → Except Fault (C × P)) :
    List (ProxyId × C) → P → Except Fault (List (ProxyId × C) × P)
  | [], positions => .ok ([], positions)
  | (owner, c) :: rest, positions => do
    let (c, positions) ← visit c positions
    let (others, positions) ← visitOwned visit rest positions
    return ((owner, c) :: others, positions)

/-- The constraints of an island and a copy of its particles. -/
structure Workspace (S : Type) where
  /-- The slots of the island's particles, ascending. -/
  particles : Array Nat
  tethers : List (ProxyId × TetherSet S) := []
  joints : List (ProxyId × Joint S) := []
  suspensions : List (ProxyId × Suspension S) := []
  /-- Where the particles are, after the rigid passes in the end. -/
  positions : Array (Vec3 S) := #[]
  inverseMasses : Array S := #[]
  /-- Where the particles were before the rigid passes. -/
  solved : Array (Vec3 S) := #[]
deriving Repr

namespace Workspace

variable {S : Type} [Scalar S]

/-- How many tethers the island has. -/
def tetherCount (w : Workspace S) : Nat := (w.tethers.map (·.2.batches.size)).foldr (· + ·) 0

/-- Copies predicted positions and inverse masses. -/
def gather (w : Workspace S) (store : ParticleStore S) : Workspace S :=
  { w with
    positions := w.particles.map fun slot => (store.slot slot).predicted
    inverseMasses := w.particles.map fun slot => (store.slot slot).inverseMass }

/-- All constraints with their multipliers reset, so that nothing carries over from the last
step. -/
def restart (w : Workspace S) : Workspace S :=
  { w with
    tethers := w.tethers.map fun (owner, set) => (owner, set.restart)
    joints := w.joints.map fun (owner, joint) => (owner, joint.restart)
    suspensions := w.suspensions.map fun (owner, suspension) => (owner, suspension.restart) }

/-- One projection of every tether. -/
def applyTethers (w : Workspace S) (dt : S) (schedule : Schedule) :
    Except Fault (Workspace S) := do
  let (tethers, positions) ← visitOwned
    (fun set positions => set.apply dt schedule w.inverseMasses positions) w.tethers w.positions
  return { w with tethers, positions }

/-- One projection of every joint, then of every suspension. -/
def solveJoints (w : Workspace S) (dt : S) : Except Fault (Workspace S) := do
  let (joints, positions) ← visitOwned (fun j ps => j.solve w.inverseMasses dt ps)
    w.joints w.positions
  let (suspensions, positions) ← visitOwned (fun s ps => s.solve w.inverseMasses dt ps)
    w.suspensions positions
  return { w with joints, suspensions, positions }

/-- One pass: the tethers once, then joints and suspensions several times. -/
def pass (config : Config S) (dt : S) (schedule : Schedule) (w : Workspace S) :
    Except Fault (Workspace S) := do
  let w ← w.applyTethers dt schedule
  repeatAction (·.solveJoints dt) config.jointIterations.toNat w

/-- All projection passes. -/
def solve (w : Workspace S) (config : Config S) (dt : S) (schedule : Schedule) :
    Except Fault (Workspace S) := do
  let w ← repeatAction (pass config dt schedule) config.positionIterations.toNat w.restart
  return { w with solved := w.positions }

/-- One rigid pass over every tether. -/
def rigidPass (schedule : Schedule) (w : Workspace S) : Except Fault (Workspace S) := do
  let positions ← w.tethers.foldlM
    (fun positions (_, set) => set.applyRigid schedule w.inverseMasses positions) w.positions
  return { w with positions }

/-- The rigid passes, which leave the solved positions alone. -/
def pushOut (w : Workspace S) (iterations : UInt32) (schedule : Schedule) :
    Except Fault (Workspace S) :=
  repeatAction (rigidPass schedule) iterations.toNat w

/-- The forces of all joints, then of all suspensions. -/
def constraintForces (w : Workspace S) (dt : S) : List (ProxyId × Vec3 S) :=
  w.joints.map (fun (owner, joint) => (owner, joint.force dt)) ++
    w.suspensions.map fun (owner, suspension) => (owner, suspension.force dt)

end Workspace

end TetheredParticles
