import TetheredParticles.World.Delta
import TetheredParticles.World.Topology
import TetheredParticles.Integration
/-!
# A step of the world

A step applies the deltas of a push snapshot, rebuilds the topology if it has changed, moves the
world if the step has a positive size, and answers with a pull snapshot of the same number.

* `World.move` — prediction, projection, rigid passes, and the new positions and velocities.
* `World.results` — what the step has to tell about each proxy.
* `World.step` — all of it, together with what hooks get to see on the way.
-/

namespace TetheredParticles

/-- What hooks are told about a step. -/
structure StepInfo (S T : Type) where
  timestamp : Timestamp
  startTime : T
  dt : S
  step : UInt32
  stepCount : UInt32
  /-- How many passes a collision hook should run. -/
  collisionIterations : UInt32
  /-- Beyond this distance a collision hook may ignore contacts. -/
  cullDistance : S

/-- A step that has been run. -/
structure StepOutcome (S T : Type) where
  world : World S
  pull : PullSnapshot S T
  info : StepInfo S T
  /-- The particles once deltas are applied and before they move. -/
  storeBefore : ParticleStore S
  /-- The particles once they have moved and before step data are cleared. -/
  storeAfter : ParticleStore S

namespace World

variable {S T : Type} [Scalar S] [Scalar T] [Timeline S T]

/-- Gathers, solves and pushes out one island. -/
def solveIsland (config : Config S) (store : ParticleStore S) (dt : S) (w : Workspace S) :
    Except Fault (Workspace S) := do
  let w ← (w.gather store).solve config dt .serial
  w.pushOut config.pushOutIterations .serial

/-- Writes the positions of an island back. Velocities come from the positions before the rigid
passes. -/
def scatter (dt : S) (store : ParticleStore S) (w : Workspace S) : ParticleStore S :=
  w.particles.toList.zipIdx.foldl
    (fun store (slot, place) =>
      store.modify slot fun s =>
        let final := w.positions.getD place 0
        { s with
          velocity := Integration.meanVelocity s.position (w.solved.getD place 0) dt
          position := final
          predicted := final })
    store

/-- Moves the world by a step of positive size. -/
def move (w : World S) (dt : S) : Except Fault (World S) := do
  let store := w.store.predict w.config.gravity w.config.linearDamping dt
  let workspaces ← w.workspaces.mapM (solveIsland w.config store dt)
  return { w with
    workspaces
    store := workspaces.foldl (scatter dt) store
    forces := workspaces.foldl
      (fun forces ws => (ws.constraintForces dt).foldl (fun f (p, v) => f.insert p v) forces)
      w.forces }

/-- Whether a particle is to be told about: it was written to, or the step moved it. -/
def changed (w : World S) (moved : Bool) (particle : ParticleHandle) : Bool :=
  match w.store.get? particle with
  | none => false
  | some s => moved && (!s.flags.kinematic || !(s.velocity == 0)) || s.flags.dirty

/-- The result of a particle or cluster. -/
def particleResult (w : World S) (proxy : ProxyId) (handles : List ParticleHandle) :
    ProxyResult S where
  proxy := proxy
  data := .particles
    (handles.map fun h => (w.store.slot h.index).position).toArray
    (handles.map fun h => (w.store.slot h.index).velocity).toArray

/-- The result of a joint or suspension. -/
def constraintResult (w : World S) (proxy : ProxyId) : ProxyResult S :=
  ⟨proxy, .constraint (w.forces.getD proxy 0)⟩

/-- The results of a step, ordered by proxy. A step that moved tells about every particle or
cluster that can have moved and about every constraint; any step tells about what was touched. -/
def results (w : World S) (moved : Bool) : List (ProxyResult S) :=
  let ofMembers := (w.members.toList.filter fun (proxy, handles) =>
    w.touched.contains proxy || handles.any (w.changed moved)).map
      fun (proxy, handles) => w.particleResult proxy handles
  let ofConstraints := ((w.joints.keys ++ w.suspensions.keys).filter fun proxy =>
    moved || w.touched.contains proxy).map w.constraintResult
  (ofMembers ++ ofConstraints).mergeSort fun a b => (compare a.proxy b.proxy).isLE

/-- How many tethers the islands hold. -/
def tetherCount (w : World S) : Nat :=
  (w.workspaces.toList.map (·.tetherCount)).foldr (· + ·) 0

/-- What hooks are told about the step of a snapshot. -/
def info (w : World S) (snapshot : PushSnapshot S T) : StepInfo S T where
  timestamp := snapshot.timestamp
  startTime := snapshot.startTime
  dt := snapshot.dt
  step := snapshot.step
  stepCount := snapshot.stepCount
  collisionIterations := w.config.collisionIterations
  cullDistance := w.config.cullDistance

/-- The deltas and the topology stage of a step: the number of dropped deltas, and the world that
is about to move. -/
def prepare (w : World S) (deltas : List (Delta S)) : Except Fault (Nat × World S) := do
  let (dropped, w) := applyDeltas { w with touched := ∅ } deltas
  return (dropped, ← w.refresh)

/-- Runs one step. -/
def step (w : World S) (snapshot : PushSnapshot S T) : Except Fault (StepOutcome S T) := do
  let (dropped, before) ← w.prepare snapshot.deltas
  let moved : Bool := 0 < snapshot.dt
  let after ← if moved then before.move snapshot.dt else .ok before
  let pull : PullSnapshot S T := {
    timestamp := snapshot.timestamp
    startTime := snapshot.startTime
    endTime := snapshot.startTime + Timeline.widen snapshot.dt
    results := after.results moved
    counts := { islands := after.workspaces.size, tethers := after.tetherCount, dropped } }
  return {
    world := { after with store := after.store.clearStepData, latest := snapshot.timestamp }
    pull
    info := before.info snapshot
    storeBefore := before.store
    storeAfter := after.store }

end World

end TetheredParticles
