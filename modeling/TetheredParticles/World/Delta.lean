import TetheredParticles.World
/-!
# Applying deltas

A delta changes the world or is dropped, because it refers to something that does not exist or does
not belong to the proxy it is addressed to.

* `World.create?`, `World.destroy` — making a proxy known and forgetting it.
* `World.applyDelta` — one delta, and whether it was applied.
* `World.applyDeltas` — all deltas of a snapshot in order, and how many were dropped.
-/

namespace TetheredParticles

namespace World

variable {S : Type} [Scalar S]

/-- Adds the particles of a proxy, if none of their slots is occupied. -/
def insertParticles? (w : World S) (proxy : ProxyId) (handles : List ParticleHandle)
    (particles : List (Particle S)) : Option (World S) :=
  if handles.any (w.store.isAlive ·.index) then none
  else some { w with
    store := (handles.zip particles).foldl (fun store (h, p) => store.insert h p proxy) w.store
    members := w.members.insert proxy handles }

/-- Adds what a proxy consists of. The particles of a constraint have to exist. -/
def addParts? (w : World S) (proxy : ProxyId) : Creation S → Option (World S)
  | .particle handle particle => w.insertParticles? proxy [handle] [particle]
  | .cluster handles particles adjacency stiffness =>
    if handles.length = particles.length then
      (w.insertParticles? proxy handles particles).map fun w =>
        { w with
          clusters := w.clusters.insert proxy {
            particles := handles.toArray
            restPositions := (particles.map (·.position)).toArray
            adjacency := adjacency
            stiffness := Scalar.clamp stiffness 0 1
            tethers := [] } }
    else none
  | .joint handle first second restLength compliance =>
    if w.store.contains first && w.store.contains second then
      some { w with
        joints := w.joints.insert proxy { handle, first, second, restLength, compliance } }
    else none
  | .suspension handle particle target restLength compliance =>
    if w.store.contains particle then
      some { w with
        suspensions :=
          w.suspensions.insert proxy { handle, particle, target, restLength, compliance } }
    else none

/-- Makes a proxy known, unless it is known already. -/
def create? (w : World S) (proxy : ProxyId) (creation : Creation S) : Option (World S) :=
  if w.knows proxy then none
  else (w.addParts? proxy creation).map ({ · with topologyDirty := true })

/-- Removes what a proxy consists of. -/
def remove? (w : World S) (proxy : ProxyId) : Option (World S) :=
  match w.members[proxy]? with
  | some handles =>
    some { w with
      store := handles.foldl (fun store h => store.remove h) w.store
      members := w.members.erase proxy
      clusters := w.clusters.erase proxy }
  | none =>
    if w.joints.contains proxy then some { w with joints := w.joints.erase proxy }
    else if w.suspensions.contains proxy then
      some { w with suspensions := w.suspensions.erase proxy }
    else none

/-- Forgets a proxy, and in any case the force under its name. -/
def destroy (w : World S) (proxy : ProxyId) : Bool × World S :=
  let forgotten := w.forces.erase proxy
  match w.remove? proxy with
  | some w => (true, { w with forces := forgotten, topologyDirty := true })
  | none => (false, { w with forces := forgotten })

/-- Writes to a particle of a proxy. -/
def writeParticle? (w : World S) (proxy : ProxyId) (particle : ParticleHandle)
    (write : ParticleStore S → Option (ParticleStore S)) : Option (World S) :=
  if w.owns proxy particle then (write w.store).map ({ w with store := · }) else none

/-- Changes the inverse mass of a particle. If it becomes kinematic or stops being so, anchors and
islands change. -/
def setInverseMass? (w : World S) (proxy : ProxyId) (particle : ParticleHandle)
    (inverseMass : S) : Option (World S) :=
  (w.writeParticle? proxy particle (·.setInverseMass? particle inverseMass)).map fun after =>
    { after with
      topologyDirty := after.topologyDirty ||
        w.store.isKinematic particle != after.store.isKinematic particle }

/-- Changes the workspaces' copies of the constraints of a proxy. -/
def patch {C : Type} (proxy : ProxyId) (change : C → C) (owned : List (ProxyId × C)) :
    List (ProxyId × C) :=
  owned.map fun (owner, c) => (owner, if owner = proxy then change c else c)

/-- Changes the stiffness of a cluster's tethers. -/
def setTetherStiffness? (w : World S) (proxy : ProxyId) (stiffness : S) : Option (World S) :=
  let stiffness := Scalar.clamp stiffness 0 1
  w.clusters[proxy]?.map fun cluster =>
    { w with
      clusters := w.clusters.insert proxy { cluster with stiffness }
      workspaces := w.workspaces.map fun ws =>
        { ws with tethers := patch proxy (·.withStiffness stiffness) ws.tethers } }

/-- Moves the point that a suspension hangs from. -/
def setSuspensionTarget? (w : World S) (proxy : ProxyId) (handle : ConstraintHandle)
    (target : Vec3 S) : Option (World S) :=
  (w.suspensions[proxy]?.filter (·.handle == handle)).map fun record =>
    { w with
      suspensions := w.suspensions.insert proxy { record with target }
      workspaces := w.workspaces.map fun ws =>
        { ws with suspensions := patch proxy ({ · with target }) ws.suspensions } }

/-- Changes the distance that a joint keeps; a negative one counts as zero. -/
def setJointRestLength? (w : World S) (proxy : ProxyId) (handle : ConstraintHandle)
    (restLength : S) : Option (World S) :=
  let restLength := Scalar.maxNum restLength 0
  (w.joints[proxy]?.filter (·.handle == handle)).map fun record =>
    { w with
      joints := w.joints.insert proxy { record with restLength }
      workspaces := w.workspaces.map fun ws =>
        { ws with joints := patch proxy ({ · with restLength }) ws.joints } }

/-- The world a write leads to; without one the write is dropped. -/
def accept (w : World S) : Option (World S) → Bool × World S
  | some after => (true, after)
  | none => (false, w)

/-- Applies a command addressed to a proxy. -/
def applyCommand (w : World S) (proxy : ProxyId) : Command S → Bool × World S
  | .create creation => w.accept (w.create? proxy creation)
  | .destroy => w.destroy proxy
  | .setPosition particle position =>
    w.accept (w.writeParticle? proxy particle (·.setPosition? particle position))
  | .setVelocity particle velocity =>
    w.accept (w.writeParticle? proxy particle (·.setVelocity? particle velocity))
  | .setKinematicTarget particle target =>
    w.accept (w.writeParticle? proxy particle (·.setTarget? particle target))
  | .addForce particle force =>
    w.accept (w.writeParticle? proxy particle (·.addForce? particle force))
  | .setInverseMass particle inverseMass =>
    w.accept (w.setInverseMass? proxy particle inverseMass)
  | .setTetherStiffness stiffness => w.accept (w.setTetherStiffness? proxy stiffness)
  | .setSuspensionTarget handle target => w.accept (w.setSuspensionTarget? proxy handle target)
  | .setJointRestLength handle restLength =>
    w.accept (w.setJointRestLength? proxy handle restLength)

/-- Applies a delta and remembers its proxy, or drops it. -/
def applyDelta (w : World S) (delta : Delta S) : Bool × World S :=
  match w.applyCommand delta.proxy delta.command with
  | (true, w) => (true, { w with touched := w.touched.insert delta.proxy })
  | (false, w) => (false, w)

/-- Applies deltas in order and counts the dropped ones. -/
def applyDeltas (w : World S) (deltas : List (Delta S)) : Nat × World S :=
  deltas.foldl
    (fun (dropped, w) delta =>
      match w.applyDelta delta with
      | (true, w) => (dropped, w)
      | (false, w) => (dropped + 1, w))
    (0, w)

end World

end TetheredParticles
