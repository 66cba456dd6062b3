import TetheredParticles.Proofs.Particle.Columns
import TetheredParticles.World.Delta
/-!
# Deltas applied in place

A world that is changed in place could be left half changed by a delta that is given up. Here every
change is made as soon as it can be, field by field, and nothing is ever taken back. It comes to the
same as deciding first and changing afterwards: a delta is dropped only before its first change,
except that the destruction of what is not known forgets the force under its name.

* `World.InPlace.applyDelta` — a delta applied in place.
* `World.InPlace.applyDelta_eq` — the outcome is the same.
-/

namespace TetheredParticles

variable {S : Type} [Scalar S]

namespace World

/-! ## Changes in place -/

namespace InPlace

/-- Writes to a particle, if there is one, and marks it then. -/
def write (particle : ParticleHandle) (change : ParticleSlot S → ParticleSlot S) :
    StateM (World S) Bool := do
  if (← get).store.contains particle then
    modify fun w => { w with store := w.store.modify particle.index change }
    modify fun w => { w with store := w.store.modify particle.index (·.touched) }
    return true
  else return false

/-- Writes to a particle that belongs to a proxy. -/
def writeOwned (proxy : ProxyId) (particle : ParticleHandle)
    (change : ParticleSlot S → ParticleSlot S) : StateM (World S) Bool := do
  if (← get).owns proxy particle then write particle change else return false

/-- Changes the inverse mass of a particle. The topology is marked if its kind changes. -/
def setInverseMass (proxy : ProxyId) (particle : ParticleHandle) (inverseMass : S) :
    StateM (World S) Bool := do
  if (← get).owns proxy particle then
    let wasKinematic := (← get).store.isKinematic particle
    if ← write particle (·.withInverseMass inverseMass) then
      let changed := wasKinematic != (← get).store.isKinematic particle
      modify fun w => { w with topologyDirty := w.topologyDirty || changed }
      return true
    else return false
  else return false

/-- Changes the stiffness of a cluster, and of its tethers in every island. -/
def setTetherStiffness (proxy : ProxyId) (stiffness : S) : StateM (World S) Bool := do
  match (← get).clusters[proxy]? with
  | some cluster =>
    let stiffness := Scalar.clamp stiffness 0 1
    modify fun w => { w with clusters := w.clusters.insert proxy { cluster with stiffness } }
    modify fun w => { w with
      workspaces := w.workspaces.map fun ws =>
        { ws with tethers := patch proxy (·.withStiffness stiffness) ws.tethers } }
    return true
  | none => return false

/-- Moves the point that a suspension hangs from, and that of its copies. -/
def setSuspensionTarget (proxy : ProxyId) (handle : ConstraintHandle) (target : Vec3 S) :
    StateM (World S) Bool := do
  match (← get).suspensions[proxy]? with
  | some record =>
    if record.handle == handle then
      modify fun w => { w with suspensions := w.suspensions.insert proxy { record with target } }
      modify fun w => { w with
        workspaces := w.workspaces.map fun ws =>
          { ws with suspensions := patch proxy ({ · with target }) ws.suspensions } }
      return true
    else return false
  | none => return false

/-- Changes the distance that a joint keeps, and that of its copies. -/
def setJointRestLength (proxy : ProxyId) (handle : ConstraintHandle) (restLength : S) :
    StateM (World S) Bool := do
  match (← get).joints[proxy]? with
  | some record =>
    if record.handle == handle then
      let restLength := Scalar.maxNum restLength 0
      modify fun w => { w with joints := w.joints.insert proxy { record with restLength } }
      modify fun w => { w with
        workspaces := w.workspaces.map fun ws =>
          { ws with joints := patch proxy ({ · with restLength }) ws.joints } }
      return true
    else return false
  | none => return false

/-- Inserts the particles of a proxy one after the other, and lists them then. -/
def insertParticles (proxy : ProxyId) (handles : List ParticleHandle)
    (particles : List (Particle S)) : StateM (World S) Bool := do
  if handles.any ((← get).store.isAlive ·.index) then return false
  else
    (handles.zip particles).forM fun x =>
      modify fun w => { w with store := w.store.insert x.1 x.2 proxy }
    modify fun w => { w with members := w.members.insert proxy handles }
    return true

/-- Adds what a proxy consists of. -/
def addParts (proxy : ProxyId) : Creation S → StateM (World S) Bool
  | .particle handle particle => insertParticles proxy [handle] [particle]
  | .cluster handles particles adjacency stiffness => do
    if handles.length = particles.length then
      if ← insertParticles proxy handles particles then
        modify fun w => { w with
          clusters := w.clusters.insert proxy {
            particles := handles.toArray
            restPositions := (particles.map (·.position)).toArray
            adjacency := adjacency
            stiffness := Scalar.clamp stiffness 0 1
            tethers := [] } }
        return true
      else return false
    else return false
  | .joint handle first second restLength compliance => do
    if (← get).store.contains first && (← get).store.contains second then
      modify fun w => { w with
        joints := w.joints.insert proxy { handle, first, second, restLength, compliance } }
      return true
    else return false
  | .suspension handle particle target restLength compliance => do
    if (← get).store.contains particle then
      modify fun w => { w with
        suspensions :=
          w.suspensions.insert proxy { handle, particle, target, restLength, compliance } }
      return true
    else return false

/-- Makes a proxy known, and marks the topology then. -/
def create (proxy : ProxyId) (creation : Creation S) : StateM (World S) Bool := do
  if (← get).knows proxy then return false
  else if ← addParts proxy creation then
    modify fun w => { w with topologyDirty := true }
    return true
  else return false

/-- Takes away what a proxy consists of, first of all its list of particles. -/
def remove (proxy : ProxyId) : StateM (World S) Bool := do
  match (← get).members[proxy]? with
  | some handles =>
    modify fun w => { w with members := w.members.erase proxy }
    handles.forM fun h => modify fun w => { w with store := w.store.remove h }
    modify fun w => { w with clusters := w.clusters.erase proxy }
    return true
  | none =>
    if (← get).joints.contains proxy then
      modify fun w => { w with joints := w.joints.erase proxy }
      return true
    else if (← get).suspensions.contains proxy then
      modify fun w => { w with suspensions := w.suspensions.erase proxy }
      return true
    else return false

/-- Forgets a proxy and the force under its name. -/
def destroy (proxy : ProxyId) : StateM (World S) Bool := do
  let removed ← remove proxy
  modify fun w => { w with forces := w.forces.erase proxy }
  modify fun w => { w with topologyDirty := w.topologyDirty || removed }
  return removed

/-- Carries out a command addressed to a proxy. -/
def applyCommand (proxy : ProxyId) : Command S → StateM (World S) Bool
  | .create creation => create proxy creation
  | .destroy => destroy proxy
  | .setPosition particle position =>
    writeOwned proxy particle fun s => { s with position := position, predicted := position }
  | .setVelocity particle velocity =>
    writeOwned proxy particle fun s => { s with velocity := velocity }
  | .setKinematicTarget particle target =>
    writeOwned proxy particle fun s => { s with target := some target }
  | .addForce particle force => writeOwned proxy particle fun s => { s with force := s.force + force }
  | .setInverseMass particle inverseMass => setInverseMass proxy particle inverseMass
  | .setTetherStiffness stiffness => setTetherStiffness proxy stiffness
  | .setSuspensionTarget handle target => setSuspensionTarget proxy handle target
  | .setJointRestLength handle restLength => setJointRestLength proxy handle restLength

/-- Applies a delta and remembers its proxy, unless it has been given up. -/
def applyDelta (delta : Delta S) : StateM (World S) Bool := do
  let applied ← applyCommand delta.proxy delta.command
  if applied then modify fun w => { w with touched := w.touched.insert delta.proxy }
  return applied

/-! ## The same outcome -/

section Runs

variable {A B : Type} (w : World S)

omit [Scalar S] in
theorem run_bind (x : StateM (World S) A) (f : A → StateM (World S) B) :
    (x >>= f) w = f (x w).1 (x w).2 := rfl

omit [Scalar S] in
theorem run_get_bind (f : World S → StateM (World S) B) :
    ((get : StateM (World S) (World S)) >>= f) w = f w w := rfl

omit [Scalar S] in
theorem run_ite (c : Prop) [Decidable c] (x y : StateM (World S) A) :
    (if c then x else y) w = if c then x w else y w := by
  split
  · rfl
  · rfl

omit [Scalar S] in
/-- Changes of the store, made one after the other. -/
theorem run_forM_store (change : A → ParticleStore S → ParticleStore S) (xs : List A) :
    (xs.forM fun x =>
        (modify fun w => { w with store := change x w.store } : StateM (World S) PUnit)) w =
      (⟨⟩, { w with store := xs.foldl (fun store x => change x store) w.store }) := by
  induction xs generalizing w with
  | nil => rfl
  | cons x rest ih => exact ih { w with store := change x w.store }

end Runs

theorem write_eq (particle : ParticleHandle) (change : ParticleSlot S → ParticleSlot S)
    (w : World S) : write particle change w =
      w.accept ((w.store.write? particle change).map ({ w with store := · })) := by
  have hmodify : (w.store.modify particle.index change).modify particle.index .touched =
      { w.store with slots := w.store.slots.modify particle.index fun s => (change s).touched } :=
    congrArg (ParticleStore.mk · w.store.aliveCount)
      (ParticleStore.modify_eq_modify_modify change .touched).symm
  unfold write ParticleStore.write?
  simp only [run_get_bind, run_ite]
  split
  · exact congrArg (fun store => (true, { w with store })) hmodify
  · rfl

theorem writeOwned_eq (proxy : ProxyId) (particle : ParticleHandle)
    (change : ParticleSlot S → ParticleSlot S) (w : World S) :
    writeOwned proxy particle change w =
      w.accept (w.writeParticle? proxy particle (·.write? particle change)) := by
  unfold writeOwned writeParticle?
  simp only [run_get_bind, run_ite]
  split
  · exact write_eq particle change w
  · rfl

theorem setInverseMass_eq (proxy : ProxyId) (particle : ParticleHandle) (inverseMass : S)
    (w : World S) : setInverseMass proxy particle inverseMass w =
      w.accept (w.setInverseMass? proxy particle inverseMass) := by
  unfold setInverseMass setInverseMass? writeParticle? ParticleStore.setInverseMass?
  simp only [run_get_bind, run_ite]
  split
  · rw [run_bind, write_eq]
    cases w.store.write? particle (·.withInverseMass inverseMass) with
    | none => rfl
    | some store => rfl
  · rfl

theorem setTetherStiffness_eq (proxy : ProxyId) (stiffness : S) (w : World S) :
    setTetherStiffness proxy stiffness w = w.accept (w.setTetherStiffness? proxy stiffness) := by
  unfold setTetherStiffness setTetherStiffness?
  simp only [run_get_bind]
  cases w.clusters[proxy]? with
  | none => rfl
  | some cluster => rfl

omit [Scalar S] in
theorem setSuspensionTarget_eq (proxy : ProxyId) (handle : ConstraintHandle) (target : Vec3 S)
    (w : World S) : setSuspensionTarget proxy handle target w =
      w.accept (w.setSuspensionTarget? proxy handle target) := by
  unfold setSuspensionTarget setSuspensionTarget?
  simp only [run_get_bind]
  cases w.suspensions[proxy]? with
  | none => rfl
  | some record =>
    simp only [run_ite, Option.filter_some]
    split
    · rfl
    · rfl

theorem setJointRestLength_eq (proxy : ProxyId) (handle : ConstraintHandle) (restLength : S)
    (w : World S) : setJointRestLength proxy handle restLength w =
      w.accept (w.setJointRestLength? proxy handle restLength) := by
  unfold setJointRestLength setJointRestLength?
  simp only [run_get_bind]
  cases w.joints[proxy]? with
  | none => rfl
  | some record =>
    simp only [run_ite, Option.filter_some]
    split
    · rfl
    · rfl

theorem insertParticles_eq (proxy : ProxyId) (handles : List ParticleHandle)
    (particles : List (Particle S)) (w : World S) :
    insertParticles proxy handles particles w =
      w.accept (w.insertParticles? proxy handles particles) := by
  unfold insertParticles insertParticles?
  simp only [run_get_bind, run_ite]
  split
  · rfl
  · rw [run_bind, run_forM_store w fun (x : ParticleHandle × Particle S) store =>
      store.insert x.1 x.2 proxy]
    rfl

theorem addParts_eq (proxy : ProxyId) (creation : Creation S) (w : World S) :
    addParts proxy creation w = w.accept (w.addParts? proxy creation) := by
  cases creation with
  | particle handle particle => exact insertParticles_eq proxy _ _ w
  | cluster handles particles adjacency stiffness =>
    unfold addParts addParts?
    simp only [run_ite]
    split
    · rw [run_bind, insertParticles_eq]
      cases w.insertParticles? proxy handles particles with
      | none => rfl
      | some inserted => rfl
    · rfl
  | joint handle first second restLength compliance =>
    unfold addParts addParts?
    simp only [run_get_bind, run_ite]
    split
    · rfl
    · rfl
  | suspension handle particle target restLength compliance =>
    unfold addParts addParts?
    simp only [run_get_bind, run_ite]
    split
    · rfl
    · rfl

theorem create_eq (proxy : ProxyId) (creation : Creation S) (w : World S) :
    create proxy creation w = w.accept (w.create? proxy creation) := by
  unfold create create?
  simp only [run_get_bind, run_ite]
  split
  · rfl
  · rw [run_bind, addParts_eq]
    cases w.addParts? proxy creation with
    | none => rfl
    | some parts => rfl

theorem remove_eq (proxy : ProxyId) (w : World S) :
    remove proxy w = w.accept (w.remove? proxy) := by
  unfold remove remove?
  simp only [run_get_bind]
  cases w.members[proxy]? with
  | some handles =>
    dsimp only
    rw [run_bind, run_bind, run_forM_store _ fun h store => store.remove h]
    rfl
  | none =>
    simp only [run_get_bind, run_ite]
    split
    · rfl
    · split
      · rfl
      · rfl

theorem destroy_eq (proxy : ProxyId) (w : World S) : destroy proxy w = w.destroy proxy := by
  unfold destroy World.destroy
  rw [run_bind, remove_eq]
  cases hremoved : w.remove? proxy with
  | none =>
    change (false, { w with
      forces := w.forces.erase proxy, topologyDirty := w.topologyDirty || false }) = _
    rw [Bool.or_false]
  | some after =>
    have hforces : after.forces = w.forces := by
      unfold remove? at hremoved
      split at hremoved
      · cases hremoved
        rfl
      · split at hremoved
        · cases hremoved
          rfl
        · split at hremoved
          · cases hremoved
            rfl
          · cases hremoved
    change (true, { after with
      forces := after.forces.erase proxy, topologyDirty := after.topologyDirty || true }) = _
    rw [Bool.or_true, hforces]

theorem applyCommand_eq (proxy : ProxyId) (command : Command S) (w : World S) :
    applyCommand proxy command w = w.applyCommand proxy command := by
  cases command with
  | create creation => exact create_eq proxy creation w
  | destroy => exact destroy_eq proxy w
  | setPosition particle position => exact writeOwned_eq proxy particle _ w
  | setVelocity particle velocity => exact writeOwned_eq proxy particle _ w
  | setKinematicTarget particle target => exact writeOwned_eq proxy particle _ w
  | addForce particle force => exact writeOwned_eq proxy particle _ w
  | setInverseMass particle inverseMass => exact setInverseMass_eq proxy particle inverseMass w
  | setTetherStiffness stiffness => exact setTetherStiffness_eq proxy stiffness w
  | setSuspensionTarget handle target => exact setSuspensionTarget_eq proxy handle target w
  | setJointRestLength handle restLength => exact setJointRestLength_eq proxy handle restLength w

/-- A delta that is applied in place has the outcome of one that is decided about first. -/
theorem applyDelta_eq (delta : Delta S) (w : World S) : applyDelta delta w = w.applyDelta delta := by
  unfold applyDelta World.applyDelta
  rw [run_bind, applyCommand_eq]
  rcases w.applyCommand delta.proxy delta.command with ⟨applied, after⟩
  cases applied with
  | true => rfl
  | false => rfl

end InPlace

end World

end TetheredParticles
