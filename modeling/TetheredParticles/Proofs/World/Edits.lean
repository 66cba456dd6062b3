import TetheredParticles.Proofs.Roster
import TetheredParticles.Proofs.World.Step
/-!
# What a delta leaves as it is

Only the creation and the destruction of a proxy change what exists. Every other delta edits what
is there: a particle, or the settings of a constraint. A creation adds what it describes, and a
destruction takes away what belongs to its proxy.

* `World.Edited` — everything that stays the same when something is edited.
* `World.edited_applyCommand` — all writes but two are edits.
* `World.alive_of_insertParticles`, `World.alive_of_remove` — which slots can be occupied after a
  creation or a destruction.
-/

namespace TetheredParticles

variable {S : Type} [Scalar S]

namespace World

/-- The same proxies with the same particles and handles, in the same slots. -/
structure Edited (w after : World S) : Prop where
  config : after.config = w.config
  latest : after.latest = w.latest
  members : after.members = w.members
  alive : ∀ i, after.store.isAlive i = w.store.isAlive i
  owner : ∀ i, (after.store.slot i).owner = (w.store.slot i).owner
  generation : ∀ i, (after.store.slot i).generation = (w.store.slot i).generation
  clusters : ∀ proxy : ProxyId, after.clusters[proxy]?.map (·.particles) =
    w.clusters[proxy]?.map (·.particles)
  joints : ∀ proxy : ProxyId, after.joints[proxy]?.map (fun j => (j.handle, j.first, j.second)) =
    w.joints[proxy]?.map (fun j => (j.handle, j.first, j.second))
  suspensions : ∀ proxy : ProxyId, after.suspensions[proxy]?.map (fun s => (s.handle, s.particle)) =
    w.suspensions[proxy]?.map (fun s => (s.handle, s.particle))

theorem Edited.refl (w : World S) : w.Edited w :=
  ⟨rfl, rfl, rfl, fun _ => rfl, fun _ => rfl, fun _ => rfl, fun _ => rfl, fun _ => rfl, fun _ => rfl⟩

/-- The handles that name particles of the world stay the same. -/
theorem Edited.contains {w after : World S} (h : w.Edited after) (handle : ParticleHandle) :
    after.store.contains handle = w.store.contains handle := by
  unfold ParticleStore.contains
  rw [h.alive, h.generation]

/-! ## Edits -/

/-- Another record in the place of one that agrees with it where it matters. -/
theorem map_insert_existing {R C : Type} {m : Std.TreeMap ProxyId R} {proxy : ProxyId} {r s : R}
    (h : m[proxy]? = some r) (view : R → C) (hview : view s = view r) (owner : ProxyId) :
    (m.insert proxy s)[owner]?.map view = m[owner]?.map view := by
  rw [Maps.getElem?_insert]
  split
  case isTrue ho => rw [ho, h, Option.map_some, Option.map_some, hview]
  case isFalse => rfl

theorem edited_write {w after : World S} {proxy : ProxyId} {particle : ParticleHandle}
    {change : ParticleSlot S → ParticleSlot S}
    (hw : w.writeParticle? proxy particle (·.write? particle change) = some after)
    (hchange : ∀ s, (change s).flags.alive = s.flags.alive ∧ (change s).owner = s.owner ∧
      (change s).generation = s.generation) : w.Edited after := by
  unfold writeParticle? at hw
  split at hw
  case isFalse => cases hw
  case isTrue =>
    obtain ⟨store, hstore, rfl⟩ := Option.map_eq_some_iff.mp hw
    obtain ⟨_, _, hslot⟩ := ParticleStore.slot_of_write hstore
    have hkeep : ∀ i, (store.slot i).flags.alive = (w.store.slot i).flags.alive ∧
        (store.slot i).owner = (w.store.slot i).owner ∧
        (store.slot i).generation = (w.store.slot i).generation := by
      intro i
      rw [hslot]
      split
      · exact hchange _
      · exact ⟨rfl, rfl, rfl⟩
    exact ⟨rfl, rfl, rfl, fun i => (hkeep i).1, fun i => (hkeep i).2.1, fun i => (hkeep i).2.2,
      fun _ => rfl, fun _ => rfl, fun _ => rfl⟩

theorem edited_setInverseMass {w after : World S} {proxy : ProxyId} {particle : ParticleHandle}
    {inverseMass : S} (hw : w.setInverseMass? proxy particle inverseMass = some after) :
    w.Edited after := by
  unfold setInverseMass? at hw
  obtain ⟨changed, hchanged, rfl⟩ := Option.map_eq_some_iff.mp hw
  have hedited : w.Edited changed := edited_write hchanged fun _ => ⟨rfl, rfl, rfl⟩
  exact ⟨hedited.config, hedited.latest, hedited.members, hedited.alive, hedited.owner,
    hedited.generation, hedited.clusters, hedited.joints, hedited.suspensions⟩

theorem edited_setTetherStiffness {w after : World S} {proxy : ProxyId} {stiffness : S}
    (hw : w.setTetherStiffness? proxy stiffness = some after) : w.Edited after := by
  unfold setTetherStiffness? at hw
  obtain ⟨c, hc, rfl⟩ := Option.map_eq_some_iff.mp hw
  exact ⟨rfl, rfl, rfl, fun _ => rfl, fun _ => rfl, fun _ => rfl,
    map_insert_existing hc _ (by rfl), fun _ => rfl, fun _ => rfl⟩

theorem edited_setJointRestLength {w after : World S} {proxy : ProxyId}
    {handle : ConstraintHandle} {restLength : S}
    (hw : w.setJointRestLength? proxy handle restLength = some after) : w.Edited after := by
  unfold setJointRestLength? at hw
  obtain ⟨j, hj, rfl⟩ := Option.map_eq_some_iff.mp hw
  exact ⟨rfl, rfl, rfl, fun _ => rfl, fun _ => rfl, fun _ => rfl, fun _ => rfl,
    map_insert_existing (Option.filter_eq_some_iff.mp hj).1 _ (by rfl), fun _ => rfl⟩

theorem edited_setSuspensionTarget {w after : World S} {proxy : ProxyId}
    {handle : ConstraintHandle} {target : Vec3 S}
    (hw : w.setSuspensionTarget? proxy handle target = some after) : w.Edited after := by
  unfold setSuspensionTarget? at hw
  obtain ⟨s, hs, rfl⟩ := Option.map_eq_some_iff.mp hw
  exact ⟨rfl, rfl, rfl, fun _ => rfl, fun _ => rfl, fun _ => rfl, fun _ => rfl, fun _ => rfl,
    map_insert_existing (Option.filter_eq_some_iff.mp hs).1 _ (by rfl)⟩

theorem edited_accept {w : World S} {result : Option (World S)}
    (hresult : ∀ after, result = some after → w.Edited after) :
    w.Edited (w.accept result).2 := by
  unfold accept
  cases result with
  | none => exact .refl w
  | some after => exact hresult after rfl

/-- A write that neither creates nor destroys is an edit, whether it is applied or dropped. -/
theorem edited_applyCommand (w : World S) (proxy : ProxyId) {command : Command S}
    (h : command.IsEdit) : w.Edited (w.applyCommand proxy command).2 := by
  cases command with
  | create creation => exact h.elim
  | destroy => exact h.elim
  | setPosition particle position =>
    exact edited_accept fun _ hw => edited_write hw fun _ => ⟨rfl, rfl, rfl⟩
  | setVelocity particle velocity =>
    exact edited_accept fun _ hw => edited_write hw fun _ => ⟨rfl, rfl, rfl⟩
  | setKinematicTarget particle target =>
    exact edited_accept fun _ hw => edited_write hw fun _ => ⟨rfl, rfl, rfl⟩
  | addForce particle force =>
    exact edited_accept fun _ hw => edited_write hw fun _ => ⟨rfl, rfl, rfl⟩
  | setInverseMass particle inverseMass =>
    exact edited_accept fun _ hw => edited_setInverseMass hw
  | setTetherStiffness stiffness => exact edited_accept fun _ hw => edited_setTetherStiffness hw
  | setSuspensionTarget handle target =>
    exact edited_accept fun _ hw => edited_setSuspensionTarget hw
  | setJointRestLength handle restLength =>
    exact edited_accept fun _ hw => edited_setJointRestLength hw

/-! ## Creations and destructions -/

/-- Inserted particles occupy slots of their handles, and the others keep theirs. -/
theorem alive_of_insertParticles {w after : World S} {proxy : ProxyId}
    {handles : List ParticleHandle} {particles : List (Particle S)}
    (hw : w.insertParticles? proxy handles particles = some after) {i : Nat}
    (hi : after.store.isAlive i = true) :
    w.store.isAlive i = true ∨ ∃ h ∈ handles, h.index = i := by
  unfold insertParticles? at hw
  split at hw
  case isTrue => cases hw
  case isFalse =>
    cases hw
    rcases ParticleStore.slot_insertAll proxy (handles.zip particles) w.store i with
      ⟨_, x, hx, hindex, _⟩ | ⟨_, hslot⟩
    · exact .inr ⟨x.1, (List.of_mem_zip hx).1, hindex⟩
    · unfold ParticleStore.isAlive at hi ⊢
      rw [hslot] at hi
      exact .inl hi

/-- Removed particles vacate their slots, and the others keep theirs. -/
theorem alive_of_remove {w after : World S} {proxy : ProxyId} (hw : w.remove? proxy = some after)
    {i : Nat} (hi : after.store.isAlive i = true) : w.store.isAlive i = true := by
  unfold remove? at hw
  split at hw
  case h_1 handles _ =>
    cases hw
    unfold ParticleStore.isAlive at hi ⊢
    rcases ParticleStore.slot_removeAll handles w.store i with ⟨_, hslot⟩ | ⟨_, hslot⟩
    · rw [hslot] at hi
      cases hi
    · rwa [hslot] at hi
  case h_2 =>
    split at hw
    case isTrue =>
      cases hw
      exact hi
    case isFalse =>
      split at hw
      case isTrue =>
        cases hw
        exact hi
      case isFalse => cases hw

end World

end TetheredParticles
