import TetheredParticles.Proofs.World.Edits
/-!
# What happens to particles

A command for a proxy does one of four things to the particles of the world: nothing, a write to a
particle of the proxy, the insertion of all its particles into free slots, or the removal of all of
them. Laying out the world anew does nothing to particles, and moving it changes only where they are
and how they move. None of this asks for the world to be in order, so it holds of any world.

* `World.Turnover` — the four cases, with `World.turnover_applyCommand` for every command.
* `World.Relaid`, `World.relaid_of_rebuild` — laying out anew.
* `ParticleStore.Drifted`, `World.drifted_of_move` — moving.
-/

namespace TetheredParticles

variable {S : Type} [Scalar S]

/-! ## Slots -/

/-- The same particle after a write: it is still there, belongs to the same proxy, and weighs what
it did unless it was given another inverse mass. -/
structure ParticleSlot.Revised (s t : ParticleSlot S) : Prop where
  alive : t.flags.alive = s.flags.alive
  owner : t.owner = s.owner
  generation : t.generation = s.generation
  weight : (t.inverseMass = s.inverseMass ∧ t.flags.kinematic = s.flags.kinematic) ∨
    ∃ m, t.inverseMass = Scalar.maxNum m 0 ∧ t.flags.kinematic = (Scalar.maxNum m 0 == 0)

/-- Only where a particle is and how it moves has changed. -/
def ParticleSlot.Drifted (s t : ParticleSlot S) : Prop :=
  t = { s with position := t.position, predicted := t.predicted, velocity := t.velocity }

/-- Only where particles are and how they move has changed. -/
structure ParticleStore.Drifted (store after : ParticleStore S) : Prop where
  slotCount : after.slotCount = store.slotCount
  aliveCount : after.aliveCount = store.aliveCount
  slot : ∀ i, (store.slot i).Drifted (after.slot i)

namespace ParticleSlot

omit [Scalar S] in
theorem Drifted.trans {s t u : ParticleSlot S} (h : s.Drifted t) (k : t.Drifted u) :
    s.Drifted u := by
  unfold Drifted at *
  rw [k, h]

theorem drifted_predict (s : ParticleSlot S) (gravity : Vec3 S) (damping dt : S) :
    s.Drifted (s.predict gravity damping dt) := by
  unfold ParticleSlot.predict
  split
  · split
    · rfl
    · rfl
  · rfl

end ParticleSlot

namespace ParticleStore

variable {store after last : ParticleStore S}

theorem Drifted.refl (store : ParticleStore S) : store.Drifted store := ⟨rfl, rfl, fun _ => rfl⟩

theorem Drifted.trans (h : store.Drifted after) (k : after.Drifted last) : store.Drifted last :=
  ⟨k.slotCount.trans h.slotCount, k.aliveCount.trans h.aliveCount,
    fun i => (h.slot i).trans (k.slot i)⟩

theorem drifted_predict (store : ParticleStore S) (gravity : Vec3 S) (damping dt : S) :
    store.Drifted (store.predict gravity damping dt) := by
  refine ⟨slotCount_predict .., rfl, fun i => ?_⟩
  rw [slot_predict]
  split
  · exact ParticleSlot.drifted_predict ..
  · rfl

theorem drifted_modify (store : ParticleStore S) (index : Nat)
    {change : ParticleSlot S → ParticleSlot S} (hchange : ∀ s : ParticleSlot S, s.Drifted (change s)) :
    store.Drifted (store.modify index change) := by
  refine ⟨slotCount_modify .., rfl, fun i => ?_⟩
  by_cases hlt : index < store.slotCount
  · rw [slot_modify store index change i hlt]
    split
    · exact hchange _
    · rfl
  · -- past the end nothing is changed
    have hsame : store.modify index change = store := by
      unfold ParticleStore.modify
      congr 1
      refine Array.ext_getElem? fun j => ?_
      rw [Array.getElem?_modify]
      split
      case isTrue hj =>
        rw [Array.getElem?_eq_none (by unfold slotCount at hlt; omega)]
        rfl
      case isFalse => rfl
    rw [hsame]
    rfl

theorem drifted_scatter (dt : S) (store : ParticleStore S) (ws : Workspace S) :
    store.Drifted (World.scatter dt store ws) := by
  unfold World.scatter
  induction ws.particles.toList.zipIdx generalizing store with
  | nil => exact .refl store
  | cons x rest ih =>
    refine Drifted.trans ?_ (ih _)
    exact drifted_modify store x.1 fun _ => rfl

end ParticleStore

namespace World

/-! ## Commands -/

/-- What becomes of the particles of a world, and of the lists of them, when a command for a proxy
is carried out. -/
inductive Turnover (w : World S) (proxy : ProxyId) (after : World S) : Prop where
  | none (hstore : after.store = w.store) (hmembers : after.members = w.members)
      (hclusters : ∀ owner : ProxyId,
        after.clusters[owner]?.map (·.particles) = w.clusters[owner]?.map (·.particles))
  /-- A particle of the proxy is written to. -/
  | written {particle : ParticleHandle} {change : ParticleSlot S → ParticleSlot S}
      (howns : w.owns proxy particle = true)
      (hstore : w.store.write? particle change = some after.store)
      (hchange : ∀ s : ParticleSlot S, s.Revised (change s).touched) (hmembers : after.members = w.members)
      (hclusters : after.clusters = w.clusters)
  /-- The proxy gets its particles, in slots that were free. -/
  | inserted {handles : List ParticleHandle} {particles : List (Particle S)}
      (hknown : w.knows proxy = false) (hlength : handles.length = particles.length)
      (hfree : ∀ h ∈ handles, w.store.isAlive h.index = false)
      (hstore : after.store = (handles.zip particles).foldl
        (fun store (h, p) => store.insert h p proxy) w.store)
      (hmembers : after.members = w.members.insert proxy handles)
      (hclusters : ∀ owner : ProxyId, after.clusters[owner]? = w.clusters[owner]? ∨
        owner = proxy ∧ after.clusters[owner]?.map (·.particles) = some handles.toArray)
  /-- The proxy loses all its particles. -/
  | removed {handles : List ParticleHandle} (hlisted : w.members[proxy]? = some handles)
      (hstore : after.store = handles.foldl (fun store h => store.remove h) w.store)
      (hmembers : after.members = w.members.erase proxy)
      (hclusters : after.clusters = w.clusters.erase proxy)

namespace Turnover

variable {w after last : World S} {proxy : ProxyId}

theorem refl (w : World S) (proxy : ProxyId) : w.Turnover proxy w :=
  .none rfl rfl fun _ => rfl

/-- What has nothing to do with particles may change besides. -/
theorem congr (h : w.Turnover proxy after) (hstore : last.store = after.store)
    (hmembers : last.members = after.members) (hclusters : last.clusters = after.clusters) :
    w.Turnover proxy last := by
  cases h with
  | none store members clusters =>
    exact .none (hstore.trans store) (hmembers.trans members) (hclusters ▸ clusters)
  | written howns store hchange members clusters =>
    exact .written howns (hstore ▸ store) hchange (hmembers.trans members)
      (hclusters.trans clusters)
  | inserted hknown hlength hfree store members clusters =>
    exact .inserted hknown hlength hfree (hstore.trans store) (hmembers.trans members)
      (hclusters ▸ clusters)
  | removed hlisted store members clusters =>
    exact .removed hlisted (hstore.trans store) (hmembers.trans members)
      (hclusters.trans clusters)

theorem write {particle : ParticleHandle} {change : ParticleSlot S → ParticleSlot S}
    (hw : w.writeParticle? proxy particle (·.write? particle change) = some after)
    (hchange : ∀ s : ParticleSlot S, s.Revised (change s).touched) :
    w.Turnover proxy after := by
  unfold writeParticle? at hw
  split at hw
  case isFalse => cases hw
  case isTrue howns =>
    rcases Option.map_eq_some_iff.mp hw with ⟨store, hstore, rfl⟩
    exact .written howns hstore hchange rfl rfl

theorem setInverseMass {particle : ParticleHandle} {inverseMass : S}
    (hw : w.setInverseMass? proxy particle inverseMass = some after) : w.Turnover proxy after := by
  rcases Option.map_eq_some_iff.mp hw with ⟨changed, hchanged, rfl⟩
  refine (write hchanged fun s => ?_).congr rfl rfl rfl
  exact ⟨rfl, rfl, rfl, .inr ⟨inverseMass, rfl, rfl⟩⟩

theorem setTetherStiffness {stiffness : S}
    (hw : w.setTetherStiffness? proxy stiffness = some after) : w.Turnover proxy after := by
  have hedited := edited_setTetherStiffness hw
  rcases Option.map_eq_some_iff.mp hw with ⟨c, _, rfl⟩
  exact .none rfl rfl hedited.clusters

/-- Particles are inserted all or not at all. -/
theorem eq_of_insertParticles {handles : List ParticleHandle} {particles : List (Particle S)}
    (hw : w.insertParticles? proxy handles particles = some after) :
    (∀ h ∈ handles, w.store.isAlive h.index = false) ∧
      after = { w with
        store := (handles.zip particles).foldl (fun store (h, p) => store.insert h p proxy) w.store
        members := w.members.insert proxy handles } := by
  unfold insertParticles? at hw
  split at hw
  case isTrue => cases hw
  case isFalse hfree =>
    cases hw
    refine ⟨fun h hh => ?_, rfl⟩
    exact Bool.eq_false_iff.mpr fun halive => hfree (List.any_eq_true.mpr ⟨h, hh, halive⟩)

theorem addParts {creation : Creation S} (hknown : w.knows proxy = false)
    (hw : w.addParts? proxy creation = some after) : w.Turnover proxy after := by
  cases creation with
  | particle handle particle =>
    rcases eq_of_insertParticles hw with ⟨hfree, rfl⟩
    exact .inserted hknown rfl hfree rfl rfl fun _ => .inl rfl
  | cluster handles particles adjacency stiffness =>
    simp only [addParts?] at hw
    split at hw
    case isFalse => cases hw
    case isTrue hlength =>
      rcases Option.map_eq_some_iff.mp hw with ⟨inserted, hinserted, rfl⟩
      rcases eq_of_insertParticles hinserted with ⟨hfree, rfl⟩
      refine .inserted hknown hlength hfree rfl rfl fun owner => ?_
      dsimp only
      rw [Maps.getElem?_insert]
      split
      case isTrue howner => exact .inr ⟨howner, rfl⟩
      case isFalse => exact .inl rfl
  | joint handle first second restLength compliance =>
    simp only [addParts?] at hw
    split at hw
    case isFalse => cases hw
    case isTrue =>
      cases hw
      exact .none rfl rfl fun _ => rfl
  | suspension handle particle target restLength compliance =>
    simp only [addParts?] at hw
    split at hw
    case isFalse => cases hw
    case isTrue =>
      cases hw
      exact .none rfl rfl fun _ => rfl

theorem create {creation : Creation S} (hw : w.create? proxy creation = some after) :
    w.Turnover proxy after := by
  unfold create? at hw
  split at hw
  case isTrue => cases hw
  case isFalse hknown =>
    rcases Option.map_eq_some_iff.mp hw with ⟨parts, hparts, rfl⟩
    exact (addParts (Bool.eq_false_iff.mpr hknown) hparts).congr rfl rfl rfl

theorem remove (hw : w.remove? proxy = some after) : w.Turnover proxy after := by
  unfold remove? at hw
  split at hw
  case h_1 handles hlisted =>
    cases hw
    exact .removed hlisted rfl rfl rfl
  case h_2 =>
    split at hw
    case isTrue =>
      cases hw
      exact .none rfl rfl fun _ => rfl
    case isFalse =>
      split at hw
      case isTrue =>
        cases hw
        exact .none rfl rfl fun _ => rfl
      case isFalse => cases hw

theorem destroy (w : World S) (proxy : ProxyId) : w.Turnover proxy (w.destroy proxy).2 := by
  unfold World.destroy
  dsimp only
  split
  case h_1 after hw => exact (remove hw).congr rfl rfl rfl
  case h_2 => exact .none rfl rfl fun _ => rfl

theorem accept {result : Option (World S)}
    (hresult : ∀ after, result = some after → w.Turnover proxy after) :
    w.Turnover proxy (w.accept result).2 := by
  unfold World.accept
  cases result with
  | none => exact .refl w proxy
  | some after => exact hresult after rfl

end Turnover

/-- Every command does one of four things to the particles of the world. -/
theorem turnover_applyCommand (w : World S) (proxy : ProxyId) (command : Command S) :
    w.Turnover proxy (w.applyCommand proxy command).2 := by
  cases command with
  | create creation => exact .accept fun _ hw => .create hw
  | destroy => exact .destroy w proxy
  | setPosition particle position =>
    exact .accept fun _ hw => .write hw fun _ => ⟨rfl, rfl, rfl, .inl ⟨rfl, rfl⟩⟩
  | setVelocity particle velocity =>
    exact .accept fun _ hw => .write hw fun _ => ⟨rfl, rfl, rfl, .inl ⟨rfl, rfl⟩⟩
  | setKinematicTarget particle target =>
    exact .accept fun _ hw => .write hw fun _ => ⟨rfl, rfl, rfl, .inl ⟨rfl, rfl⟩⟩
  | addForce particle force =>
    exact .accept fun _ hw => .write hw fun _ => ⟨rfl, rfl, rfl, .inl ⟨rfl, rfl⟩⟩
  | setInverseMass particle inverseMass => exact .accept fun _ hw => .setInverseMass hw
  | setTetherStiffness stiffness => exact .accept fun _ hw => .setTetherStiffness hw
  | setSuspensionTarget handle target =>
    refine .accept fun _ hw => ?_
    rcases Option.map_eq_some_iff.mp hw with ⟨s, _, rfl⟩
    exact .none rfl rfl fun _ => rfl
  | setJointRestLength handle restLength =>
    refine .accept fun _ hw => ?_
    rcases Option.map_eq_some_iff.mp hw with ⟨j, _, rfl⟩
    exact .none rfl rfl fun _ => rfl

/-- What becomes of a single slot: it stays as it is, its particle is written to, a particle moves
in, or its particle is removed. -/
theorem Turnover.slot {w after : World S} {proxy : ProxyId} (h : w.Turnover proxy after) (i : Nat) :
    after.store.slot i = w.store.slot i ∨
    (w.store.isAlive i = true ∧ (w.store.slot i).owner = some proxy ∧
      (w.store.slot i).Revised (after.store.slot i)) ∨
    (w.store.isAlive i = false ∧ ∃ p generation,
      after.store.slot i = .occupied p proxy generation) ∨
    (∃ handles, w.members[proxy]? = some handles ∧ (∃ k ∈ handles, k.index = i) ∧
      after.store.slot i = (w.store.slot i).vacated) := by
  cases h with
  | none hstore _ _ => exact .inl (by rw [hstore])
  | @written particle change howns hstore hchange _ _ =>
    rcases ParticleStore.slot_of_write hstore with ⟨_, _, hslot⟩
    by_cases hi : i = particle.index
    · unfold owns at howns
      rw [beq_iff_eq, ParticleStore.owner?_eq_some] at howns
      refine .inr (.inl ?_)
      rw [hslot, if_pos hi, hi]
      exact ⟨(ParticleStore.contains_iff.mp howns.1).1, howns.2, hchange _⟩
    · exact .inl (by rw [hslot, if_neg hi])
  | @inserted handles particles _ _ _ hstore _ _ =>
    rw [hstore]
    rcases ParticleStore.slot_insertAll proxy (handles.zip particles) w.store i with
      ⟨hdead, x, _, _, hslot⟩ | ⟨_, hslot⟩
    · exact .inr (.inr (.inl ⟨hdead, x.2, x.1.generation, hslot⟩))
    · exact .inl hslot
  | @removed handles hlisted hstore _ _ =>
    rw [hstore]
    rcases ParticleStore.slot_removeAll handles w.store i with ⟨⟨k, hk, hki, _⟩, hslot⟩ | ⟨_, hslot⟩
    · exact .inr (.inr (.inr ⟨handles, hlisted, ⟨k, hk, hki⟩, hslot⟩))
    · exact .inl hslot

/-! ## Laying out anew -/

/-- The same particles in the same lists, and no proxy known that was not; what follows from the
topology is up to date. -/
structure Relaid (w after : World S) : Prop where
  store : after.store = w.store
  members : after.members = w.members
  clusters : ∀ (owner : ProxyId) (d : Cluster S), after.clusters[owner]? = some d →
    ∃ c, w.clusters[owner]? = some c ∧ d.particles = c.particles
  joints : ∀ owner : ProxyId, after.joints.contains owner = true →
    w.joints.contains owner = true
  suspensions : ∀ owner : ProxyId, after.suspensions.contains owner = true →
    w.suspensions.contains owner = true
  clean : after.topologyDirty = false

theorem particles_of_layTethers {c d : Cluster S} {config : Config S} {store : ParticleStore S}
    (h : c.layTethers config store = .ok d) : d.particles = c.particles := by
  unfold Cluster.layTethers at h
  split at h
  case isTrue =>
    cases h
    rfl
  case isFalse =>
    rcases exists_of_bind_ok h with ⟨layout, _, h⟩
    cases h
    rfl

/-- Tethers are laid for the clusters there are. -/
theorem clusters_of_layTethers {w after : World S} (h : w.layTethers = .ok after) :
    ∃ clusters : Std.TreeMap ProxyId (Cluster S), after = { w with clusters } ∧
      ∀ (owner : ProxyId) (d : Cluster S), clusters[owner]? = some d →
        ∃ c, w.clusters[owner]? = some c ∧ d.particles = c.particles := by
  have hends : Ends w.layTethers (fun _ => True) fun after =>
      ∃ clusters : Std.TreeMap ProxyId (Cluster S), after = { w with clusters } ∧
        ∀ (owner : ProxyId) (d : Cluster S), clusters[owner]? = some d →
          ∃ c, w.clusters[owner]? = some c ∧ d.particles = c.particles := by
    unfold layTethers
    rw [Std.TreeMap.foldlM_eq_foldlM_toList]
    refine Ends.bind (Ends.foldlM_keeps (I := fun clusters : Std.TreeMap ProxyId (Cluster S) =>
      ∀ (owner : ProxyId) (d : Cluster S), clusters[owner]? = some d →
        ∃ c, w.clusters[owner]? = some c ∧ d.particles = c.particles) ?_ ?_)
      fun clusters hclusters => .pure ⟨clusters, rfl, hclusters⟩
    · intro owner d hd
      rw [Std.TreeMap.getElem?_emptyc] at hd
      cases hd
    · rintro clusters ⟨proxy, c⟩ hmem hdone
      have hc := Std.TreeMap.mem_toList_iff_getElem?_eq_some.mp hmem
      cases hlaid : c.layTethers w.config w.store with
      | error f =>
        trivial
      | ok laid =>
        refine Ends.pure fun owner d hd => ?_
        rw [Maps.getElem?_insert] at hd
        split at hd
        case isTrue howner =>
          cases hd
          exact ⟨c, howner ▸ hc, particles_of_layTethers hlaid⟩
        case isFalse => exact hdone owner d hd
  exact hends.holds_of_eq h

theorem relaid_of_rebuild {w after : World S} (h : w.rebuild = .ok after) : w.Relaid after := by
  unfold rebuild at h
  rcases exists_of_bind_ok h with ⟨laid, hlaid, h⟩
  rcases exists_of_bind_ok h with ⟨partition, _, h⟩
  rcases clusters_of_layTethers hlaid with ⟨clusters, rfl, hclusters⟩
  cases h
  have hfilter : ∀ {V : Type} {m : Std.TreeMap ProxyId V} {keep : ProxyId → V → Bool}
      {owner : ProxyId}, (m.filter keep).contains owner = true → m.contains owner = true := by
    intro V m keep owner howner
    rw [Std.TreeMap.contains_eq_isSome_getElem?, Std.TreeMap.getElem?_filter'] at howner
    rw [Std.TreeMap.contains_eq_isSome_getElem?]
    exact Option.isSome_of_isSome_filter _ _ howner
  exact ⟨rfl, rfl, hclusters, fun _ => hfilter, fun _ => hfilter, rfl⟩

/-! ## Moving -/

/-- A world that moves changes nothing but where particles are and how they move. -/
theorem drifted_of_move {w after : World S} {dt : S} (h : w.move dt = .ok after) :
    w.store.Drifted after.store ∧ after.members = w.members ∧ after.clusters = w.clusters ∧
      after.joints = w.joints ∧ after.suspensions = w.suspensions ∧
      after.topologyDirty = w.topologyDirty := by
  unfold move at h
  rcases exists_of_bind_ok h with ⟨workspaces, _, h⟩
  cases h
  refine ⟨?_, rfl, rfl, rfl, rfl, rfl⟩
  have hfold : ∀ (islands : List (Workspace S)) (store : ParticleStore S),
      store.Drifted (islands.foldl (scatter dt) store) := by
    intro islands
    induction islands with
    | nil => exact fun store => .refl store
    | cons ws rest ih => exact fun store => (ParticleStore.drifted_scatter dt store ws).trans (ih _)
  dsimp only
  rw [← Array.foldl_toList]
  exact (ParticleStore.drifted_predict ..).trans (hfold _ _)

end World

end TetheredParticles
