import TetheredParticles.Proofs.Maps
import TetheredParticles.Proofs.Handle
import TetheredParticles.Proofs.Particle.Store
import TetheredParticles.Proofs.Graph.Partition
import TetheredParticles.Proofs.Island.Total
import TetheredParticles.World.Step
/-!
# What holds of the world between two steps

Whatever is asked of it, the world keeps two things in order. Its particles are weighed and belong
to the proxies that list them, and as long as the topology is not marked as dirty, the workspaces
hold the constraints of the world, distributed over the islands of its particles.

* `World.Sound` — particles, proxies and clusters.
* `World.Linked` — tethers, partition and workspaces fit the particles.
* `World.Inv` — both, the second one unless the topology is dirty.
* `World.Inv.applyDeltas`, `World.Inv.setConfig` — whatever is asked of the world keeps them.
-/

namespace TetheredParticles

variable {S : Type} [Scalar S]

/-! ## Invariants -/

/-- Every particle of a cluster has a rest position, and neighbors are particles of it. -/
structure Cluster.Shaped (c : Cluster S) : Prop where
  rest : c.restPositions.size = c.particles.size
  adjacency : ∀ a b, b ∈ c.adjacency.neighbors a → a < c.particles.size ∧ b < c.particles.size

/-- A slot holds a particle that only its owner moves. -/
def ParticleStore.Fixed (store : ParticleStore S) (i : Nat) : Prop :=
  store.isAlive i = true ∧ (store.slot i).flags.kinematic = true

/-- A slot holds a particle that forces move. -/
def ParticleStore.Free (store : ParticleStore S) (i : Nat) : Prop :=
  store.isAlive i = true ∧ (store.slot i).flags.kinematic = false

namespace World

/-- Particles are weighed, the particles of a proxy exist and belong to it, and clusters have the
particles that are listed for their proxies. -/
structure Sound (w : World S) : Prop where
  weighed : w.store.Weighed
  owned : ∀ (proxy : ProxyId) (handles : List ParticleHandle), w.members[proxy]? = some handles →
    ∀ h ∈ handles,
      w.store.isAlive h.index = true ∧ (w.store.slot h.index).owner = some proxy
  clusters : ∀ (proxy : ProxyId) (c : Cluster S), w.clusters[proxy]? = some c →
    w.members[proxy]? = some c.particles.toList ∧ c.Shaped

/-- Two slots are the ends of a tether or of a joint. -/
def Tied (w : World S) (a b : Nat) : Prop :=
  (∃ (proxy : ProxyId) (c : Cluster S), w.clusters[proxy]? = some c ∧ ∃ t ∈ c.tethers,
    a = t.anchor ∧ b = t.tip ∨ a = t.tip ∧ b = t.anchor) ∨
  ∃ (proxy : ProxyId) (j : JointRecord S), w.joints[proxy]? = some j ∧
    (a = j.first.index ∧ b = j.second.index ∨ a = j.second.index ∧ b = j.first.index)

/-- Tethers run from particles that are fixed to particles that are free, joints and suspensions
act on particles that exist, the islands separate all particles, and the workspaces hold the
constraints of their islands. -/
structure Linked (w : World S) : Prop where
  tethers : ∀ (proxy : ProxyId) (c : Cluster S), w.clusters[proxy]? = some c → ∀ t ∈ c.tethers,
    w.store.Fixed t.anchor ∧ w.store.Free t.tip
  joints : ∀ (proxy : ProxyId) (j : JointRecord S), w.joints[proxy]? = some j →
    w.store.contains j.first = true ∧ w.store.contains j.second = true
  suspensions : ∀ (proxy : ProxyId) (s : SuspensionRecord S), w.suspensions[proxy]? = some s →
    w.store.contains s.particle = true
  partition : w.partition.Valid w.Tied (fun i => w.store.isAlive i = true)
    (max w.config.maxIslands 1)
  workspaces : w.workspaces.map Workspace.blank = w.workspacesOf w.partition

/-- What holds of the world between two steps. -/
structure Inv (w : World S) : Prop where
  sound : w.Sound
  linked : w.topologyDirty = false → w.Linked

end World

/-! ## What may be asked -/

/-- The neighbors of a new cluster are among its particles. -/
def Creation.InRange : Creation S → Prop
  | .cluster _ particles adjacency _ => ∀ a b, b ∈ adjacency.neighbors a →
    a < particles.length ∧ b < particles.length
  | _ => True

/-- Only the creation of a cluster has something to keep within a range. -/
def Command.InRange : Command S → Prop
  | .create creation => creation.InRange
  | _ => True

/-- Every new cluster of a list of writes keeps its neighbors in range. -/
def Delta.AllInRange (deltas : List (Delta S)) : Prop := ∀ d ∈ deltas, d.command.InRange

namespace World

/-! ## Alike stores -/

theorem Fixed.ofAlike {store after : ParticleStore S} (h : store.Alike after) {i : Nat}
    (hi : store.Fixed i) : after.Fixed i :=
  ⟨(h.isAlive i).trans hi.1, (h.slot i).kinematic.trans hi.2⟩

theorem Free.ofAlike {store after : ParticleStore S} (h : store.Alike after) {i : Nat}
    (hi : store.Free i) : after.Free i :=
  ⟨(h.isAlive i).trans hi.1, (h.slot i).kinematic.trans hi.2⟩

theorem Sound.withStore {w : World S} (h : w.Sound) {store : ParticleStore S}
    (halive : ∀ i, store.isAlive i = w.store.isAlive i)
    (howner : ∀ i, (store.slot i).owner = (w.store.slot i).owner) (hw : store.Weighed) :
    Sound { w with store } where
  weighed := hw
  owned proxy handles hm k hk := by
    obtain ⟨hlive, hown⟩ := h.owned proxy handles hm k hk
    exact ⟨(halive _).trans hlive, (howner _).trans hown⟩
  clusters := h.clusters

theorem Linked.withStore {w : World S} (h : w.Linked) {store : ParticleStore S}
    (hs : w.store.Alike store) : Linked { w with store } where
  tethers proxy c hc t ht := (h.tethers proxy c hc t ht).imp (Fixed.ofAlike hs) (Free.ofAlike hs)
  joints proxy j hj := by
    rw [hs.contains, hs.contains]
    exact h.joints proxy j hj
  suspensions proxy s hsus := by
    rw [hs.contains]
    exact h.suspensions proxy s hsus
  partition := h.partition.ofInside fun i => by rw [hs.isAlive]
  workspaces := by
    rw [h.workspaces]
    unfold workspacesOf
    rw [hs.slotCount]
    rfl

/-- A world with particles alike is in order as well, if they are weighed. -/
theorem Inv.withStore {w : World S} (h : w.Inv) {store : ParticleStore S}
    (hs : w.store.Alike store) (hw : store.Weighed) : Inv { w with store } :=
  ⟨h.sound.withStore hs.isAlive (fun i => (hs.slot i).owner) hw,
    fun hclean => (h.linked hclean).withStore hs⟩

/-! ## Writes to particles -/

theorem weighed_of_write {store after : ParticleStore S} (hw : store.Weighed) {h : ParticleHandle}
    {change : ParticleSlot S → ParticleSlot S} (hwrite : store.write? h change = some after)
    (hkeep : (store.slot h.index).Weighed → (change (store.slot h.index)).touched.Weighed) :
    after.Weighed := by
  obtain ⟨hc, _, hslot⟩ := ParticleStore.slot_of_write hwrite
  intro i hi
  unfold ParticleStore.isAlive at hi
  rw [hslot] at hi ⊢
  by_cases hindex : i = h.index
  · subst hindex
    rw [if_pos rfl]
    exact hkeep (hw h.index (ParticleStore.contains_iff.mp hc).1)
  · rw [if_neg hindex] at hi ⊢
    exact hw i hi

/-- A write that changes neither the weight nor the owner of a particle. -/
theorem Inv.write {w after : World S} (h : w.Inv) {proxy : ProxyId} {particle : ParticleHandle}
    {change : ParticleSlot S → ParticleSlot S}
    (hw : w.writeParticle? proxy particle (·.write? particle change) = some after)
    (hchange : ∀ s, s.Alike (change s).touched ∧
      (change s).touched.inverseMass = s.inverseMass) : after.Inv := by
  unfold writeParticle? at hw
  split at hw
  case isFalse => cases hw
  case isTrue =>
    obtain ⟨store, hstore, rfl⟩ := Option.map_eq_some_iff.mp hw
    obtain ⟨halike, hmass⟩ := hchange (w.store.slot particle.index)
    refine h.withStore (.ofWrite hstore halike) (weighed_of_write h.sound.weighed hstore ?_)
    intro hweighed
    refine ⟨?_, ?_⟩
    · rw [halike.kinematic, hmass, hweighed.kinematic]
    · rw [hmass]
      exact hweighed.cases

/-- A change of an inverse mass writes to the store. Unless it marks the topology, the particle
stays of its kind. -/
theorem store_of_setInverseMass {w after : World S} {proxy : ProxyId} {particle : ParticleHandle}
    {inverseMass : S} (hw : w.setInverseMass? proxy particle inverseMass = some after) :
    ∃ store dirty, after = { w with store, topologyDirty := dirty } ∧
      w.store.write? particle (·.withInverseMass inverseMass) = some store ∧
      (dirty = false → w.topologyDirty = false ∧ w.store.Alike store) := by
  unfold setInverseMass? writeParticle? at hw
  obtain ⟨changed, hchanged, rfl⟩ := Option.map_eq_some_iff.mp hw
  split at hchanged
  case isFalse => cases hchanged
  case isTrue =>
    obtain ⟨store, hstore, rfl⟩ := Option.map_eq_some_iff.mp hchanged
    refine ⟨store, _, rfl, hstore, fun hclean => ?_⟩
    obtain ⟨hbefore, hsame⟩ := Bool.or_eq_false_iff.mp hclean
    obtain ⟨_, hcount, hslot⟩ := ParticleStore.slot_of_write hstore
    refine ⟨hbefore, hcount, fun i => ?_⟩
    by_cases hi : i = particle.index
    · have hkind : (store.slot i).flags.kinematic = (w.store.slot i).flags.kinematic := by
        rw [hi]
        exact (by simpa [ParticleStore.isKinematic] using hsame : _ = _).symm
      refine ⟨?_, hkind, ?_, ?_⟩ <;> rw [hslot, if_pos hi] <;> rfl
    · rw [hslot, if_neg hi]
      exact ⟨rfl, rfl, rfl, rfl⟩

/-- A particle whose inverse mass changes stays weighed. Islands and tethers stay as they are
unless it changes its kind, which marks the topology. -/
theorem Inv.setInverseMass [LawfulZero S] {w after : World S} (h : w.Inv) {proxy : ProxyId}
    {particle : ParticleHandle} {inverseMass : S}
    (hw : w.setInverseMass? proxy particle inverseMass = some after) : after.Inv := by
  obtain ⟨store, dirty, rfl, hstore, halike⟩ := store_of_setInverseMass hw
  have hweighed : store.Weighed := weighed_of_write h.sound.weighed hstore fun _ =>
    ⟨rfl, Scalar.maxNum_zero _⟩
  obtain ⟨_, _, hslot⟩ := ParticleStore.slot_of_write hstore
  have hkeep : ∀ i, (store.slot i).flags.alive = (w.store.slot i).flags.alive ∧
      (store.slot i).owner = (w.store.slot i).owner := by
    intro i
    rw [hslot]
    split
    · exact ⟨rfl, rfl⟩
    · exact ⟨rfl, rfl⟩
  have hsound := h.sound.withStore (fun i => (hkeep i).1) (fun i => (hkeep i).2) hweighed
  refine ⟨⟨hsound.weighed, hsound.owned, hsound.clusters⟩, fun hclean => ?_⟩
  obtain ⟨hbefore, hsame⟩ := halike hclean
  have hlinked := (h.linked hbefore).withStore hsame
  exact ⟨hlinked.tethers, hlinked.joints, hlinked.suspensions, hlinked.partition,
    hlinked.workspaces⟩

/-! ## Writes to constraints -/

/-- What is noted about steps is not part of the invariant. -/
theorem Inv.withNotes {w : World S} (h : w.Inv) (forces : Std.TreeMap ProxyId (Vec3 S))
    (touched : Std.TreeSet ProxyId) (latest : Timestamp) :
    Inv { w with forces, touched, latest } where
  sound := ⟨h.sound.weighed, h.sound.owned, h.sound.clusters⟩
  linked hclean :=
    have hlinked := h.linked hclean
    ⟨hlinked.tethers, hlinked.joints, hlinked.suspensions, hlinked.partition, hlinked.workspaces⟩

theorem map_patch {C : Type} (proxy : ProxyId) (change blank : C → C)
    (h : ∀ c, blank (change c) = change (blank c)) (owned : List (ProxyId × C)) :
    (patch proxy change owned).map (Prod.map id blank) =
      patch proxy change (owned.map (Prod.map id blank)) := by
  unfold patch
  rw [List.map_map, List.map_map]
  refine List.map_congr_left fun x _ => Prod.ext rfl ?_
  simp only [Function.comp_apply, Prod.map, id]
  split
  · exact h x.2
  · rfl

/-- A change of the constraints of a world reaches their copies if it is made there as well. -/
theorem workspaces_patched {w after : World S} {change : Workspace S → Workspace S}
    (hblank : ∀ ws, (change ws).blank = change ws.blank)
    (hof : ∀ place slots island, after.workspaceOf w.partition place slots island =
      change (w.workspaceOf w.partition place slots island))
    (hcount : after.store.slotCount = w.store.slotCount)
    (h : w.workspaces.map Workspace.blank = w.workspacesOf w.partition) :
    (w.workspaces.map change).map Workspace.blank = after.workspacesOf w.partition := by
  have hswap : Workspace.blank ∘ change = change ∘ Workspace.blank := funext hblank
  rw [Array.map_map, hswap, ← Array.map_map, h]
  unfold workspacesOf
  dsimp only
  refine Array.ext_getElem? fun i => ?_
  rw [Array.getElem?_map, Array.getElem?_mapIdx, Array.getElem?_mapIdx, hcount]
  cases w.partition.islands[i]? with
  | none => rfl
  | some slots => exact congrArg some (hof _ slots i).symm

/-- The tethers of a world in which a cluster has another stiffness. -/
theorem tethersOf_withStiffness {w after : World S} {proxy : ProxyId} {c : Cluster S}
    {stiffness : S} (hc : w.clusters[proxy]? = some c) (hconfig : after.config = w.config)
    (hafter : after.clusters = w.clusters.insert proxy { c with stiffness })
    (partition : Partition) (place : Nat → Nat) (island : Nat) :
    after.tethersOf partition place island =
      patch proxy (·.withStiffness stiffness) (w.tethersOf partition place island) := by
  unfold tethersOf patch
  rw [hafter, Maps.toList_insert_existing hc, List.filterMap_map, List.map_filterMap, hconfig]
  refine List.filterMap_congr fun x hx => ?_
  simp only [Function.comp_apply]
  by_cases hp : x.1 = proxy
  · rw [if_pos hp, ← Maps.value_of_mem hx hp hc]
    split
    · rfl
    · rw [Option.map_some, if_pos hp]
      cases w.config.tether.solver <;> rfl
  · rw [if_neg hp]
    split
    · rfl
    · rw [Option.map_some, if_neg hp]

/-- What is created from the records of a map, after one record has been replaced by another one
of the same island. -/
theorem created_insert {R C : Type} {m : Std.TreeMap ProxyId R} {proxy : ProxyId} {r s : R}
    (h : m[proxy]? = some r) (inside : R → Bool) (create : R → C) (change : C → C)
    (hinside : inside s = inside r) (hcreate : create s = change (create r)) :
    ((m.insert proxy s).toList.filter fun x => inside x.2).map (fun x => (x.1, create x.2)) =
      patch proxy change
        ((m.toList.filter fun x => inside x.2).map fun x => (x.1, create x.2)) := by
  unfold patch
  rw [Maps.toList_insert_existing h, List.filter_map, List.map_map, List.map_map]
  have hfilter : ∀ x ∈ m.toList,
      ((fun x => inside x.2) ∘ fun x : ProxyId × R => (x.1, if x.1 = proxy then s else x.2)) x =
        inside x.2 := by
    intro x hx
    simp only [Function.comp_apply]
    split
    case isTrue hp => rw [Maps.value_of_mem hx hp h, hinside]
    case isFalse => rfl
  rw [List.filter_congr hfilter]
  refine List.map_congr_left fun x hx => ?_
  simp only [Function.comp_apply]
  split
  case isTrue hp => rw [Maps.value_of_mem (List.mem_filter.mp hx).1 hp h, hcreate]
  case isFalse => rfl

theorem Inv.setTetherStiffness {w after : World S} (h : w.Inv) {proxy : ProxyId} {stiffness : S}
    (hw : w.setTetherStiffness? proxy stiffness = some after) : after.Inv := by
  unfold setTetherStiffness? at hw
  obtain ⟨c, hc, rfl⟩ := Option.map_eq_some_iff.mp hw
  have hlookup : ∀ (owner : ProxyId) (d : Cluster S),
      (w.clusters.insert proxy { c with stiffness := Scalar.clamp stiffness 0 1 })[owner]? =
        some d →
      ∃ e, w.clusters[owner]? = some e ∧ d.particles = e.particles ∧
        d.restPositions = e.restPositions ∧ d.adjacency = e.adjacency ∧
        d.tethers = e.tethers := by
    intro owner d hd
    rw [Maps.getElem?_insert] at hd
    split at hd
    case isTrue ho =>
      rw [ho]
      cases hd
      exact ⟨c, hc, rfl, rfl, rfl, rfl⟩
    case isFalse => exact ⟨d, hd, rfl, rfl, rfl, rfl⟩
  refine ⟨⟨h.sound.weighed, h.sound.owned, fun owner d hd => ?_⟩, fun hclean => ?_⟩
  · obtain ⟨e, he, hparticles, hrest, hadjacency, _⟩ := hlookup owner d hd
    obtain ⟨hmembers, hshaped⟩ := h.sound.clusters owner e he
    rw [hparticles]
    refine ⟨hmembers, ?_, ?_⟩
    · rw [hrest, hparticles]
      exact hshaped.rest
    · rw [hadjacency, hparticles]
      exact hshaped.adjacency
  · have hlinked := h.linked hclean
    refine ⟨fun owner d hd t ht => ?_, hlinked.joints, hlinked.suspensions, ?_, ?_⟩
    · obtain ⟨e, he, _, _, _, htethers⟩ := hlookup owner d hd
      exact hlinked.tethers owner e he t (htethers ▸ ht)
    · refine hlinked.partition.ofJoined fun a b hab => .inr (hab.imp ?_ id)
      rintro ⟨owner, d, hd, t, ht, hends⟩
      obtain ⟨e, he, _, _, _, htethers⟩ := hlookup owner d hd
      exact ⟨owner, e, he, t, htethers ▸ ht, hends⟩
    · refine workspaces_patched (fun ws => ?_) (fun place slots island => ?_) rfl
        hlinked.workspaces
      · unfold Workspace.blank
        dsimp only
        rw [map_patch proxy (·.withStiffness (Scalar.clamp stiffness 0 1)) TetherSet.restart
          fun set => by cases set <;> rfl]
      · exact congrArg (fun tethers => ({ w.workspaceOf w.partition place slots island with tethers }
          : Workspace S))
          (tethersOf_withStiffness hc (by rfl) (by rfl) w.partition place island)

theorem Inv.setJointRestLength {w after : World S} (h : w.Inv) {proxy : ProxyId}
    {handle : ConstraintHandle} {restLength : S}
    (hw : w.setJointRestLength? proxy handle restLength = some after) : after.Inv := by
  unfold setJointRestLength? at hw
  obtain ⟨j, hj, rfl⟩ := Option.map_eq_some_iff.mp hw
  replace hj := (Option.filter_eq_some_iff.mp hj).1
  have hlookup : ∀ (owner : ProxyId) (k : JointRecord S),
      (w.joints.insert proxy { j with restLength := Scalar.maxNum restLength 0 })[owner]? =
        some k →
      ∃ l, w.joints[owner]? = some l ∧ k.first = l.first ∧ k.second = l.second := by
    intro owner k hk
    rw [Maps.getElem?_insert] at hk
    split at hk
    case isTrue ho =>
      rw [ho]
      cases hk
      exact ⟨j, hj, rfl, rfl⟩
    case isFalse => exact ⟨k, hk, rfl, rfl⟩
  refine ⟨⟨h.sound.weighed, h.sound.owned, h.sound.clusters⟩, fun hclean => ?_⟩
  have hlinked := h.linked hclean
  refine ⟨hlinked.tethers, fun owner k hk => ?_, hlinked.suspensions, ?_, ?_⟩
  · obtain ⟨l, hl, hfirst, hsecond⟩ := hlookup owner k hk
    rw [hfirst, hsecond]
    exact hlinked.joints owner l hl
  · refine hlinked.partition.ofJoined fun a b hab => .inr (hab.imp id ?_)
    rintro ⟨owner, k, hk, hends⟩
    obtain ⟨l, hl, hfirst, hsecond⟩ := hlookup owner k hk
    rw [hfirst, hsecond] at hends
    exact ⟨owner, l, hl, hends⟩
  · refine workspaces_patched (fun ws => ?_) (fun place slots island => ?_) rfl
      hlinked.workspaces
    · unfold Workspace.blank
      dsimp only
      rw [map_patch proxy ({ · with restLength := Scalar.maxNum restLength 0 }) Joint.blank
        fun _ => rfl]
    · exact congrArg (fun joints => ({ w.workspaceOf w.partition place slots island with joints }
        : Workspace S)) (created_insert hj
          (fun j => w.partition.islandOf? j.first.index == some island)
          (fun j => Joint.create (place j.first.index) (place j.second.index) j.restLength
            j.compliance) _ (by rfl) (by rfl))

theorem Inv.setSuspensionTarget {w after : World S} (h : w.Inv) {proxy : ProxyId}
    {handle : ConstraintHandle} {target : Vec3 S}
    (hw : w.setSuspensionTarget? proxy handle target = some after) : after.Inv := by
  unfold setSuspensionTarget? at hw
  obtain ⟨s, hs, rfl⟩ := Option.map_eq_some_iff.mp hw
  replace hs := (Option.filter_eq_some_iff.mp hs).1
  refine ⟨⟨h.sound.weighed, h.sound.owned, h.sound.clusters⟩, fun hclean => ?_⟩
  have hlinked := h.linked hclean
  refine ⟨hlinked.tethers, hlinked.joints, fun owner r hr => ?_, hlinked.partition, ?_⟩
  · dsimp only at hr
    rw [Maps.getElem?_insert] at hr
    split at hr
    case isTrue ho =>
      cases hr
      exact hlinked.suspensions proxy s hs
    case isFalse => exact hlinked.suspensions owner r hr
  · refine workspaces_patched (fun ws => ?_) (fun place slots island => ?_) rfl
      hlinked.workspaces
    · unfold Workspace.blank
      dsimp only
      rw [map_patch proxy ({ · with target }) Suspension.blank fun _ => rfl]
    · exact congrArg (fun suspensions =>
        ({ w.workspaceOf w.partition place slots island with suspensions } : Workspace S))
        (created_insert hs (fun s => w.partition.islandOf? s.particle.index == some island)
          (fun s => Suspension.create (place s.particle.index) s.target s.restLength s.compliance) _
          (by rfl) (by rfl))

/-! ## Creating and destroying -/

omit [Scalar S] in
theorem members_eq_none {w : World S} {proxy : ProxyId} (h : ¬ w.knows proxy = true) :
    w.members[proxy]? = none := by
  unfold knows at h
  rw [Std.TreeMap.contains_eq_isSome_getElem?] at h
  cases hm : w.members[proxy]? with
  | none => rfl
  | some handles => simp [hm] at h

theorem Sound.insertParticles [LawfulZero S] {w after : World S} (h : w.Sound) {proxy : ProxyId}
    {handles : List ParticleHandle} {particles : List (Particle S)}
    (hnew : w.members[proxy]? = none) (hlength : handles.length = particles.length)
    (hw : w.insertParticles? proxy handles particles = some after) :
    after.Sound ∧ after.members[proxy]? = some handles ∧ after.clusters = w.clusters := by
  unfold insertParticles? at hw
  split at hw
  case isTrue => cases hw
  case isFalse hfree =>
    cases hw
    have hslot := ParticleStore.slot_insertAll proxy (handles.zip particles) w.store
    have hfree' : ∀ k ∈ handles, w.store.isAlive k.index = false := by
      intro k hk
      simpa using fun halive => hfree (List.any_eq_true.mpr ⟨k, hk, halive⟩)
    refine ⟨⟨fun i hi => ?_, fun owner hs hm k hk => ?_, fun owner c hc => ?_⟩, ?_, rfl⟩
    · rcases hslot i with ⟨_, x, _, _, hx⟩ | ⟨_, hx⟩
      · rw [hx]
        exact ParticleSlot.weighed_occupied x.2 proxy x.1.generation
      · unfold ParticleStore.isAlive at hi
        rw [hx] at hi ⊢
        exact h.weighed i hi
    · dsimp only at hm
      rw [Maps.getElem?_insert] at hm
      split at hm
      case isTrue ho =>
        -- the slots of the new particles were free
        cases hm
        obtain ⟨p, generation, hx⟩ :=
          ParticleStore.slot_insertAll_of_mem proxy hlength w.store hk (hfree' k hk)
        unfold ParticleStore.isAlive
        rw [hx]
        exact ⟨rfl, congrArg some ho.symm⟩
      case isFalse =>
        -- the slots of other particles were not
        obtain ⟨halive, howner⟩ := h.owned owner hs hm k hk
        rcases hslot k.index with ⟨hdead, _⟩ | ⟨_, hx⟩
        · rw [halive] at hdead
          cases hdead
        · unfold ParticleStore.isAlive
          rw [hx]
          exact ⟨halive, howner⟩
    · obtain ⟨hmembers, hshaped⟩ := h.clusters owner c hc
      refine ⟨?_, hshaped⟩
      dsimp only
      rw [Maps.getElem?_insert, if_neg]
      · exact hmembers
      · rintro rfl
        rw [hnew] at hmembers
        cases hmembers
    · dsimp only
      rw [Maps.getElem?_insert, if_pos rfl]

theorem Sound.create [LawfulZero S] {w after : World S} (h : w.Sound) {proxy : ProxyId}
    {creation : Creation S} (hrange : creation.InRange)
    (hw : w.create? proxy creation = some after) :
    after.Sound ∧ after.topologyDirty = true := by
  unfold create? at hw
  split at hw
  case isTrue => cases hw
  case isFalse hknown =>
    obtain ⟨parts, hparts, rfl⟩ := Option.map_eq_some_iff.mp hw
    suffices hsound : parts.Sound from
      ⟨⟨hsound.weighed, hsound.owned, hsound.clusters⟩, rfl⟩
    have hnew := members_eq_none hknown
    cases creation with
    | particle handle particle => exact (h.insertParticles hnew rfl hparts).1
    | cluster handles particles adjacency stiffness =>
      simp only [addParts?] at hparts
      split at hparts
      case isFalse => cases hparts
      case isTrue hlength =>
        obtain ⟨inserted, hinserted, rfl⟩ := Option.map_eq_some_iff.mp hparts
        obtain ⟨hsound, hmembers, _⟩ := h.insertParticles hnew hlength hinserted
        refine ⟨hsound.weighed, hsound.owned, fun owner c hc => ?_⟩
        dsimp only at hc
        rw [Maps.getElem?_insert] at hc
        split at hc
        case isTrue ho =>
          cases hc
          refine ⟨ho ▸ hmembers, by simpa using hlength.symm, fun a b hab => ?_⟩
          have hsize : handles.toArray.size = particles.length := by simpa using hlength
          rw [hsize]
          exact hrange a b hab
        case isFalse => exact hsound.clusters owner c hc
    | joint handle first second restLength compliance =>
      simp only [addParts?] at hparts
      split at hparts
      case isFalse => cases hparts
      case isTrue =>
        cases hparts
        exact ⟨h.weighed, h.owned, h.clusters⟩
    | suspension handle particle target restLength compliance =>
      simp only [addParts?] at hparts
      split at hparts
      case isFalse => cases hparts
      case isTrue =>
        cases hparts
        exact ⟨h.weighed, h.owned, h.clusters⟩

/-- Removing a proxy takes away no particle of another one. -/
theorem Sound.remove {w after : World S} (h : w.Sound) {proxy : ProxyId}
    (hw : w.remove? proxy = some after) : after.Sound := by
  unfold remove? at hw
  split at hw
  case h_1 handles hm =>
    cases hw
    have hslot := ParticleStore.slot_removeAll handles w.store
    have hfrom : ∀ (owner : ProxyId) (hs : List ParticleHandle),
        (w.members.erase proxy)[owner]? = some hs → owner ≠ proxy ∧ w.members[owner]? = some hs := by
      intro owner hs howner
      rw [Maps.getElem?_erase] at howner
      split at howner
      case isTrue => cases howner
      case isFalse hne => exact ⟨hne, howner⟩
    refine ⟨fun i hi => ?_, fun owner hs ho k hk => ?_, fun owner c hc => ?_⟩
    · unfold ParticleStore.isAlive at hi
      rcases hslot i with ⟨_, hx⟩ | ⟨_, hx⟩
      · rw [hx] at hi
        cases hi
      · rw [hx] at hi ⊢
        exact h.weighed i hi
    · obtain ⟨hne, ho⟩ := hfrom owner hs ho
      obtain ⟨halive, howner⟩ := h.owned owner hs ho k hk
      rcases hslot k.index with ⟨⟨l, hl, hindex, _⟩, _⟩ | ⟨_, hx⟩
      · -- the slot would belong to the removed proxy
        have := (h.owned proxy handles hm l hl).2
        rw [hindex, howner] at this
        exact absurd (Option.some.inj this) hne
      · unfold ParticleStore.isAlive
        rw [hx]
        exact ⟨halive, howner⟩
    · dsimp only at hc ⊢
      rw [Maps.getElem?_erase] at hc
      split at hc
      case isTrue => cases hc
      case isFalse hne =>
        obtain ⟨hmembers, hshaped⟩ := h.clusters owner c hc
        refine ⟨?_, hshaped⟩
        rw [Maps.getElem?_erase, if_neg hne]
        exact hmembers
  case h_2 =>
    split at hw
    case isTrue =>
      cases hw
      exact ⟨h.weighed, h.owned, h.clusters⟩
    case isFalse =>
      split at hw
      case isTrue =>
        cases hw
        exact ⟨h.weighed, h.owned, h.clusters⟩
      case isFalse => cases hw

theorem Inv.destroy {w : World S} (h : w.Inv) (proxy : ProxyId) : (w.destroy proxy).2.Inv := by
  unfold World.destroy
  dsimp only
  split
  case h_1 after hw =>
    have hsound := h.sound.remove hw
    exact ⟨⟨hsound.weighed, hsound.owned, hsound.clusters⟩, fun hclean => by cases hclean⟩
  case h_2 => exact h.withNotes _ _ _

/-! ## Deltas -/

theorem Inv.accept {w : World S} (h : w.Inv) {result : Option (World S)}
    (hresult : ∀ after, result = some after → after.Inv) : (w.accept result).2.Inv := by
  unfold World.accept
  cases result with
  | none => exact h
  | some after => exact hresult after rfl

theorem Inv.applyCommand [LawfulZero S] {w : World S} (h : w.Inv) (proxy : ProxyId)
    {command : Command S} (hrange : command.InRange) : (w.applyCommand proxy command).2.Inv := by
  cases command with
  | create creation =>
    refine h.accept fun after hw => ?_
    obtain ⟨hsound, hdirty⟩ := h.sound.create hrange hw
    exact ⟨hsound, fun hclean => by rw [hdirty] at hclean; cases hclean⟩
  | destroy => exact h.destroy proxy
  | setPosition particle position =>
    exact h.accept fun after hw => h.write hw fun s => ⟨⟨rfl, rfl, rfl, rfl⟩, rfl⟩
  | setVelocity particle velocity =>
    exact h.accept fun after hw => h.write hw fun s => ⟨⟨rfl, rfl, rfl, rfl⟩, rfl⟩
  | setKinematicTarget particle target =>
    exact h.accept fun after hw => h.write hw fun s => ⟨⟨rfl, rfl, rfl, rfl⟩, rfl⟩
  | addForce particle force =>
    exact h.accept fun after hw => h.write hw fun s => ⟨⟨rfl, rfl, rfl, rfl⟩, rfl⟩
  | setInverseMass particle inverseMass => exact h.accept fun after hw => h.setInverseMass hw
  | setTetherStiffness stiffness => exact h.accept fun after hw => h.setTetherStiffness hw
  | setSuspensionTarget handle target => exact h.accept fun after hw => h.setSuspensionTarget hw
  | setJointRestLength handle restLength => exact h.accept fun after hw => h.setJointRestLength hw

/-- What commands and marks keep, a delta keeps, whether it is applied or dropped. -/
theorem applyDelta_keeps {P : World S → Prop} {w : World S} (hw : P w) {delta : Delta S}
    (hmark : ∀ (v : World S) (touched : Std.TreeSet ProxyId), P v → P { v with touched })
    (hcommand : P w → P (w.applyCommand delta.proxy delta.command).2) :
    P (w.applyDelta delta).2 := by
  replace hcommand := hcommand hw
  unfold World.applyDelta
  split
  case h_1 after heq =>
    rw [heq] at hcommand
    exact hmark _ _ hcommand
  case h_2 after heq =>
    rw [heq] at hcommand
    exact hcommand

/-- What commands and marks keep, all deltas of a step keep. -/
theorem applyDeltas_keeps {P : World S → Prop} {w : World S} (hw : P w) {deltas : List (Delta S)}
    (hmark : ∀ (v : World S) (touched : Std.TreeSet ProxyId), P v → P { v with touched })
    (hcommand : ∀ (v : World S), ∀ d ∈ deltas, P v → P (v.applyCommand d.proxy d.command).2) :
    P (w.applyDeltas deltas).2 := by
  unfold World.applyDeltas
  generalize 0 = dropped
  induction deltas generalizing w dropped with
  | nil => exact hw
  | cons delta rest ih =>
    have hone := applyDelta_keeps hw hmark (hcommand w delta List.mem_cons_self)
    have hrest := fun (v : World S) d hd => hcommand v d (List.mem_cons_of_mem delta hd)
    simp only [List.foldl_cons]
    split
    case h_1 after heq =>
      rw [heq] at hone
      exact ih hone hrest _
    case h_2 after heq =>
      rw [heq] at hone
      exact ih hone hrest _

theorem Inv.applyDeltas [LawfulZero S] {w : World S} (h : w.Inv) {deltas : List (Delta S)}
    (hrange : Delta.AllInRange deltas) : (w.applyDeltas deltas).2.Inv := by
  refine applyDeltas_keeps h ?_ ?_
  · intro v touched hv
    exact hv.withNotes _ _ _
  · intro v d hd hv
    exact hv.applyCommand d.proxy (hrange d hd)

theorem Inv.setConfig {w : World S} (h : w.Inv) (config : Config S) : (w.setConfig config).Inv :=
  ⟨⟨h.sound.weighed, h.sound.owned, h.sound.clusters⟩, fun hclean => by cases hclean⟩

theorem inv_empty (config : Config S) : (empty config).Inv := by
  refine ⟨⟨fun i hi => ?_, ?_, ?_⟩, fun _ => ⟨?_, ?_, ?_, ?_, ?_⟩⟩
  · cases hi
  · intro proxy handles hm
    rw [empty, Std.TreeMap.getElem?_emptyc] at hm
    cases hm
  · intro proxy c hc
    rw [empty, Std.TreeMap.getElem?_emptyc] at hc
    cases hc
  · intro proxy c hc
    rw [empty, Std.TreeMap.getElem?_emptyc] at hc
    cases hc
  · intro proxy j hj
    rw [empty, Std.TreeMap.getElem?_emptyc] at hj
    cases hj
  · intro proxy s hs
    rw [empty, Std.TreeMap.getElem?_emptyc] at hs
    cases hs
  · refine ⟨⟨?_, ?_, .nil, fun p => ?_, ?_⟩, fun p i => ?_, Nat.zero_le _⟩
    · intro part hpart
      cases hpart
    · intro part hpart
      cases hpart
    · refine ⟨fun ⟨part, hpart, _⟩ => ?_, fun halive => ?_⟩
      · cases hpart
      · cases halive
    · intro part hpart
      cases hpart
    · unfold Partition.islandOf?
      rw [empty, Partition.empty, Std.TreeMap.getElem?_emptyc]
      simp
  · simp [workspacesOf, empty, Partition.empty]

end World

end TetheredParticles
