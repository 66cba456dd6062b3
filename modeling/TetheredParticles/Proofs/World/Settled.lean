import TetheredParticles.Proofs.World.Memory
/-!
# What a rebuild would not change

Tethers and islands depend on who is anchored, on neighbors and on the ends of joints. As long as
the topology is not marked as dirty none of this has changed since the last rebuild, so that laying
the tethers and finding the islands once more would lead to those that are there.

* `World.Adjusted` — nothing that tethers and islands depend on has changed.
* `World.adjusted_updated`, `World.adjusted_stepped` — writes and steps that leave the topology
  clean.
* `World.Settled` — another rebuild would find the same tethers and islands.
-/

namespace TetheredParticles

variable {S T : Type} [Scalar S]

/-! ## What tethers and islands depend on -/

/-- Tethers depend on masses only through who is anchored. -/
theorem TetherLayout.build_congr {positions : Array (Vec3 S)} {one two : Array S}
    (hsize : two.size = one.size) (h : ∀ i, anchoredAt two i = anchoredAt one i) (g : Graph)
    (maxIslands : Nat) (mode : TetherMode) (scale : S) :
    build positions two g maxIslands mode scale = build positions one g maxIslands mode scale := by
  unfold build
  rw [hsize, show anchoredAt two = anchoredAt one from funext h]

namespace Cluster

/-- Tethers are laid over particles of the same kinds alike. -/
theorem layTethers_congr (c : Cluster S) (config : Config S) {store after : ParticleStore S}
    (h : store.Alike after) (hw : store.Weighed) (hafter : after.Weighed) :
    c.layTethers config after = c.layTethers config store := by
  have hcontains : after.contains = store.contains := funext h.contains
  unfold layTethers
  rw [hcontains]
  split
  case isTrue => rfl
  case isFalse hall =>
    have hanchored : ∀ i,
        TetherLayout.anchoredAt (c.particles.map fun h => (after.slot h.index).inverseMass) i =
          TetherLayout.anchoredAt (c.particles.map fun h => (store.slot h.index).inverseMass) i := by
      intro i
      unfold TetherLayout.anchoredAt
      rw [Array.getElem?_map, Array.getElem?_map]
      cases hi : c.particles[i]? with
      | none => rfl
      | some handle =>
        have halive : store.isAlive handle.index = true := by
          refine (ParticleStore.contains_iff.mp ?_).1
          by_contra hno
          obtain ⟨hlt, hget⟩ := Array.getElem?_eq_some_iff.mp hi
          exact hall (Array.any_eq_true.mpr ⟨i, hlt, by simpa [hget] using hno⟩)
        -- the kinds of particles tell who is anchored
        have hone := (hw _ halive).kinematic
        have htwo := (hafter _ ((h.isAlive _).trans halive)).kinematic
        exact htwo.symm.trans ((h.slot _).kinematic.trans hone)
    dsimp only
    rw [TetherLayout.build_congr (by rw [Array.size_map, Array.size_map]) hanchored]

/-- Tethers that were there before do not matter. -/
theorem layTethers_withTethers (c : Cluster S) (config : Config S) (store : ParticleStore S)
    (tethers : List (Tether S)) :
    { c with tethers }.layTethers config store = c.layTethers config store := rfl

/-- Laying tethers once more leads to the same ones. -/
theorem layTethers_layTethers {c d : Cluster S} {config : Config S} {store : ParticleStore S}
    (h : c.layTethers config store = .ok d) : d.layTethers config store = .ok d := by
  have hd : d = { c with tethers := d.tethers } := by
    unfold layTethers at h
    split at h
    · cases h
      rfl
    · obtain ⟨layout, _, hlayout⟩ := exists_of_bind_ok h
      cases hlayout
      rfl
  rw [hd, layTethers_withTethers, h, ← hd]

/-- Tethers are laid whatever the stiffness is. -/
theorem layTethers_withStiffness {c : Cluster S} {config : Config S} {store : ParticleStore S}
    (h : c.layTethers config store = .ok c) (stiffness : S) :
    { c with stiffness }.layTethers config store = .ok { c with stiffness } := by
  unfold layTethers at h ⊢
  dsimp only at h ⊢
  split at h
  · rw [if_pos ‹_›]
    have htethers := congrArg Cluster.tethers (Except.ok.inj h)
    dsimp only at htethers
    rw [htethers]
    rfl
  · rw [if_neg ‹_›]
    obtain ⟨layout, hlayout, heq⟩ := exists_of_bind_ok h
    have htethers := congrArg Cluster.tethers (Except.ok.inj heq)
    dsimp only at htethers
    rw [hlayout, ok_bind, htethers]
    rfl

end Cluster

/-- Clusters that differ at most in their stiffness. -/
def Cluster.Restiffened (c d : Cluster S) : Prop := d = { c with stiffness := d.stiffness }

/-- Joints between the same particles. -/
def JointRecord.SameEnds (j k : JointRecord S) : Prop := k.first = j.first ∧ k.second = j.second

namespace World

/-- Nothing has changed that tethers and islands depend on. -/
structure Adjusted (w after : World S) : Prop where
  config : after.config = w.config
  partition : after.partition = w.partition
  store : w.store.Alike after.store
  clusters : ∀ proxy : ProxyId,
    Option.Rel Cluster.Restiffened w.clusters[proxy]? after.clusters[proxy]?
  joints : ∀ proxy : ProxyId,
    Option.Rel JointRecord.SameEnds w.joints[proxy]? after.joints[proxy]?

namespace Adjusted

variable {w after last : World S}

theorem refl (w : World S) : w.Adjusted w := by
  refine ⟨rfl, rfl, .refl _, ?_, ?_⟩
  · intro proxy
    cases w.clusters[proxy]? with
    | none => exact .none
    | some c => exact .some rfl
  · intro proxy
    cases w.joints[proxy]? with
    | none => exact .none
    | some j => exact .some ⟨rfl, rfl⟩

theorem trans (h : w.Adjusted after) (k : after.Adjusted last) : w.Adjusted last := by
  refine ⟨k.config.trans h.config, k.partition.trans h.partition, h.store.trans k.store, ?_, ?_⟩
  · intro proxy
    have hone := h.clusters proxy
    have htwo := k.clusters proxy
    generalize w.clusters[proxy]? = a at hone ⊢
    generalize after.clusters[proxy]? = b at hone htwo
    generalize last.clusters[proxy]? = c at htwo ⊢
    cases hone with
    | none => exact htwo
    | some hab =>
      cases htwo with
      | some hbc =>
        refine .some ?_
        unfold Cluster.Restiffened at hab hbc ⊢
        rw [hbc, hab]
  · intro proxy
    have hone := h.joints proxy
    have htwo := k.joints proxy
    generalize w.joints[proxy]? = a at hone ⊢
    generalize after.joints[proxy]? = b at hone htwo
    generalize last.joints[proxy]? = c at htwo ⊢
    cases hone with
    | none => exact htwo
    | some hab =>
      cases htwo with
      | some hbc => exact .some ⟨hbc.1.trans hab.1, hbc.2.trans hab.2⟩

/-- Only particles differ, and they are of the same kinds. -/
theorem withStore (w : World S) {store : ParticleStore S} (h : w.store.Alike store) :
    w.Adjusted { w with store } :=
  have hrefl := refl w
  ⟨rfl, rfl, h, hrefl.clusters, hrefl.joints⟩

omit [Scalar S] in
/-- A computation over two lists that it does not tell apart. -/
theorem mapM_congr {A B : Type} {R : A → A → Prop} {f : A → Except Fault B} {xs ys : List A}
    (h : List.Forall₂ R xs ys) (hf : ∀ x y, R x y → f y = f x) : ys.mapM f = xs.mapM f := by
  induction h with
  | nil => rfl
  | cons hxy _ ih => rw [List.mapM_cons, List.mapM_cons, hf _ _ hxy, ih]

/-- The same slots have to be solved together. -/
theorem edges_eq (h : w.Adjusted after) : after.edges = w.edges := by
  have hjoints := Maps.forall₂_toList h.joints
  have hends : after.joints.toList.map (fun x => (x.2.first.index, x.2.second.index)) =
      w.joints.toList.map fun x => (x.2.first.index, x.2.second.index) := by
    rw [← List.forall₂_eq_eq_eq, List.forall₂_map_left_iff, List.forall₂_map_right_iff]
    refine hjoints.flip.imp ?_
    rintro y x ⟨_, hfirst, hsecond⟩
    rw [hfirst, hsecond]
  unfold edges
  rw [mapM_congr (Maps.forall₂_toList h.clusters)]
  · congr 1
    funext ofClusters
    exact congrArg (fun ends => Except.ok (ofClusters.flatten ++ ends)) hends
  · rintro x y ⟨_, hxy⟩
    dsimp only
    rw [hxy]
    rfl

/-- The islands found are the same. -/
theorem computePartition_eq (h : w.Adjusted after) :
    after.computePartition = w.computePartition := by
  have hslots : after.store.aliveSlots = w.store.aliveSlots := by
    unfold ParticleStore.aliveSlots
    rw [h.store.slotCount, show after.store.isAlive = w.store.isAlive from funext h.store.isAlive]
  have hkinds : (fun slot => (after.store.slot slot).flags.kinematic) =
      fun slot => (w.store.slot slot).flags.kinematic :=
    funext fun slot => (h.store.slot slot).kinematic
  unfold computePartition
  rw [hslots, hkinds, h.edges_eq, h.config]

/-! ## Writes and steps -/

/-- Of two maps one holds another record in the place of one that agrees with it. -/
theorem rel_insert_existing {R : Type} {P : R → R → Prop} (hrefl : ∀ r, P r r)
    {m : Std.TreeMap ProxyId R} {proxy : ProxyId} {r s : R} (h : m[proxy]? = some r)
    (hrs : P r s) (owner : ProxyId) : Option.Rel P m[owner]? (m.insert proxy s)[owner]? := by
  rw [Maps.getElem?_insert]
  split
  case isTrue howner =>
    rw [howner, h]
    exact .some hrs
  case isFalse =>
    cases m[owner]? with
    | none => exact .none
    | some r => exact .some (hrefl r)

end Adjusted

/-- A world is clean only if the one before was clean and nothing has changed since that tethers and
islands depend on. -/
def CleanFrom (w after : World S) : Prop :=
  after.topologyDirty = false → w.topologyDirty = false ∧ w.Adjusted after

namespace CleanFrom

variable {w after last : World S} {proxy : ProxyId}

theorem refl (w : World S) : w.CleanFrom w := fun hclean => ⟨hclean, .refl w⟩

theorem trans (h : w.CleanFrom after) (k : after.CleanFrom last) : w.CleanFrom last := by
  intro hclean
  rcases k hclean with ⟨hafter, hlast⟩
  rcases h hafter with ⟨hw, hadjusted⟩
  exact ⟨hw, hadjusted.trans hlast⟩

theorem of_dirty (h : after.topologyDirty = true) : w.CleanFrom after := by
  intro hclean
  rw [h] at hclean
  cases hclean

/-- Only notes about steps differ. -/
theorem withNotes (w : World S) (forces : Std.TreeMap ProxyId (Vec3 S))
    (touched : Std.TreeSet ProxyId) : w.CleanFrom { w with forces, touched } := by
  have hrefl := Adjusted.refl w
  exact fun hclean => ⟨hclean, rfl, rfl, .refl _, hrefl.clusters, hrefl.joints⟩

theorem accept {result : Option (World S)}
    (hresult : ∀ after, result = some after → w.CleanFrom after) :
    w.CleanFrom (w.accept result).2 := by
  unfold World.accept
  cases result with
  | none => exact .refl w
  | some after => exact hresult after rfl

theorem create {creation : Creation S} (hw : w.create? proxy creation = some after) :
    w.CleanFrom after := by
  unfold create? at hw
  split at hw
  · cases hw
  · rcases Option.map_eq_some_iff.mp hw with ⟨parts, _, rfl⟩
    exact .of_dirty rfl

theorem destroy (w : World S) (proxy : ProxyId) : w.CleanFrom (w.destroy proxy).2 := by
  unfold World.destroy
  dsimp only
  split
  · exact .of_dirty rfl
  · exact .withNotes w _ w.touched

theorem write {particle : ParticleHandle} {change : ParticleSlot S → ParticleSlot S}
    (hw : w.writeParticle? proxy particle (·.write? particle change) = some after)
    (hchange : ∀ s : ParticleSlot S, s.Alike (change s).touched) : w.CleanFrom after := by
  unfold writeParticle? at hw
  split at hw
  case isFalse => cases hw
  case isTrue =>
    rcases Option.map_eq_some_iff.mp hw with ⟨store, hstore, rfl⟩
    exact fun hclean => ⟨hclean, .withStore w (.ofWrite hstore (hchange _))⟩

theorem setInverseMass {particle : ParticleHandle} {inverseMass : S}
    (hw : w.setInverseMass? proxy particle inverseMass = some after) : w.CleanFrom after := by
  rcases store_of_setInverseMass hw with ⟨store, dirty, rfl, _, halike⟩
  intro hclean
  rcases halike hclean with ⟨hbefore, hstore⟩
  have hadjusted := Adjusted.withStore w hstore
  exact ⟨hbefore, rfl, rfl, hstore, hadjusted.clusters, hadjusted.joints⟩

theorem setTetherStiffness {stiffness : S}
    (hw : w.setTetherStiffness? proxy stiffness = some after) : w.CleanFrom after := by
  unfold setTetherStiffness? at hw
  rcases Option.map_eq_some_iff.mp hw with ⟨c, hc, rfl⟩
  refine fun hclean => ⟨hclean, rfl, rfl, .refl _, ?_, (Adjusted.refl w).joints⟩
  exact Adjusted.rel_insert_existing (P := Cluster.Restiffened) (fun _ => rfl) hc rfl

theorem setSuspensionTarget {handle : ConstraintHandle} {target : Vec3 S}
    (hw : w.setSuspensionTarget? proxy handle target = some after) : w.CleanFrom after := by
  unfold setSuspensionTarget? at hw
  rcases Option.map_eq_some_iff.mp hw with ⟨s, _, rfl⟩
  have hrefl := Adjusted.refl w
  exact fun hclean => ⟨hclean, rfl, rfl, .refl _, hrefl.clusters, hrefl.joints⟩

theorem setJointRestLength {handle : ConstraintHandle} {restLength : S}
    (hw : w.setJointRestLength? proxy handle restLength = some after) : w.CleanFrom after := by
  unfold setJointRestLength? at hw
  rcases Option.map_eq_some_iff.mp hw with ⟨j, hj, rfl⟩
  refine fun hclean => ⟨hclean, rfl, rfl, .refl _, (Adjusted.refl w).clusters, ?_⟩
  exact Adjusted.rel_insert_existing (P := JointRecord.SameEnds) (fun _ => ⟨rfl, rfl⟩) (Option.filter_eq_some_iff.mp hj).1
    ⟨rfl, rfl⟩

theorem applyCommand (w : World S) (proxy : ProxyId) (command : Command S) :
    w.CleanFrom (w.applyCommand proxy command).2 := by
  cases command with
  | create creation => exact accept fun _ hw => create hw
  | destroy => exact destroy w proxy
  | setPosition particle position => exact accept fun _ hw => write hw fun _ => ⟨rfl, rfl, rfl, rfl⟩
  | setVelocity particle velocity => exact accept fun _ hw => write hw fun _ => ⟨rfl, rfl, rfl, rfl⟩
  | setKinematicTarget particle target =>
    exact accept fun _ hw => write hw fun _ => ⟨rfl, rfl, rfl, rfl⟩
  | addForce particle force => exact accept fun _ hw => write hw fun _ => ⟨rfl, rfl, rfl, rfl⟩
  | setInverseMass particle inverseMass => exact accept fun _ hw => setInverseMass hw
  | setTetherStiffness stiffness => exact accept fun _ hw => setTetherStiffness hw
  | setSuspensionTarget handle target => exact accept fun _ hw => setSuspensionTarget hw
  | setJointRestLength handle restLength => exact accept fun _ hw => setJointRestLength hw

theorem updated (w : World S) (deltas : List (Delta S)) : w.CleanFrom (w.updated deltas) := by
  refine applyDeltas_keeps (P := w.CleanFrom) (w := { w with touched := ∅ })
    (.withNotes w w.forces ∅) ?_ ?_
  · intro v touched hv
    exact hv.trans (.withNotes v v.forces touched)
  · intro v d _ hv
    exact hv.trans (applyCommand v d.proxy d.command)

end CleanFrom

/-! ## Settled worlds -/

/-- Laying the tethers and finding the islands once more leads to those that are there. -/
structure Settled (w : World S) : Prop where
  tethers : ∀ (proxy : ProxyId) (c : Cluster S), w.clusters[proxy]? = some c →
    c.layTethers w.config w.store = .ok c
  partition : w.computePartition = .ok w.partition

namespace Settled

variable {w after : World S}

theorem empty (config : Config S) : (empty config).Settled := by
  refine ⟨?_, ?_⟩
  · intro proxy c hc
    rw [World.empty, Std.TreeMap.getElem?_emptyc] at hc
    cases hc
  · have hedges : (World.empty config).edges = .ok [] := by
      unfold edges World.empty
      rfl
    have hcomponents : ∀ (g : Graph) (kinematic : Nat → Bool),
        Partition.compute ∅ g kinematic config.maxIslands = .ok .empty := by
      intro g kinematic
      unfold Partition.compute Partition.components Partition.mergeSmallest
      simp [Partition.ofComponents, Partition.empty]
      rfl
    unfold computePartition
    rw [hedges]
    exact hcomponents _ _

theorem rebuilt (hr : w.Rebuilt after) : after.Settled where
  tethers proxy d hd := by
    rcases (hr.clusters proxy d).mp hd with ⟨c, _, hlaid⟩
    rw [hr.config, hr.store]
    exact Cluster.layTethers_layTethers hlaid
  partition := hr.partition

theorem adjusted (h : w.Settled) (ha : w.Adjusted after) (hw : w.store.Weighed)
    (hafter : after.store.Weighed) : after.Settled where
  tethers proxy d hd := by
    have hrel := ha.clusters proxy
    rw [hd] at hrel
    cases hc : w.clusters[proxy]? with
    | none =>
      rw [hc] at hrel
      cases hrel
    | some c =>
      rw [hc] at hrel
      cases hrel with
      | some heq =>
        rw [heq, ha.config, Cluster.layTethers_congr _ _ ha.store hw hafter]
        exact Cluster.layTethers_withStiffness (h.tethers proxy c hc) _
  partition := by rw [ha.computePartition_eq, ha.partition, h.partition]

end Settled

end World

end TetheredParticles
