import TetheredParticles.Proofs.World.Invariant
import TetheredParticles.Proofs.Tether.Layout
/-!
# Rebuilding the topology

Rebuilding lays all tethers anew, drops constraints whose particles are gone, partitions the
particles and distributes the constraints. The only fault it can meet is that something does not
fit the largest set of bits; whatever was there before, the rebuilt world is linked.

* `Cluster.layTethers_ends`, `World.layTethers_ends` — tethers.
* `World.edges_ends`, `World.computePartition_ends` — islands.
* `World.refresh_ends` — the whole stage.
-/

namespace TetheredParticles

variable {S : Type} [Scalar S]

/-! ## Tethers -/

/-- The tethers of a cluster along geodesics, in the order of its particles. -/
def Cluster.geodesicTethers (c : Cluster S) (store : ParticleStore S) (scale : S) :
    List (Tether S) :=
  if c.particles.any (!store.contains ·) then []
  else
    (TetherLayout.geodesicTethers c.restPositions
      (c.particles.map fun h => (store.slot h.index).inverseMass) c.adjacency scale).map
        (·.relabel fun i => (c.particles.getD i default).index)

/-- What laying the tethers of a cluster leads to. -/
structure Cluster.Laid (c : Cluster S) (config : Config S) (store : ParticleStore S)
    (tethers : List (Tether S)) : Prop where
  ends : ∀ t ∈ tethers, store.Fixed t.anchor ∧ store.Free t.tip
  tips : (c.particles.toList.map (·.index)).Nodup → (tethers.map (·.tip)).Nodup
  among : ∀ t ∈ tethers, (∃ h ∈ c.particles.toList, h.index = t.anchor) ∧
    ∃ h ∈ c.particles.toList, h.index = t.tip
  geodesic : config.tether.mode = .geodesic →
    tethers.Perm (c.geodesicTethers store config.tether.limitScale)

namespace Cluster

variable {c : Cluster S} {config : Config S} {store : ParticleStore S}

omit [Scalar S] in
theorem getElem?_indices {i : Nat} (hi : i < c.particles.size) :
    (c.particles.toList.map (·.index))[i]? = some (c.particles.getD i default).index := by
  simp [Array.getD, hi]

omit [Scalar S] in
theorem mem_indices {i : Nat} (hi : i < c.particles.size) :
    ∃ h ∈ c.particles.toList, h.index = (c.particles.getD i default).index :=
  List.mem_map.mp (List.mem_of_getElem? (getElem?_indices hi))

theorem isAlive_getD (hall : ¬ c.particles.any (!store.contains ·) = true) {i : Nat}
    (hi : i < c.particles.size) :
    store.isAlive (c.particles.getD i default).index = true := by
  have hget : c.particles.getD i default = c.particles[i] := by simp [Array.getD, hi]
  have hcontains : store.contains c.particles[i] = true := by
    by_contra hno
    exact hall (Array.any_eq_true.mpr ⟨i, hi, by simpa using hno⟩)
  rw [hget]
  exact (ParticleStore.contains_iff.mp hcontains).1

theorem getElem?_masses {i : Nat} (hi : i < c.particles.size) :
    (c.particles.map fun h => (store.slot h.index).inverseMass)[i]? =
      some (store.slot (c.particles.getD i default).index).inverseMass := by
  simp [hi]

/-- Tethers that are laid between the places of a cluster lie between its slots likewise. -/
theorem Laid.relabel {tethers : List (Tether S)} (hstore : store.Weighed)
    (hall : ¬ c.particles.any (!store.contains ·) = true)
    (hlaid : TetherLayout.Laid (TetherLayout.anchoredAt
      (c.particles.map fun h => (store.slot h.index).inverseMass)) c.particles.size tethers)
    (hgeodesic : config.tether.mode = .geodesic → tethers.Perm
      (TetherLayout.geodesicTethers c.restPositions
        (c.particles.map fun h => (store.slot h.index).inverseMass) c.adjacency
        config.tether.limitScale)) :
    c.Laid config store
      (tethers.map (·.relabel fun i => (c.particles.getD i default).index)) := by
  have hrange : ∀ u ∈ tethers, u.anchor < c.particles.size := by
    intro u hu
    obtain ⟨w, hw, _⟩ := TetherLayout.anchoredAt_iff.mp (hlaid.anchor u hu)
    have hlt := (Array.getElem?_eq_some_iff.mp hw).1
    rwa [Array.size_map] at hlt
  refine ⟨?_, fun hnodup => ?_, ?_, fun hmode => ?_⟩
  · intro t ht
    obtain ⟨u, hu, rfl⟩ := List.mem_map.mp ht
    obtain ⟨w, hw, hzero⟩ := TetherLayout.anchoredAt_iff.mp (hlaid.anchor u hu)
    obtain ⟨htip, hfree⟩ := hlaid.tip u hu
    have halive := isAlive_getD hall (hrange u hu)
    have hblive := isAlive_getD hall htip
    refine ⟨⟨halive, ?_⟩, hblive, ?_⟩
    · rw [getElem?_masses (hrange u hu)] at hw
      cases hw
      exact (hstore _ halive).kinematic.trans hzero
    · unfold TetherLayout.anchoredAt at hfree
      rw [getElem?_masses htip] at hfree
      exact (hstore _ hblive).kinematic.trans hfree
  · have htips : (tethers.map (·.relabel fun i => (c.particles.getD i default).index)).map (·.tip) =
        (tethers.map (·.tip)).map fun i => (c.particles.getD i default).index := by
      rw [List.map_map, List.map_map]
      rfl
    rw [htips]
    refine List.Nodup.map_on ?_ hlaid.tips
    -- different places of the cluster have different slots
    intro a ha b hb hab
    obtain ⟨t, ht, rfl⟩ := List.mem_map.mp ha
    obtain ⟨u, hu, rfl⟩ := List.mem_map.mp hb
    have hta := getElem?_indices (hlaid.tip t ht).1
    have htb := getElem?_indices (hlaid.tip u hu).1
    have hlt := (List.getElem?_eq_some_iff.mp hta).1
    exact (List.getElem?_inj hlt hnodup).mp (by rw [hta, htb, hab])
  · intro t ht
    obtain ⟨u, hu, rfl⟩ := List.mem_map.mp ht
    exact ⟨mem_indices (hrange u hu), mem_indices (hlaid.tip u hu).1⟩
  · unfold geodesicTethers
    rw [if_neg hall]
    exact (hgeodesic hmode).map _

theorem layTethers_ends (hc : c.Shaped) (hstore : store.Weighed) (config : Config S) :
    Ends (c.layTethers config store)
      (fun f => f = .lengthOverflow ∧ BitSet.largestIndex < c.particles.size)
      fun d => ∃ tethers, d = { c with tethers } ∧ c.Laid config store tethers := by
  unfold layTethers
  split
  case isTrue hgone =>
    refine .pure ⟨[], rfl, fun t ht => absurd ht List.not_mem_nil, fun _ => .nil,
      fun t ht => absurd ht List.not_mem_nil, fun _ => ?_⟩
    unfold geodesicTethers
    rw [if_pos hgone]
  case isFalse hall =>
    have hsize : c.restPositions.size =
        (c.particles.map fun h => (store.slot h.index).inverseMass).size := by
      rw [Array.size_map]
      exact hc.rest
    refine (Ends.mono (TetherLayout.build_ends c.restPositions _ c.adjacency config.maxIslands
      config.tether.mode config.tether.limitScale hsize)
      (fun f ⟨hf, hlarge⟩ => ⟨hf, hc.rest ▸ hlarge⟩) fun _ h => h).bind
      fun layout ⟨hlaid, hgeodesic⟩ => ?_
    exact .pure ⟨_, rfl, .relabel hstore hall (hc.rest ▸ hlaid) hgeodesic⟩

end Cluster

namespace World

/-! ## Constraints -/

section Dangling

variable {w : World S} {proxy : ProxyId}

/-- Of the joints those are kept whose particles are both there. -/
theorem joints_dropDangling_iff {j : JointRecord S} :
    w.dropDangling.joints[proxy]? = some j ↔ w.joints[proxy]? = some j ∧
      w.store.contains j.first = true ∧ w.store.contains j.second = true := by
  unfold dropDangling
  rw [Std.TreeMap.getElem?_filter', Option.filter_eq_some_iff, Bool.and_eq_true]

/-- Of the suspensions those are kept whose particles are there. -/
theorem suspensions_dropDangling_iff {s : SuspensionRecord S} :
    w.dropDangling.suspensions[proxy]? = some s ↔
      w.suspensions[proxy]? = some s ∧ w.store.contains s.particle = true := by
  unfold dropDangling
  rw [Std.TreeMap.getElem?_filter', Option.filter_eq_some_iff]

/-- A joint that has its particles is not dropped. -/
theorem joints_dropDangling_eq (h : ∀ j, w.joints[proxy]? = some j →
    w.store.contains j.first = true ∧ w.store.contains j.second = true) :
    w.dropDangling.joints[proxy]? = w.joints[proxy]? :=
  Option.ext fun j => joints_dropDangling_iff.trans (and_iff_left_of_imp (h j))

theorem suspensions_dropDangling_eq (h : ∀ s, w.suspensions[proxy]? = some s →
    w.store.contains s.particle = true) :
    w.dropDangling.suspensions[proxy]? = w.suspensions[proxy]? :=
  Option.ext fun s => suspensions_dropDangling_iff.trans (and_iff_left_of_imp (h s))

end Dangling

/-- Something of the world does not fit the largest set of bits. -/
def Oversized (w : World S) : Prop :=
  (∃ i, w.store.isAlive i = true ∧ BitSet.largestIndex ≤ i) ∨
  ∃ (proxy : ProxyId) (c : Cluster S), w.clusters[proxy]? = some c ∧
    BitSet.largestIndex < c.particles.size

/-- The tethers of all clusters are laid anew, each on its own. -/
theorem layTethers_ends {w : World S} (h : w.Sound) :
    Ends w.layTethers (fun f => f = .lengthOverflow ∧ w.Oversized)
      fun after => ∃ clusters : Std.TreeMap ProxyId (Cluster S),
        after = { w with clusters } ∧
        (∀ (proxy : ProxyId) (c : Cluster S), w.clusters[proxy]? = some c →
          ∃ d, c.layTethers w.config w.store = .ok d) ∧
        ∀ (proxy : ProxyId) (d : Cluster S), clusters[proxy]? = some d ↔
          ∃ c, w.clusters[proxy]? = some c ∧ c.layTethers w.config w.store = .ok d := by
  unfold layTethers
  rw [Std.TreeMap.foldlM_eq_foldlM_toList]
  refine Ends.bind (Ends.foldlM (I := fun done clusters =>
    (∀ x ∈ done, ∃ d, x.2.layTethers w.config w.store = .ok d) ∧
    ∀ (proxy : ProxyId) (d : Cluster S), clusters[proxy]? = some d ↔
      ∃ c, (proxy, c) ∈ done ∧ c.layTethers w.config w.store = .ok d) ?_ ?_)
    fun clusters ⟨hlaid, hclusters⟩ => .pure ⟨clusters, rfl, fun proxy c hc => ?_, fun proxy d => ?_⟩
  · refine ⟨fun x hx => absurd hx List.not_mem_nil, fun proxy d => ?_⟩
    rw [Std.TreeMap.getElem?_emptyc]
    simp
  · rintro done ⟨proxy, c⟩ rest clusters hsplit ⟨hlaid, hdone⟩
    have hmem : (proxy, c) ∈ w.clusters.toList := by simp [hsplit]
    have hc := Std.TreeMap.mem_toList_iff_getElem?_eq_some.mp hmem
    refine (Ends.mono (Cluster.layTethers_ends (h.clusters proxy c hc).2 h.weighed w.config)
      (fun f ⟨hf, hlarge⟩ => ⟨hf, .inr ⟨proxy, c, hc, hlarge⟩⟩) fun _ h => h).bind_eq
      fun d hd _ => .pure ⟨fun x hx => ?_, fun owner e => ?_⟩
    · rcases List.mem_append.mp hx with hx | hx
      · exact hlaid x hx
      · rw [List.mem_singleton.mp hx]
        exact ⟨d, hd⟩
    rw [Maps.getElem?_insert]
    by_cases howner : owner = proxy
    · subst howner
      rw [if_pos rfl]
      constructor
      · rintro heq
        cases heq
        exact ⟨c, by simp, hd⟩
      · rintro ⟨b, hb, he⟩
        have hb' : (owner, b) ∈ w.clusters.toList := by
          rw [hsplit]
          rcases List.mem_append.mp hb with hb | hb
          · exact List.mem_append_left _ hb
          · rw [List.mem_singleton.mp hb]
            simp
        rw [show b = c from Maps.value_of_mem hb' rfl hc, hd] at he
        cases he
        rfl
    · rw [if_neg howner, hdone]
      refine exists_congr fun b => and_congr_left fun _ => ?_
      rw [List.mem_append, List.mem_singleton, Prod.mk.injEq]
      exact (or_iff_left fun h => howner h.1).symm
  · exact hlaid (proxy, c) (Std.TreeMap.mem_toList_iff_getElem?_eq_some.mpr hc)
  · rw [hclusters]
    exact exists_congr fun c => and_congr_left fun _ =>
      Std.TreeMap.mem_toList_iff_getElem?_eq_some

/-! ## Islands -/

/-- The edges of a world contain every pair of ends of a tether or of a joint. -/
theorem edges_ends {w : World S} (h : w.Sound) :
    Ends w.edges never fun edges => ∀ a b, w.Tied a b → (a, b) ∈ edges ∨ (b, a) ∈ edges := by
  unfold edges
  refine Ends.bind (Ends.mapM (R := fun x edges => ∀ t ∈ x.2.tethers,
    (t.anchor, t.tip) ∈ edges) ?_) fun ofClusters hclusters => .pure fun a b hab => ?_
  · rintro ⟨proxy, c⟩ hmem
    have hc := Std.TreeMap.mem_toList_iff_getElem?_eq_some.mp hmem
    have hshaped := (h.clusters proxy c hc).2
    refine Ends.bind (M := fun _ => True) ?_ fun edges _ => .pure fun t ht => ?_
    · unfold Cluster.edges
      refine (Ends.mapM (R := fun _ _ => True) fun e he => ?_).weaken fun _ _ => trivial
      obtain ⟨a, b⟩ := e
      obtain ⟨ha, hb⟩ := hshaped.adjacency a b (Graph.mem_edges.mp he)
      dsimp only
      rw [Fault.entry_of_lt default ha, Fault.entry_of_lt default hb]
      exact .pure trivial
    · exact List.mem_append_right _ (List.mem_map.mpr ⟨t, ht, rfl⟩)
  · have htethers : ∀ (proxy : ProxyId) (c : Cluster S), w.clusters[proxy]? = some c →
        ∀ t ∈ c.tethers, (t.anchor, t.tip) ∈ ofClusters.flatten := by
      intro proxy c hc t ht
      have hmem := Std.TreeMap.mem_toList_iff_getElem?_eq_some.mpr hc
      obtain ⟨edges, hedges, hall⟩ := exists_of_forall₂ hclusters hmem
      exact List.mem_flatten.mpr ⟨edges, hedges, hall t ht⟩
    have hjoints : ∀ (proxy : ProxyId) (j : JointRecord S), w.joints[proxy]? = some j →
        ∀ edge : ProxyId × JointRecord S → Nat × Nat,
          edge (proxy, j) = (j.first.index, j.second.index) →
          (j.first.index, j.second.index) ∈ w.joints.toList.map edge := by
      intro proxy j hj edge hedge
      exact List.mem_map.mpr
        ⟨(proxy, j), Std.TreeMap.mem_toList_iff_getElem?_eq_some.mpr hj, hedge⟩
    rcases hab with ⟨proxy, c, hc, t, ht, ⟨rfl, rfl⟩ | ⟨rfl, rfl⟩⟩ |
      ⟨proxy, j, hj, ⟨rfl, rfl⟩ | ⟨rfl, rfl⟩⟩
    · exact .inl (List.mem_append_left _ (htethers proxy c hc t ht))
    · exact .inr (List.mem_append_left _ (htethers proxy c hc t ht))
    · exact .inl (List.mem_append_right _ (hjoints proxy j hj _ rfl))
    · exact .inr (List.mem_append_right _ (hjoints proxy j hj _ rfl))

/-- The islands separate the particles of the store. -/
theorem computePartition_ends {w : World S} (h : w.Sound)
    (htied : ∀ a b, w.Tied a b → w.store.isAlive a = true ∧ w.store.isAlive b = true) :
    Ends w.computePartition (fun f => f = .lengthOverflow ∧ w.Oversized)
      (Partition.Valid w.Tied (fun i => w.store.isAlive i = true)
        (max w.config.maxIslands 1)) := by
  unfold computePartition
  have hpoints : ∀ i, i ∈ w.store.aliveSlots.foldl (fun s p => s.insert p) (∅ : Points) ↔
      w.store.isAlive i = true := by
    intro i
    rw [Maps.mem_foldl_insert, ParticleStore.mem_aliveSlots]
    exact or_iff_left Std.TreeSet.not_mem_emptyc
  refine (Ends.ofNever (edges_ends h)).bind fun edges hedges => ?_
  refine Ends.mono (Partition.compute_ends _ _ _ _) ?_ fun partition hvalid => ?_
  · rintro f ⟨hf, i, hi, hlarge⟩
    exact ⟨hf, .inl ⟨i, (hpoints i).mp hi, hlarge⟩⟩
  · refine (hvalid.ofInside hpoints).ofJoined fun a b hab => ?_
    by_cases heq : a = b
    · exact .inl heq
    · obtain ⟨ha, hb⟩ := htied a b hab
      refine .inr ⟨heq, (hpoints a).mpr ha, (hpoints b).mpr hb, ?_⟩
      rw [Graph.mem_neighbors_ofEdges, Graph.mem_neighbors_ofEdges]
      exact hedges a b hab

/-! ## The whole stage -/

/-- A workspace that is built has not been solved. -/
theorem blank_workspaceOf (w : World S) (partition : Partition) (place : Nat → Nat)
    (slots : List Nat) (island : Nat) :
    (w.workspaceOf partition place slots island).blank =
      w.workspaceOf partition place slots island := by
  unfold Workspace.blank workspaceOf
  dsimp only
  congr 1
  · unfold tethersOf
    rw [List.map_filterMap]
    refine List.filterMap_congr fun x _ => ?_
    dsimp only
    split
    · rfl
    · cases w.config.tether.solver <;> rfl
  · unfold jointsOf
    rw [List.map_map]
    rfl
  · unfold suspensionsOf
    rw [List.map_map]
    rfl

/-- The workspaces of a rebuilt world have not been solved. -/
theorem blank_workspacesOf (w : World S) (partition : Partition) :
    (w.workspacesOf partition).map Workspace.blank = w.workspacesOf partition := by
  unfold workspacesOf
  dsimp only
  refine Array.ext_getElem? fun i => ?_
  rw [Array.getElem?_map, Array.getElem?_mapIdx]
  cases partition.islands[i]? with
  | none => rfl
  | some slots => exact congrArg some (blank_workspaceOf w partition _ slots i)

/-- What rebuilding leads to: tethers laid anew, no constraint whose particles are gone, and
everything else as it was. -/
structure Rebuilt (w after : World S) : Prop where
  config : after.config = w.config
  store : after.store = w.store
  members : after.members = w.members
  notes : after.forces = w.forces ∧ after.touched = w.touched ∧ after.latest = w.latest
  laid : ∀ (proxy : ProxyId) (c : Cluster S), w.clusters[proxy]? = some c →
    ∃ d, c.layTethers w.config w.store = .ok d
  clusters : ∀ (proxy : ProxyId) (d : Cluster S), after.clusters[proxy]? = some d ↔
    ∃ c, w.clusters[proxy]? = some c ∧ c.layTethers w.config w.store = .ok d
  joints : after.joints = w.dropDangling.joints
  suspensions : after.suspensions = w.dropDangling.suspensions
  partition : after.computePartition = .ok after.partition
  blank : after.workspaces.map Workspace.blank = after.workspaces
  clean : after.topologyDirty = false

/-- A cluster of the new world comes from one of the old, with tethers laid for it. -/
theorem Rebuilt.exists_laid {w after : World S} (hr : w.Rebuilt after) (hsound : w.Sound)
    {proxy : ProxyId} {d : Cluster S} (hd : after.clusters[proxy]? = some d) :
    ∃ c, w.clusters[proxy]? = some c ∧ ∃ tethers, d = { c with tethers } ∧
      c.Laid w.config w.store tethers := by
  obtain ⟨c, hc, hcd⟩ := (hr.clusters proxy d).mp hd
  exact ⟨c, hc, (Cluster.layTethers_ends (hsound.clusters proxy c hc).2 hsound.weighed
    w.config).holds_of_eq hcd⟩

/-- Rebuilding brings no joint. -/
theorem Rebuilt.joint_before {w after : World S} (hr : w.Rebuilt after) {proxy : ProxyId}
    {j : JointRecord S} (hj : after.joints[proxy]? = some j) : w.joints[proxy]? = some j := by
  rw [hr.joints] at hj
  exact (joints_dropDangling_iff.mp hj).1

/-- Rebuilding brings no suspension. -/
theorem Rebuilt.suspension_before {w after : World S} (hr : w.Rebuilt after) {proxy : ProxyId}
    {s : SuspensionRecord S} (hs : after.suspensions[proxy]? = some s) :
    w.suspensions[proxy]? = some s := by
  rw [hr.suspensions] at hs
  exact (suspensions_dropDangling_iff.mp hs).1

/-- The world is rebuilt and linked, unless something does not fit the largest set of bits. -/
theorem rebuild_ends {w : World S} (h : w.Sound) :
    Ends w.rebuild (fun f => f = .lengthOverflow ∧ w.Oversized)
      fun after => w.Rebuilt after ∧ after.Sound ∧ after.Linked := by
  unfold rebuild
  have hclean : Sound { w with topologyDirty := false } := ⟨h.weighed, h.owned, h.clusters⟩
  refine (layTethers_ends hclean).bind fun laid ⟨clusters, hlaid, hall, hclusters⟩ => ?_
  -- every cluster of the new world comes from one of the old, with tethers laid for it
  have hfrom : ∀ (proxy : ProxyId) (d : Cluster S), clusters[proxy]? = some d →
      ∃ c, w.clusters[proxy]? = some c ∧ ∃ tethers, d = { c with tethers } ∧
        c.Laid w.config w.store tethers := by
    intro proxy d hd
    obtain ⟨c, hc, hcd⟩ := (hclusters proxy d).mp hd
    exact ⟨c, hc, (Cluster.layTethers_ends (h.clusters proxy c hc).2 h.weighed
      w.config).holds_of_eq hcd⟩
  subst hlaid
  have hjoints : ∀ (proxy : ProxyId) (j : JointRecord S),
      w.dropDangling.joints[proxy]? = some j →
      w.store.contains j.first = true ∧ w.store.contains j.second = true :=
    fun _ _ hj => (joints_dropDangling_iff.mp hj).2
  have hsuspensions : ∀ (proxy : ProxyId) (s : SuspensionRecord S),
      w.dropDangling.suspensions[proxy]? = some s → w.store.contains s.particle = true :=
    fun _ _ hs => (suspensions_dropDangling_iff.mp hs).2
  have htethers : ∀ (proxy : ProxyId) (d : Cluster S), clusters[proxy]? = some d →
      ∀ t ∈ d.tethers, w.store.Fixed t.anchor ∧ w.store.Free t.tip := by
    intro proxy d hd
    obtain ⟨c, _, tethers, rfl, hlaid⟩ := hfrom proxy d hd
    exact hlaid.ends
  have hsound : Sound (dropDangling { w with topologyDirty := false, clusters }) := by
    refine ⟨h.weighed, h.owned, fun proxy d hd => ?_⟩
    obtain ⟨c, hc, tethers, rfl, _⟩ := hfrom proxy d hd
    obtain ⟨hmembers, hshaped⟩ := h.clusters proxy c hc
    exact ⟨hmembers, hshaped.rest, hshaped.adjacency⟩
  refine Ends.bind_eq (Ends.mono (computePartition_ends hsound ?_) ?_ fun _ hp => hp)
    fun partition hcompute hpartition => .pure ⟨⟨rfl, rfl, rfl, ⟨rfl, rfl, rfl⟩, hall, hclusters,
        rfl, rfl, hcompute, blank_workspacesOf _ partition, rfl⟩,
      ⟨hsound.weighed, hsound.owned, hsound.clusters⟩, ?_⟩
  · -- the ends of tethers and joints exist
    rintro a b (⟨proxy, d, hd, t, ht, hends⟩ | ⟨proxy, j, hj, hends⟩)
    · obtain ⟨⟨hanchor, _⟩, htip, _⟩ := htethers proxy d hd t ht
      rcases hends with ⟨rfl, rfl⟩ | ⟨rfl, rfl⟩
      · exact ⟨hanchor, htip⟩
      · exact ⟨htip, hanchor⟩
    · obtain ⟨hfirst, hsecond⟩ := hjoints proxy j hj
      have hone := (ParticleStore.contains_iff.mp hfirst).1
      have htwo := (ParticleStore.contains_iff.mp hsecond).1
      rcases hends with ⟨rfl, rfl⟩ | ⟨rfl, rfl⟩
      · exact ⟨hone, htwo⟩
      · exact ⟨htwo, hone⟩
  · rintro f ⟨hf, hlarge | ⟨proxy, d, hd, hlarge⟩⟩
    · exact ⟨hf, .inl hlarge⟩
    · obtain ⟨c, hc, tethers, rfl, _⟩ := hfrom proxy d hd
      exact ⟨hf, .inr ⟨proxy, c, hc, hlarge⟩⟩
  · exact ⟨htethers, hjoints, hsuspensions, hpartition, blank_workspacesOf _ partition⟩

/-- After the topology stage the world is linked, unless something does not fit the largest set of
bits. -/
theorem refresh_ends {w : World S} (h : w.Inv) :
    Ends w.refresh (fun f => f = .lengthOverflow ∧ w.Oversized) fun after =>
      (after = w ∨ w.Rebuilt after) ∧ after.Sound ∧ after.Linked ∧
        after.topologyDirty = false := by
  unfold refresh
  split
  case isTrue =>
    exact (rebuild_ends h.sound).weaken fun after ⟨hrebuilt, hsound, hlinked⟩ =>
      ⟨.inr hrebuilt, hsound, hlinked, hrebuilt.clean⟩
  case isFalse hclean =>
    have hclean := Bool.eq_false_iff.mpr hclean
    exact .ok ⟨.inl rfl, h.sound, h.linked hclean, hclean⟩

end World

end TetheredParticles
