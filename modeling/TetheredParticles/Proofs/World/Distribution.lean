import TetheredParticles.Proofs.World.Workspaces
/-!
# How constraints are distributed

The workspaces of a linked world share out its particles and its constraints: no particle is in two
of them, and taken together they hold every tether, joint and suspension of the world exactly once,
between the places of the particles it acts on.

* `World.Distributed` — the distribution.
* `perm_shares` — what every element is given to belongs to exactly one share.
* `World.Linked.distributed` — linked worlds are distributed.
-/

namespace TetheredParticles

/-! ## Shares -/

/-- Sharing out the elements of a list by a number below `count` that each of them has. -/
theorem perm_shares {A : Type} (xs : List A) (share : A → Option Nat) (count : Nat)
    (h : ∀ a ∈ xs, ∃ i < count, share a = some i) :
    ((List.range count).flatMap fun i => xs.filter (share · == some i)).Perm xs := by
  have hpart : ∀ n, ((List.range n).flatMap fun i => xs.filter (share · == some i)).Perm
      (xs.filter fun a => (share a).any (· < n)) := by
    intro n
    induction n with
    | zero =>
      rw [List.range_zero, List.flatMap_nil, List.filter_eq_nil_iff.mpr]
      intro a _
      cases share a <;> simp
    | succ n ih =>
      rw [List.range_succ, List.flatMap_append, List.flatMap_singleton]
      refine (ih.append_right _).trans ?_
      -- numbers below `n + 1` are those below `n` and `n` itself
      have hsplit := List.filter_append_perm (fun a => (share a).any (· < n))
        (xs.filter fun a => (share a).any (· < n + 1))
      rw [List.filter_filter, List.filter_filter] at hsplit
      have hbelow : ∀ a ∈ xs, ((share a).any (· < n) && (share a).any (· < n + 1)) =
          (share a).any (· < n) := by
        intro a _
        cases share a with
        | none => rfl
        | some i =>
          rw [Bool.eq_iff_iff]
          simp
          omega
      have hequal : ∀ a ∈ xs, ((!(share a).any (· < n)) && (share a).any (· < n + 1)) =
          (share a == some n) := by
        intro a _
        cases share a with
        | none => rfl
        | some i =>
          rw [Bool.eq_iff_iff]
          simp
          omega
      rwa [List.filter_congr hbelow, List.filter_congr hequal] at hsplit
  refine (hpart count).trans ?_
  rw [List.filter_eq_self.mpr]
  intro a ha
  obtain ⟨i, hi, hshare⟩ := h a ha
  simp [hshare, hi]

/-- What is collected from the elements of a list may be collected from their places. -/
theorem perm_flatMap_range {A B : Type} (xs : List A) (f : A → List B) (g : Nat → List B)
    (h : ∀ i a, xs[i]? = some a → (f a).Perm (g i)) :
    (xs.flatMap f).Perm ((List.range xs.length).flatMap g) := by
  induction xs generalizing g with
  | nil => exact .nil
  | cons a rest ih =>
    rw [List.flatMap_cons, List.length_cons, List.range_succ_eq_map, List.flatMap_cons,
      List.flatMap_map]
    exact (h 0 a rfl).append (ih (fun i => g (i + 1)) fun i b hb => h (i + 1) b hb)

/-- What is collected from the images of some elements may be collected from all elements. -/
theorem flatMap_filterMap {A B C : Type} (xs : List A) (f : A → Option B) (g : B → List C) :
    (xs.filterMap f).flatMap g = xs.flatMap fun a => ((f a).map g).getD [] := by
  induction xs with
  | nil => rfl
  | cons a rest ih =>
    rw [List.flatMap_cons, ← ih]
    cases hfa : f a with
    | none =>
      rw [List.filterMap_cons_none hfa]
      rfl
    | some b =>
      rw [List.filterMap_cons_some hfa, List.flatMap_cons]
      rfl

variable {S : Type} [Scalar S]

/-! ## What workspaces hold -/

/-- The tethers of a workspace, each with its cluster and the slots of its ends. -/
def Workspace.heldTethers (ws : Workspace S) :
    List (ProxyId × Option Nat × Option Nat × S) :=
  ws.tethers.flatMap fun (proxy, set) => set.batches.tethers.map fun t =>
    (proxy, ws.particles[t.anchor]?, ws.particles[t.tip]?, t.referenceLength)

/-- The joints of a workspace, each with its proxy and the slots of its particles. -/
def Workspace.heldJoints (ws : Workspace S) :
    List (ProxyId × Option Nat × Option Nat × S × S) :=
  ws.joints.map fun (proxy, j) =>
    (proxy, ws.particles[j.first]?, ws.particles[j.second]?, j.restLength, j.compliance)

/-- The suspensions of a workspace, each with its proxy and the slot of its particle. -/
def Workspace.heldSuspensions (ws : Workspace S) :
    List (ProxyId × Option Nat × Vec3 S × S × S) :=
  ws.suspensions.map fun (proxy, s) =>
    (proxy, ws.particles[s.particle]?, s.target, s.restLength, s.compliance)

namespace World

/-- The tethers of all clusters, between slots. -/
def allTethers (w : World S) : List (ProxyId × Option Nat × Option Nat × S) :=
  w.clusters.toList.flatMap fun (proxy, c) => c.tethers.map fun t =>
    (proxy, some t.anchor, some t.tip, t.referenceLength)

/-- All joints, between slots. -/
def allJoints (w : World S) : List (ProxyId × Option Nat × Option Nat × S × S) :=
  w.joints.toList.map fun (proxy, j) =>
    (proxy, some j.first.index, some j.second.index, j.restLength, j.compliance)

/-- All suspensions, at slots. -/
def allSuspensions (w : World S) : List (ProxyId × Option Nat × Vec3 S × S × S) :=
  w.suspensions.toList.map fun (proxy, s) =>
    (proxy, some s.particle.index, s.target, s.restLength, s.compliance)

/-- The workspaces share out particles and constraints: particles ascend in each and belong to one
of them exactly if they exist, there are no more workspaces than allowed, every constraint is held
exactly once with places that name its particles, and tethers run from particles that nothing can
move to particles that can be moved. -/
structure Distributed (w : World S) : Prop where
  ascending : ∀ ws ∈ w.workspaces, ws.particles.toList.Pairwise (· < ·)
  disjoint : w.workspaces.toList.Pairwise fun a b => a.particles.toList.Disjoint b.particles.toList
  exist : ∀ slot, (∃ ws ∈ w.workspaces, slot ∈ ws.particles) ↔ w.store.isAlive slot = true
  bound : w.workspaces.size ≤ max 1 w.config.maxIslands
  tethers : (w.workspaces.toList.flatMap Workspace.heldTethers).Perm w.allTethers
  joints : (w.workspaces.toList.flatMap Workspace.heldJoints).Perm w.allJoints
  suspensions : (w.workspaces.toList.flatMap Workspace.heldSuspensions).Perm w.allSuspensions
  fits : ∀ ws ∈ w.workspaces, ∀ x ∈ ws.tethers, ∀ t ∈ x.2.batches.tethers,
    t.Fits (ws.gather w.store).inverseMasses

namespace Linked

variable {w : World S} {i : Nat} {ws : Workspace S}

/-- A slot of a linked world has an island among the workspaces. -/
theorem exists_islandOf (h : w.Linked) {slot : Nat} (halive : w.store.isAlive slot = true) :
    ∃ i < w.workspaces.size, w.partition.islandOf? slot = some i := by
  obtain ⟨i, island, hi, hisland, _⟩ := h.partition.exists_islandOf halive
  refine ⟨i, ?_, hi⟩
  rw [h.size_workspaces]
  exact (Array.getElem?_eq_some_iff.mp hisland).1

/-- The tethers of a workspace are those with their tips in its island. -/
theorem heldTethers_perm (h : w.Linked) (hi : w.workspaces[i]? = some ws) :
    ws.heldTethers.Perm (w.allTethers.filter fun x =>
      x.2.2.1.bind w.partition.islandOf? == some i) := by
  obtain ⟨slots, hslots, hblank⟩ := h.blank_eq hi
  have hsets : ws.tethers.map (Prod.map id TetherSet.restart) =
      w.tethersOf w.partition w.placeOf i := congrArg Workspace.tethers hblank
  -- what is held can be told from the sets as they were built
  have hheld : ws.heldTethers = (w.tethersOf w.partition w.placeOf i).flatMap fun (proxy, set) =>
      set.batches.tethers.map fun t =>
        (proxy, ws.particles[t.anchor]?, ws.particles[t.tip]?, t.referenceLength) := by
    rw [← hsets, List.flatMap_map]
    unfold Workspace.heldTethers
    refine List.flatMap_congr fun x _ => ?_
    simp only [Prod.map, id, TetherSet.batches_restart]
  unfold allTethers
  rw [hheld, tethersOf, flatMap_filterMap, List.filter_flatMap]
  refine List.Perm.flatMap_left _ fun x hx => ?_
  obtain ⟨proxy, c⟩ := x
  have hc := Std.TreeMap.mem_toList_iff_getElem?_eq_some.mp hx
  rw [List.filter_map]
  have hfilter : ((fun x : ProxyId × Option Nat × Option Nat × S =>
      x.2.2.1.bind w.partition.islandOf? == some i) ∘ fun t : Tether S =>
        (proxy, some t.anchor, some t.tip, t.referenceLength)) =
      fun t => w.partition.islandOf? t.tip == some i := rfl
  rw [hfilter]
  dsimp only
  split
  case isTrue hempty =>
    rw [List.isEmpty_iff.mp hempty]
    exact .nil
  case isFalse =>
    have hbatches : (TetherSet.ofBatches w.config.tether.solver (TetherBatches.ofTethers
        ((c.tethers.filter (w.partition.islandOf? ·.tip == some i)).map
          (·.relabel w.placeOf)) c.stiffness)).batches.tethers.Perm
        ((c.tethers.filter (w.partition.islandOf? ·.tip == some i)).map
          (·.relabel w.placeOf)) := by
      cases w.config.tether.solver <;> exact Tether.flatten_batches_perm _
    refine (hbatches.map _).trans (List.Perm.of_eq ?_)
    rw [List.map_map]
    refine List.map_congr_left fun t ht => ?_
    -- places name the slots they were made from
    obtain ⟨hmem, htip⟩ := List.mem_filter.mp ht
    have htip : w.partition.islandOf? t.tip = some i := by simpa using htip
    have hanchor : w.partition.islandOf? t.anchor = some i := h.partition.islandOf_joined
      (.inl ⟨proxy, c, hc, t, hmem, .inr ⟨rfl, rfl⟩⟩) htip
    obtain ⟨⟨hafixed, _⟩, hafree, _⟩ := h.tethers proxy c hc t hmem
    have ha := h.getElem_placeOf hi hanchor hafixed
    have hb := h.getElem_placeOf hi htip hafree
    simp only [Function.comp_apply, Tether.relabel, ha, hb]

/-- The joints of a workspace are those with their first particles in its island. -/
theorem heldJoints_eq (h : w.Linked) (hi : w.workspaces[i]? = some ws) :
    ws.heldJoints = w.allJoints.filter fun x => x.2.1.bind w.partition.islandOf? == some i := by
  obtain ⟨slots, hslots, hblank⟩ := h.blank_eq hi
  have hjoints : ws.joints.map (Prod.map id Joint.blank) =
      w.jointsOf w.partition w.placeOf i := congrArg Workspace.joints hblank
  have hheld : ws.heldJoints = (w.jointsOf w.partition w.placeOf i).map fun (proxy, j) =>
      (proxy, ws.particles[j.first]?, ws.particles[j.second]?, j.restLength, j.compliance) := by
    rw [← hjoints, List.map_map]
    rfl
  unfold allJoints
  rw [hheld, jointsOf, List.map_map, List.filter_map]
  have hfilter : ((fun x : ProxyId × Option Nat × Option Nat × S × S =>
      x.2.1.bind w.partition.islandOf? == some i) ∘ fun x : ProxyId × JointRecord S =>
        (x.1, some x.2.first.index, some x.2.second.index, x.2.restLength, x.2.compliance)) =
      fun x => w.partition.islandOf? x.2.first.index == some i := rfl
  rw [hfilter]
  refine List.map_congr_left fun x hx => ?_
  obtain ⟨hmem, hfirst⟩ := List.mem_filter.mp hx
  have hj := Std.TreeMap.mem_toList_iff_getElem?_eq_some.mp hmem
  have hfirst : w.partition.islandOf? x.2.first.index = some i := by simpa using hfirst
  have hsecond : w.partition.islandOf? x.2.second.index = some i := h.partition.islandOf_joined
    (.inr ⟨x.1, x.2, hj, .inl ⟨rfl, rfl⟩⟩) hfirst
  obtain ⟨hone, htwo⟩ := h.joints x.1 x.2 hj
  have ha := h.getElem_placeOf hi hfirst (ParticleStore.contains_iff.mp hone).1
  have hb := h.getElem_placeOf hi hsecond (ParticleStore.contains_iff.mp htwo).1
  simp only [Function.comp_apply, Joint.create, ha, hb]

/-- The suspensions of a workspace are those with their particles in its island. -/
theorem heldSuspensions_eq (h : w.Linked) (hi : w.workspaces[i]? = some ws) :
    ws.heldSuspensions =
      w.allSuspensions.filter fun x => x.2.1.bind w.partition.islandOf? == some i := by
  obtain ⟨slots, hslots, hblank⟩ := h.blank_eq hi
  have hsuspensions : ws.suspensions.map (Prod.map id Suspension.blank) =
      w.suspensionsOf w.partition w.placeOf i := congrArg Workspace.suspensions hblank
  have hheld : ws.heldSuspensions =
      (w.suspensionsOf w.partition w.placeOf i).map fun (proxy, s) =>
        (proxy, ws.particles[s.particle]?, s.target, s.restLength, s.compliance) := by
    rw [← hsuspensions, List.map_map]
    rfl
  unfold allSuspensions
  rw [hheld, suspensionsOf, List.map_map, List.filter_map]
  have hfilter : ((fun x : ProxyId × Option Nat × Vec3 S × S × S =>
      x.2.1.bind w.partition.islandOf? == some i) ∘ fun x : ProxyId × SuspensionRecord S =>
        (x.1, some x.2.particle.index, x.2.target, x.2.restLength, x.2.compliance)) =
      fun x => w.partition.islandOf? x.2.particle.index == some i := rfl
  rw [hfilter]
  refine List.map_congr_left fun x hx => ?_
  obtain ⟨hmem, hisland⟩ := List.mem_filter.mp hx
  have hs := Std.TreeMap.mem_toList_iff_getElem?_eq_some.mp hmem
  have ha := h.getElem_placeOf hi (by simpa using hisland)
    (ParticleStore.contains_iff.mp (h.suspensions x.1 x.2 hs)).1
  simp only [Function.comp_apply, Suspension.create, ha]

/-- The workspaces of a linked world share out its particles and constraints. -/
theorem distributed (h : w.Linked) (hw : w.store.Weighed) : w.Distributed := by
  have hsep := h.partition.separated
  -- islands are the parts of a partition, one workspace for each
  have hislands : w.workspaces.toList.map (·.particles.toList) = w.partition.islands.toList := by
    refine List.ext_getElem? fun i => ?_
    rw [List.getElem?_map, Array.getElem?_toList, Array.getElem?_toList]
    cases hi : w.workspaces[i]? with
    | some ws => exact (h.particles_eq hi).symm
    | none =>
      rw [Array.getElem?_eq_none_iff] at hi
      rw [Array.getElem?_eq_none (h.size_workspaces ▸ hi)]
      rfl
  have hget : ∀ ws ∈ w.workspaces, ws.particles.toList ∈ w.partition.islands.toList := by
    intro ws hws
    rw [← hislands]
    exact List.mem_map.mpr ⟨ws, Array.mem_toList_iff.mpr hws, rfl⟩
  refine ⟨fun ws hws => hsep.ascending _ (hget ws hws), ?_, fun slot => ?_, ?_, ?_, ?_, ?_, ?_⟩
  · have hdisjoint := hsep.disjoint
    rw [← hislands, List.pairwise_map] at hdisjoint
    exact hdisjoint
  · rw [← hsep.covers slot, ← hislands]
    simp
  · rw [h.size_workspaces, Nat.max_comm]
    exact h.partition.size_le
  · refine (perm_flatMap_range _ _ _ fun i ws hi =>
      h.heldTethers_perm (by simpa using hi)).trans (perm_shares _ _ _ fun x hx => ?_)
    obtain ⟨y, hy, hx⟩ := List.mem_flatMap.mp hx
    obtain ⟨t, ht, rfl⟩ := List.mem_map.mp hx
    have hc := Std.TreeMap.mem_toList_iff_getElem?_eq_some.mp hy
    exact h.exists_islandOf (h.tethers y.1 y.2 hc t ht).2.1
  · refine (perm_flatMap_range _ _ _ fun i ws hi =>
      .of_eq (h.heldJoints_eq (by simpa using hi))).trans (perm_shares _ _ _ fun x hx => ?_)
    obtain ⟨y, hy, rfl⟩ := List.mem_map.mp hx
    have hj := Std.TreeMap.mem_toList_iff_getElem?_eq_some.mp hy
    exact h.exists_islandOf (ParticleStore.contains_iff.mp (h.joints y.1 y.2 hj).1).1
  · refine (perm_flatMap_range _ _ _ fun i ws hi =>
      .of_eq (h.heldSuspensions_eq (by simpa using hi))).trans (perm_shares _ _ _ fun x hx => ?_)
    obtain ⟨y, hy, rfl⟩ := List.mem_map.mp hx
    have hs := Std.TreeMap.mem_toList_iff_getElem?_eq_some.mp hy
    exact h.exists_islandOf (ParticleStore.contains_iff.mp (h.suspensions y.1 y.2 hs)).1
  · intro ws hws x hx t ht
    obtain ⟨i, hi⟩ := Array.mem_iff_getElem?.mp hws
    exact h.tether_fits hw (fun _ => rfl) hi hx ht

end Linked

end World

end TetheredParticles
