import TetheredParticles.Proofs.World.Rebuild
/-!
# Workspaces of a linked world

In a linked world every slot has a place in the list of its island, and the constraints of a
workspace name their particles by these places. The copies that a step makes therefore fit: tethers
run from inverse masses that equal zero to positive ones, and no place lies past the end.

* `Partition.getElem_place` — the place of a slot leads back to the slot.
* `World.Linked.tether_of_mem`, `World.Linked.joint_of_mem`, … — what a workspace holds.
* `World.Linked.fits` — workspaces fit the particles they copy.
-/

namespace TetheredParticles

variable {S : Type} [Scalar S]

/-! ## Places -/

@[simp]
theorem size_foldl_setIfInBounds (xs : List (Nat × Nat)) (places : Array Nat) :
    (xs.foldl (fun places (slot, place) => places.setIfInBounds slot place) places).size =
      places.size := by
  induction xs generalizing places with
  | nil => rfl
  | cons x rest ih => exact (ih _).trans (Array.size_setIfInBounds ..)

theorem foldl_setIfInBounds_of_not_mem (island : List Nat) (start : Nat) (places : Array Nat)
    {slot : Nat} (h : slot ∉ island) :
    ((island.zipIdx start).foldl (fun places (slot, place) => places.setIfInBounds slot place)
      places)[slot]? = places[slot]? := by
  induction island generalizing start places with
  | nil => rfl
  | cons s rest ih =>
    obtain ⟨hne, hrest⟩ := not_or.mp (mt List.mem_cons.mpr h)
    rw [List.zipIdx_cons, List.foldl_cons, ih _ _ hrest]
    exact Array.getElem?_setIfInBounds_ne (Ne.symm hne)

theorem foldl_setIfInBounds_of_mem (island : List Nat) (hnodup : island.Nodup) (start : Nat)
    (places : Array Nat) {slot k : Nat} (hk : island[k]? = some slot) (hsize : slot < places.size) :
    ((island.zipIdx start).foldl (fun places (slot, place) => places.setIfInBounds slot place)
      places)[slot]? = some (start + k) := by
  induction island generalizing start places k with
  | nil => cases hk
  | cons s rest ih =>
    obtain ⟨hs, hrest⟩ := List.nodup_cons.mp hnodup
    rw [List.zipIdx_cons, List.foldl_cons]
    cases k with
    | zero =>
      cases hk
      rw [foldl_setIfInBounds_of_not_mem rest _ _ hs]
      exact Array.getElem?_setIfInBounds_self_of_lt hsize
    | succ k =>
      rw [ih hrest (start + 1) _ hk (by simpa using hsize)]
      congr 1
      omega

namespace Partition

variable {joined : Nat → Nat → Prop} {inside : Nat → Prop} {bound : Nat} {p : Partition}

/-- The place of a slot leads back to the slot. -/
theorem getElem_place (h : p.Valid joined inside bound) {slotCount slot i : Nat}
    (hi : p.islandOf? slot = some i) (hlt : slot < slotCount) :
    ∃ island, p.islands[i]? = some island ∧
      island[(World.placesIn slotCount p).getD slot slotCount]? = some slot := by
  obtain ⟨island, hisland, hmem⟩ := (h.islandOf slot i).mp hi
  refine ⟨island, hisland, ?_⟩
  obtain ⟨k, hk⟩ := List.mem_iff_getElem?.mp hmem
  suffices hplace : (World.placesIn slotCount p)[slot]? = some k by
    rw [Array.getD_eq_getD_getElem?, hplace]
    exact hk
  have hsep := h.separated
  unfold World.placesIn
  rw [← Array.foldl_toList]
  -- later islands do not hold the slot
  have hlater : ∀ (parts : List (List Nat)) (places : Array Nat), (∀ part ∈ parts, slot ∉ part) →
      (parts.foldl (fun places island => island.zipIdx.foldl
        (fun places (slot, place) => places.setIfInBounds slot place) places)
        places)[slot]? = places[slot]? := by
    intro parts
    induction parts with
    | nil => exact fun _ _ => rfl
    | cons part rest ih =>
      intro places hnot
      rw [List.foldl_cons, ih _ fun q hq => hnot q (List.mem_cons_of_mem _ hq)]
      exact foldl_setIfInBounds_of_not_mem part 0 places (hnot part (by simp))
  have hall : ∀ (parts : List (List Nat)) (places : Array Nat) (n : Nat),
      parts.Pairwise List.Disjoint → (∀ part ∈ parts, part.Nodup) → parts[n]? = some island →
      slot < places.size →
      (parts.foldl (fun places island => island.zipIdx.foldl
        (fun places (slot, place) => places.setIfInBounds slot place) places)
        places)[slot]? = some k := by
    intro parts
    induction parts with
    | nil =>
      intro places n _ _ hn
      cases hn
    | cons part rest ih =>
      intro places n hdisj hnodup hn hsize
      obtain ⟨hpart, hrest⟩ := List.pairwise_cons.mp hdisj
      rw [List.foldl_cons]
      cases n with
      | zero =>
        cases hn
        rw [hlater rest _ fun q hq hs => hpart q hq hmem hs]
        simpa using foldl_setIfInBounds_of_mem island (hnodup island (by simp)) 0 places hk hsize
      | succ n =>
        refine ih _ n hrest (fun q hq => hnodup q (List.mem_cons_of_mem _ hq)) hn ?_
        rw [size_foldl_setIfInBounds]
        exact hsize
  refine hall _ _ i hsep.disjoint (fun part hpart => (hsep.ascending part hpart).imp Nat.ne_of_lt)
    (by simpa using hisland) (by simpa using hlt)

end Partition

namespace World

/-! ## What a workspace holds -/

/-- The place of a slot in its island. -/
def placeOf (w : World S) (slot : Nat) : Nat :=
  (placesIn w.store.slotCount w.partition).getD slot w.store.slotCount

namespace Linked

variable {w : World S} {i : Nat} {ws : Workspace S}

/-- A workspace holds what was put into it when the world was rebuilt. -/
theorem blank_eq (h : w.Linked) (hi : w.workspaces[i]? = some ws) :
    ∃ slots, w.partition.islands[i]? = some slots ∧
      ws.blank = w.workspaceOf w.partition w.placeOf slots i := by
  have hget : (w.workspaces.map Workspace.blank)[i]? = (w.workspacesOf w.partition)[i]? := by
    rw [h.workspaces]
  unfold workspacesOf at hget
  dsimp only at hget
  rw [Array.getElem?_map, hi, Array.getElem?_mapIdx] at hget
  cases hslots : w.partition.islands[i]? with
  | none =>
    rw [hslots] at hget
    cases hget
  | some slots =>
    rw [hslots] at hget
    exact ⟨slots, rfl, Option.some.inj hget⟩

/-- The owners of a workspace's constraints are those it was built with. -/
theorem owners_eq (h : w.Linked) (hi : w.workspaces[i]? = some ws) :
    ws.tethers.map (·.1) = (w.tethersOf w.partition w.placeOf i).map (·.1) ∧
      ws.joints.map (·.1) = (w.jointsOf w.partition w.placeOf i).map (·.1) ∧
      ws.suspensions.map (·.1) = (w.suspensionsOf w.partition w.placeOf i).map (·.1) := by
  obtain ⟨slots, _, hblank⟩ := h.blank_eq hi
  exact Workspace.owners_of_blank (hblank.trans (blank_workspaceOf w w.partition w.placeOf slots i).symm)

theorem size_workspaces (h : w.Linked) : w.workspaces.size = w.partition.islands.size := by
  have := congrArg Array.size h.workspaces
  unfold workspacesOf at this
  rwa [Array.size_map, Array.size_mapIdx] at this

/-- The particles of a workspace are the slots of its island. -/
theorem particles_eq (h : w.Linked) (hi : w.workspaces[i]? = some ws) :
    w.partition.islands[i]? = some ws.particles.toList := by
  obtain ⟨slots, hslots, hblank⟩ := h.blank_eq hi
  have hparticles : ws.particles = slots.toArray := congrArg Workspace.particles hblank
  rw [hslots, hparticles]

/-- The place of a slot of the island names the slot. -/
theorem getElem_placeOf (h : w.Linked) (hi : w.workspaces[i]? = some ws) {slot : Nat}
    (hslot : w.partition.islandOf? slot = some i) (halive : w.store.isAlive slot = true) :
    ws.particles[w.placeOf slot]? = some slot := by
  obtain ⟨island, hisland, hplace⟩ :=
    Partition.getElem_place h.partition hslot (ParticleStore.lt_slotCount halive)
  have hparticles := h.particles_eq hi
  rw [hisland] at hparticles
  rw [← Array.getElem?_toList, ← Option.some.inj hparticles]
  exact hplace

/-- A workspace holds the tethers of a cluster that end in its island. -/
theorem set_of_mem (h : w.Linked) (hi : w.workspaces[i]? = some ws)
    {x : ProxyId × TetherSet S} (hx : x ∈ ws.tethers) :
    ∃ c, w.clusters[x.1]? = some c ∧ x.2.batches = TetherBatches.ofTethers
      ((c.tethers.filter (w.partition.islandOf? ·.tip == some i)).map
        (·.relabel w.placeOf)) c.stiffness := by
  obtain ⟨slots, _, hblank⟩ := h.blank_eq hi
  have hmem : (x.1, x.2.restart) ∈ w.tethersOf w.partition w.placeOf i := by
    have : (x.1, x.2.restart) ∈ ws.blank.tethers := List.mem_map.mpr ⟨x, hx, rfl⟩
    rw [hblank] at this
    exact this
  unfold tethersOf at hmem
  obtain ⟨⟨proxy, c⟩, hc, hset⟩ := List.mem_filterMap.mp hmem
  dsimp only at hset
  split at hset
  case isTrue => cases hset
  case isFalse =>
    rw [Option.some.injEq, Prod.mk.injEq] at hset
    obtain ⟨rfl, hset⟩ := hset
    refine ⟨c, Std.TreeMap.mem_toList_iff_getElem?_eq_some.mp hc, ?_⟩
    rw [← TetherSet.batches_restart, ← hset]
    cases w.config.tether.solver with
    | pbd => rfl
    | xpbd => rfl

/-- Every tether of a workspace is one of the world, between the places of its particles. -/
theorem tether_of_mem (h : w.Linked) (hi : w.workspaces[i]? = some ws)
    {x : ProxyId × TetherSet S} (hx : x ∈ ws.tethers) {t : Tether S}
    (ht : t ∈ x.2.batches.tethers) :
    ∃ c u, w.clusters[x.1]? = some c ∧ u ∈ c.tethers ∧ t = u.relabel w.placeOf ∧
      w.partition.islandOf? u.anchor = some i ∧ w.partition.islandOf? u.tip = some i := by
  obtain ⟨c, hc, hbatches⟩ := h.set_of_mem hi hx
  rw [hbatches] at ht
  have ht' := (Tether.flatten_batches_perm _).mem_iff.mp ht
  obtain ⟨u, hu, rfl⟩ := List.mem_map.mp ht'
  obtain ⟨hmem, htip⟩ := List.mem_filter.mp hu
  have htip : w.partition.islandOf? u.tip = some i := by simpa using htip
  exact ⟨c, u, hc, hmem, rfl, h.partition.islandOf_joined
    (.inl ⟨x.1, c, hc, u, hmem, .inr ⟨rfl, rfl⟩⟩) htip, htip⟩

/-- Every joint of a workspace is one of the world, between the places of its particles. -/
theorem joint_of_mem (h : w.Linked) (hi : w.workspaces[i]? = some ws) {x : ProxyId × Joint S}
    (hx : x ∈ ws.joints) :
    ∃ j, w.joints[x.1]? = some j ∧ x.2.first = w.placeOf j.first.index ∧
      x.2.second = w.placeOf j.second.index ∧
      w.partition.islandOf? j.first.index = some i ∧
      w.partition.islandOf? j.second.index = some i := by
  obtain ⟨slots, _, hblank⟩ := h.blank_eq hi
  have hmem : (x.1, x.2.blank) ∈ w.jointsOf w.partition w.placeOf i := by
    have : (x.1, x.2.blank) ∈ ws.blank.joints := List.mem_map.mpr ⟨x, hx, rfl⟩
    rw [hblank] at this
    exact this
  unfold jointsOf at hmem
  obtain ⟨⟨proxy, j⟩, hj, heq⟩ := List.mem_map.mp hmem
  obtain ⟨hj, hfirst⟩ := List.mem_filter.mp hj
  rw [Prod.mk.injEq] at heq
  obtain ⟨rfl, hjoint⟩ := heq
  have hj := Std.TreeMap.mem_toList_iff_getElem?_eq_some.mp hj
  have hfirst : w.partition.islandOf? j.first.index = some i := by simpa using hfirst
  exact ⟨j, hj, (congrArg Joint.first hjoint).symm, (congrArg Joint.second hjoint).symm, hfirst,
    h.partition.islandOf_joined (.inr ⟨x.1, j, hj, .inl ⟨rfl, rfl⟩⟩) hfirst⟩

/-- Every suspension of a workspace is one of the world, at the place of its particle. -/
theorem suspension_of_mem (h : w.Linked) (hi : w.workspaces[i]? = some ws)
    {x : ProxyId × Suspension S} (hx : x ∈ ws.suspensions) :
    ∃ s, w.suspensions[x.1]? = some s ∧ x.2.particle = w.placeOf s.particle.index ∧
      w.partition.islandOf? s.particle.index = some i := by
  obtain ⟨slots, _, hblank⟩ := h.blank_eq hi
  have hmem : (x.1, x.2.blank) ∈ w.suspensionsOf w.partition w.placeOf i := by
    have : (x.1, x.2.blank) ∈ ws.blank.suspensions := List.mem_map.mpr ⟨x, hx, rfl⟩
    rw [hblank] at this
    exact this
  unfold suspensionsOf at hmem
  obtain ⟨⟨proxy, s⟩, hs, heq⟩ := List.mem_map.mp hmem
  obtain ⟨hs, hisland⟩ := List.mem_filter.mp hs
  rw [Prod.mk.injEq] at heq
  obtain ⟨rfl, hsuspension⟩ := heq
  exact ⟨s, Std.TreeMap.mem_toList_iff_getElem?_eq_some.mp hs,
    (congrArg Suspension.particle hsuspension).symm, by simpa using hisland⟩

/-! ## Fitting copies -/

/-- In a copy of the particles every tether of a workspace runs from an inverse mass that equals
zero to a positive one. -/
theorem tether_fits (h : w.Linked) (hw : w.store.Weighed) {store : ParticleStore S}
    (hstore : ∀ slot, (store.slot slot).inverseMass = (w.store.slot slot).inverseMass)
    (hi : w.workspaces[i]? = some ws) {x : ProxyId × TetherSet S} (hx : x ∈ ws.tethers)
    {t : Tether S} (ht : t ∈ x.2.batches.tethers) : t.Fits (ws.gather store).inverseMasses := by
  obtain ⟨c, u, hc, hu, rfl, hanchor, htip⟩ := h.tether_of_mem hi hx ht
  obtain ⟨⟨halive, hfixed⟩, hblive, hfree⟩ := h.tethers x.1 c hc u hu
  have hcopy : ∀ slot, w.partition.islandOf? slot = some i → w.store.isAlive slot = true →
      (ws.gather store).inverseMasses[w.placeOf slot]? = some (w.store.slot slot).inverseMass := by
    intro slot hslot halive
    unfold Workspace.gather
    rw [Array.getElem?_map, h.getElem_placeOf hi hslot halive, ← hstore]
    rfl
  exact ⟨⟨_, hcopy u.anchor hanchor halive, (hw _ halive).zero hfixed⟩,
    _, hcopy u.tip htip hblive, (hw _ hblive).pos hfree⟩

/-- A workspace fits the particles it copies. -/
theorem fits (h : w.Linked) (hw : w.store.Weighed) {store : ParticleStore S}
    (hstore : ∀ slot, (store.slot slot).inverseMass = (w.store.slot slot).inverseMass)
    (hi : w.workspaces[i]? = some ws) : (ws.gather store).restart.Fits := by
  have hlt : ∀ slot, w.partition.islandOf? slot = some i → w.store.isAlive slot = true →
      w.placeOf slot < ws.particles.size := fun slot hslot halive =>
    (Array.getElem?_eq_some_iff.mp (h.getElem_placeOf hi hslot halive)).1
  refine ⟨Array.size_map .., Array.size_map .., ?_, ?_, ?_⟩
  · intro y hy
    obtain ⟨x, hx, rfl⟩ := List.mem_map.mp hy
    refine ⟨fun t ht => ?_, fun ms hms => ?_⟩
    · rw [TetherSet.batches_restart] at ht
      exact h.tether_fits hw hstore hi hx ht
    · obtain ⟨owner, set⟩ := x
      cases set with
      | pbd batches => cases hms
      | xpbd batches multipliers =>
        cases hms
        exact List.length_replicate ..
  · intro y hy
    obtain ⟨x, hx, rfl⟩ := List.mem_map.mp hy
    obtain ⟨j, hj, hfirst, hsecond, hone, htwo⟩ := h.joint_of_mem hi hx
    obtain ⟨hafirst, hasecond⟩ := h.joints x.1 j hj
    refine ⟨?_, ?_⟩
    · show x.2.first < _
      rw [hfirst]
      exact hlt _ hone (ParticleStore.contains_iff.mp hafirst).1
    · show x.2.second < _
      rw [hsecond]
      exact hlt _ htwo (ParticleStore.contains_iff.mp hasecond).1
  · intro y hy
    obtain ⟨x, hx, rfl⟩ := List.mem_map.mp hy
    obtain ⟨s, hs, hparticle, hisland⟩ := h.suspension_of_mem hi hx
    show x.2.particle < _
    rw [hparticle]
    exact hlt _ hisland (ParticleStore.contains_iff.mp (h.suspensions x.1 s hs)).1

end Linked

end World

end TetheredParticles
