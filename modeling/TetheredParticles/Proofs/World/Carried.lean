import TetheredParticles.Proofs.World.Kinds
import TetheredParticles.Proofs.World.Motion
/-!
# The world after it has moved

What a step of positive size leaves behind can be read off the cells of the world: every particle
is where the rigid passes left it and has the velocity that leads to where the projection passes
left it, and every constraint has the force that its cell tells. No island is mentioned.

* `World.Linked.slot_moved` — the particles.
* `World.Linked.forces_moved` — the forces of constraints.
* `World.Linked.remembers_moved` — the directions that workspaces remember.
-/

namespace TetheredParticles

variable {S : Type} [Scalar S]

/-! ## Particles -/

/-- The slot of a particle that is solved at one place and comes to rest at another. -/
def ParticleSlot.carried (s : ParticleSlot S) (solved final : Vec3 S) (dt : S) : ParticleSlot S :=
  { s with
    velocity := Integration.meanVelocity s.position solved dt
    position := final
    predicted := final }

/-- The force that the cell of a constraint tells. -/
def Motion.force (σ : Motion S) (c : Cell) (dt : S) : Vec3 S :=
  Compliance.force (σ c).2 (σ c).1 dt

theorem Joint.Remembered.force {j : Joint S} {owner : ProxyId} {σ : Motion S}
    (h : j.Remembered owner σ) (dt : S) : j.force dt = σ.force (.joint owner) dt := by
  unfold Motion.force
  rw [h]
  rfl

theorem Suspension.Remembered.force {s : Suspension S} {owner : ProxyId} {σ : Motion S}
    (h : s.Remembered owner σ) (dt : S) : s.force dt = σ.force (.suspension owner) dt := by
  unfold Motion.force
  rw [h]
  rfl

namespace World

/-- An island writes its particles back, and no others. -/
theorem slot_scatter {ws : Workspace S} {σ τ : Motion S} (hsolved : Shown ws.particles ws.solved σ)
    (hfinal : Shown ws.particles ws.positions τ) (hnodup : ws.particles.toList.Nodup)
    {store : ParticleStore S} (hrange : ∀ slot ∈ ws.particles, slot < store.slotCount) (dt : S)
    (n : Nat) :
    (scatter dt store ws).slot n =
      if n ∈ ws.particles then
        (store.slot n).carried (Motion.position σ n) (Motion.position τ n) dt
      else store.slot n := by
  -- particles are written back one by one, each at its place
  have hall : ∀ (places : List (Nat × Nat)) (store : ParticleStore S),
      (∀ x ∈ places, ws.particles[x.2]? = some x.1 ∧ x.1 < store.slotCount) →
      (places.map (·.1)).Nodup →
      (places.foldl (fun store x =>
        store.modify x.1 fun s =>
          { s with
            velocity := Integration.meanVelocity s.position (ws.solved.getD x.2 0) dt
            position := ws.positions.getD x.2 0
            predicted := ws.positions.getD x.2 0 }) store).slot n =
        if n ∈ places.map (·.1) then
          (store.slot n).carried (Motion.position σ n) (Motion.position τ n) dt
        else store.slot n := by
    intro places
    induction places with
    | nil =>
      intro store _ _
      rfl
    | cons x rest ih =>
      intro store hplaces hdistinct
      rw [List.map_cons, List.nodup_cons] at hdistinct
      rcases hdistinct with ⟨hfresh, hdistinct⟩
      rcases hplaces x List.mem_cons_self with ⟨hplace, hlt⟩
      rw [List.foldl_cons, ih _ ?_ hdistinct, ParticleStore.slot_modify _ _ _ _ hlt,
        hsolved.getD hplace, hfinal.getD hplace]
      · by_cases hn : n = x.1
        · subst hn
          rw [if_neg hfresh, if_pos rfl, if_pos (by simp)]
          rfl
        · rw [if_neg hn]
          simp only [List.map_cons, List.mem_cons, hn, false_or]
      · intro y hy
        rcases hplaces y (List.mem_cons_of_mem x hy) with ⟨hplace, hlt⟩
        exact ⟨hplace, (ParticleStore.slotCount_modify store x.1 _).symm ▸ hlt⟩
  have hscatter := hall ws.particles.toList.zipIdx store ?_ ?_
  · rw [List.zipIdx_map_fst] at hscatter
    simp only [Array.mem_toList_iff] at hscatter
    exact hscatter
  · intro x hx
    have hplace := List.mem_zipIdx_iff_getElem?.mp hx
    rw [Array.getElem?_toList] at hplace
    exact ⟨hplace, hrange x.1 (Array.mem_of_getElem? hplace)⟩
  · rw [List.zipIdx_map_fst]
    exact hnodup

/-- Islands without common particles write back all of theirs. -/
theorem slot_scatterAll {islands : List (Workspace S)} {σ τ : Motion S}
    (hshown : ∀ ws ∈ islands, Shown ws.particles ws.solved σ ∧ Shown ws.particles ws.positions τ)
    (hnodup : ∀ ws ∈ islands, ws.particles.toList.Nodup)
    (hdisjoint : islands.Pairwise fun a b => a.particles.toList.Disjoint b.particles.toList)
    {store : ParticleStore S}
    (hrange : ∀ ws ∈ islands, ∀ slot ∈ ws.particles, slot < store.slotCount) (dt : S) (n : Nat) :
    (islands.foldl (scatter dt) store).slot n =
      if ∃ ws ∈ islands, n ∈ ws.particles then
        (store.slot n).carried (Motion.position σ n) (Motion.position τ n) dt
      else store.slot n := by
  induction islands generalizing store with
  | nil =>
    rw [if_neg]
    · rfl
    · rintro ⟨ws, hws, _⟩
      cases hws
  | cons ws rest ih =>
    rw [List.pairwise_cons] at hdisjoint
    rcases hdisjoint with ⟨hapart, hdisjoint⟩
    rcases hshown ws List.mem_cons_self with ⟨hsolved, hfinal⟩
    have hone := slot_scatter hsolved hfinal (hnodup ws List.mem_cons_self)
      (hrange ws List.mem_cons_self) dt n
    have hcount : (scatter dt store ws).slotCount = store.slotCount :=
      (steady_scatter dt store ws).alike.slotCount
    have hlater : ∀ y ∈ rest, ∀ slot ∈ y.particles, slot < (scatter dt store ws).slotCount := by
      intro y hy slot hslot
      rw [hcount]
      exact hrange y (List.mem_cons_of_mem ws hy) slot hslot
    rw [List.foldl_cons, ih (fun y hy => hshown y (List.mem_cons_of_mem ws hy))
      (fun y hy => hnodup y (List.mem_cons_of_mem ws hy)) hdisjoint hlater, hone]
    by_cases hn : n ∈ ws.particles
    · have hothers : ¬ ∃ y ∈ rest, n ∈ y.particles := by
        rintro ⟨y, hy, hny⟩
        exact hapart y hy (Array.mem_toList_iff.mpr hn) (Array.mem_toList_iff.mpr hny)
      rw [if_neg hothers, if_pos hn, if_pos ⟨ws, List.mem_cons_self, hn⟩]
    · rw [if_neg hn]
      congr 1
      rw [eq_iff_iff]
      constructor
      · rintro ⟨y, hy, hny⟩
        exact ⟨y, List.mem_cons_of_mem ws hy, hny⟩
      · rintro ⟨y, hy, hny⟩
        rcases List.mem_cons.mp hy with rfl | hy
        · exact absurd hny hn
        · exact ⟨y, hy, hny⟩

namespace Linked

variable {w : World S} {directions : Directions S}

/-- The islands of a step come from the workspaces, and show the cells of the world. -/
theorem of_mem_movedIslands (h : w.Linked) (hw : w.store.Weighed)
    (hm : w.Remembers directions) (dt : S) {island : Workspace S}
    (hisland : island ∈ w.movedIslands dt) :
    ∃ (i : Nat) (ws : Workspace S), w.workspaces[i]? = some ws ∧ island.blank = ws.blank ∧
      Shown island.particles island.solved (w.solvedMotion directions dt) ∧
      island.Shows (w.pushedMotion directions dt) := by
  rcases Array.mem_map.mp hisland with ⟨ws, hws, rfl⟩
  rcases Array.mem_iff_getElem?.mp hws with ⟨i, hi⟩
  have hblank : (Total.island w.config (w.predicted dt) dt ws).blank = ws.blank :=
    (h.island_eq hw dt hws).2.1
  have hparticles : (Total.island w.config (w.predicted dt) dt ws).blank.particles =
      ws.particles := by
    rw [hblank]
    rfl
  rcases h.island_shows hw hm dt hi with ⟨hsolved, hshows⟩
  refine ⟨i, ws, hi, hblank, ?_, hshows⟩
  show Shown (Total.island w.config (w.predicted dt) dt ws).blank.particles _ _
  rw [hparticles]
  exact hsolved

/-- A step carries every particle to where the program of the world leads. -/
theorem slot_moved (h : w.Linked) (hw : w.store.Weighed) (hm : w.Remembers directions) (dt : S)
    (n : Nat) :
    (w.moved dt).store.slot n =
      if w.store.isAlive n = true then
        ((w.predicted dt).slot n).carried (Motion.position (w.solvedMotion directions dt) n)
          (Motion.position (w.pushedMotion directions dt) n) dt
      else (w.predicted dt).slot n := by
  have hdistributed := h.distributed hw
  -- solving leaves every island with the particles that it was shared
  have hparticles : (w.movedIslands dt).toList.map (·.particles) =
      w.workspaces.toList.map (·.particles) := by
    have hblank := congrArg (fun islands : Array (Workspace S) =>
      islands.toList.map (·.particles)) (blank_movedIslands h hw dt)
    simp only [Array.toList_map, List.map_map] at hblank
    exact hblank
  have hmem : ∀ island ∈ (w.movedIslands dt).toList, ∃ ws ∈ w.workspaces,
      island.particles = ws.particles := by
    intro island hisland
    have hmap := List.mem_map_of_mem (f := (·.particles)) hisland
    rw [hparticles] at hmap
    rcases List.mem_map.mp hmap with ⟨ws, hws, heq⟩
    exact ⟨ws, Array.mem_toList_iff.mp hws, heq.symm⟩
  have hshown : ∀ island ∈ (w.movedIslands dt).toList,
      Shown island.particles island.solved (w.solvedMotion directions dt) ∧
        Shown island.particles island.positions (w.pushedMotion directions dt) := by
    intro island hisland
    rcases h.of_mem_movedIslands hw hm dt (Array.mem_toList_iff.mp hisland)
      with ⟨_, _, _, _, hsolved, hshows⟩
    exact ⟨hsolved, hshows.positions⟩
  have hnodup : ∀ island ∈ (w.movedIslands dt).toList, island.particles.toList.Nodup := by
    intro island hisland
    rcases hmem island hisland with ⟨ws, hws, heq⟩
    rw [heq]
    exact (hdistributed.ascending ws hws).imp Nat.ne_of_lt
  have hdisjoint := hdistributed.disjoint
  rw [← List.pairwise_map (f := fun ws : Workspace S => ws.particles)
    (R := fun a b => a.toList.Disjoint b.toList), ← hparticles, List.pairwise_map] at hdisjoint
  have hrange : ∀ island ∈ (w.movedIslands dt).toList, ∀ slot ∈ island.particles,
      slot < (w.predicted dt).slotCount := by
    intro island hisland slot hslot
    rcases hmem island hisland with ⟨ws, hws, heq⟩
    rw [show (w.predicted dt).slotCount = w.store.slotCount from
      ParticleStore.slotCount_predict ..]
    exact ParticleStore.lt_slotCount ((hdistributed.exist slot).mp ⟨ws, hws, heq ▸ hslot⟩)
  show ((w.movedIslands dt).foldl (scatter dt) (w.predicted dt)).slot n = _
  rw [← Array.foldl_toList, slot_scatterAll hshown hnodup hdisjoint hrange dt n]
  congr 1
  -- on the slots of some island are exactly the occupied ones
  rw [eq_iff_iff, ← hdistributed.exist]
  constructor
  · rintro ⟨island, hisland, hn⟩
    rcases hmem island hisland with ⟨ws, hws, heq⟩
    exact ⟨ws, hws, heq ▸ hn⟩
  · rintro ⟨ws, hws, hn⟩
    have hmap := List.mem_map_of_mem (f := fun ws : Workspace S => ws.particles)
      (Array.mem_toList_iff.mpr hws)
    rw [← hparticles] at hmap
    rcases List.mem_map.mp hmap with ⟨island, hisland, heq⟩
    exact ⟨island, hisland, heq ▸ hn⟩

/-! ## Constraints -/

/-- The next step finds the directions in the cells that this one leaves. -/
theorem remembers_moved (h : w.Linked) (hw : w.store.Weighed) (hm : w.Remembers directions)
    (dt : S) :
    (w.moved dt).Remembers fun c => (w.pushedMotion directions dt c).1 := by
  constructor
  · intro island hisland x hx
    rcases h.of_mem_movedIslands hw hm dt hisland with ⟨_, _, _, _, _, hshows⟩
    rw [hshows.joints x hx]
  · intro island hisland x hx
    rcases h.of_mem_movedIslands hw hm dt hisland with ⟨_, _, _, _, _, hshows⟩
    rw [hshows.suspensions x hx]

/-- Every joint is held by an island. -/
theorem exists_joint (h : w.Linked) (hw : w.store.Weighed) (dt : S) {proxy : ProxyId}
    (hjoint : w.joints.contains proxy = true) :
    ∃ island ∈ w.movedIslands dt, ∃ x ∈ island.joints, x.1 = proxy := by
  rw [Std.TreeMap.contains_eq_isSome_getElem?] at hjoint
  rcases Option.isSome_iff_exists.mp hjoint with ⟨j, hj⟩
  rcases h.exists_islandOf (ParticleStore.contains_iff.mp (h.joints proxy j hj).1).1
    with ⟨i, hi, hisland⟩
  have hws := Array.getElem?_eq_getElem hi
  have hmem := Array.mem_of_getElem? hws
  -- the workspace of its island was built with it, and still has it
  have hname : proxy ∈ (w.jointsOf w.partition w.placeOf i).map (·.1) := by
    unfold jointsOf
    rw [List.map_map]
    refine List.mem_map.mpr ⟨(proxy, j), List.mem_filter.mpr ⟨?_, beq_iff_eq.mpr hisland⟩, rfl⟩
    exact Std.TreeMap.mem_toList_iff_getElem?_eq_some.mpr hj
  rw [← (h.owners_eq hws).2.1,
    ← (Workspace.owners_of_blank (h.island_eq hw dt hmem).2.1).2.1] at hname
  rcases List.mem_map.mp hname with ⟨x, hx, hproxy⟩
  exact ⟨_, Array.mem_map.mpr ⟨_, hmem, rfl⟩, x, hx, hproxy⟩

/-- Every suspension is held by an island. -/
theorem exists_suspension (h : w.Linked) (hw : w.store.Weighed) (dt : S) {proxy : ProxyId}
    (hsuspension : w.suspensions.contains proxy = true) :
    ∃ island ∈ w.movedIslands dt, ∃ x ∈ island.suspensions, x.1 = proxy := by
  rw [Std.TreeMap.contains_eq_isSome_getElem?] at hsuspension
  rcases Option.isSome_iff_exists.mp hsuspension with ⟨s, hs⟩
  rcases h.exists_islandOf (ParticleStore.contains_iff.mp (h.suspensions proxy s hs)).1
    with ⟨i, hi, hisland⟩
  have hws := Array.getElem?_eq_getElem hi
  have hmem := Array.mem_of_getElem? hws
  have hname : proxy ∈ (w.suspensionsOf w.partition w.placeOf i).map (·.1) := by
    unfold suspensionsOf
    rw [List.map_map]
    refine List.mem_map.mpr ⟨(proxy, s), List.mem_filter.mpr ⟨?_, beq_iff_eq.mpr hisland⟩, rfl⟩
    exact Std.TreeMap.mem_toList_iff_getElem?_eq_some.mpr hs
  rw [← (h.owners_eq hws).2.2,
    ← (Workspace.owners_of_blank (h.island_eq hw dt hmem).2.1).2.2] at hname
  rcases List.mem_map.mp hname with ⟨x, hx, hproxy⟩
  exact ⟨_, Array.mem_map.mpr ⟨_, hmem, rfl⟩, x, hx, hproxy⟩

/-- The forces of the islands are those that the cells of the constraints tell. -/
theorem mem_constraintForces (h : w.Linked) (hw : w.store.Weighed) (hm : w.Remembers directions)
    (dt : S) (entry : ProxyId × Vec3 S) :
    (∃ island ∈ w.movedIslands dt, entry ∈ island.constraintForces dt) ↔
      w.joints.contains entry.1 = true ∧
          entry.2 = Motion.force (w.pushedMotion directions dt) (.joint entry.1) dt ∨
        w.suspensions.contains entry.1 = true ∧
          entry.2 = Motion.force (w.pushedMotion directions dt) (.suspension entry.1) dt := by
  -- an entry names its constraint, and each constraint is on an island that shows the motion
  constructor
  · rintro ⟨island, hisland, hentry⟩
    rcases h.of_mem_movedIslands hw hm dt hisland with ⟨i, ws, hi, hblank, _, hshows⟩
    rcases Workspace.owners_of_blank hblank with ⟨_, hjoints, hsuspensions⟩
    rcases List.mem_append.mp hentry with hentry | hentry
    · rcases List.mem_map.mp hentry with ⟨x, hx, rfl⟩
      have howner := List.mem_map_of_mem (f := (·.1)) hx
      rw [hjoints] at howner
      rcases List.mem_map.mp howner with ⟨y, hy, howner⟩
      rcases h.joint_of_mem hi hy with ⟨j, hj, _⟩
      refine .inl ⟨?_, ?_⟩
      · rw [Std.TreeMap.contains_eq_isSome_getElem?, ← howner, hj]
        rfl
      · exact (hshows.joints x hx).force dt
    · rcases List.mem_map.mp hentry with ⟨x, hx, rfl⟩
      have howner := List.mem_map_of_mem (f := (·.1)) hx
      rw [hsuspensions] at howner
      rcases List.mem_map.mp howner with ⟨y, hy, howner⟩
      rcases h.suspension_of_mem hi hy with ⟨s, hs, _⟩
      refine .inr ⟨?_, ?_⟩
      · rw [Std.TreeMap.contains_eq_isSome_getElem?, ← howner, hs]
        rfl
      · exact (hshows.suspensions x hx).force dt
  · rcases entry with ⟨proxy, force⟩
    rintro (⟨hjoint, hforce⟩ | ⟨hsuspension, hforce⟩)
    · rcases h.exists_joint hw dt hjoint with ⟨island, hisland, x, hx, hproxy⟩
      rcases h.of_mem_movedIslands hw hm dt hisland with ⟨_, _, _, _, _, hshows⟩
      refine ⟨island, hisland, List.mem_append_left _ (List.mem_map.mpr ⟨x, hx, ?_⟩)⟩
      refine Prod.ext hproxy ?_
      dsimp only at hforce hproxy ⊢
      rw [hforce, ← hproxy]
      exact (hshows.joints x hx).force dt
    · rcases h.exists_suspension hw dt hsuspension with ⟨island, hisland, x, hx, hproxy⟩
      rcases h.of_mem_movedIslands hw hm dt hisland with ⟨_, _, _, _, _, hshows⟩
      refine ⟨island, hisland, List.mem_append_right _ (List.mem_map.mpr ⟨x, hx, ?_⟩)⟩
      refine Prod.ext hproxy ?_
      dsimp only at hforce hproxy ⊢
      rw [hforce, ← hproxy]
      exact (hshows.suspensions x hx).force dt

/-- The forces after a step are those that the cells of the constraints tell. -/
theorem forces_moved (h : w.Linked) (hw : w.store.Weighed) (hk : w.Unmixed)
    (hm : w.Remembers directions) (dt : S) (proxy : ProxyId) :
    (w.moved dt).forces[proxy]? =
      if w.joints.contains proxy then
        some (Motion.force (w.pushedMotion directions dt) (.joint proxy) dt)
      else if w.suspensions.contains proxy then
        some (Motion.force (w.pushedMotion directions dt) (.suspension proxy) dt)
      else w.forces[proxy]? := by
  have hforces : (w.moved dt).forces =
      ((w.movedIslands dt).toList.flatMap (·.constraintForces dt)).foldl
        (fun forces entry => forces.insert entry.1 entry.2) w.forces := by
    rw [List.foldl_flatMap, Array.foldl_toList]
    rfl
  have hmem : ∀ force : Vec3 S,
      (proxy, force) ∈ (w.movedIslands dt).toList.flatMap (·.constraintForces dt) ↔
        w.joints.contains proxy = true ∧
            force = Motion.force (w.pushedMotion directions dt) (.joint proxy) dt ∨
          w.suspensions.contains proxy = true ∧
            force = Motion.force (w.pushedMotion directions dt) (.suspension proxy) dt := by
    intro force
    rw [← h.mem_constraintForces hw hm dt (proxy, force), List.mem_flatMap]
    simp only [Array.mem_toList_iff]
  rw [hforces]
  by_cases hjoint : w.joints.contains proxy = true
  · rw [if_pos hjoint]
    refine Maps.getElem?_foldl_insert_of_mem ((hmem _).mpr (.inl ⟨hjoint, rfl⟩)) ?_
    intro force hforce
    rcases (hmem force).mp hforce with ⟨_, heq⟩ | ⟨hsuspension, _⟩
    · exact heq
    · rw [(hk.joints proxy hjoint).2] at hsuspension
      cases hsuspension
  · rw [if_neg hjoint]
    by_cases hsuspension : w.suspensions.contains proxy = true
    · rw [if_pos hsuspension]
      refine Maps.getElem?_foldl_insert_of_mem ((hmem _).mpr (.inr ⟨hsuspension, rfl⟩)) ?_
      intro force hforce
      rcases (hmem force).mp hforce with ⟨hno, _⟩ | ⟨_, heq⟩
      · exact absurd hno hjoint
      · exact heq
    · rw [if_neg hsuspension]
      refine Maps.getElem?_foldl_insert_of_not_mem ?_
      intro force hforce
      rcases (hmem force).mp hforce with ⟨hyes, _⟩ | ⟨hyes, _⟩
      · exact hjoint hyes
      · exact hsuspension hyes

end Linked

end World

end TetheredParticles
