import TetheredParticles.Proofs.World.Enclosure
/-!
# Proxies that are not connected do not interfere

A set of proxies that no joint and no suspension leaves can be taken out of a world. As long as
nothing is written, its particles move in the world that is left as they do in the whole one, bit by
bit, and its constraints have the same forces, however many islands there are and whatever else was
merged into them.

* `World.Insulated` — a world and what is left of it, both ready to move.
* `World.Insulated.step`, `World.Insulated.run` — steps without deltas.
* `World.restrict_unaffected` — whole runs, after anything that was asked of the empty world.
-/

namespace TetheredParticles

variable {S T : Type} [Scalar S] [Scalar T] [Timeline S T]

/-- Two steps of the same size without deltas. -/
structure PushSnapshot.SameSize (s t : PushSnapshot S T) : Prop where
  first : s.deltas = []
  second : t.deltas = []
  dt : t.dt = s.dt

omit [Scalar S] [Scalar T] [Timeline S T] in
theorem PushSnapshot.admissible_of_nil {s : PushSnapshot S T} (h : s.deltas = []) :
    s.Admissible := by
  intro d hd
  rw [h] at hd
  cases hd

namespace World

/-! ## Steps without deltas -/

/-- What a step notes of its deltas does not matter to the topology. -/
theorem rebuild_touched {w b : World S} (h : w.rebuild = .ok b) (touched : Std.TreeSet ProxyId) :
    rebuild { w with touched } = .ok { b with touched } := by
  unfold rebuild at h
  rcases exists_of_bind_ok h with ⟨laid, hlaid, h⟩
  unfold layTethers at hlaid
  rcases exists_of_bind_ok hlaid with ⟨clusters, hclusters, hlaid⟩
  cases hlaid
  rcases exists_of_bind_ok h with ⟨partition, hpartition, h⟩
  cases h
  have hagain : layTethers { w with topologyDirty := false, touched } =
      .ok { w with topologyDirty := false, touched, clusters } := by
    unfold layTethers
    dsimp only at hclusters ⊢
    rw [hclusters]
    rfl
  have hislands : computePartition
      (dropDangling { w with topologyDirty := false, touched, clusters }) = .ok partition :=
    hpartition
  unfold rebuild
  rw [hagain, ok_bind]
  dsimp only
  rw [hislands]
  rfl

/-- A step without deltas may as well start where the topology stage leads. -/
theorem step_of_refresh {w b : World S} (h : w.refresh = .ok b) (hclean : b.topologyDirty = false)
    {snapshot : PushSnapshot S T} (hs : snapshot.deltas = []) :
    w.step snapshot = b.step snapshot := by
  have hagain : refresh { b with touched := ∅ } = .ok { b with touched := ∅ } := by
    unfold refresh
    rw [if_neg (Bool.eq_false_iff.mp hclean)]
  have hfirst : refresh { w with touched := ∅ } = .ok { b with touched := ∅ } := by
    unfold refresh at h ⊢
    by_cases hdirty : w.topologyDirty = true
    · rw [if_pos hdirty] at h ⊢
      exact rebuild_touched h ∅
    · rw [if_neg hdirty] at h ⊢
      cases h
      rfl
  have hprepare : w.prepare snapshot.deltas = b.prepare snapshot.deltas := by
    rw [hs]
    unfold prepare applyDeltas
    dsimp only [List.foldl_nil]
    rw [hfirst, hagain]
  unfold step
  rw [hprepare]

/-- Steps in order. -/
abbrev steps (snapshots : List (PushSnapshot S T)) : List (Action S T) :=
  snapshots.map .step

/-- A world that is confirmed moves on as the same world that is not. -/
theorem Renewed.run [LawfulZero S] [LawfulDirections S] {w v : World S} (h : w.Renewed v)
    {snapshots : List (PushSnapshot S T)} (hs : ∀ s ∈ snapshots, s.Admissible) :
    ∃ a b, w.run (steps snapshots) = .ok a ∧ v.run (steps snapshots) = .ok b ∧ a.Renewed b := by
  induction snapshots generalizing w v with
  | nil => exact ⟨w, v, rfl, rfl, h⟩
  | cons snapshot rest ih =>
    rcases h.step (hs snapshot List.mem_cons_self) with ⟨one, two, hone, htwo, _, hworld⟩
    rcases ih hworld fun s hmem => hs s (List.mem_cons_of_mem snapshot hmem)
      with ⟨a, b, ha, hb, hab⟩
    refine ⟨a, b, ?_, ?_, hab⟩
    · show (w.step snapshot >>= fun outcome => outcome.world.run (steps rest)) = .ok a
      rw [hone, ok_bind, ha]
    · show (v.step snapshot >>= fun outcome => outcome.world.run (steps rest)) = .ok b
      rw [htwo, ok_bind, hb]

/-! ## Both worlds together -/

/-- A world and what is left of it, both clean and tidy, with the same directions inside. -/
structure Insulated (keep : ProxyId → Bool) (w r : World S) : Prop where
  restricts : Restricts keep w r
  enclosed : w.Enclosed keep
  clean : w.topologyDirty = false ∧ r.topologyDirty = false
  tidy : ∃ directions others, w.Tidy directions ∧ r.Tidy others ∧
    ∀ c, w.Inside keep c → others c = directions c

namespace Insulated

variable {keep : ProxyId → Bool} {w r : World S}

/-- Nothing is touched yet. -/
theorem untouched (h : Insulated keep w r) :
    Insulated keep { w with touched := ∅ } { r with touched := ∅ } := by
  have hr := h.restricts
  have he := h.enclosed
  rcases h.tidy with ⟨directions, others, hw, hr', hd⟩
  refine ⟨⟨hr.config, hr.slots, hr.only, hr.masses, hr.members, hr.clusters, hr.joints,
    hr.suspensions, hr.forces⟩, ⟨he.tethers, he.joints, he.suspensions⟩, h.clean,
    directions, others, ?_, ?_, hd⟩
  · exact ⟨hw.inv.withNotes w.forces ∅ w.latest, ⟨hw.small.slots, hw.small.clusters⟩,
      hw.unmixed.of_eq rfl rfl rfl, hw.remembers.of_memory rfl⟩
  · exact ⟨hr'.inv.withNotes r.forces ∅ r.latest, ⟨hr'.small.slots, hr'.small.clusters⟩,
      hr'.unmixed.of_eq rfl rfl rfl, hr'.remembers.of_memory rfl⟩

theorem inside_of_alike {store : ParticleStore S} (h : w.store.Alike store) {after : World S}
    (hafter : after.store = store) {c : Cell} (hc : after.Inside keep c) : w.Inside keep c := by
  cases c with
  | slot n =>
    subst hafter
    exact (Enclosed.keeps_of_alike h n).mp hc
  | tether owner layer tip => exact hc
  | joint owner => exact hc
  | suspension owner => exact hc

/-- Both worlds move. -/
theorem moved (h : Insulated keep w r) (dt : S) : Insulated keep (w.moved dt) (r.moved dt) := by
  rcases h.tidy with ⟨directions, others, hw, hr, hd⟩
  have hlw := hw.inv.linked h.clean.1
  have hlr := hr.inv.linked h.clean.2
  have halike := (steady_moved w dt).alike
  have henclosed := h.enclosed.withStore halike
  refine ⟨h.restricts.moved h.enclosed hw hr hlw hlr dt hd,
    ⟨henclosed.tethers, henclosed.joints, henclosed.suspensions⟩, h.clean, _, _,
    hw.moved hlw dt, hr.moved hlr dt, ?_⟩
  intro c hc
  have hinside := inside_of_alike halike rfl hc
  exact congrArg Prod.fst (h.restricts.pushedMotion_eq h.enclosed dt hd hinside).symm

/-- Both worlds clear what was meant for the step. -/
theorem cleared (h : Insulated keep w r) (one two : Timestamp) :
    Insulated keep { w with store := w.store.clearStepData, latest := one }
      { r with store := r.store.clearStepData, latest := two } := by
  rcases h.tidy with ⟨directions, others, hw, hr, hd⟩
  have hsteady := ParticleStore.Steady.clearStepData w.store
  have henclosed := h.enclosed.withStore hsteady.alike
  have hrestricts := h.restricts.withStores hsteady (.clearStepData r.store) ?_
  · refine ⟨⟨hrestricts.config, hrestricts.slots, hrestricts.only, hrestricts.masses,
      hrestricts.members, hrestricts.clusters, hrestricts.joints, hrestricts.suspensions,
      hrestricts.forces⟩, ⟨henclosed.tethers, henclosed.joints, henclosed.suspensions⟩, h.clean,
      directions, others, hw.cleared one, hr.cleared two, ?_⟩
    intro c hc
    exact hd c (inside_of_alike hsteady.alike rfl hc)
  · intro n hn
    rw [ParticleStore.slot_clearStepData, ParticleStore.slot_clearStepData,
      h.restricts.slots n hn]

omit [Scalar T] [Timeline S T] in
/-- The moving part of a step, if it has one, and its end. -/
theorem stepped (h : Insulated keep w r) {s t : PushSnapshot S T} (hst : s.SameSize t) :
    Insulated keep (w.stepped s) (r.stepped t) := by
  unfold World.stepped
  rw [hst.dt]
  dsimp only
  by_cases hdt : 0 < s.dt
  · rw [if_pos hdt, if_pos hdt]
    exact (h.moved s.dt).cleared s.timestamp t.timestamp
  · rw [if_neg hdt, if_neg hdt]
    exact h.cleared s.timestamp t.timestamp

theorem prepare_of_clean {w : World S} (hclean : w.topologyDirty = false) :
    w.prepare [] = .ok (0, { w with touched := ∅ }) := by
  unfold prepare applyDeltas
  dsimp only [List.foldl_nil]
  unfold refresh
  dsimp only
  rw [if_neg (Bool.eq_false_iff.mp hclean)]
  rfl

/-- Both worlds step. -/
theorem step (h : Insulated keep w r) {s t : PushSnapshot S T} (hst : s.SameSize t) :
    ∃ one two, w.step s = .ok one ∧ r.step t = .ok two ∧ Insulated keep one.world two.world := by
  have huntouched := h.untouched
  rcases huntouched.tidy with ⟨_, _, hw, hr, _⟩
  have hone := prepare_of_clean h.clean.1
  have htwo := prepare_of_clean h.clean.2
  rw [← hst.first] at hone
  rw [← hst.second] at htwo
  refine ⟨_, _, step_eq hone (hw.inv.linked h.clean.1) hw.inv.sound.weighed,
    step_eq htwo (hr.inv.linked h.clean.2) hr.inv.sound.weighed, ?_⟩
  exact huntouched.stepped hst

/-- Both worlds step on and on. -/
theorem run (h : Insulated keep w r) {snapshots others : List (PushSnapshot S T)}
    (hs : List.Forall₂ PushSnapshot.SameSize snapshots others) :
    ∃ a b, w.run (steps snapshots) = .ok a ∧ r.run (steps others) = .ok b ∧
      Insulated keep a b := by
  induction hs generalizing w r with
  | nil => exact ⟨w, r, rfl, rfl, h⟩
  | @cons s t ss ts hst _ ih =>
    rcases h.step hst with ⟨one, two, hone, htwo, hworld⟩
    rcases ih hworld with ⟨a, b, ha, hb, hab⟩
    refine ⟨a, b, ?_, ?_, hab⟩
    · show (w.step s >>= fun outcome => outcome.world.run (steps ss)) = .ok a
      rw [hone, ok_bind, ha]
    · show (r.step t >>= fun outcome => outcome.world.run (steps ts)) = .ok b
      rw [htwo, ok_bind, hb]

end Insulated

/-! ## Whole runs -/

/-- The second world lists what is kept of the first one and holds nothing else. The particles that
are kept are the same in both, bit by bit, and forces are the same numbers. -/
structure Unaffected (keep : ProxyId → Bool) (w r : World S) : Prop where
  unknown : ∀ proxy, keep proxy = false → r.knows proxy = false
  members : Maps.Restricts keep w.members r.members
  only : ∀ h owner, r.store.owner? h = some owner → keep owner = true
  particles : ∀ h owner, w.store.owner? h = some owner → keep owner = true →
    r.store.get? h = w.store.get? h
  forces : ∀ proxy : ProxyId, keep proxy = true →
    Option.Rel Vec3.Same w.forces[proxy]? r.forces[proxy]?

/-- What is left of a world is also left of one that differs from it in forces only. -/
theorem Restricts.unaffected {keep : ProxyId → Bool} {w v r : World S} (h : Restricts keep v r)
    (hstore : v.store = w.store) (hmembers : v.members = w.members)
    (hforces : ∀ proxy : ProxyId, Option.Rel Vec3.Same w.forces[proxy]? v.forces[proxy]?) :
    Unaffected keep w r := by
  refine ⟨?_, hmembers ▸ h.members, ?_, ?_, ?_⟩
  · intro proxy hkeep
    unfold knows
    rw [h.members.contains_of_not hkeep, h.joints.contains_of_not hkeep,
      h.suspensions.contains_of_not hkeep]
    rfl
  · intro k owner hk
    rcases ParticleStore.owner?_eq_some.mp hk with ⟨hcontains, howner⟩
    have hkept := h.only k.index (ParticleStore.contains_iff.mp hcontains).1
    rw [h.slots k.index hkept] at howner
    rcases hkept with ⟨first, hfirst, hkeep⟩
    rw [hfirst] at howner
    cases howner
    exact hkeep
  · intro k owner hk hkeep
    rw [← hstore] at hk ⊢
    have hslot := h.slots k.index ⟨owner, (ParticleStore.owner?_eq_some.mp hk).2, hkeep⟩
    unfold ParticleStore.get?
    rw [ParticleStore.contains_congr hslot, hslot]
  · intro proxy hkeep
    rw [h.forces proxy hkeep]
    exact hforces proxy

/-- A world and its rest after everything that is not kept has been destroyed are insulated from
each other once both are rebuilt. -/
theorem Grown.insulated {keep : ProxyId → Bool} {w : World S} (h : w.Grown)
    (hc : w.Closed keep) :
    ∃ b r, w.rebuild = .ok b ∧ w.restrict keep = .ok r ∧ w.Rebuilt b ∧ Insulated keep b r := by
  have hinv := h.renewed.inv.1
  have hsmall := h.renewed.small.1
  have hrestricts := restricts_others hinv hsmall h.unmixed h.listed keep
  rcases (restricts_destroyAll hinv hsmall h.unmixed h.listed (w.others keep)).2
    with ⟨hinvRest, hsmallRest, hunmixedRest⟩
  rcases (rebuild_ends hinv.sound).exists_ok fun f hf => hsmall.not_oversized hf.2
    with ⟨b, hb, hrb, hsb, hlb⟩
  rcases (rebuild_ends hinvRest.sound).exists_ok fun f hf => hsmallRest.not_oversized hf.2
    with ⟨r, hr, hrr, hsr, hlr⟩
  refine ⟨b, r, hb, hr, hrb, hrestricts.rebuilt hinv.sound h.listed hc hrb hrr,
    .rebuilt hinv.sound h.listed hc hrb hlb, ⟨hrb.clean, hrr.clean⟩, fun _ => 0, fun _ => 0, ?_, ?_,
    fun _ _ => rfl⟩
  · exact ⟨⟨hsb, fun _ => hlb⟩, hsmall.rebuilt hinv.sound hrb, h.unmixed.rebuilt hrb, .rebuilt hrb⟩
  · exact ⟨⟨hsr, fun _ => hlr⟩, hsmallRest.rebuilt hinvRest.sound hrr, hunmixedRest.rebuilt hrr,
      .rebuilt hrr⟩

/-- After anything that was asked of the empty world, a set of proxies that is closed under
attachment may be taken out: steps of the same sizes without deltas leave its particles at the same
positions and velocities, bit by bit, and its constraints with forces that are the same numbers. -/
theorem restrict_unaffected [LawfulZero S] [LawfulDirections S] {config : Config S}
    {actions : List (Action S T)} (ha : ∀ s, .step s ∈ actions → s.Admissible) {w : World S}
    (hw : (empty config).run actions = .ok w) {keep : ProxyId → Bool} (hc : w.Closed keep)
    {snapshots others : List (PushSnapshot S T)}
    (hs : List.Forall₂ PushSnapshot.SameSize snapshots others) :
    ∃ r a b, w.restrict keep = .ok r ∧ w.run (steps snapshots) = .ok a ∧
      r.run (steps others) = .ok b ∧ Unaffected keep a b := by
  have hgrown := grown_of_run ha hw
  rcases hgrown.insulated hc with ⟨v, r, hv, hr, hrebuilt, hinsulated⟩
  cases hs with
  | nil =>
    refine ⟨r, w, r, hr, rfl, rfl, hinsulated.restricts.unaffected hrebuilt.store
      hrebuilt.members ?_⟩
    intro proxy
    rw [hrebuilt.notes.1]
    cases w.forces[proxy]? with
    | none => exact .none
    | some force => exact .some (.refl force)
  | @cons s t ss ts hst hrest =>
    -- the whole world moves on as if it had been rebuilt as well
    have hadmissible : ∀ x ∈ s :: ss, x.Admissible := by
      intro x hx
      rcases exists_of_forall₂ (.cons hst hrest) hx with ⟨_, _, hxy⟩
      exact PushSnapshot.admissible_of_nil hxy.first
    rcases hgrown.renewed.confirm.run hadmissible with ⟨a, c, harun, hcrun, hac⟩
    rcases hinsulated.run (.cons hst hrest) with ⟨d, b, hdrun, hbrun, hdb⟩
    have hrefresh : (w.setConfig w.config).refresh = .ok v := hv
    have hstep : (w.setConfig w.config).step s = v.step s :=
      step_of_refresh hrefresh hrebuilt.clean hst.first
    have hsame : (w.setConfig w.config).run (steps (s :: ss)) = v.run (steps (s :: ss)) := by
      show ((w.setConfig w.config).step s >>= fun outcome => outcome.world.run (steps ss)) =
        (v.step s >>= fun outcome => outcome.world.run (steps ss))
      rw [hstep]
    rw [hsame, hdrun] at hcrun
    cases hcrun
    rcases hac.matched with ⟨marked, hm⟩
    exact ⟨r, a, b, hr, harun, hbrun, hdb.restricts.unaffected hm.store hm.members hm.forces⟩

/-- A step keeps a set closed that is closed once its deltas are applied. -/
theorem Closed.stepped [LawfulZero S] {keep : ProxyId → Bool} {w : World S} (hi : w.Inv)
    {snapshot : PushSnapshot S T} (hs : snapshot.Admissible) {outcome : StepOutcome S T}
    (ho : w.step snapshot = .ok outcome) (hc : (w.updated snapshot.deltas).Closed keep) :
    outcome.world.Closed keep := by
  rcases (step_ends hi snapshot hs.inRange).holds_of_eq ho with ⟨v, hv, _, _, hworld, _, _⟩
  rcases (prepare_ends hi hs.inRange).holds_of_eq hv with ⟨_, hbefore, _⟩
  rcases known_stepped v snapshot with ⟨_, _, hjoints, hsuspensions⟩
  -- constraints that are left were there before, and their particles have the same owners
  have hfrom : v.store = (w.updated snapshot.deltas).store ∧
      (∀ (proxy : ProxyId) (j : JointRecord S), v.joints[proxy]? = some j →
        (w.updated snapshot.deltas).joints[proxy]? = some j) ∧
      ∀ (proxy : ProxyId) (s : SuspensionRecord S), v.suspensions[proxy]? = some s →
        (w.updated snapshot.deltas).suspensions[proxy]? = some s := by
    rcases hbefore with rfl | hrebuilt
    · exact ⟨rfl, fun _ _ => id, fun _ _ => id⟩
    · exact ⟨hrebuilt.store, fun _ _ => hrebuilt.joint_before,
        fun _ _ => hrebuilt.suspension_before⟩
  have howners : ∀ particles, outcome.world.ownersOf particles =
      (w.updated snapshot.deltas).ownersOf particles := by
    intro particles
    rw [hworld, ownersOf_alike (alike_stepped v snapshot)]
    unfold ownersOf
    rw [hfrom.1]
  refine ⟨?_, ?_⟩
  · intro proxy j hj
    rw [hworld, hjoints] at hj
    unfold Attached
    rw [howners]
    exact hc.joints proxy j (hfrom.2.1 proxy j hj)
  · intro proxy s hsus
    rw [hworld, hsuspensions] at hsus
    unfold Attached
    rw [howners]
    exact hc.suspensions proxy s (hfrom.2.2 proxy s hsus)

/-- A joint, and a particle that it does not hold. -/
def stranger : PushSnapshot Float32 Float :=
  { hinge with
    deltas := hinge.deltas ++ [⟨⟨3, 0⟩, .create (.particle ⟨2, 0⟩ (.dynamic ⟨1, 0, 0⟩ 1))⟩] }

/-- A step without deltas. -/
def idle : PushSnapshot Float32 Float := { hinge with deltas := [] }

theorem stranger_admissible : stranger.Admissible := by
  intro d hd
  simp only [stranger, hinge, List.cons_append, List.nil_append, List.mem_cons, List.not_mem_nil,
    or_false] at hd
  rcases hd with rfl | rfl | rfl | rfl
  · exact ⟨trivial, (by decide : (0 : Nat) < 2 ^ 32)⟩
  · exact ⟨trivial, (by decide : (1 : Nat) < 2 ^ 32)⟩
  · exact ⟨trivial, trivial⟩
  · exact ⟨trivial, (by decide : (2 : Nat) < 2 ^ 32)⟩

/-- The joint and its particles are closed under attachment. -/
theorem stranger_closed :
    ((empty Config.standard).updated stranger.deltas).Closed fun proxy => proxy != ⟨3, 0⟩ := by
  have hjoints : ((empty Config.standard).updated stranger.deltas).joints.toList.map
      (fun x => (x.1, x.2.first, x.2.second)) = [(⟨2, 0⟩, ⟨0, 0⟩, ⟨1, 0⟩)] := by
    decide +kernel
  have hsuspensions : ((empty Config.standard).updated stranger.deltas).suspensions.toList.map
      (·.1) = [] := by
    decide +kernel
  have howners : ((empty Config.standard).updated stranger.deltas).ownersOf [⟨0, 0⟩, ⟨1, 0⟩] =
      [⟨0, 0⟩, ⟨1, 0⟩] := by
    decide +kernel
  refine ⟨?_, ?_⟩
  · intro proxy j hj
    have hmem := List.mem_map_of_mem (f := fun x => (x.1, x.2.first, x.2.second))
      (Std.TreeMap.mem_toList_iff_getElem?_eq_some.mpr hj)
    rw [hjoints, List.mem_singleton, Prod.mk.injEq, Prod.mk.injEq] at hmem
    rcases hmem with ⟨rfl, hfirst, hsecond⟩
    unfold Attached
    rw [hfirst, hsecond, howners]
    decide
  · intro proxy s hs
    have hmem := List.mem_map_of_mem (f := (·.1))
      (Std.TreeMap.mem_toList_iff_getElem?_eq_some.mpr hs)
    rw [hsuspensions] at hmem
    cases hmem

/-- A joint with its particles moves in a world without the third particle as it does with it. -/
theorem hinge_unaffected :
    ∃ w r a b, (empty Config.standard).run [.step stranger] = .ok w ∧
      w.restrict (fun proxy => proxy != ⟨3, 0⟩) = .ok r ∧ w.run (steps [idle, idle]) = .ok a ∧
      r.run (steps [idle, idle]) = .ok b ∧ Unaffected (fun proxy => proxy != ⟨3, 0⟩) a b := by
  have hadmissible : ∀ s, Action.step s ∈ [Action.step stranger] → s.Admissible := by
    intro s hs
    rw [List.mem_singleton, Action.step.injEq] at hs
    rw [hs]
    exact stranger_admissible
  rcases (Grown.empty Config.standard).step stranger_admissible with ⟨outcome, hstep, _⟩
  have hrun : (empty Config.standard).run [.step stranger] = .ok outcome.world := by
    unfold World.run
    rw [hstep]
    rfl
  have hclosed := Closed.stepped (inv_empty _) stranger_admissible hstep stranger_closed
  have hidle : idle.SameSize idle := ⟨rfl, rfl, rfl⟩
  rcases restrict_unaffected hadmissible hrun hclosed (.cons hidle (.cons hidle .nil))
    with ⟨r, a, b, hr, ha, hb, hab⟩
  exact ⟨outcome.world, r, a, b, hrun, hr, ha, hb, hab⟩

end World

end TetheredParticles
