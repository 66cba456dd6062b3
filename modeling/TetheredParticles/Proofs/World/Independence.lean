import TetheredParticles.Proofs.World.Regrouped
/-!
# Worlds that are grouped differently move alike

Whatever happens in an island can be told from the program of the world, and the order of the
tethers in a cluster does not matter to it. Two worlds with the same particles and constraints
therefore move alike and tell the same, whatever their islands are.

* `World.Regrouped.solvedMotion_eq`, `World.Regrouped.pushedMotion_eq` — the cells of both worlds.
* `World.Regrouped.moved` — both worlds after they have moved.
* `World.Regrouped.results_eq`, `World.Regrouped.tetherCount_eq` — what both tell.
-/

namespace TetheredParticles

variable {S : Type} [Scalar S]

/-! ## Programs -/

namespace Program

variable {p q : Program S} {c d : Config S} {masses : Nat → S} {dt : S}

/-- Programs with the same passes do the same. -/
theorem runAll_solve (hc : c.Regrouped d) (htethers : ∀ σ, Visit.runAll masses dt p.tethers σ =
      Visit.runAll masses dt q.tethers σ) (hjoints : p.joints = q.joints) (σ : Motion S) :
    Visit.runAll masses dt (p.solve c) σ = Visit.runAll masses dt (q.solve d) σ := by
  unfold solve
  rw [hc, hjoints, Visit.runAll_replicate, Visit.runAll_replicate]
  congr 1
  funext ρ
  rw [Visit.runAll_append, Visit.runAll_append, htethers]

theorem runAll_push (hc : c.Regrouped d) (hrigid : ∀ σ, Visit.runAll masses dt p.rigid σ =
      Visit.runAll masses dt q.rigid σ) (σ : Motion S) :
    Visit.runAll masses dt (p.push c) σ = Visit.runAll masses dt (q.push d) σ := by
  unfold push
  rw [hc, Visit.runAll_replicate, Visit.runAll_replicate]
  congr 1
  funext ρ
  exact hrigid ρ

end Program

namespace World

/-- Tethers of a cluster leave each other alone, so their order does not matter. -/
theorem runAll_ofTethers {w : World S} (h : w.Linked) (hd : w.Distinct) {proxy : ProxyId}
    {c d : Cluster S} (hc : w.clusters[proxy]? = some c) (hperm : c.tethers.Perm d.tethers)
    (masses : Nat → S) (dt : S) (rule? : Option (TetherRule S)) (σ : Motion S) :
    Visit.runAll masses dt (Visit.ofTethers proxy rule? c.layers) σ =
      Visit.runAll masses dt (Visit.ofTethers proxy rule? d.layers) σ := by
  -- all tethers are in one batch
  have htips := hd.tips proxy c hc
  have hone : c.layers = c.tethers.map (0, ·) := Tether.layered_batches htips
  have htwo : d.layers = d.tethers.map (0, ·) :=
    Tether.layered_batches ((hperm.map _).nodup_iff.mp htips)
  rw [hone, htwo]
  cases rule? with
  | none => rfl
  | some rule =>
    refine Visit.runAll_perm ((hperm.map _).map _) ?_
    -- a tip is free, so it is no anchor, and it is the tip of one tether only
    have hwrites : ∀ t ∈ c.tethers, ∀ u ∈ c.tethers, t ≠ u →
        ∀ cell ∈ (Visit.tether proxy 0 rule t).writes,
          cell ∉ (Visit.tether proxy 0 rule u).reads := by
      intro t ht u hu hne cell hwrite hread
      have htips : t.tip ≠ u.tip :=
        fun heq => hne (List.inj_on_of_nodup_map (hd.tips proxy c hc) ht hu heq)
      have hanchor : t.tip ≠ u.anchor := by
        intro heq
        have hfixed := (h.tethers proxy c hc u hu).1.2
        rw [← heq, (h.tethers proxy c hc t ht).2.2] at hfixed
        cases hfixed
      simp only [Visit.writes, Visit.reads, List.mem_cons, List.not_mem_nil, or_false]
        at hwrite hread
      rcases hwrite with rfl | rfl
      · rcases hread with heq | heq | heq
        · exact hanchor (Cell.slot.inj heq)
        · exact htips (Cell.slot.inj heq)
        · cases heq
      · rcases hread with heq | heq | heq
        · cases heq
        · cases heq
        · exact htips (Cell.tether.inj heq).2.2
    intro a ha b hb hne
    rcases List.mem_map.mp ha with ⟨x, hx, rfl⟩
    rcases List.mem_map.mp hb with ⟨y, hy, rfl⟩
    rcases List.mem_map.mp hx with ⟨t, ht, rfl⟩
    rcases List.mem_map.mp hy with ⟨u, hu, rfl⟩
    have htu : t ≠ u := by
      rintro rfl
      exact hne rfl
    exact ⟨hwrites t ht u hu htu, hwrites u hu t ht htu.symm⟩

namespace Regrouped

variable {w v : World S}

/-- Passes over the tethers of both worlds do the same. -/
theorem runAll_tetherVisits (h : w.Regrouped v) (hw : w.Linked) (hd : w.Distinct)
    {one two : Cluster S → Option (TetherRule S)}
    (hrule : ∀ c d : Cluster S, c.Regrouped d → two d = one c) (masses : Nat → S) (dt : S)
    (σ : Motion S) :
    Visit.runAll masses dt (w.tetherVisits one) σ =
      Visit.runAll masses dt (v.tetherVisits two) σ := by
  have hclusters := Maps.forall₂_toList h.clusters
  have hmem : ∀ x ∈ w.clusters.toList, w.clusters[x.1]? = some x.2 :=
    fun x hx => Std.TreeMap.mem_toList_iff_getElem?_eq_some.mp hx
  unfold tetherVisits
  generalize w.clusters.toList = xs at hclusters hmem
  generalize v.clusters.toList = ys at hclusters
  induction hclusters generalizing σ with
  | nil => rfl
  | @cons x y xs ys hxy _ ih =>
    rcases x with ⟨proxy, c⟩
    rcases y with ⟨owner, d⟩
    rcases hxy with ⟨heq, hcd⟩
    dsimp only at heq hcd
    subst heq
    rw [List.flatMap_cons, List.flatMap_cons, Visit.runAll_append, Visit.runAll_append]
    dsimp only
    rw [hrule c d hcd, runAll_ofTethers hw hd (hmem _ List.mem_cons_self) hcd.tethers]
    exact ih _ fun z hz => hmem z (List.mem_cons_of_mem _ hz)

/-- Passes over joints and suspensions are the same. -/
theorem joints_program (h : w.Regrouped v) (dt : S) :
    (w.program dt).joints = (v.program dt).joints := by
  unfold program jointVisits suspensionVisits
  dsimp only
  rw [h.toList_joints, h.toList_suspensions]

theorem predicted_eq (h : w.Regrouped v) (dt : S) : v.predicted dt = w.predicted dt := by
  unfold predicted
  rw [h.store, h.config]

theorem masses_eq (h : w.Regrouped v) : v.masses = w.masses := by
  funext slot
  unfold masses
  rw [h.store]

theorem startMotion_eq (h : w.Regrouped v) (directions : Directions S) (dt : S) :
    v.startMotion directions dt = w.startMotion directions dt := by
  funext c
  cases c with
  | slot slot =>
    show (((v.predicted dt).slot slot).predicted, (0 : S)) = _
    rw [h.predicted_eq]
    rfl
  | tether owner layer tip => rfl
  | joint owner => rfl
  | suspension owner => rfl

/-- Both worlds solve their particles at the same places. -/
theorem solvedMotion_eq (h : w.Regrouped v) (hw : w.Linked) (hd : w.Distinct)
    (directions : Directions S) (dt : S) :
    v.solvedMotion directions dt = w.solvedMotion directions dt := by
  unfold solvedMotion
  rw [h.startMotion_eq, h.masses_eq]
  refine (Program.runAll_solve h.config ?_ (h.joints_program dt) _).symm
  intro σ
  show Visit.runAll _ _ (w.tetherVisits (·.rule? w.config.tether.solver dt)) σ =
    Visit.runAll _ _ (v.tetherVisits (·.rule? v.config.tether.solver dt)) σ
  refine h.runAll_tetherVisits hw hd ?_ _ _ σ
  intro c d hcd
  unfold Cluster.rule?
  rw [hcd.same, h.config]

/-- Both worlds leave their particles at the same places. -/
theorem pushedMotion_eq (h : w.Regrouped v) (hw : w.Linked) (hd : w.Distinct)
    (directions : Directions S) (dt : S) :
    v.pushedMotion directions dt = w.pushedMotion directions dt := by
  unfold pushedMotion
  rw [h.solvedMotion_eq hw hd, h.masses_eq]
  refine (Program.runAll_push h.config ?_ _).symm
  intro σ
  exact h.runAll_tetherVisits hw hd (fun _ _ _ => rfl) _ _ σ

/-! ## Moving -/

/-- Both worlds move their particles alike and find the same forces. -/
theorem moved (h : w.Regrouped v) (hw : w.Linked) (hv : v.Linked) (hweighed : w.store.Weighed)
    (hdw : w.Distinct) (hkw : w.Unmixed) (hkv : v.Unmixed) {directions : Directions S}
    (hmw : w.Remembers directions) (hmv : v.Remembers directions) (dt : S) :
    (w.moved dt).Regrouped (v.moved dt) := by
  have hweighed' : v.store.Weighed := h.store.symm ▸ hweighed
  refine ⟨⟨?_, h.members, h.clusters, h.joints, h.suspensions, ?_, h.touched, h.dirty⟩, h.config⟩
  · refine ParticleStore.ext_slot ?_ ?_ ?_
    · rw [(steady_moved v dt).alike.slotCount, (steady_moved w dt).alike.slotCount, h.store]
    · rw [aliveCount_moved, aliveCount_moved, h.store]
    · intro i
      rw [hv.slot_moved hweighed' hmv, hw.slot_moved hweighed hmw, h.store,
        h.predicted_eq, h.solvedMotion_eq hw hdw, h.pushedMotion_eq hw hdw]
  · intro proxy
    rw [rel_eq_iff, hv.forces_moved hweighed' hkv hmv, hw.forces_moved hweighed hkw hmw,
      contains_congr h.joints, contains_congr h.suspensions, h.pushedMotion_eq hw hdw,
      rel_eq_iff.mp (h.forces proxy)]

/-! ## Answers -/

/-- Both worlds tell the same about every proxy. -/
theorem results_eq (h : w.Regrouped v) (moved : Bool) : v.results moved = w.results moved := by
  have hall := (h.results rfl moved).imp fun _ _ => ProxyResult.Rel.eq
  rw [List.forall₂_eq_eq_eq] at hall
  exact hall.symm

/-- The islands of both worlds hold the same number of tethers. -/
theorem tetherCount_eq (h : w.Regrouped v) (hw : w.Distributed) (hv : v.Distributed) :
    v.tetherCount = w.tetherCount := by
  have hcount : ∀ u : World S, u.Distributed → u.tetherCount =
      (u.clusters.toList.map fun x => x.2.tethers.length).sum := by
    intro u hu
    have hlength := hu.tethers.length_eq
    unfold allTethers at hlength
    rw [List.length_flatMap, List.length_flatMap] at hlength
    simp only [List.length_map] at hlength
    rw [← hlength]
    unfold tetherCount
    congr 1
    refine List.map_congr_left ?_
    intro ws _
    unfold Workspace.tetherCount Workspace.heldTethers
    rw [List.length_flatMap]
    simp only [List.length_map]
    rfl
  rw [hcount v hv, hcount w hw]
  have hclusters := Maps.forall₂_toList h.clusters
  congr 1
  generalize w.clusters.toList = xs at hclusters
  generalize v.clusters.toList = ys at hclusters
  induction hclusters with
  | nil => rfl
  | cons hxy _ ih =>
    rw [List.map_cons, List.map_cons, ih, hxy.2.tethers.length_eq]

end Regrouped

end World

end TetheredParticles
