import TetheredParticles.Proofs.Tether.Layout
import TetheredParticles.Proofs.Tether.Shortest
/-!
# Which points are tethered

Islands are unions of connected components, so that a way along the graph never leaves an island. Along
geodesics a point has a tether exactly if its component has an anchored point. Along straight lines
its island decides, where points of other components may have been merged in.

* `TetherLayout.anchorIn`, `TetherLayout.build_of_compute` — a layout over a partition, in both modes.
* `TetherLayout.build_structured` — which points have tethers, in which order, and from where.
* `TetherLayout.build_connected` — when tethers stay within connected components.
-/

namespace TetheredParticles

namespace TetherLayout

variable {S : Type} [Scalar S]

/-! ## Layouts over a partition -/

/-- The nearest anchor of each point of an island. -/
def anchorIn (positions : Array (Vec3 S)) (anchored : Nat → Bool) (g : Graph) :
    TetherMode → List Nat → Nat → Reached S
  | .euclidean, island => straightAnchor positions (island.filter anchored)
  | .geodesic, _ => Geodesic.nearest positions g anchored

theorem anchorIn_geodesic {positions : Array (Vec3 S)} {anchored : Nat → Bool} {g : Graph}
    {island : List Nat} : anchorIn positions anchored g .geodesic island =
      Geodesic.nearest positions g anchored := rfl

/-- The tethers of all islands. -/
def tethersOver (positions : Array (Vec3 S)) (anchored : Nat → Bool) (g : Graph) (mode : TetherMode)
    (scale : S) (partition : Partition) : List (Tether S) :=
  partition.islands.toList.flatMap fun island =>
    tethersOf anchored (anchorIn positions anchored g mode island) scale island

/-- Once points are partitioned, tethers are laid island by island. -/
theorem build_of_compute {positions : Array (Vec3 S)} {inverseMasses : Array S} {g : Graph}
    {maxIslands : Nat} {partition : Partition} (hsize : positions.size = inverseMasses.size)
    (h : Partition.compute (Graph.firstPoints positions.size) g (anchoredAt inverseMasses) maxIslands =
      .ok partition) (mode : TetherMode) (scale : S) :
    build positions inverseMasses g maxIslands mode scale =
      .ok ⟨partition, tethersOver positions (anchoredAt inverseMasses) g mode scale partition⟩ := by
  unfold build
  rw [if_pos (beq_iff_eq.mpr hsize)]
  dsimp only
  rw [h]
  cases mode <;> rfl

variable {positions : Array (Vec3 S)} {anchored : Nat → Bool} {g : Graph} {mode : TetherMode} {scale : S}
  {points : Points} {maxIslands : Nat} {partition : Partition}

/-- A tether belongs to a free point of an island, and to its nearest anchor. -/
theorem mem_tethersOver {t : Tether S} :
    t ∈ tethersOver positions anchored g mode scale partition ↔
      ∃ (i : Nat) (island : List Nat), partition.islands[i]? = some island ∧ t.tip ∈ island ∧
        anchored t.tip = false ∧
        ∃ d, anchorIn positions anchored g mode island t.tip = some (t.anchor, d) ∧
          t.referenceLength = d * scale := by
  unfold tethersOver
  rw [List.mem_flatMap]
  constructor
  · rintro ⟨island, hisland, ht⟩
    rcases List.mem_iff_getElem?.mp hisland with ⟨i, hi⟩
    exact ⟨i, island, by simpa using hi, mem_tethersOf.mp ht⟩
  · rintro ⟨i, island, hi, ht⟩
    exact ⟨island, Array.mem_toList_iff.mpr (Array.mem_of_getElem? hi), mem_tethersOf.mpr ht⟩

/-- Tethers are strictly ordered by the islands of their tips, and within an island by their tips. -/
def Ordered (partition : Partition) (tethers : List (Tether S)) : Prop :=
  tethers.Pairwise fun t u => ∃ i j, partition.islandOf? t.tip = some i ∧
    partition.islandOf? u.tip = some j ∧ (i < j ∨ i = j ∧ t.tip < u.tip)

theorem ordered_tethersOver (h : partition.Merged points g maxIslands) :
    Ordered partition (tethersOver positions anchored g mode scale partition) := by
  unfold Ordered tethersOver
  rw [List.pairwise_flatMap]
  have hget : ∀ i (hi : i < partition.islands.toList.length) p,
      p ∈ partition.islands.toList[i] → partition.islandOf? p = some i := by
    intro i hi p hp
    refine (h.islandOf p i).mpr ⟨_, ?_, hp⟩
    rw [← Array.getElem?_toList]
    exact List.getElem?_eq_getElem hi
  constructor
  · -- within an island, tips ascend as its points do
    intro island hisland
    rcases List.mem_iff_getElem.mp hisland with ⟨i, hi, rfl⟩
    have hascending := h.ascending _ (Array.mem_toList_iff.mp hisland)
    refine (List.pairwise_map.mp (hascending.sublist (tips_tethersOf_sublist ..))).imp_of_mem
      fun {t u} ht hu hlt => ?_
    exact ⟨i, i, hget i hi _ (mem_tethersOf.mp ht).1, hget i hi _ (mem_tethersOf.mp hu).1,
      .inr ⟨rfl, hlt⟩⟩
  · refine List.pairwise_iff_getElem.mpr fun i j hi hj hij t ht u hu => ?_
    exact ⟨i, j, hget i hi _ (mem_tethersOf.mp ht).1, hget j hj _ (mem_tethersOf.mp hu).1, .inl hij⟩

omit [Scalar S] in
/-- Where tethers are strictly ordered, no two have the same tip. -/
theorem Ordered.tips {tethers : List (Tether S)} (h : Ordered partition tethers) :
    (tethers.map (·.tip)).Nodup := by
  refine List.pairwise_map.mpr (h.imp fun {t u} hlt heq => ?_)
  rcases hlt with ⟨i, j, hi, hj, hlt⟩
  rw [heq, hj, Option.some.injEq] at hi
  omega

/-! ## Straight lines -/

/-- Any anchors at all have a nearest one. -/
theorem exists_straightAnchor (positions : Array (Vec3 S)) {anchors : List Nat} {a : Nat}
    (ha : a ∈ anchors) (p : Nat) : ∃ way, straightAnchor positions anchors p = some way := by
  have hfold : ∀ (f : Nat → S) (anchors : List Nat) (best : Nat × S), ∃ way,
      anchors.foldl (fun best a => nearer best a (f a)) (some best) = some way := by
    intro f anchors
    induction anchors with
    | nil => exact fun best => ⟨best, rfl⟩
    | cons a rest ih =>
      intro best
      rw [List.foldl_cons]
      rcases nearer_cases (some best) a (f a) with heq | heq
      · rw [heq]
        exact ih best
      · rw [heq]
        exact ih (a, f a)
  cases anchors with
  | nil => exact absurd ha List.not_mem_nil
  | cons b rest =>
    rcases hfold (fun a => (positions.getD a 0).distanceSquared (positions.getD p 0)) rest
      (b, (positions.getD b 0).distanceSquared (positions.getD p 0)) with ⟨way, hway⟩
    refine ⟨(way.1, Scalar.sqrt way.2), ?_⟩
    unfold straightAnchor
    rw [List.foldl_cons]
    exact congrArg (Option.map fun way => (way.1, Scalar.sqrt way.2)) hway

/-- No anchor is nearer than the nearest one. -/
theorem foldl_nearer_le [LawfulOrder S] {f : Nat → S} {anchors : List Nat} {best way : Nat × S}
    (hbest : Scalar.isNumber best.2 = true) (hnumbers : ∀ a ∈ anchors, Scalar.isNumber (f a) = true)
    (h : anchors.foldl (fun best a => nearer best a (f a)) (some best) = some way) :
    way.2 ≤ best.2 ∧ ∀ a ∈ anchors, way.2 ≤ f a := by
  induction anchors generalizing best with
  | nil =>
    cases h
    exact ⟨Scalar.le_refl hbest, nofun⟩
  | cons a rest ih =>
    rw [List.forall_mem_cons] at hnumbers ⊢
    rw [List.foldl_cons] at h
    unfold nearer at h
    dsimp only at h
    split at h
    · rename_i hless
      rcases ih hnumbers.1 hnumbers.2 h with ⟨hle, hrest⟩
      exact ⟨Scalar.le_trans hle (Scalar.le_of_lt hless), hle, hrest⟩
    · rename_i hmore
      rcases ih hbest hnumbers.2 h with ⟨hle, hrest⟩
      exact ⟨hle, Scalar.le_trans hle (Scalar.le_of_not_lt hnumbers.1 hbest hmore), hrest⟩

theorem straightAnchor_le [LawfulOrder S] {anchors : List Nat} {p anchor : Nat} {d : S}
    (hnumbers : ∀ a ∈ anchors,
      Scalar.isNumber ((positions.getD a 0).distanceSquared (positions.getD p 0)) = true)
    (h : straightAnchor positions anchors p = some (anchor, d)) :
    ∀ a ∈ anchors, (positions.getD anchor 0).distanceSquared (positions.getD p 0) ≤
      (positions.getD a 0).distanceSquared (positions.getD p 0) := by
  unfold straightAnchor at h
  rcases Option.map_eq_some_iff.mp h with ⟨⟨_, squared⟩, hbest, heq⟩
  cases heq
  cases anchors with
  | nil => exact nofun
  | cons b rest =>
    rcases (mem_of_foldl_nearer hbest).resolve_left nofun with ⟨_, hsquared⟩
    rw [List.forall_mem_cons] at hnumbers ⊢
    rw [hsquared]
    exact foldl_nearer_le hnumbers.1 hnumbers.2 hbest

/-! ## Where tethers lead -/

/-- Tethers lead from anchored points to free ones, and stay within an island. -/
theorem sameIsland_of_mem (h : partition.Merged (Graph.firstPoints positions.size) g maxIslands)
    {t : Tether S} (ht : t ∈ tethersOver positions anchored g mode scale partition) :
    anchored t.anchor = true ∧ anchored t.tip = false ∧
      partition.sameIsland t.anchor t.tip = true := by
  rcases mem_tethersOver.mp ht with ⟨i, island, hi, htip, hfree, d, hanchor, _⟩
  cases mode with
  | euclidean =>
    rcases List.mem_filter.mp (mem_of_straightAnchor hanchor).1 with ⟨hmem, hanchored⟩
    exact ⟨hanchored, hfree, h.sameIsland_iff_mem.mpr ⟨i, island, hi, hmem, htip⟩⟩
  | geodesic =>
    rw [anchorIn_geodesic] at hanchor
    rcases Geodesic.exists_walk_of_nearest hanchor with ⟨a, b, w, ha, hb, _⟩
    refine ⟨Geodesic.anchored_of_nearest hanchor, hfree, ?_⟩
    -- a walk does not leave its island
    rw [← ha, ← hb]
    exact h.connected a b w.reachable

/-- Along geodesics tethers stay within a component, and along straight lines they do if no components
have been merged. -/
theorem reachable_of_mem (h : partition.Merged (Graph.firstPoints positions.size) g maxIslands)
    (hmode : mode = .geodesic ∨
      Nat.card (Geodesic.mesh positions g).ConnectedComponent ≤ max maxIslands 1)
    {t : Tether S} (ht : t ∈ tethersOver positions anchored g mode scale partition) :
    ∃ a b : Geodesic.Point positions, a.1 = t.anchor ∧ b.1 = t.tip ∧
      (Geodesic.mesh positions g).Reachable a b := by
  rcases hmode with rfl | hfew
  · rcases mem_tethersOver.mp ht with ⟨_, _, _, _, _, d, hanchor, _⟩
    rw [anchorIn_geodesic] at hanchor
    rcases Geodesic.exists_walk_of_nearest hanchor with ⟨a, b, w, ha, hb, _⟩
    exact ⟨a, b, ha, hb, w.reachable⟩
  · rcases (h.unmerged hfew _ _).mp (sameIsland_of_mem h ht).2.2 with ⟨ha, hb, hreach⟩
    exact ⟨⟨_, ha⟩, ⟨_, hb⟩, rfl, rfl, hreach⟩

/-- Along straight lines a free point has a tether exactly if its island has an anchored point. -/
theorem exists_mem_euclidean (h : partition.Merged (Graph.firstPoints positions.size) g maxIslands)
    {p : Nat} (hfree : anchored p = false) :
    (∃ t ∈ tethersOver positions anchored g .euclidean scale partition, t.tip = p) ↔
      ∃ a, anchored a = true ∧ partition.sameIsland a p = true := by
  constructor
  · rintro ⟨t, ht, rfl⟩
    rcases sameIsland_of_mem h ht with ⟨hanchor, _, hsame⟩
    exact ⟨t.anchor, hanchor, hsame⟩
  · rintro ⟨a, ha, hsame⟩
    rcases h.sameIsland_iff_mem.mp hsame with ⟨i, island, hget, hmem, htip⟩
    rcases exists_straightAnchor positions (List.mem_filter.mpr ⟨hmem, ha⟩) p with ⟨⟨b, d⟩, hway⟩
    exact ⟨⟨b, p, d * scale⟩, mem_tethersOver.mpr ⟨i, island, hget, htip, hfree, d, hway, rfl⟩, rfl⟩

section Distances

theorem isFinite_getD (hfinite : ∀ v ∈ positions, v.IsFinite) {p : Nat} (hp : p < positions.size) :
    (positions.getD p 0).IsFinite := by
  rw [Array.getD_eq_getD_getElem?, Array.getElem?_eq_getElem hp]
  exact hfinite _ (Array.getElem_mem hp)

variable [LawfulDistances S]

/-- Finite points are at distances that are numbers. -/
theorem measurable_of_finite (hfinite : ∀ v ∈ positions, v.IsFinite) :
    Geodesic.Measurable positions (Graph.firstPoints positions.size) g := fun _ _ hjoined =>
  Vec3.isNumber_distance (isFinite_getD hfinite (Graph.mem_firstPoints.mp hjoined.2.1))
    (isFinite_getD hfinite (Graph.mem_firstPoints.mp hjoined.2.2.1))

/-- Along geodesics a free point has a tether exactly if its component has an anchored point. -/
theorem exists_mem_geodesic (h : partition.Merged (Graph.firstPoints positions.size) g maxIslands)
    (hfinite : ∀ v ∈ positions, v.IsFinite) {p : Geodesic.Point positions} (hfree : anchored p = false) :
    (∃ t ∈ tethersOver positions anchored g .geodesic scale partition, t.tip = p) ↔
      ∃ a : Geodesic.Point positions, anchored a = true ∧
        (Geodesic.mesh positions g).Reachable a p := by
  constructor
  · rintro ⟨t, ht, htip⟩
    rcases reachable_of_mem h (.inl rfl) ht with ⟨a, b, ha, hb, hreach⟩
    obtain rfl : b = p := Subtype.ext (hb.trans htip)
    exact ⟨a, ha ▸ (sameIsland_of_mem h ht).1, hreach⟩
  · -- what a walk from an anchor leads to is found, though perhaps from another anchor
    rintro ⟨a, ha, ⟨w⟩⟩
    rcases Geodesic.le_of_walk (measurable_of_finite hfinite) w
      (Geodesic.nearest_of_anchored (Graph.mem_firstPoints.mp a.2) ha) Scalar.zero_le_zero with
      ⟨⟨b, d⟩, hway, _⟩
    rcases h.once p p.2 with ⟨i, ⟨island, hget, hmem⟩, _⟩
    rw [← anchorIn_geodesic] at hway
    exact ⟨⟨b, p, d * scale⟩, mem_tethersOver.mpr ⟨i, island, hget, hmem, hfree, d, hway, rfl⟩, rfl⟩

/-- Along straight lines tethers lead to the nearest anchored point of an island. -/
theorem nearest_of_mem (h : partition.Merged (Graph.firstPoints positions.size) g maxIslands)
    (hfinite : ∀ v ∈ positions, v.IsFinite) {t : Tether S}
    (ht : t ∈ tethersOver positions anchored g .euclidean scale partition) :
    (∀ a, anchored a = true → partition.sameIsland a t.tip = true →
      (positions.getD t.anchor 0).distanceSquared (positions.getD t.tip 0) ≤
        (positions.getD a 0).distanceSquared (positions.getD t.tip 0)) ∧
    t.referenceLength =
      Scalar.sqrt ((positions.getD t.anchor 0).distanceSquared (positions.getD t.tip 0)) * scale := by
  rcases mem_tethersOver.mp ht with ⟨i, island, hget, htip, _, d, hanchor, hlength⟩
  have hinside : ∀ p ∈ island, p < positions.size := fun p hp =>
    Graph.mem_firstPoints.mp (h.inside island (Array.mem_of_getElem? hget) p hp)
  have hnumbers : ∀ a ∈ island.filter anchored, Scalar.isNumber
      ((positions.getD a 0).distanceSquared (positions.getD t.tip 0)) = true := fun a ha =>
    Scalar.isNumber_right (Vec3.distanceSquared_nonneg
      (isFinite_getD hfinite (hinside a (List.mem_of_mem_filter ha)))
      (isFinite_getD hfinite (hinside _ htip)))
  refine ⟨fun a ha hsame => ?_, hlength.trans (congrArg (· * scale) ?_)⟩
  · have hmem := h.mem_of_sameIsland hget htip hsame
    exact straightAnchor_le hnumbers hanchor a (List.mem_filter.mpr ⟨hmem, ha⟩)
  · exact (mem_of_straightAnchor hanchor).2.symm

end Distances

/-! ## Layouts -/

/-- What the tethers of a layout are, over the islands that the points are partitioned into. -/
structure Structured (positions : Array (Vec3 S)) (inverseMasses : Array S) (g : Graph)
    (maxIslands : Nat) (mode : TetherMode) (scale : S) (layout : TetherLayout S) : Prop where
  partition : Partition.compute (Graph.firstPoints positions.size) g (anchoredAt inverseMasses)
    maxIslands = .ok layout.partition
  ordered : Ordered layout.partition layout.tethers
  tips : (layout.tethers.map (·.tip)).Nodup
  anchor : ∀ t ∈ layout.tethers, ∃ w, inverseMasses[t.anchor]? = some w ∧ (w == 0) = true
  tip : ∀ t ∈ layout.tethers, ∃ w, inverseMasses[t.tip]? = some w ∧ (w == 0) = false
  sameIsland : ∀ t ∈ layout.tethers, layout.partition.sameIsland t.anchor t.tip = true
  /-- Along geodesics, points have tethers whose components have anchored points. -/
  geodesic : mode = .geodesic → ∀ p : Geodesic.Point positions,
    anchoredAt inverseMasses p = false → ((∃ t ∈ layout.tethers, t.tip = p) ↔
      ∃ a : Geodesic.Point positions, anchoredAt inverseMasses a = true ∧
        (Geodesic.mesh positions g).Reachable a p)
  /-- Along straight lines, points have tethers whose islands have anchored points. -/
  euclidean : mode = .euclidean → ∀ p : Geodesic.Point positions,
    anchoredAt inverseMasses p = false → ((∃ t ∈ layout.tethers, t.tip = p) ↔
      ∃ a, anchoredAt inverseMasses a = true ∧ layout.partition.sameIsland a p = true)
  /-- Their tethers then lead to the nearest of these. -/
  nearest : mode = .euclidean → ∀ t ∈ layout.tethers,
    (∀ a, anchoredAt inverseMasses a = true → layout.partition.sameIsland a t.tip = true →
      (positions.getD t.anchor 0).distanceSquared (positions.getD t.tip 0) ≤
        (positions.getD a 0).distanceSquared (positions.getD t.tip 0)) ∧
    t.referenceLength =
      Scalar.sqrt ((positions.getD t.anchor 0).distanceSquared (positions.getD t.tip 0)) * scale

omit [Scalar S] in
/-- Points are partitioned, because no more of them are held in memory than can be marked. -/
theorem exists_partition (positions : Array (Vec3 S)) (hmany : positions.size ≤ BitSet.largestIndex)
    (g : Graph) (anchored : Nat → Bool) (maxIslands : Nat) :
    ∃ partition, Partition.compute (Graph.firstPoints positions.size) g anchored maxIslands =
      .ok partition ∧ partition.Merged (Graph.firstPoints positions.size) g maxIslands := by
  have hmarks : ∀ p ∈ Graph.firstPoints positions.size, p < BitSet.largestIndex := fun p hp =>
    (Graph.mem_firstPoints.mp hp).trans_le hmany
  rcases Partition.compute_merged hmarks g anchored maxIslands with ⟨partition, hcompute, hmerged, _⟩
  exact ⟨partition, hcompute, hmerged⟩

/-- Finite points always get a layout. Its tethers are strictly ordered, lead from anchored points to
free ones within an island, and hold each free point that an anchored one can hold: along geodesics one
of its component, along straight lines the nearest one of its island. -/
theorem build_structured [LawfulDistances S] (positions : Array (Vec3 S)) (inverseMasses : Array S)
    (g : Graph) (maxIslands : Nat) (mode : TetherMode) (scale : S)
    (hsize : positions.size = inverseMasses.size) (hmany : positions.size ≤ BitSet.largestIndex)
    (hfinite : ∀ v ∈ positions, v.IsFinite) :
    ∃ layout, build positions inverseMasses g maxIslands mode scale = .ok layout ∧
      Structured positions inverseMasses g maxIslands mode scale layout := by
  rcases exists_partition positions hmany g (anchoredAt inverseMasses) maxIslands with
    ⟨partition, hcompute, hmerged⟩
  have hordered : Ordered partition
      (tethersOver positions (anchoredAt inverseMasses) g mode scale partition) :=
    ordered_tethersOver hmerged
  refine ⟨_, build_of_compute hsize hcompute mode scale, hcompute, hordered, hordered.tips,
    fun t ht => ?_, fun t ht => ?_, fun t ht => (sameIsland_of_mem hmerged ht).2.2, ?_, ?_, ?_⟩
  · exact anchoredAt_iff.mp (sameIsland_of_mem hmerged ht).1
  · rcases sameIsland_of_mem hmerged ht with ⟨_, hfree, hsame⟩
    rcases hmerged.sameIsland_iff_mem.mp hsame with ⟨i, island, hget, _, hmem⟩
    have hlt : t.tip < inverseMasses.size := hsize ▸
      Graph.mem_firstPoints.mp (hmerged.inside island (Array.mem_of_getElem? hget) _ hmem)
    refine ⟨_, Array.getElem?_eq_getElem hlt, Bool.eq_false_iff.mpr fun hzero => ?_⟩
    exact Bool.false_ne_true (hfree.symm.trans
      (anchoredAt_iff.mpr ⟨_, Array.getElem?_eq_getElem hlt, hzero⟩))
  · rintro rfl p hfree
    exact exists_mem_geodesic hmerged hfinite hfree
  · rintro rfl p hfree
    exact exists_mem_euclidean hmerged hfree
  · rintro rfl t ht
    exact nearest_of_mem hmerged hfinite ht

/-- The corners of a rectangle with edges along three sides of it, and a point apart, which is merged with
them. Two corners are anchored; each holds the corner that is nearer to it, and one of them the point
apart. -/
theorem corners_structured :
    Geodesic.corners.size = (#[0, 1, 1, 0, 1] : Array Float32).size ∧
    Geodesic.corners.size ≤ BitSet.largestIndex ∧ (∀ v ∈ Geodesic.corners, v.IsFinite) ∧
    ∃ layout, build Geodesic.corners #[0, 1, 1, 0, 1] Geodesic.sides 1 .euclidean 2 = .ok layout ∧
      Structured Geodesic.corners #[0, 1, 1, 0, 1] Geodesic.sides 1 .euclidean 2 layout := by
  have hfinite : ∀ v ∈ Geodesic.corners, v.IsFinite := by decide +kernel
  exact ⟨rfl, by decide, hfinite,
    build_structured Geodesic.corners #[0, 1, 1, 0, 1] Geodesic.sides 1 .euclidean 2 rfl (by decide)
      hfinite⟩

/-- A layout has tethers within islands only. Along geodesics, and along straight lines unless
components have to be merged, they stay within connected components, so that a point which no anchored
point reaches has none. -/
theorem build_connected (positions : Array (Vec3 S)) (inverseMasses : Array S) (g : Graph)
    (maxIslands : Nat) (mode : TetherMode) (scale : S) (hsize : positions.size = inverseMasses.size)
    (hmany : positions.size ≤ BitSet.largestIndex) :
    ∃ layout, build positions inverseMasses g maxIslands mode scale = .ok layout ∧
      (∀ t ∈ layout.tethers, layout.partition.sameIsland t.anchor t.tip = true) ∧
      (mode = .geodesic ∨
          Nat.card (Geodesic.mesh positions g).ConnectedComponent ≤ max maxIslands 1 →
        (∀ t ∈ layout.tethers, ∃ a b : Geodesic.Point positions, a.1 = t.anchor ∧ b.1 = t.tip ∧
          (Geodesic.mesh positions g).Reachable a b) ∧
        ∀ p : Geodesic.Point positions, (∀ a : Geodesic.Point positions,
          anchoredAt inverseMasses a = true → ¬ (Geodesic.mesh positions g).Reachable a p) →
          ∀ t ∈ layout.tethers, t.tip ≠ p) := by
  rcases exists_partition positions hmany g (anchoredAt inverseMasses) maxIslands with
    ⟨partition, hcompute, hmerged⟩
  refine ⟨_, build_of_compute hsize hcompute mode scale,
    fun t ht => (sameIsland_of_mem hmerged ht).2.2, fun hmode =>
    ⟨fun t ht => reachable_of_mem hmerged hmode ht, fun p hnone t ht htip => ?_⟩⟩
  rcases reachable_of_mem hmerged hmode ht with ⟨a, b, ha, hb, hreach⟩
  obtain rfl : b = p := Subtype.ext (hb.trans htip)
  exact hnone a (ha ▸ (sameIsland_of_mem hmerged ht).1) hreach

/-- No edge leads to the point apart from the corners, so that it has no tether along geodesics, although
all points are in one island. -/
theorem corners_connected :
    Geodesic.corners.size = (#[0, 1, 1, 0, 1] : Array Float32).size ∧
    Geodesic.corners.size ≤ BitSet.largestIndex ∧
    ∃ layout, build Geodesic.corners #[0, 1, 1, 0, 1] Geodesic.sides 1 .geodesic 2 = .ok layout ∧
      ∀ t ∈ layout.tethers, t.tip ≠ 4 := by
  rcases build_connected Geodesic.corners (#[0, 1, 1, 0, 1] : Array Float32) Geodesic.sides 1 .geodesic
    2 rfl (by decide) with ⟨layout, hbuild, _, hconnected⟩
  refine ⟨rfl, by decide, layout, hbuild, ?_⟩
  refine (hconnected (.inl rfl)).2 ⟨4, Graph.mem_firstPoints.mpr (by decide)⟩ fun a ha hreach => ?_
  -- a path to the point apart would end with an edge
  rcases (Graph.reflTransGen_of_reachable hreach).cases_tail with heq | ⟨b, _, hjoined⟩
  · rw [← heq] at ha
    exact absurd ha (by decide +kernel)
  · have hedge := hjoined.2.2.2
    unfold Geodesic.sides at hedge
    rw [Graph.mem_neighbors_ofEdges, Graph.mem_neighbors_ofEdges] at hedge
    simp at hedge

/-- If only one island is allowed, all points are in it. -/
theorem sameIsland_of_one (h : partition.Merged points g maxIslands) (hone : maxIslands ≤ 1) {a b : Nat}
    (ha : a ∈ points) (hb : b ∈ points) : partition.sameIsland a b = true := by
  have hsize : partition.islands.size ≤ 1 := by
    have hsize := h.size
    unfold Partition.size at hsize
    omega
  have hfirst : ∀ p ∈ points, partition.islandOf? p = some 0 := by
    intro p hp
    rcases h.once p hp with ⟨i, ⟨island, hget, hmem⟩, _⟩
    have hi := (h.islandOf p i).mpr ⟨island, hget, hmem⟩
    have hlt : i < partition.islands.size := (Array.getElem?_eq_some_iff.mp hget).1
    obtain rfl : i = 0 := by omega
    exact hi
  exact Partition.sameIsland_iff.mpr ⟨0, hfirst a ha, hfirst b hb⟩

/-- Two points at a distance of one. -/
def apart : Array (Vec3 Float32) := #[⟨0, 0, 0⟩, ⟨1, 0, 0⟩]

/-- An anchored and a free point that no edge connects: if only one island is allowed, a straight tether
is laid between their components. -/
theorem apart_tethered :
    ∃ layout, build apart #[0, 1] (.ofEdges []) 1 .euclidean 1 = .ok layout ∧
      ∃ t ∈ layout.tethers, t.anchor = 0 ∧ t.tip = 1 ∧
        ∀ a b : Geodesic.Point apart, a.1 = 0 → b.1 = 1 →
          ¬ (Geodesic.mesh apart (.ofEdges [])).Reachable a b := by
  rcases exists_partition apart (by decide) (.ofEdges []) (anchoredAt (#[0, 1] : Array Float32)) 1 with
    ⟨partition, hcompute, hmerged⟩
  have hanchored : anchoredAt (#[0, 1] : Array Float32) 0 = true := by decide +kernel
  have hfree : anchoredAt (#[0, 1] : Array Float32) 1 = false := by decide +kernel
  have hsame : partition.sameIsland 0 1 = true := sameIsland_of_one hmerged le_rfl
    (Graph.mem_firstPoints.mpr (by decide)) (Graph.mem_firstPoints.mpr (by decide))
  rcases (exists_mem_euclidean hmerged hfree).mpr ⟨0, hanchored, hsame⟩ with ⟨t, ht, htip⟩
  refine ⟨_, build_of_compute rfl hcompute .euclidean 1, t, ht, ?_, htip, ?_⟩
  · -- the other point is the only anchored one
    have hanchor := (sameIsland_of_mem hmerged ht).1
    rcases anchoredAt_iff.mp hanchor with ⟨_, hget, _⟩
    have hlt : t.anchor < 2 := (Array.getElem?_eq_some_iff.mp hget).1
    have hne : t.anchor ≠ 1 := fun hone => Bool.false_ne_true (hfree.symm.trans (hone ▸ hanchor))
    omega
  · rintro a b ha hb hreach
    rcases (Graph.reflTransGen_of_reachable hreach).cases_head with heq | ⟨c, hjoined, _⟩
    · omega
    · have hedge := hjoined.2.2.2
      rw [Graph.mem_neighbors_ofEdges, Graph.mem_neighbors_ofEdges] at hedge
      exact hedge.elim List.not_mem_nil List.not_mem_nil

end TetherLayout

end TetheredParticles
