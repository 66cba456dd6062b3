import TetheredParticles.Proofs.Graph.Partition
import TetheredParticles.Proofs.Tether.Batches
import TetheredParticles.Proofs.Tether.Ways
import TetheredParticles.Tether.Layout
/-!
# Where tethers are laid

However islands are formed, a layout has at most one tether for each point, it runs from an
anchored point to one that is not, and along geodesics not even the choice of the anchor depends on
the islands.

* `TetherLayout.build_ends` — what a layout consists of.
-/

namespace TetheredParticles

namespace TetherLayout

variable {S : Type} [Scalar S]

/-! ## Straight lines -/

theorem nearer_cases (best : Reached S) (anchor : Nat) (squared : S) :
    nearer best anchor squared = best ∨ nearer best anchor squared = some (anchor, squared) := by
  unfold nearer
  split
  · exact .inr rfl
  · split
    · exact .inr rfl
    · exact .inl rfl

/-- The nearest of some anchors is one of them, at its own distance. -/
theorem mem_of_foldl_nearer {f : Nat → S} {anchors : List Nat} {best : Reached S} {way : Nat × S}
    (h : anchors.foldl (fun best a => nearer best a (f a)) best = some way) :
    best = some way ∨ way.1 ∈ anchors ∧ f way.1 = way.2 := by
  induction anchors generalizing best with
  | nil => exact .inl h
  | cons a rest ih =>
    rw [List.foldl_cons] at h
    rcases ih h with hnext | ⟨hmem, hway⟩
    · rcases nearer_cases best a (f a) with heq | heq <;> rw [heq] at hnext
      · exact .inl hnext
      · cases hnext
        exact .inr ⟨List.mem_cons_self, rfl⟩
    · exact .inr ⟨List.mem_cons_of_mem a hmem, hway⟩

theorem mem_of_straightAnchor {positions : Array (Vec3 S)} {anchors : List Nat} {p anchor : Nat}
    {d : S} (h : straightAnchor positions anchors p = some (anchor, d)) :
    anchor ∈ anchors ∧
      Scalar.sqrt ((positions.getD anchor 0).distanceSquared (positions.getD p 0)) = d := by
  unfold straightAnchor at h
  rcases Option.map_eq_some_iff.mp h with ⟨⟨a, squared⟩, hbest, heq⟩
  rcases mem_of_foldl_nearer hbest with hnone | ⟨hmem, hsquared⟩
  · cases hnone
  · rw [Prod.mk.injEq] at heq
    rcases heq with ⟨rfl, rfl⟩
    exact ⟨hmem, congrArg Scalar.sqrt hsquared⟩

/-! ## Layouts -/

theorem anchoredAt_iff {inverseMasses : Array S} {i : Nat} :
    anchoredAt inverseMasses i = true ↔ ∃ w, inverseMasses[i]? = some w ∧ (w == 0) = true := by
  unfold anchoredAt
  cases inverseMasses[i]? with
  | none => simp
  | some w => simp

/-- The tethers of an island end at its points, in order. -/
theorem tips_tethersOf_sublist (anchored : Nat → Bool) (anchorOf : Nat → Reached S) (scale : S)
    (island : List Nat) :
    ((tethersOf anchored anchorOf scale island).map (·.tip)).Sublist island := by
  unfold tethersOf
  have hfilter : (island.filter (!anchored ·)).Sublist island := List.filter_sublist
  refine List.Sublist.trans ?_ hfilter
  induction island.filter (!anchored ·) with
  | nil => simp
  | cons p rest ih =>
    cases h : anchorOf p with
    | none => simpa [h] using ih.trans (List.sublist_cons_self p rest)
    | some a => simpa [h] using ih

theorem mem_tethersOf {anchored : Nat → Bool} {anchorOf : Nat → Reached S} {scale : S}
    {island : List Nat} {t : Tether S} : t ∈ tethersOf anchored anchorOf scale island ↔
      t.tip ∈ island ∧ anchored t.tip = false ∧
        ∃ d, anchorOf t.tip = some (t.anchor, d) ∧ t.referenceLength = d * scale := by
  unfold tethersOf
  rw [List.mem_filterMap]
  constructor
  · rintro ⟨p, hp, ht⟩
    rcases List.mem_filter.mp hp with ⟨hisland, hfree⟩
    rcases Option.map_eq_some_iff.mp ht with ⟨⟨a, d⟩, had, rfl⟩
    exact ⟨hisland, by simpa using hfree, d, had, rfl⟩
  · rcases t with ⟨anchor, tip, length⟩
    rintro ⟨hisland, hfree, d, had, rfl⟩
    refine ⟨tip, List.mem_filter.mpr ⟨hisland, by simpa using hfree⟩, ?_⟩
    rw [had]
    rfl

theorem tethersOf_flatMap (anchored : Nat → Bool) (anchorOf : Nat → Reached S) (scale : S)
    (islands : List (List Nat)) :
    islands.flatMap (tethersOf anchored anchorOf scale) =
      tethersOf anchored anchorOf scale islands.flatten := by
  unfold tethersOf
  rw [List.filter_flatten, List.filterMap_flatten, List.flatMap_def, List.map_map]
  rfl

theorem tethersOf_perm (anchored : Nat → Bool) (anchorOf : Nat → Reached S) (scale : S)
    {points others : List Nat} (h : points.Perm others) :
    (tethersOf anchored anchorOf scale points).Perm
      (tethersOf anchored anchorOf scale others) :=
  (h.filter _).filterMap _

/-- What a layout consists of: at most one tether for each of `count` points, from an anchored
point to one that is not. -/
structure Laid (anchored : Nat → Bool) (count : Nat) (tethers : List (Tether S)) : Prop where
  tips : (tethers.map (·.tip)).Nodup
  anchor : ∀ t ∈ tethers, anchored t.anchor = true
  tip : ∀ t ∈ tethers, t.tip < count ∧ anchored t.tip = false

/-- The tethers that are laid along geodesics, in the order of their tips. -/
def geodesicTethers (positions : Array (Vec3 S)) (inverseMasses : Array S) (g : Graph)
    (scale : S) : List (Tether S) :=
  let anchored := anchoredAt inverseMasses
  let best := Geodesic.search positions (g.symmetrize (Graph.firstPoints positions.size)) anchored
  tethersOf anchored (best.getD · none) scale (List.range positions.size)

/-- Layouts are built, unless there are too many points to be marked. Along geodesics islands
decide about the order of the tethers only. -/
theorem build_ends (positions : Array (Vec3 S)) (inverseMasses : Array S) (g : Graph)
    (maxIslands : Nat) (mode : TetherMode) (scale : S)
    (hsize : positions.size = inverseMasses.size) :
    Ends (build positions inverseMasses g maxIslands mode scale)
      (fun f => f = .lengthOverflow ∧ BitSet.largestIndex < positions.size)
      fun layout => Laid (anchoredAt inverseMasses) positions.size layout.tethers ∧
        (mode = .geodesic →
          layout.tethers.Perm (geodesicTethers positions inverseMasses g scale)) := by
  unfold build
  rw [if_pos (by simpa using hsize)]
  refine Ends.bind (Ends.mono (Partition.compute_ends _ _ _ _) ?_ fun _ h => h)
    fun partition hvalid => .pure ?_
  · rintro f ⟨hf, p, hp, hle⟩
    exact ⟨hf, Nat.lt_of_le_of_lt hle (Graph.mem_firstPoints.mp hp)⟩
  have hsep := hvalid.separated
  have hmem : ∀ p, p ∈ partition.islands.toList.flatten ↔ p < positions.size := fun p =>
    hsep.mem_flatten.trans Graph.mem_firstPoints
  have hnodup := hsep.nodup_flatten
  -- the islands hold every point once
  have hrange : partition.islands.toList.flatten.Perm (List.range positions.size) :=
    (List.perm_ext_iff_of_nodup hnodup List.nodup_range).mpr fun p => by
      rw [hmem, List.mem_range]
  cases mode with
  | euclidean =>
    refine ⟨⟨?_, fun t ht => ?_, fun t ht => ?_⟩, fun h => by cases h⟩
    · -- the tips of each island are among its points
      refine hnodup.sublist ?_
      dsimp only
      induction partition.islands.toList with
      | nil => simp
      | cons island rest ih =>
        rw [List.flatMap_cons, List.map_append, List.flatten_cons]
        exact (tips_tethersOf_sublist _ _ _ _).append ih
    · obtain ⟨island, _, ht⟩ := List.mem_flatMap.mp ht
      obtain ⟨_, _, d, hd, _⟩ := mem_tethersOf.mp ht
      exact (List.mem_filter.mp (mem_of_straightAnchor hd).1).2
    · obtain ⟨island, hisland, ht⟩ := List.mem_flatMap.mp ht
      obtain ⟨htip, hfree, _⟩ := mem_tethersOf.mp ht
      exact ⟨(hmem _).mp (List.mem_flatten.mpr ⟨island, hisland, htip⟩), hfree⟩
  | geodesic =>
    dsimp only
    rw [tethersOf_flatMap]
    refine ⟨⟨hnodup.sublist (tips_tethersOf_sublist _ _ _ _), fun t ht => ?_, fun t ht => ?_⟩,
      fun _ => tethersOf_perm _ _ _ hrange⟩
    · obtain ⟨_, _, d, hd, _⟩ := mem_tethersOf.mp ht
      exact Geodesic.search_anchored hd
    · obtain ⟨htip, hfree, _⟩ := mem_tethersOf.mp ht
      exact ⟨(hmem _).mp htip, hfree⟩

end TetherLayout

end TetheredParticles
