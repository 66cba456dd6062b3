import TetheredParticles.Proofs.Tether.Reach
/-!
# Ties between anchors

Of several anchored points at the same distance the lowest one holds the tether. Along straight lines
that is all there is to it. Along geodesics the tie is between the anchored points from where shortest
walks lead on through free points only: a search never enters an anchored point, so that an anchor is
not noticed any more where another one comes in between. Behind an edge of some length a lower anchor
would lose anyway, but not if the two are in the same place.

* `TetherLayout.foldl_nearer_atMost` — the first of the nearest anchors along straight lines.
* `Geodesic.exists_direct`, `Geodesic.atMost_of_direct` — walks that enter no anchored point, and the
  order of ways along them.
* `TetherLayout.build_lowest` — which of the nearest anchors holds a tether.
* `TetherLayout.coincident_overlooked` — an anchor that another one in the same place hides.
-/

namespace TetheredParticles

namespace Geodesic

variable {S : Type} [Scalar S] {points : Points} {g : Graph} {anchored : Nat → Bool}
  {positions : Array (Vec3 S)}

/-! ## Walks through free points -/

section Walks

variable {a b c : {p // p ∈ points}}

theorem direct_cons {h : (g.within points).Adj a b} {w : (g.within points).Walk b c} :
    Direct anchored (.cons h w) ↔ anchored b = false ∧ Direct anchored w := by
  unfold Direct
  rw [SimpleGraph.Walk.support_cons, List.tail_cons, ← w.cons_tail_support, List.forall_mem_cons,
    List.tail_cons]

/-- After its last anchored point, a walk is direct. -/
theorem exists_direct {w : (g.within points).Walk a b} (h : ∃ q ∈ w.support, anchored q = true) :
    ∃ (c : {p // p ∈ points}) (u : (g.within points).Walk a c) (v : (g.within points).Walk c b),
      anchored c = true ∧ Direct anchored v ∧ w = u.append v := by
  induction w with
  | nil =>
    rcases h with ⟨q, hq, hanchored⟩
    rw [SimpleGraph.Walk.support_nil, List.mem_singleton] at hq
    exact ⟨_, .nil, .nil, hq ▸ hanchored, direct_nil, rfl⟩
  | @cons a next _ hadj w ih =>
    by_cases hlater : ∃ q ∈ w.support, anchored q = true
    · rcases ih hlater with ⟨c, u, v, hc, hv, rfl⟩
      exact ⟨c, .cons hadj u, v, hc, hv, rfl⟩
    · -- the walk starts at its only anchored point
      rcases h with ⟨q, hq, hanchored⟩
      rw [SimpleGraph.Walk.support_cons, List.mem_cons] at hq
      have hstart : q = a := hq.resolve_right fun hq => hlater ⟨q, hq, hanchored⟩
      refine ⟨a, .nil, .cons hadj w, hstart ▸ hanchored, fun q hq => ?_, rfl⟩
      exact Bool.eq_false_iff.mpr fun hq' => hlater ⟨q, hq, hq'⟩

end Walks

/-! ## The order of ways along walks -/

variable [LawfulLengths S] {d e : S}

/-- What has to be added to both of two lengths does not change which one is longer. -/
theorem le_of_lengthFrom_le [ExactSums S] (h : Measurable positions points g)
    {a b : {p // p ∈ points}} (w : (g.within points).Walk a b) (hd : 0 ≤ d) (he : 0 ≤ e)
    (hle : lengthFrom positions d w ≤ lengthFrom positions e w) : d ≤ e := by
  induction w generalizing d e with
  | nil => exact hle
  | cons hadj w ih =>
    have hedge := h.nonneg hadj
    have hsums := ih (Scalar.add_nonneg hd hedge) (Scalar.add_nonneg he hedge) hle
    exact ExactSums.le_of_add_le_add d e _ hd he hedge hsums

/-- Two ways that go on by the same edge keep their order. -/
theorem atMost_add [ExactSums S] {x y : Nat × S} (h : AtMost x y) (hx : 0 ≤ x.2) (he : 0 ≤ e) :
    AtMost (x.1, x.2 + e) (y.1, y.2 + e) := by
  refine ⟨Scalar.add_le_add hx h.le he, fun hge => ?_⟩
  exact h.2 (ExactSums.le_of_add_le_add y.2 x.2 e (Scalar.le_trans hx h.le) hx he hge)

variable {a b : Point positions}

/-- A direct walk from a point that is reached leads to a point that is reached, and not on a worse way
than the one that goes along the walk. -/
theorem atMost_of_direct [ExactSums S]
    (h : Measurable positions (Graph.firstPoints positions.size) g) (w : (mesh positions g).Walk a b)
    (hw : Direct anchored w) {way known : Nat × S}
    (hway : nearest positions g anchored a = some way) (hle : AtMost way known) :
    ∃ onward, nearest positions g anchored b = some onward ∧
      AtMost onward (known.1, lengthFrom positions known.2 w) := by
  induction w generalizing way known with
  | nil => exact ⟨way, hway, hle⟩
  | cons hadj w ih =>
    rw [direct_cons] at hw
    rcases atMost_of_adj h hadj hw.1 hway with ⟨onward, honward, hless⟩
    have hsum := atMost_add hle (nonneg_of_nearest h hway) (h.nonneg hadj)
    exact ih hw.2 honward (hless.trans hsum)

/-! ## The lowest anchor -/

/-- The lowest of the anchored points from where shortest direct walks lead to a point. A direct walk
from there has the length `d`, and no walk from any anchored point is shorter. Unless different anchored
points are in the same place, as the graph measures it, no lower one is as near at all. -/
structure Lowest (positions : Array (Vec3 S)) (g : Graph) (anchored : Nat → Bool)
    (p : Point positions) (anchor : Nat) (d : S) : Prop where
  attained : ∃ (a : Point positions) (w : (mesh positions g).Walk a p), a.1 = anchor ∧
    anchored a = true ∧ Direct anchored w ∧ lengthFrom positions 0 w = d
  least : ∀ (a : Point positions) (w : (mesh positions g).Walk a p), anchored a = true →
    d ≤ lengthFrom positions 0 w
  lowest : ∀ (a : Point positions) (w : (mesh positions g).Walk a p), anchored a = true →
    Direct anchored w → lengthFrom positions 0 w ≤ d → anchor ≤ a
  apart : (∀ (a b : Point positions) (w : (mesh positions g).Walk a b), anchored a = true →
      anchored b = true → lengthFrom positions 0 w ≤ 0 → a = b) →
    ∀ (a : Point positions) (w : (mesh positions g).Walk a p), anchored a = true →
      lengthFrom positions 0 w ≤ d → anchor ≤ a

/-- Searches find the lowest one of the nearest anchors. -/
theorem lowest_of_nearest [ExactSums S]
    (h : Measurable positions (Graph.firstPoints positions.size) g) {p : Point positions}
    {anchor : Nat} (hnearest : nearest positions g anchored p = some (anchor, d)) :
    Lowest positions g anchored p anchor d := by
  have hlowest : ∀ (a : Point positions) (w : (mesh positions g).Walk a p), anchored a = true →
      Direct anchored w → lengthFrom positions 0 w ≤ d → anchor ≤ a := by
    intro a w ha hw hle
    have hstart := nearest_of_anchored (g := g) (Graph.mem_firstPoints.mp a.2) ha
    rcases atMost_of_direct h w hw hstart (.refl (Scalar.isNumber_right Scalar.zero_le_zero)) with
      ⟨onward, honward, hbest⟩
    cases hnearest.symm.trans honward
    exact hbest.2 hle
  refine ⟨?_, fun a w ha => le_of_nearest h w ha hnearest, hlowest, fun hapart a w ha hle => ?_⟩
  · rcases exists_direct_of_nearest hnearest with ⟨a, b, w, ha, hb, hw, hlength⟩
    obtain rfl : b = p := Subtype.ext hb
    exact ⟨a, w, ha, ha ▸ anchored_of_nearest hnearest, hw, hlength⟩
  · -- up to its last anchored point the walk has no length, so that it starts there
    rcases exists_direct ⟨a, w.start_mem_support, ha⟩ with ⟨b, u, v, hb, hv, rfl⟩
    rw [lengthFrom_append] at hle
    have hu := le_lengthFrom h u Scalar.zero_le_zero
    have hleast := le_of_nearest h v hb hnearest
    have hzero := le_of_lengthFrom_le h v hu Scalar.zero_le_zero (Scalar.le_trans hle hleast)
    have hsame := hapart a b u ha hb hzero
    have hdirect := Scalar.le_trans (lengthFrom_mono h v Scalar.zero_le_zero hu) hle
    exact hsame ▸ hlowest b v hb hv hdirect

end Geodesic

namespace TetherLayout

variable {S : Type} [Scalar S] {positions : Array (Vec3 S)} {anchored : Nat → Bool} {g : Graph}
  {scale : S} {maxIslands : Nat} {partition : Partition}

/-! ## Straight lines -/

/-- Of ascending anchors, the first one of the nearest is taken. -/
theorem foldl_nearer_atMost [LawfulOrder S] {f : Nat → S} {anchors : List Nat} {best way : Nat × S}
    (hbest : Scalar.isNumber best.2 = true) (hnumbers : ∀ a ∈ anchors, Scalar.isNumber (f a) = true)
    (hascending : (best.1 :: anchors).Pairwise (· < ·))
    (h : anchors.foldl (fun best a => nearer best a (f a)) (some best) = some way) :
    AtMost way best ∧ ∀ a ∈ anchors, AtMost way (a, f a) := by
  induction anchors generalizing best with
  | nil =>
    cases h
    exact ⟨.refl hbest, nofun⟩
  | cons a rest ih =>
    rw [List.pairwise_cons, List.forall_mem_cons] at hascending
    rw [List.forall_mem_cons] at hnumbers ⊢
    rw [List.foldl_cons] at h
    unfold nearer at h
    dsimp only at h
    split at h
    · rename_i hless
      rw [Scalar.lt_iff] at hless
      have hbetter : AtMost (a, f a) best := ⟨hless.1, fun hge => absurd hge hless.2⟩
      rcases ih hnumbers.1 hnumbers.2 hascending.2 h with ⟨hle, hrest⟩
      exact ⟨hle.trans hbetter, hle, hrest⟩
    · -- the new anchor is higher, so that it loses ties
      rename_i hmore
      have hworse : AtMost best (a, f a) :=
        ⟨Scalar.le_of_not_lt hnumbers.1 hbest hmore, fun _ => hascending.1.1.le⟩
      have hkept : (best.1 :: rest).Pairwise (· < ·) :=
        List.pairwise_cons.mpr ⟨hascending.1.2, (List.pairwise_cons.mp hascending.2).2⟩
      rcases ih hbest hnumbers.2 hkept h with ⟨hle, hrest⟩
      exact ⟨hle, hle.trans hworse, hrest⟩

theorem straightAnchor_atMost [LawfulOrder S] {anchors : List Nat} {p anchor : Nat} {d : S}
    (hnumbers : ∀ a ∈ anchors,
      Scalar.isNumber ((positions.getD a 0).distanceSquared (positions.getD p 0)) = true)
    (hascending : anchors.Pairwise (· < ·))
    (h : straightAnchor positions anchors p = some (anchor, d)) :
    ∀ a ∈ anchors,
      AtMost (anchor, (positions.getD anchor 0).distanceSquared (positions.getD p 0))
        (a, (positions.getD a 0).distanceSquared (positions.getD p 0)) := by
  unfold straightAnchor at h
  rcases Option.map_eq_some_iff.mp h with ⟨⟨_, squared⟩, hbest, heq⟩
  cases heq
  cases anchors with
  | nil => exact nofun
  | cons b rest =>
    rcases (mem_of_foldl_nearer hbest).resolve_left nofun with ⟨_, hsquared⟩
    rw [List.forall_mem_cons] at hnumbers ⊢
    rw [hsquared]
    exact foldl_nearer_atMost hnumbers.1 hnumbers.2 hascending hbest

/-! ## Layouts -/

/-- The first of the nearest anchored points of an island, along straight lines. -/
def StraightLowest (positions : Array (Vec3 S)) (anchored : Nat → Bool) (partition : Partition)
    (t : Tether S) : Prop :=
  ∀ a, anchored a = true → partition.sameIsland a t.tip = true →
    AtMost (t.anchor, (positions.getD t.anchor 0).distanceSquared (positions.getD t.tip 0))
      (a, (positions.getD a 0).distanceSquared (positions.getD t.tip 0))

variable [LawfulDistances S]

theorem straightLowest_of_mem
    (h : partition.Merged (Graph.firstPoints positions.size) g maxIslands)
    (hfinite : ∀ v ∈ positions, v.IsFinite) {t : Tether S}
    (ht : t ∈ tethersOver positions anchored g .euclidean scale partition) :
    StraightLowest positions anchored partition t := by
  rcases mem_tethersOver.mp ht with ⟨i, island, hget, htip, _, d, hanchor, _⟩
  have hisland := Array.mem_of_getElem? hget
  have hinside : ∀ p ∈ island, p < positions.size := fun p hp =>
    Graph.mem_firstPoints.mp (h.inside island hisland p hp)
  have hnumbers : ∀ a ∈ island.filter anchored, Scalar.isNumber
      ((positions.getD a 0).distanceSquared (positions.getD t.tip 0)) = true := fun a ha =>
    Scalar.isNumber_right (Vec3.distanceSquared_nonneg
      (isFinite_getD hfinite (hinside a (List.mem_of_mem_filter ha)))
      (isFinite_getD hfinite (hinside _ htip)))
  have hascending : (island.filter anchored).Pairwise (· < ·) :=
    (h.ascending island hisland).sublist List.filter_sublist
  intro a ha hsame
  have hmem := h.mem_of_sameIsland hget htip hsame
  exact straightAnchor_atMost hnumbers hascending hanchor a (List.mem_filter.mpr ⟨hmem, ha⟩)

theorem lowest_of_mem [ExactSums S] (hfinite : ∀ v ∈ positions, v.IsFinite)
    (h : partition.Merged (Graph.firstPoints positions.size) g maxIslands) {t : Tether S}
    (ht : t ∈ tethersOver positions anchored g .geodesic scale partition) :
    ∃ (p : Geodesic.Point positions) (d : S), p.1 = t.tip ∧ t.referenceLength = d * scale ∧
      Geodesic.Lowest positions g anchored p t.anchor d := by
  rcases mem_tethersOver.mp ht with ⟨i, island, hget, htip, _, d, hanchor, hlength⟩
  rw [anchorIn_geodesic] at hanchor
  have hinside := h.inside island (Array.mem_of_getElem? hget) _ htip
  exact ⟨⟨t.tip, hinside⟩, d, rfl, hlength,
    Geodesic.lowest_of_nearest (measurable_of_finite hfinite) hanchor⟩

/-- Ties between anchors are resolved towards the lowest one: along straight lines among all nearest
anchored points of an island, and along geodesics, if lengths are added exactly, among all from where
shortest walks lead on through free points. -/
theorem build_lowest (positions : Array (Vec3 S)) (inverseMasses : Array S) (g : Graph)
    (maxIslands : Nat) (mode : TetherMode) (scale : S)
    (hsize : positions.size = inverseMasses.size) (hmany : positions.size ≤ BitSet.largestIndex)
    (hfinite : ∀ v ∈ positions, v.IsFinite) :
    ∃ layout, build positions inverseMasses g maxIslands mode scale = .ok layout ∧
      ∀ t ∈ layout.tethers,
        (mode = .euclidean →
          StraightLowest positions (anchoredAt inverseMasses) layout.partition t) ∧
        (mode = .geodesic → ExactSums S →
          ∃ (p : Geodesic.Point positions) (d : S), p.1 = t.tip ∧ t.referenceLength = d * scale ∧
            Geodesic.Lowest positions g (anchoredAt inverseMasses) p t.anchor d) := by
  rcases exists_partition positions hmany g (anchoredAt inverseMasses) maxIslands with
    ⟨partition, hcompute, hmerged⟩
  refine ⟨_, build_of_compute hsize hcompute mode scale, fun t ht => ⟨?_, ?_⟩⟩
  · rintro rfl
    exact straightLowest_of_mem hmerged hfinite ht
  · rintro rfl hexact
    exact lowest_of_mem hfinite hmerged ht

/-- Two anchored points and a free one halfway between them. -/
def between : Array (Vec3 Rat) := #[⟨0, 0, 0⟩, ⟨2, 0, 0⟩, ⟨1, 0, 0⟩]

/-- The free point is as far from either of the anchored ones. -/
theorem between_lowest :
    between.size = (#[0, 0, 1] : Array Rat).size ∧ between.size ≤ BitSet.largestIndex ∧
    (∀ v ∈ between, v.IsFinite) ∧ ExactSums Rat ∧
    ∃ layout, build between #[0, 0, 1] (.ofEdges [(1, 2), (2, 0)]) 1 .geodesic 1 = .ok layout ∧
      ∀ t ∈ layout.tethers, ∃ (p : Geodesic.Point between) (d : Rat), p.1 = t.tip ∧
        t.referenceLength = d * 1 ∧ Geodesic.Lowest between (.ofEdges [(1, 2), (2, 0)])
          (anchoredAt (#[0, 0, 1] : Array Rat)) p t.anchor d := by
  have hfinite : ∀ v ∈ between, v.IsFinite := by decide +kernel
  have hexact : ExactSums Rat := inferInstance
  rcases build_lowest between (#[0, 0, 1] : Array Rat) (.ofEdges [(1, 2), (2, 0)]) 1 .geodesic 1 rfl
    (by decide) hfinite with ⟨layout, hbuild, hlowest⟩
  exact ⟨rfl, by decide, hfinite, hexact, layout, hbuild, fun t ht => (hlowest t ht).2 rfl hexact⟩

/-! ## Hidden anchors -/

/-- Two anchored points in the same place and a free one at a distance of one. -/
def coincident (S : Type) [Scalar S] : Array (Vec3 S) := #[⟨0, 0, 0⟩, ⟨0, 0, 0⟩, ⟨1, 0, 0⟩]

/-- The first two of them are anchored. -/
def coincidentMasses (S : Type) [Scalar S] : Array S := #[0, 0, 1]

/-- An edge leads from the first point to the second, and one from there to the third. -/
def coincidentEdges : Graph := .ofEdges [(0, 1), (1, 2)]

/-- The third of the coincident points is tethered to the second, at a distance of one, although a walk
from the first point is as long, and no walk from an anchored point is shorter. -/
def Overlooked (S : Type) [Scalar S] : Prop :=
  ∃ layout, build (coincident S) (coincidentMasses S) coincidentEdges 1 .geodesic 1 = .ok layout ∧
    ∃ t ∈ layout.tethers, t.anchor = 1 ∧ t.tip = 2 ∧
      ∃ (a p : Geodesic.Point (coincident S))
        (w : (Geodesic.mesh (coincident S) coincidentEdges).Walk a p),
        a.1 = 0 ∧ p.1 = 2 ∧ anchoredAt (coincidentMasses S) a = true ∧
        Geodesic.lengthFrom (coincident S) 0 w = 1 ∧
        ∀ (b : Geodesic.Point (coincident S))
          (v : (Geodesic.mesh (coincident S) coincidentEdges).Walk b p),
          anchoredAt (coincidentMasses S) b = true → 1 ≤ Geodesic.lengthFrom (coincident S) 0 v

theorem overlooked_of_nearest {S : Type} [Scalar S] [LawfulDistances S]
    (hfinite : ∀ v ∈ coincident S, v.IsFinite) (hanchored : anchoredAt (coincidentMasses S) 0 = true)
    (hfree : anchoredAt (coincidentMasses S) 2 = false)
    (hnearest : Geodesic.nearest (coincident S) coincidentEdges (anchoredAt (coincidentMasses S)) 2 =
      some (1, 1))
    (hlength : 0 + Geodesic.edgeLength (coincident S) 0 1 + Geodesic.edgeLength (coincident S) 1 2 = 1) :
    Overlooked S := by
  have hpoint : ∀ i < 3, i ∈ Graph.firstPoints (coincident S).size := fun i hi =>
    Graph.mem_firstPoints.mpr hi
  have hedge : ∀ a b, (a, b) ∈ [(0, 1), (1, 2)] → b ∈ coincidentEdges.neighbors a := fun a b h =>
    Graph.mem_neighbors_ofEdges.mpr h
  have hfirst : (Geodesic.mesh (coincident S) coincidentEdges).Adj ⟨0, hpoint 0 (by decide)⟩
      ⟨1, hpoint 1 (by decide)⟩ :=
    ⟨Nat.zero_ne_one, hpoint 0 (by decide), hpoint 1 (by decide), .inl (hedge 0 1 (by decide))⟩
  have hsecond : (Geodesic.mesh (coincident S) coincidentEdges).Adj ⟨1, hpoint 1 (by decide)⟩
      ⟨2, hpoint 2 (by decide)⟩ :=
    ⟨(Nat.succ_ne_self 1).symm, hpoint 1 (by decide), hpoint 2 (by decide),
      .inl (hedge 1 2 (by decide))⟩
  have hmeasurable : Geodesic.Measurable (coincident S) (Graph.firstPoints (coincident S).size)
      coincidentEdges := measurable_of_finite hfinite
  have hmany : 3 ≤ BitSet.largestIndex := by decide
  rcases exists_partition (coincident S) hmany coincidentEdges (anchoredAt (coincidentMasses S)) 1 with
    ⟨partition, hcompute, hmerged⟩
  rcases hmerged.once 2 (hpoint 2 (by decide)) with ⟨i, ⟨island, hget, hmem⟩, _⟩
  refine ⟨_, build_of_compute rfl hcompute .geodesic 1, ⟨1, 2, 1 * 1⟩, ?_, rfl, rfl,
    _, _, .cons hfirst (.cons hsecond .nil), rfl, rfl, hanchored, hlength, fun b v hb => ?_⟩
  · exact mem_tethersOver.mpr ⟨i, island, hget, hmem, hfree, 1, hnearest, rfl⟩
  · exact Geodesic.le_of_nearest hmeasurable v hb hnearest

/-- An anchored point is overlooked, although there is no rounding. Rounded numbers need not be rounded
here either. -/
theorem coincident_overlooked : Overlooked Rat ∧ Overlooked Float32 := by
  constructor
  · apply overlooked_of_nearest <;> decide +kernel
  · apply overlooked_of_nearest <;> decide +kernel

end TetherLayout

end TetheredParticles
