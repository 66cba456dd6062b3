import TetheredParticles.Proofs.Graph.Merged
import TetheredParticles.Proofs.Scalar.Lengths
import TetheredParticles.Proofs.Tether.Geodesic
/-!
# Searches find shortest paths

The length of a walk is summed up from its first edge to its last, in the order of the walk, because
rounded addition is not associative. Every way that a search finds has the length of a walk from its
anchor. Once no edge improves a way any more, the ways found are at most as long as all walks, also
those through other anchors, from where they could start as well.

* `Geodesic.lengthFrom` — the length of a walk.
* `Geodesic.Direct`, `Geodesic.exists_direct_of_nearest` — ways found are walks through free points.
* `Geodesic.le_of_walk`, `Geodesic.le_of_nearest` — no walk is shorter than a way found.
* `Geodesic.nearest_shortest` — searches find shortest paths, and a way wherever there is a walk.
-/

namespace TetheredParticles

namespace Geodesic

variable {S : Type} [Scalar S] {points : Points} {g : Graph}

/-- The points at given positions. -/
abbrev Point (positions : Array (Vec3 S)) := {p // p ∈ Graph.firstPoints positions.size}

/-- The graph that is searched: all points, with edges that may be listed at either end. -/
abbrev mesh (positions : Array (Vec3 S)) (g : Graph) : SimpleGraph (Point positions) :=
  g.within (Graph.firstPoints positions.size)

/-! ## Lengths of walks -/

/-- A length and then that of a walk, edge by edge. -/
def lengthFrom (positions : Array (Vec3 S)) (d : S) :
    {a b : {p // p ∈ points}} → (g.within points).Walk a b → S
  | _, _, .nil => d
  | a, _, .cons (v := b) _ w => lengthFrom positions (d + edgeLength positions a b) w

variable {positions : Array (Vec3 S)} {a b c : {p // p ∈ points}} {d e : S}

@[simp] theorem lengthFrom_nil : lengthFrom positions d (.nil : (g.within points).Walk a a) = d := rfl

@[simp] theorem lengthFrom_cons (h : (g.within points).Adj a b) (w : (g.within points).Walk b c) :
    lengthFrom positions d (.cons h w) = lengthFrom positions (d + edgeLength positions a b) w := rfl

theorem lengthFrom_append (w : (g.within points).Walk a b) (v : (g.within points).Walk b c) :
    lengthFrom positions d (w.append v) = lengthFrom positions (lengthFrom positions d w) v := by
  induction w generalizing d with
  | nil => rfl
  | cons h w ih => exact ih v

theorem lengthFrom_concat (w : (g.within points).Walk a b) (h : (g.within points).Adj b c) :
    lengthFrom positions d (w.concat h) = lengthFrom positions d w + edgeLength positions b c := by
  rw [SimpleGraph.Walk.concat_eq_append, lengthFrom_append, lengthFrom_cons, lengthFrom_nil]

/-- A walk enters no anchored point after its start. -/
def Direct (anchored : Nat → Bool) {a b : {p // p ∈ points}} (w : (g.within points).Walk a b) : Prop :=
  ∀ q ∈ w.support.tail, anchored q = false

theorem direct_nil {anchored : Nat → Bool} :
    Direct anchored (.nil : (g.within points).Walk a a) := nofun

theorem Direct.concat {anchored : Nat → Bool} {w : (g.within points).Walk a b} (h : Direct anchored w)
    (hadj : (g.within points).Adj b c) (hfree : anchored c = false) :
    Direct anchored (w.concat hadj) := by
  unfold Direct
  rw [SimpleGraph.Walk.support_concat, List.tail_append_of_ne_nil w.support_ne_nil,
    List.forall_mem_append]
  exact ⟨h, List.forall_mem_singleton.mpr hfree⟩

/-- The nearest anchor of a point and its distance, as a search over all points finds them. -/
def nearest (positions : Array (Vec3 S)) (g : Graph) (anchored : Nat → Bool) (p : Nat) : Reached S :=
  (search positions (g.symmetrize (Graph.firstPoints positions.size)) anchored).getD p none

/-- A way that is found has the length of a direct walk from its anchor. -/
theorem exists_direct_of_nearest {anchored : Nat → Bool} {p anchor : Nat}
    (h : nearest positions g anchored p = some (anchor, d)) :
    ∃ (a b : Point positions) (w : (mesh positions g).Walk a b),
      a.1 = anchor ∧ b.1 = p ∧ Direct anchored w ∧ lengthFrom positions 0 w = d := by
  unfold nearest at h
  refine search_holds (P := fun p way => ∃ (a b : Point positions) (w : (mesh positions g).Walk a b),
    a.1 = way.1 ∧ b.1 = p ∧ Direct anchored w ∧ lengthFrom positions 0 w = way.2)
    (fun p hlt _ => ?_) ?_ h
  · exact ⟨⟨p, Graph.mem_firstPoints.mpr hlt⟩, _, .nil, rfl, rfl, direct_nil, rfl⟩
  · rintro p ⟨anchor, d⟩ q ⟨a, b, w, rfl, rfl, hw, rfl⟩ hq hfree
    have hjoined := Graph.mem_neighbors_symmetrize.mp hq
    have hadj : (mesh positions g).Adj b ⟨q, hjoined.2.2.1⟩ := hjoined
    exact ⟨a, ⟨q, hjoined.2.2.1⟩, w.concat hadj, rfl, rfl, hw.concat hadj hfree,
      lengthFrom_concat w hadj⟩

/-- In particular, it has the length of a walk. -/
theorem exists_walk_of_nearest {anchored : Nat → Bool} {p anchor : Nat}
    (h : nearest positions g anchored p = some (anchor, d)) :
    ∃ (a b : Point positions) (w : (mesh positions g).Walk a b),
      a.1 = anchor ∧ b.1 = p ∧ lengthFrom positions 0 w = d := by
  rcases exists_direct_of_nearest h with ⟨a, b, w, ha, hb, _, hlength⟩
  exact ⟨a, b, w, ha, hb, hlength⟩

theorem anchored_of_nearest {anchored : Nat → Bool} {p anchor : Nat}
    (h : nearest positions g anchored p = some (anchor, d)) : anchored anchor = true := by
  unfold nearest at h
  exact search_anchored h

theorem nearest_of_anchored {anchored : Nat → Bool} {p : Nat} (hlt : p < positions.size)
    (hp : anchored p = true) : nearest positions g anchored p = some (p, 0) := by
  unfold nearest
  exact getD_search_of_anchored hlt hp

/-! ## Lengths keep their order -/

/-- The lengths of all edges are numbers. -/
def Measurable (positions : Array (Vec3 S)) (points : Points) (g : Graph) : Prop :=
  ∀ a b, g.Joined points a b → Scalar.isNumber (edgeLength positions a b) = true

variable [LawfulLengths S]

theorem Measurable.nonneg (h : Measurable positions points g) {p q : Nat}
    (hpq : g.Joined points p q) : 0 ≤ edgeLength positions p q := Vec3.distance_nonneg (h p q hpq)

/-- Walks do not make a length less. -/
theorem le_lengthFrom (h : Measurable positions points g) (w : (g.within points).Walk a b)
    (hd : 0 ≤ d) : d ≤ lengthFrom positions d w := by
  induction w generalizing d with
  | nil => exact Scalar.le_refl (Scalar.isNumber_right hd)
  | cons hadj w ih =>
    have hle := Scalar.le_add hd (h.nonneg hadj)
    exact Scalar.le_trans hle (ih (Scalar.le_trans hd hle))

/-- Along one walk, lengths keep their order. -/
theorem lengthFrom_mono (h : Measurable positions points g) (w : (g.within points).Walk a b)
    (hd : 0 ≤ d) (hde : d ≤ e) : lengthFrom positions d w ≤ lengthFrom positions e w := by
  induction w generalizing d e with
  | nil => exact hde
  | cons hadj w ih =>
    exact ih (Scalar.add_nonneg hd (h.nonneg hadj)) (Scalar.add_le_add hd hde (h.nonneg hadj))

/-- A walk is not shorter than what is left of it without its loops. -/
theorem lengthFrom_bypass_le (h : Measurable positions points g) (w : (g.within points).Walk a b)
    (hd : 0 ≤ d) : lengthFrom positions d w.bypass ≤ lengthFrom positions d w := by
  induction w generalizing d with
  | nil => exact Scalar.le_refl (Scalar.isNumber_right hd)
  | @cons a next _ hadj w ih =>
    have hon := Scalar.add_nonneg hd (h.nonneg hadj)
    unfold SimpleGraph.Walk.bypass
    dsimp only
    split
    · rename_i hmem
      -- the loop leads back to the first point
      have hsplit := congrArg (lengthFrom positions (d + edgeLength positions a next))
        (w.bypass.take_spec hmem)
      rw [lengthFrom_append] at hsplit
      have hloop := Scalar.le_trans (Scalar.le_add hd (h.nonneg hadj))
        (le_lengthFrom h (w.bypass.takeUntil a hmem) hon)
      refine Scalar.le_trans (lengthFrom_mono h _ hd hloop) ?_
      rw [hsplit]
      exact ih hon
    · exact ih hon

/-! ## Shortest ways -/

variable {anchored : Nat → Bool} {a b : Point positions}

/-- Edges whose lengths are numbers let ways grow. -/
theorem Measurable.growing (h : Measurable positions points g) :
    Growing positions (g.symmetrize points) := fun _ _ hq _ hd _ =>
  Scalar.le_add hd (h.nonneg (Graph.mem_neighbors_symmetrize.mp hq))

/-- The lengths that are found are numbers. -/
theorem nonneg_of_nearest (h : Measurable positions (Graph.firstPoints positions.size) g) {p : Nat}
    {way : Nat × S} (hway : nearest positions g anchored p = some way) : 0 ≤ way.2 := by
  rcases exists_walk_of_nearest hway with ⟨a, b, w, _, _, hlength⟩
  rw [← hlength]
  exact le_lengthFrom h w Scalar.zero_le_zero

/-- An edge from a point that is reached to a free one leads to a point that is reached, and not on a
worse way than the one that goes on. -/
theorem atMost_of_adj (h : Measurable positions (Graph.firstPoints positions.size) g)
    (hadj : (mesh positions g).Adj a b) (hfree : anchored b = false) {way : Nat × S}
    (hway : nearest positions g anchored a = some way) :
    ∃ onward, nearest positions g anchored b = some onward ∧
      AtMost onward (way.1, way.2 + edgeLength positions a b) := by
  have hnonneg := nonneg_of_nearest h hway
  have hon := Scalar.add_nonneg hnonneg (h.nonneg hadj)
  have hinside : ∀ p q, q ∈ (g.symmetrize (Graph.firstPoints positions.size)).neighbors p →
      q < positions.size := fun p q hq =>
    Graph.mem_firstPoints.mp (Graph.mem_neighbors_symmetrize.mp hq).2.2.1
  have hsettled : improves way.1 (way.2 + edgeLength positions a b)
      (nearest positions g anchored b) = false := by
    unfold nearest at hway ⊢
    exact search_settled positions _ anchored h.growing hinside hway (Scalar.isNumber_right hnonneg)
      (Graph.mem_neighbors_symmetrize.mpr hadj) hfree
  cases hknown : nearest positions g anchored b with
  | none =>
    rw [hknown] at hsettled
    cases hsettled
  | some known =>
    rw [hknown, ← Bool.not_eq_true, improves_iff] at hsettled
    have hnumber := Scalar.isNumber_right (nonneg_of_nearest h hknown)
    exact ⟨known, rfl, atMost_of_not_better hnumber (Scalar.isNumber_right hon) hsettled⟩

/-- An edge from a point that is reached leads to a point that is reached on a way that is at most as
long as the one that goes on. -/
theorem le_of_adj (h : Measurable positions (Graph.firstPoints positions.size) g)
    (hadj : (mesh positions g).Adj a b) {way : Nat × S}
    (hway : nearest positions g anchored a = some way) :
    ∃ onward, nearest positions g anchored b = some onward ∧
      onward.2 ≤ way.2 + edgeLength positions a b := by
  by_cases hanchored : anchored b = true
  · -- a way could start here as well
    exact ⟨(b, 0), nearest_of_anchored (Graph.mem_firstPoints.mp b.2) hanchored,
      Scalar.add_nonneg (nonneg_of_nearest h hway) (h.nonneg hadj)⟩
  · rcases atMost_of_adj h hadj (Bool.eq_false_iff.mpr hanchored) hway with ⟨onward, honward, hle⟩
    exact ⟨onward, honward, hle.le⟩

/-- A walk from a point that is reached leads to a point that is reached on a way that is at most as
long. -/
theorem le_of_walk (h : Measurable positions (Graph.firstPoints positions.size) g)
    (w : (mesh positions g).Walk a b) {way : Nat × S}
    (hway : nearest positions g anchored a = some way) (hle : way.2 ≤ d) :
    ∃ onward, nearest positions g anchored b = some onward ∧
      onward.2 ≤ lengthFrom positions d w := by
  induction w generalizing d way with
  | nil => exact ⟨way, hway, hle⟩
  | cons hadj w ih =>
    rcases le_of_adj h hadj hway with ⟨onward, honward, hless⟩
    have hsum := Scalar.add_le_add (nonneg_of_nearest h hway) hle (h.nonneg hadj)
    exact ih honward (Scalar.le_trans hless hsum)

/-- No walk from an anchored point is shorter than the way that is found. -/
theorem le_of_nearest (h : Measurable positions (Graph.firstPoints positions.size) g)
    (w : (mesh positions g).Walk a b) (ha : anchored a = true) {anchor : Nat}
    (hnearest : nearest positions g anchored b = some (anchor, d)) : d ≤ lengthFrom positions 0 w := by
  have hstart := nearest_of_anchored (g := g) (Graph.mem_firstPoints.mp a.2) ha
  rcases le_of_walk h w hstart Scalar.zero_le_zero with ⟨way, hway, hle⟩
  cases hnearest.symm.trans hway
  exact hle

/-- A shortest way from an anchored point: it has the length of a walk from there, and no walk from
any anchored point is shorter. Without loops, a walk from there is as short. -/
structure Shortest (positions : Array (Vec3 S)) (g : Graph) (anchored : Nat → Bool)
    (p : Point positions) (anchor : Nat) (d : S) : Prop where
  isAnchor : anchored anchor = true
  attained : ∃ (a : Point positions) (w : (mesh positions g).Walk a p),
    a.1 = anchor ∧ lengthFrom positions 0 w = d
  simple : ∃ (a : Point positions) (w : (mesh positions g).Walk a p),
    a.1 = anchor ∧ w.IsPath ∧ (lengthFrom positions 0 w == d) = true
  least : ∀ (a : Point positions) (w : (mesh positions g).Walk a p), anchored a = true →
    d ≤ lengthFrom positions 0 w

/-- Searches find a shortest way to every point that some anchored point reaches, and to no other
one. -/
theorem nearest_shortest (positions : Array (Vec3 S)) (g : Graph) (anchored : Nat → Bool)
    (h : ∀ a b, g.Joined (Graph.firstPoints positions.size) a b →
      Scalar.isNumber ((positions.getD a 0).distance (positions.getD b 0)) = true)
    (p : Point positions) :
    (nearest positions g anchored p = none ↔
      ∀ a : Point positions, anchored a = true → IsEmpty ((mesh positions g).Walk a p)) ∧
    ∀ anchor d, nearest positions g anchored p = some (anchor, d) →
      Shortest positions g anchored p anchor d := by
  have hmeasurable : Measurable positions (Graph.firstPoints positions.size) g := h
  -- a walk from an anchor, which is reached at no length
  have hwalk : ∀ (a : Point positions) (w : (mesh positions g).Walk a p), anchored a = true →
      ∃ way, nearest positions g anchored p = some way ∧ way.2 ≤ lengthFrom positions 0 w :=
    fun a w ha => le_of_walk hmeasurable w
      (nearest_of_anchored (Graph.mem_firstPoints.mp a.2) ha) Scalar.zero_le_zero
  -- a way that is found starts at an anchor and has the length of a walk
  have hway : ∀ anchor d, nearest positions g anchored p = some (anchor, d) →
      anchored anchor = true ∧ ∃ (a : Point positions) (w : (mesh positions g).Walk a p),
        a.1 = anchor ∧ lengthFrom positions 0 w = d := by
    intro anchor d hsome
    rcases exists_walk_of_nearest hsome with ⟨a, b, w, ha, hb, hlength⟩
    obtain rfl : b = p := Subtype.ext hb
    exact ⟨anchored_of_nearest hsome, a, w, ha, hlength⟩
  refine ⟨⟨fun hnone a ha => ⟨fun w => ?_⟩, fun hempty => ?_⟩, fun anchor d hsome => ?_⟩
  · rcases hwalk a w ha with ⟨way, hsome, _⟩
    cases hnone.symm.trans hsome
  · by_contra hsome
    rcases Option.ne_none_iff_exists'.mp hsome with ⟨⟨anchor, d⟩, hsome⟩
    rcases hway anchor d hsome with ⟨hanchor, a, w, rfl, _⟩
    exact (hempty a hanchor).false w
  · have hleast : ∀ (a : Point positions) (w : (mesh positions g).Walk a p), anchored a = true →
        d ≤ lengthFrom positions 0 w := by
      intro a w ha
      rcases hwalk a w ha with ⟨way, hway, hle⟩
      cases hsome.symm.trans hway
      exact hle
    rcases hway anchor d hsome with ⟨hanchor, a, w, rfl, hlength⟩
    refine ⟨hanchor, ⟨a, w, rfl, hlength⟩, ⟨a, w.bypass, rfl, w.bypass_isPath, ?_⟩, hleast⟩
    rw [Scalar.beq_iff]
    exact ⟨hlength ▸ lengthFrom_bypass_le hmeasurable w Scalar.zero_le_zero,
      hleast a w.bypass hanchor⟩

/-- The corners of a rectangle, and a point apart from it. -/
def corners : Array (Vec3 Float32) := #[⟨0, 0, 0⟩, ⟨3, 0, 0⟩, ⟨3, 4, 0⟩, ⟨0, 4, 0⟩, ⟨9, 9, 9⟩]

/-- Three sides of the rectangle. -/
def sides : Graph := .ofEdges [(0, 1), (2, 1), (2, 3)]

/-- Along three sides the last corner is ten away from the first one, although the fourth side is four
long. No way leads to the point apart. -/
theorem corners_shortest :
    (∀ a b, sides.Joined (Graph.firstPoints corners.size) a b →
      Scalar.isNumber ((corners.getD a 0).distance (corners.getD b 0)) = true) ∧
    Shortest corners sides (· == 0) ⟨3, Graph.mem_firstPoints.mpr (by decide)⟩ 0 10 ∧
    ∀ a : Point corners, (a.1 == 0) = true →
      IsEmpty ((mesh corners sides).Walk a ⟨4, Graph.mem_firstPoints.mpr (by decide)⟩) := by
  have hnumbers : ∀ a < 5, ∀ b < 5,
      Scalar.isNumber ((corners.getD a 0).distance (corners.getD b 0)) = true := by decide +kernel
  have hmeasurable : ∀ a b, sides.Joined (Graph.firstPoints corners.size) a b →
      Scalar.isNumber ((corners.getD a 0).distance (corners.getD b 0)) = true := fun a b hjoined =>
    hnumbers a (Graph.mem_firstPoints.mp hjoined.2.1) b (Graph.mem_firstPoints.mp hjoined.2.2.1)
  have hlast : nearest corners sides (· == 0) 3 = some (0, 10) := by decide +kernel
  have hapart : nearest corners sides (· == 0) 4 = none := by decide +kernel
  exact ⟨hmeasurable, (nearest_shortest corners sides (· == 0) hmeasurable _).2 0 10 hlast,
    (nearest_shortest corners sides (· == 0) hmeasurable _).1.mp hapart⟩

end Geodesic

end TetheredParticles
