import Mathlib.Combinatorics.SimpleGraph.Connectivity.Connected
import Mathlib.SetTheory.Cardinal.Finite
import TetheredParticles.Proofs.Graph.Partition
/-!
# Islands are merged components

A partition is measured against the graph on its points, with an edge wherever one of two points
lists the other. Its islands are unions of the connected components of that graph, and there are as
many of them as there are components, unless a bound asks for fewer.

* `Graph.within` — the graph on a set of points.
* `Partition.card_components` — searches find its connected components.
* `Partition.Merged`, `Partition.compute_merged` — every computed partition merges components.
-/

namespace TetheredParticles

/-- The graph on a set of points. An edge may be listed at either end; an edge from a point to
itself or out of the set does not count. -/
def Graph.within (points : Points) (g : Graph) : SimpleGraph {p // p ∈ points} where
  Adj a b := g.Joined points a b
  symm := ⟨fun _ _ h => h.symm⟩
  loopless := ⟨fun _ h => h.1 rfl⟩

namespace Graph

variable {points : Points} {g : Graph}

/-- Edges lead from point to point within the set. -/
theorem reachable_of_reflTransGen {a b : Nat} (ha : a ∈ points)
    (h : Relation.ReflTransGen (g.Joined points) a b) :
    ∃ hb : b ∈ points, (g.within points).Reachable ⟨a, ha⟩ ⟨b, hb⟩ := by
  induction h with
  | refl => exact ⟨ha, .refl _⟩
  | tail _ hjoined ih =>
    rcases ih with ⟨hb, hreach⟩
    have hadj : (g.within points).Adj ⟨_, hb⟩ ⟨_, hjoined.2.2.1⟩ := hjoined
    exact ⟨hjoined.2.2.1, hreach.trans hadj.reachable⟩

theorem reflTransGen_of_reachable {a b : {p // p ∈ points}} (h : (g.within points).Reachable a b) :
    Relation.ReflTransGen (g.Joined points) a b :=
  ((SimpleGraph.reachable_iff_reflTransGen a b).mp h).lift Subtype.val fun _ _ hadj => hadj

end Graph

namespace Separated

variable {joined : Nat → Nat → Prop} {inside : Nat → Prop} {parts : List (List Nat)}

/-- Edges do not lead out of a part, however many there are. -/
theorem mem_of_reflTransGen (h : Separated joined inside parts) {part : List Nat}
    (hpart : part ∈ parts) {a b : Nat} (ha : a ∈ part) (hab : Relation.ReflTransGen joined a b) :
    b ∈ part := by
  induction hab with
  | refl => exact ha
  | tail _ hjoined ih => exact h.closed part hpart _ ih _ hjoined

end Separated

namespace Partition

variable {points : Points} {g : Graph} {parts : List (List Nat)}

/-- Parts that are separated from each other and linked within themselves are the connected
components. -/
theorem card_components (hsep : Separated (g.Joined points) (· ∈ points) parts)
    (hlinked : Linked (g.Joined points) parts) :
    Nat.card (g.within points).ConnectedComponent = parts.length := by
  -- a point of each part stands for its component
  have hfirst : ∀ i : Fin parts.length, ∃ a : {p // p ∈ points}, a.1 ∈ parts[i] := by
    intro i
    have hpart : parts[i] ∈ parts := List.getElem_mem i.2
    rcases List.exists_mem_of_ne_nil _ (hsep.nonempty _ hpart) with ⟨a, ha⟩
    exact ⟨⟨a, (hsep.covers a).mp ⟨_, hpart, ha⟩⟩, ha⟩
  choose first hmem using hfirst
  have hbijective : Function.Bijective fun i =>
      (g.within points).connectedComponentMk (first i) := by
    constructor
    · intro i j hij
      have hreach := Graph.reflTransGen_of_reachable (SimpleGraph.ConnectedComponent.eq.mp hij)
      have hsame := hsep.mem_of_reflTransGen (List.getElem_mem i.2) (hmem i) hreach
      exact Fin.ext (hsep.part_unique (List.getElem?_eq_getElem i.2) (List.getElem?_eq_getElem j.2)
        hsame (hmem j))
    · intro component
      induction component using SimpleGraph.ConnectedComponent.ind with
      | h a =>
        rcases (hsep.covers a).mpr a.2 with ⟨part, hpart, ha⟩
        rcases List.mem_iff_getElem.mp hpart with ⟨i, hi, rfl⟩
        have hlink := hlinked _ hpart _ (hmem ⟨i, hi⟩) _ ha
        rcases Graph.reachable_of_reflTransGen (first ⟨i, hi⟩).2 hlink with ⟨_, hreach⟩
        exact ⟨⟨i, hi⟩, SimpleGraph.ConnectedComponent.eq.mpr hreach⟩
  rw [← Nat.card_eq_of_bijective _ hbijective, Nat.card_fin]

/-- Islands are ordered by their first points, which differ. -/
theorem sorted_ofComponents {joined : Nat → Nat → Prop} {inside : Nat → Prop}
    (h : Separated joined inside parts) :
    (ofComponents parts).islands.toList.Pairwise fun a b => a.headD 0 < b.headD 0 := by
  have hperm := List.mergeSort_perm parts fun a b => decide (a.headD 0 ≤ b.headD 0)
  have hsep := h.perm hperm
  have hle : (parts.mergeSort fun a b => decide (a.headD 0 ≤ b.headD 0)).Pairwise
      fun a b => decide (a.headD 0 ≤ b.headD 0) = true := by
    refine List.pairwise_mergeSort (fun a b c hab hbc => ?_) (fun a b => ?_) parts
    · rw [decide_eq_true_eq] at hab hbc ⊢
      exact hab.trans hbc
    · rw [Bool.or_eq_true, decide_eq_true_eq, decide_eq_true_eq]
      exact Nat.le_total ..
  have hheads : ∀ part ∈ parts.mergeSort fun a b => decide (a.headD 0 ≤ b.headD 0),
      part.headD 0 ∈ part := by
    intro part hpart
    cases part with
    | nil => exact absurd rfl (hsep.nonempty _ hpart)
    | cons a rest => exact List.mem_cons_self ..
  unfold ofComponents
  dsimp only
  refine (hle.and hsep.disjoint).imp_of_mem fun {a b} ha hb hab => ?_
  refine Nat.lt_of_le_of_ne (of_decide_eq_true hab.1) fun heq => ?_
  exact hab.2 (hheads a ha) (heq ▸ hheads b hb)

/-! ## Partitions -/

/-- The islands of a partition are merged connected components: what a partition says about the
points, and how many islands it has. -/
structure Merged (points : Points) (g : Graph) (maxIslands : Nat) (p : Partition) : Prop where
  /-- Every point is in one island. -/
  once : ∀ a ∈ points, ∃! i : Nat, ∃ island, p.islands[i]? = some island ∧ a ∈ island
  /-- Nothing but points is in an island. -/
  inside : ∀ island ∈ p.islands, ∀ a ∈ island, a ∈ points
  nonempty : ∀ island ∈ p.islands, island ≠ []
  ascending : ∀ island ∈ p.islands, island.Pairwise (· < ·)
  /-- Islands are ordered by their first points. -/
  sorted : p.islands.toList.Pairwise fun a b => a.headD 0 < b.headD 0
  islandOf : ∀ a i, p.islandOf? a = some i ↔ ∃ island, p.islands[i]? = some island ∧ a ∈ island
  /-- An edge may be listed at either end. -/
  edges : ∀ a ∈ points, ∀ b ∈ points, b ∈ g.neighbors a ∨ a ∈ g.neighbors b →
    p.sameIsland a b = true
  /-- What is connected is in one island. -/
  connected : ∀ a b : {p // p ∈ points}, (g.within points).Reachable a b → p.sameIsland a b = true
  size : p.size = min (Nat.card (g.within points).ConnectedComponent) (max maxIslands 1)
  /-- Without merging, what is in one island is connected. -/
  unmerged : Nat.card (g.within points).ConnectedComponent ≤ max maxIslands 1 →
    ∀ a b, p.sameIsland a b = true ↔
      ∃ (ha : a ∈ points) (hb : b ∈ points), (g.within points).Reachable ⟨a, ha⟩ ⟨b, hb⟩

theorem sameIsland_iff {p : Partition} {a b : Nat} :
    p.sameIsland a b = true ↔ ∃ i, p.islandOf? a = some i ∧ p.islandOf? b = some i := by
  unfold sameIsland
  cases p.islandOf? a with
  | none => exact iff_of_false Bool.false_ne_true fun ⟨_, hi, _⟩ => nomatch hi
  | some i =>
    cases p.islandOf? b with
    | none => exact iff_of_false Bool.false_ne_true fun ⟨_, _, hj⟩ => nomatch hj
    | some j =>
      refine beq_iff_eq.trans ⟨fun hij => ⟨i, rfl, hij ▸ rfl⟩, ?_⟩
      rintro ⟨k, hi, hj⟩
      exact (Option.some.inj hi).trans (Option.some.inj hj).symm

namespace Merged

variable {points : Points} {g : Graph} {maxIslands : Nat} {p : Partition} {a b : Nat}

theorem sameIsland_iff_mem (h : p.Merged points g maxIslands) : p.sameIsland a b = true ↔
    ∃ (i : Nat) (island : List Nat), p.islands[i]? = some island ∧ a ∈ island ∧ b ∈ island := by
  rw [sameIsland_iff]
  constructor
  · rintro ⟨i, ha, hb⟩
    rcases (h.islandOf a i).mp ha with ⟨island, hget, hmem⟩
    rcases (h.islandOf b i).mp hb with ⟨other, hget', hmem'⟩
    cases hget.symm.trans hget'
    exact ⟨i, island, hget, hmem, hmem'⟩
  · rintro ⟨i, island, hget, ha, hb⟩
    exact ⟨i, (h.islandOf a i).mpr ⟨island, hget, ha⟩, (h.islandOf b i).mpr ⟨island, hget, hb⟩⟩

/-- An island has all points that are in one island with one of its points. -/
theorem mem_of_sameIsland (h : p.Merged points g maxIslands) {i : Nat} {island : List Nat}
    (hget : p.islands[i]? = some island) (hb : b ∈ island) (hsame : p.sameIsland a b = true) :
    a ∈ island := by
  rcases h.sameIsland_iff_mem.mp hsame with ⟨j, other, hget', ha, hb'⟩
  have hone : some i = some j :=
    ((h.islandOf b i).mpr ⟨island, hget, hb⟩).symm.trans ((h.islandOf b j).mpr ⟨other, hget', hb'⟩)
  cases hone
  cases hget.symm.trans hget'
  exact ha

end Merged

/-- Points of one part are in one island. -/
theorem Valid.sameIsland {joined : Nat → Nat → Prop} {inside : Nat → Prop} {bound : Nat}
    {p : Partition} (h : p.Valid joined inside bound) {a b : Nat} (ha : inside a)
    (hab : Relation.ReflTransGen joined a b) : p.sameIsland a b = true := by
  rcases h.exists_islandOf ha with ⟨i, island, hi, hisland, hmem⟩
  refine sameIsland_iff.mpr ⟨i, hi, (h.islandOf b i).mpr ⟨island, hisland, ?_⟩⟩
  exact h.separated.mem_of_reflTransGen
    (Array.mem_toList_iff.mpr (Array.mem_of_getElem? hisland)) hmem hab

theorem merged_ofComponents (hsep : Separated (g.Joined points) (· ∈ points) parts)
    (hlinked : Linked (g.Joined points) parts) (maxIslands : Nat) :
    (ofComponents (mergeSmallest (max maxIslands 1) parts)).Merged points g maxIslands := by
  have hbound : 0 < max maxIslands 1 := by omega
  have hlength := length_mergeSmallest hbound parts
  have hmerged := mergeSmallest_separated (max maxIslands 1) parts hsep
  have hvalid := ofComponents_valid hmerged (hlength.trans_le (min_le_right ..))
  have hcard := card_components hsep hlinked
  have hisland : ∀ island ∈ (ofComponents (mergeSmallest (max maxIslands 1) parts)).islands,
      island ∈ (ofComponents (mergeSmallest (max maxIslands 1) parts)).islands.toList :=
    fun _ => Array.mem_toList_iff.mpr
  exact {
    once := by
      intro a ha
      rcases hvalid.exists_islandOf ha with ⟨i, island, hi, hget, hmem⟩
      refine ⟨i, ⟨island, hget, hmem⟩, fun j hj => ?_⟩
      exact Option.some.inj (((hvalid.islandOf a j).mpr hj).symm.trans hi)
    inside := fun island hin a ha => (hvalid.separated.covers a).mp ⟨island, hisland _ hin, ha⟩
    nonempty := fun island hin => hvalid.separated.nonempty island (hisland _ hin)
    ascending := fun island hin => hvalid.separated.ascending island (hisland _ hin)
    sorted := sorted_ofComponents hmerged
    islandOf := hvalid.islandOf
    edges := by
      intro a ha b hb hedge
      refine hvalid.sameIsland ha ?_
      by_cases hab : a = b
      · exact hab ▸ .refl
      · exact .single ⟨hab, ha, hb, hedge⟩
    connected := fun a b hreach =>
      hvalid.sameIsland a.2 (Graph.reflTransGen_of_reachable hreach)
    size := by
      rw [hcard, ← hlength]
      unfold size ofComponents
      rw [List.size_toArray, List.length_mergeSort]
    unmerged := by
      intro hfew a b
      rw [hcard] at hfew
      constructor
      · intro hsame
        rcases sameIsland_iff.mp hsame with ⟨i, hi, hj⟩
        rcases (hvalid.islandOf a i).mp hi with ⟨island, hget, ha⟩
        rcases (hvalid.islandOf b i).mp hj with ⟨other, hget', hb⟩
        cases hget.symm.trans hget'
        -- with few components none are merged, and the island is one of them
        have hpart : island ∈ parts := by
          have hin := hisland _ (Array.mem_of_getElem? hget)
          rw [mergeSmallest_of_le hfew] at hin
          exact (List.mergeSort_perm parts _).mem_iff.mp hin
        have hpoint : a ∈ points := (hsep.covers a).mp ⟨island, hpart, ha⟩
        exact ⟨hpoint, Graph.reachable_of_reflTransGen hpoint (hlinked island hpart a ha b hb)⟩
      · rintro ⟨ha, hb, hreach⟩
        exact hvalid.sameIsland ha (Graph.reflTransGen_of_reachable hreach) }

/-- Partitions of points that can be marked are computed, by searches that end on their own. Their
islands are merged components. -/
theorem compute_merged {points : Points} (h : ∀ p ∈ points, p < BitSet.largestIndex) (g : Graph)
    (kinematic : Nat → Bool) (maxIslands : Nat) :
    ∃ p, compute points g kinematic maxIslands = .ok p ∧ p.Merged points g maxIslands ∧
      ∃ parts, Traversed points g kinematic parts ∧
        p = ofComponents (mergeSmallest (max maxIslands 1) parts) := by
  have hnever : ∀ f, ¬ (f = Fault.lengthOverflow ∧ ∃ p ∈ points, BitSet.largestIndex ≤ p) := by
    rintro f ⟨_, p, hp, hle⟩
    exact absurd (h p hp) (not_lt.mpr hle)
  rcases (components_ends points g kinematic).exists_ok hnever with
    ⟨parts, hparts, hsep, hlinked, htraversed⟩
  refine ⟨_, ?_, merged_ofComponents hsep hlinked maxIslands, parts, htraversed, rfl⟩
  unfold compute
  rw [hparts]
  rfl

/-- Points of which two are joined, with a loop and an edge to a point that is not there. -/
def scattered : Points := [0, 1, 2, 5].foldl (fun points p => points.insert p) ∅

theorem scattered_merged : (∀ p ∈ scattered, p < BitSet.largestIndex) ∧
    ∃ p, compute scattered (.ofEdges [(2, 1), (0, 0), (1, 9)]) (· == 5) 2 = .ok p ∧
      p.Merged scattered (.ofEdges [(2, 1), (0, 0), (1, 9)]) 2 := by
  have hbound : ∀ p ∈ scattered, p < BitSet.largestIndex := by
    intro p hp
    have hall : ∀ p ∈ scattered.toList, p < BitSet.largestIndex := by decide +kernel
    exact hall p (Std.TreeSet.mem_toList.mpr hp)
  rcases compute_merged hbound (.ofEdges [(2, 1), (0, 0), (1, 9)]) (· == 5) 2 with
    ⟨p, hcompute, hmerged, _⟩
  exact ⟨hbound, p, hcompute, hmerged⟩

/-- No marks reach as far as the largest point. -/
theorem largest_not_computed :
    compute ((∅ : Points).insert BitSet.largestIndex) ∅ (fun _ => false) 1 =
      .error .lengthOverflow := by
  cbv

end Partition

end TetheredParticles
