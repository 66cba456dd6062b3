import Mathlib.Data.List.Basic
import TetheredParticles.Graph
import TetheredParticles.Proofs.Maps
/-!
# Edges of a neighbor graph

A graph is read through `Graph.neighbors`. An edge may be listed at either end; two points are
`Joined` within a set of points if one of them lists the other. The symmetrized graph lists
exactly the joined points.

* `Graph.mem_edges`, `Graph.mem_neighbors_ofEdges` — lists of edges and lists of neighbors.
* `Graph.mem_neighbors_symmetrize` — the symmetrized graph.
-/

namespace TetheredParticles.Graph

/-! ## Lists of neighbors -/

theorem mem_neighbors {g : Graph} {a b : Nat} : b ∈ g.neighbors a ↔ b ∈ g.getD a ∅ := by
  unfold neighbors
  rw [Std.TreeSet.mem_toList]

theorem neighbors_ascending (g : Graph) (a : Nat) : (g.neighbors a).Pairwise (· < ·) :=
  Std.TreeSet.ordered_toList.imp Nat.compare_eq_lt.mp

/-- The edges are the pairs of a point and one of its neighbors. -/
theorem mem_edges {g : Graph} {a b : Nat} : (a, b) ∈ g.edges ↔ b ∈ g.neighbors a := by
  rw [mem_neighbors]
  unfold edges
  rw [List.mem_flatMap]
  constructor
  · rintro ⟨⟨c, bs⟩, hc, hb⟩
    rw [Std.TreeMap.mem_toList_iff_getElem?_eq_some] at hc
    simp only [List.mem_map, Prod.mk.injEq] at hb
    obtain ⟨d, hd, rfl, rfl⟩ := hb
    rw [Std.TreeMap.getD_eq_getD_getElem?, hc]
    exact Std.TreeSet.mem_toList.mp hd
  · intro hb
    rw [Std.TreeMap.getD_eq_getD_getElem?] at hb
    cases hg : g[a]? with
    | none =>
      rw [hg] at hb
      exact absurd hb Std.TreeSet.not_mem_emptyc
    | some bs =>
      rw [hg] at hb
      refine ⟨(a, bs), Std.TreeMap.mem_toList_iff_getElem?_eq_some.mpr hg, ?_⟩
      exact List.mem_map.mpr ⟨b, Std.TreeSet.mem_toList.mpr hb, rfl⟩

@[simp]
theorem mem_neighbors_addNeighbor {g : Graph} {a b x y : Nat} :
    y ∈ (g.addNeighbor a b).neighbors x ↔ (x = a ∧ y = b) ∨ y ∈ g.neighbors x := by
  rw [mem_neighbors, mem_neighbors]
  unfold addNeighbor
  rw [Std.TreeMap.getD_insert]
  by_cases hx : a = x
  · subst hx
    rw [if_pos (by simp), Std.TreeSet.mem_insert, Nat.compare_eq_eq]
    simp only [true_and, eq_comm]
  · rw [if_neg (by simpa using hx)]
    simp [Ne.symm hx]

/-- The edges of a list are listed at their first ends. -/
@[simp]
theorem mem_neighbors_ofEdges {edges : List (Nat × Nat)} {a b : Nat} :
    b ∈ (ofEdges edges).neighbors a ↔ (a, b) ∈ edges := by
  suffices h : ∀ (add : Graph → Nat × Nat → Graph), (∀ g c d, add g (c, d) = g.addNeighbor c d) →
      ∀ g : Graph, b ∈ (edges.foldl add g).neighbors a ↔
        (a, b) ∈ edges ∨ b ∈ g.neighbors a by
    have hempty : b ∉ neighbors ∅ a := by
      rw [mem_neighbors, Std.TreeMap.getD_emptyc]
      exact Std.TreeSet.not_mem_emptyc
    exact (h _ (fun _ _ _ => rfl) ∅).trans (or_iff_left hempty)
  intro add hadd
  induction edges with
  | nil => simp
  | cons e rest ih =>
    obtain ⟨c, d⟩ := e
    intro g
    rw [List.foldl_cons, ih, hadd, mem_neighbors_addNeighbor, List.mem_cons, Prod.mk.injEq]
    tauto

/-! ## Symmetrized graphs -/

/-- One of two different points of a set lists the other. -/
def Joined (points : Points) (g : Graph) (a b : Nat) : Prop :=
  a ≠ b ∧ a ∈ points ∧ b ∈ points ∧ (b ∈ g.neighbors a ∨ a ∈ g.neighbors b)

theorem Joined.symm {points : Points} {g : Graph} {a b : Nat} (h : Joined points g a b) :
    Joined points g b a :=
  ⟨h.1.symm, h.2.2.1, h.2.1, h.2.2.2.symm⟩

theorem neighbors_isolated (points : Points) (a : Nat) : (isolated points).neighbors a = [] := by
  suffices h : ∀ (l : List Nat) (g : Graph), g.neighbors a = [] →
      (l.foldl (fun g p => g.insert p ∅) g).neighbors a = [] by
    unfold isolated
    rw [Std.TreeSet.foldl_eq_foldl_toList]
    refine h _ ∅ ?_
    unfold neighbors
    rw [Std.TreeMap.getD_emptyc]
    rfl
  intro l
  induction l with
  | nil => exact fun _ hg => hg
  | cons p l ih =>
    intro g hg
    rw [List.foldl_cons]
    apply ih
    unfold neighbors at hg ⊢
    rw [Std.TreeMap.getD_insert]
    split
    · rfl
    · exact hg

theorem joins_iff {points : Points} {a b : Nat} :
    joins points (a, b) = true ↔ a ≠ b ∧ a ∈ points ∧ b ∈ points := by
  simp [joins, and_assoc]

/-- The symmetrized graph lists exactly the joined points. -/
@[simp]
theorem mem_neighbors_symmetrize {points : Points} {g : Graph} {a b : Nat} :
    b ∈ (g.symmetrize points).neighbors a ↔ Joined points g a b := by
  suffices h : ∀ (add : Graph → Nat × Nat → Graph),
      (∀ g c d, add g (c, d) = (g.addNeighbor c d).addNeighbor d c) →
      ∀ (edges : List (Nat × Nat)) (s : Graph), b ∈ (edges.foldl add s).neighbors a ↔
        (a, b) ∈ edges ∨ (b, a) ∈ edges ∨ b ∈ s.neighbors a by
    unfold symmetrize
    rw [h _ fun _ _ _ => rfl, neighbors_isolated, List.mem_filter, List.mem_filter, mem_edges, mem_edges, joins_iff,
      joins_iff]
    unfold Joined
    simp only [List.not_mem_nil, or_false, ne_eq, eq_comm (a := b) (b := a)]
    tauto
  intro add hadd edges
  induction edges with
  | nil => simp
  | cons e rest ih =>
    obtain ⟨c, d⟩ := e
    intro s
    rw [List.foldl_cons, ih, hadd, mem_neighbors_addNeighbor, mem_neighbors_addNeighbor, List.mem_cons,
      List.mem_cons, Prod.mk.injEq, Prod.mk.injEq]
    tauto

/-! ## Sets of points -/

@[simp]
theorem mem_firstPoints {count p : Nat} : p ∈ firstPoints count ↔ p < count := by
  unfold firstPoints
  rw [Maps.mem_foldl_insert, List.mem_range]
  exact or_iff_left Std.TreeSet.not_mem_emptyc

end TetheredParticles.Graph
