import Std.Data.TreeMap
import Std.Data.TreeSet
/-!
# Neighbor graphs

A graph over numbered points, given by the neighbors of each point. An edge may be listed at
either of its ends or at both.

* `Graph.edges` — the listed edges in order.
* `Graph.symmetrize` — the same edges listed at both ends, restricted to a set of points.
-/

namespace TetheredParticles

/-- The neighbors listed for each point. -/
abbrev Graph := Std.TreeMap Nat (Std.TreeSet Nat)

/-- A finite set of points. -/
abbrev Points := Std.TreeSet Nat

namespace Graph

/-- The neighbors listed for a point, ascending. -/
def neighbors (g : Graph) (point : Nat) : List Nat := (g.getD point ∅).toList

/-- The listed edges, ordered by their first and then by their second end. -/
def edges (g : Graph) : List (Nat × Nat) :=
  g.toList.flatMap fun (a, bs) => bs.toList.map (a, ·)

/-- The graph with a neighbor added to a point's list. -/
def addNeighbor (g : Graph) (a b : Nat) : Graph := g.insert a ((g.getD a ∅).insert b)

/-- The graph with lists of neighbors added; lists of one point are united. -/
def ofLists (lists : List (Nat × List Nat)) : Graph :=
  lists.foldl
    (fun g (a, bs) => g.insert a (bs.foldl (fun s b => s.insert b) (g.getD a ∅))) ∅

/-- The graph with the given edges, each listed at its first end. -/
def ofEdges (edges : List (Nat × Nat)) : Graph :=
  edges.foldl (fun g (a, b) => g.addNeighbor a b) ∅

/-- The graph without edges over a set of points. -/
def isolated (points : Points) : Graph := points.foldl (fun g p => g.insert p ∅) ∅

/-- Whether an edge joins two different points of a set. -/
def joins (points : Points) (edge : Nat × Nat) : Bool :=
  edge.1 != edge.2 && points.contains edge.1 && points.contains edge.2

/-- The edges between different points of a set, listed at both ends. Every point has a list. -/
def symmetrize (points : Points) (g : Graph) : Graph :=
  (g.edges.filter (joins points)).foldl
    (fun g (a, b) => (g.addNeighbor a b).addNeighbor b a) (isolated points)

/-- The points `0, 1, …, count - 1`. -/
def firstPoints (count : Nat) : Points :=
  (List.range count).foldl (fun s p => s.insert p) ∅

end Graph

end TetheredParticles
