import TetheredParticles.Graph
import TetheredParticles.BitSet
/-!
# Islands

Islands are sets of points that no edge connects with each other, so that each can be solved on
its own. They are the connected components of the neighbor graph; as long as there are more than
a bound allows, the two smallest are merged.

* `Sweep` — the breadth-first search that collects one component.
* `Partition.compute` — the components, merged down to the bound, ordered by their first point.
* `Partition.islandOf?` — the island of a point.

Which points are kinematic only decides where searches begin; the partition does not depend on
it.
-/

namespace TetheredParticles

/-- A breadth-first search on its way. -/
structure Sweep where
  /-- Points that were reached by this search or by an earlier one. -/
  visited : BitSet
  /-- Points reached by this search, latest first. -/
  component : List Nat
  /-- Points whose neighbors have not been looked at. -/
  queue : List Nat

namespace Sweep

/-- Puts a point into the component and into the queue, unless it was reached before. -/
def reach : Sweep → Nat → Except Fault Sweep
  | ⟨visited, component, queue⟩, point => do
    let (new, visited) ← visited.insert point
    return if new then ⟨visited, point :: component, queue ++ [point]⟩
      else ⟨visited, component, queue⟩

/-- Looks at the neighbors of queued points until the queue is empty. Every point is queued at
most once, which bounds the number of rounds. -/
def run (g : Graph) (s : Sweep) : Nat → Except Fault Sweep
  | 0 => .ok s
  | rounds + 1 =>
    match s.queue with
    | [] => .ok s
    | point :: rest => do
      let s ← (g.neighbors point).foldlM reach { s with queue := rest }
      run g s rounds

end Sweep

/-- Components collected by a series of searches. -/
structure Components where
  /-- Points that belong to a component. -/
  visited : BitSet
  /-- The components found so far, latest first, each in ascending order. -/
  found : List (List Nat)

/-- Starts a search at a point that no earlier search has reached. -/
def Components.seed (g : Graph) (rounds : Nat) : Components → Nat → Except Fault Components
  | ⟨visited, found⟩, seed => do
    let (new, visited) ← visited.insert seed
    if new then
      let s ← Sweep.run g { visited, component := [seed], queue := [seed] } rounds
      return ⟨s.visited, s.component.mergeSort :: found⟩
    else
      return ⟨visited, found⟩

/-- Sets of points that are solved independently of each other. -/
structure Partition where
  /-- The islands, ordered by their first point; each lists its points in ascending order. -/
  islands : Array (List Nat)
  /-- The island of each point. -/
  index : Std.TreeMap Nat Nat

namespace Partition

/-- The partition of no points. -/
def empty : Partition := ⟨#[], ∅⟩

instance : Inhabited Partition := ⟨empty⟩

/-- How many islands there are. -/
def size (p : Partition) : Nat := p.islands.size

/-- Whether there is no island. -/
def isEmpty (p : Partition) : Bool := p.islands.isEmpty

/-- The island that holds a point. -/
def islandOf? (p : Partition) (point : Nat) : Option Nat := p.index[point]?

/-- Whether two points are in one island. -/
def sameIsland (p : Partition) (a b : Nat) : Bool :=
  match p.islandOf? a, p.islandOf? b with
  | some i, some j => i == j
  | _, _ => false

/-- Components are compared by size, then by their first point. -/
def smaller (a b : List Nat) : Bool :=
  a.length < b.length || (a.length == b.length && a.headD 0 ≤ b.headD 0)

/-- Merges the two smallest components until at most `bound` are left. -/
def mergeSmallest (bound : Nat) (components : List (List Nat)) : List (List Nat) :=
  if components.length ≤ bound then components
  else
    match h : components.mergeSort smaller with
    | a :: b :: rest => mergeSmallest bound (a.merge b :: rest)
    | _ => components
termination_by components.length
decreasing_by
  have := congrArg List.length h
  simp at this
  simp; omega

/-- The islands numbered in order of their first points. -/
def ofComponents (components : List (List Nat)) : Partition :=
  let islands := components.mergeSort fun a b => a.headD 0 ≤ b.headD 0
  { islands := islands.toArray
    index := islands.zipIdx.foldl
      (fun index (points, i) => points.foldl (fun index p => index.insert p i) index) ∅ }

/-- The connected components of the points; searches start at kinematic points first. The marks
reach up to the largest point. -/
def components (points : Points) (g : Graph) (kinematic : Nat → Bool) :
    Except Fault (List (List Nat)) := do
  let some last := points.max? | return []
  let seeds := points.toList.filter kinematic ++ points.toList.filter (!kinematic ·)
  let c ← seeds.foldlM (Components.seed (g.symmetrize points) points.size)
    { visited := ← BitSet.covering last, found := [] }
  return c.found

/-- Partitions points into at most `maxIslands` islands, but at least one if there are points. -/
def compute (points : Points) (g : Graph) (kinematic : Nat → Bool) (maxIslands : Nat) :
    Except Fault Partition := do
  let found ← components points g kinematic
  return ofComponents (mergeSmallest (max maxIslands 1) found)

end Partition

end TetheredParticles
