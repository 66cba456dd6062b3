import TetheredParticles.Tether
import TetheredParticles.Tether.Geodesic
import TetheredParticles.Graph.Islands
import TetheredParticles.Config
/-!
# Laying out tethers

Every point that can move is tethered to the nearest anchored point, measured along the graph or
along the straight line within its island. Of several nearest anchors the lowest one holds the
tether; a point without any gets none.

* `straightAnchor` — the nearest of a list of anchors along the straight line.
* `TetherLayout.build` — the islands of the points and one tether for each point that reaches an
  anchor, island by island and in ascending order.
-/

namespace TetheredParticles

/-- The islands of a set of points and the tethers laid over them. -/
structure TetherLayout (S : Type) where
  partition : Partition
  /-- At most one tether for each point that can move. -/
  tethers : List (Tether S)

namespace TetherLayout

variable {S : Type} [Scalar S]

/-- The nearer of two anchors; the earlier one stays unless the later one is strictly nearer. -/
def nearer (best : Reached S) (anchor : Nat) (squared : S) : Reached S :=
  match best with
  | none => some (anchor, squared)
  | some (_, d) => if squared < d then some (anchor, squared) else best

/-- The first of the nearest anchors along the straight line, and its distance. -/
def straightAnchor (positions : Array (Vec3 S)) (anchors : List Nat) (point : Nat) : Reached S :=
  let best := anchors.foldl
    (fun best a => nearer best a
      ((positions.getD a 0).distanceSquared (positions.getD point 0))) none
  best.map fun (anchor, squared) => (anchor, Scalar.sqrt squared)

/-- The tethers of one island, given the nearest anchor of each point. -/
def tethersOf (anchored : Nat → Bool) (anchorOf : Nat → Reached S) (scale : S)
    (island : List Nat) : List (Tether S) :=
  (island.filter (!anchored ·)).filterMap fun point =>
    (anchorOf point).map fun (anchor, length) => ⟨anchor, point, length * scale⟩

/-- Whether the particle at an index is anchored. -/
def anchoredAt (inverseMasses : Array S) (index : Nat) : Bool :=
  match inverseMasses[index]? with
  | some w => w == 0
  | none => false

/-- Partitions the points `0, 1, …` into islands and tethers each that can move. -/
def build (positions : Array (Vec3 S)) (inverseMasses : Array S) (g : Graph) (maxIslands : Nat)
    (mode : TetherMode) (scale : S) : Except Fault (TetherLayout S) := do
  unless positions.size == inverseMasses.size do
    throw (.lengthMismatch positions.size inverseMasses.size)
  let points := Graph.firstPoints positions.size
  let anchored := anchoredAt inverseMasses
  let partition ← Partition.compute points g anchored maxIslands
  let tethers := match mode with
    | .euclidean => partition.islands.toList.flatMap fun island =>
      tethersOf anchored (straightAnchor positions (island.filter anchored)) scale island
    | .geodesic =>
      let best := Geodesic.search positions (g.symmetrize points) anchored
      partition.islands.toList.flatMap (tethersOf anchored (best.getD · none) scale)
  return { partition, tethers }

end TetherLayout

end TetheredParticles
