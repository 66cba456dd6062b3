import TetheredParticles.Vec3
import TetheredParticles.Graph
/-!
# Distances along a graph

A search from all anchored points at once finds for every other point the nearest anchor,
measured along edges. The frontier lists reached points by distance, then by anchor, then by
point; its first entry is expanded unless the point has been reached on a better way since.
Anchored points are never entered.

* `Frontier.before`, `Geodesic.insert` — the order of the frontier.
* `Geodesic.improves` — when a way is better than the one known.
* `Geodesic.step`, `Geodesic.run` — one expansion, and all of them.
-/

namespace TetheredParticles

/-- A point reached from an anchor on a way of some length, waiting to be expanded. -/
structure Frontier (S : Type) where
  distance : S
  anchor : Nat
  point : Nat
deriving Repr

/-- Whether an entry is expanded no later than another one. Distances that are no number come
first; their entries are never expanded further. -/
def Frontier.before {S : Type} [Scalar S] (a b : Frontier S) : Bool :=
  !Scalar.isNumber a.distance || a.distance < b.distance ||
    (a.distance == b.distance &&
      (a.anchor < b.anchor || (a.anchor == b.anchor && a.point ≤ b.point)))

/-- The nearest anchor of a point and the way's length. -/
abbrev Reached (S : Type) := Option (Nat × S)

/-- A search on its way. -/
structure Geodesic (S : Type) where
  /-- The best way known to each point. -/
  best : Array (Reached S)
  /-- The points to be expanded, in order. -/
  frontier : List (Frontier S)

namespace Geodesic

variable {S : Type} [Scalar S]

/-- Puts an entry into an ordered frontier. -/
def insert (entry : Frontier S) : List (Frontier S) → List (Frontier S)
  | [] => [entry]
  | e :: rest => if entry.before e then entry :: e :: rest else e :: insert entry rest

/-- A way is better than the one known if it is shorter, or as long and from a lower anchor. -/
def improves (anchor : Nat) (distance : S) : Reached S → Bool
  | none => true
  | some (knownAnchor, known) =>
    distance < known || (distance == known && anchor < knownAnchor)

/-- Whether an entry is still the best way to its point. -/
def isCurrent (entry : Frontier S) : Reached S → Bool
  | none => false
  | some (anchor, distance) => anchor == entry.anchor && distance == entry.distance

/-- Records a way to a point. -/
def reach (s : Geodesic S) (entry : Frontier S) : Geodesic S :=
  { best := s.best.setIfInBounds entry.point (some (entry.anchor, entry.distance))
    frontier := insert entry s.frontier }

/-- Every anchor is its own nearest one. -/
def start (count : Nat) (anchored : Nat → Bool) : Geodesic S :=
  ((List.range count).filter anchored).foldl (fun s p => s.reach ⟨0, p, p⟩)
    ⟨Array.replicate count none, []⟩

/-- Follows an edge from a point that is being expanded. -/
def follow (positions : Array (Vec3 S)) (anchored : Nat → Bool) (entry : Frontier S)
    (s : Geodesic S) (neighbor : Nat) : Geodesic S :=
  if anchored neighbor then s
  else
    let edge := (positions.getD entry.point 0).distance (positions.getD neighbor 0)
    let distance := entry.distance + edge
    if improves entry.anchor distance (s.best.getD neighbor none) then
      s.reach ⟨distance, entry.anchor, neighbor⟩
    else s

/-- Takes the first entry of the frontier and expands it if it is current. -/
def step (positions : Array (Vec3 S)) (g : Graph) (anchored : Nat → Bool) (s : Geodesic S) :
    Geodesic S :=
  match s.frontier with
  | [] => s
  | entry :: rest =>
    let s := { s with frontier := rest }
    if isCurrent entry (s.best.getD entry.point none) then
      (g.neighbors entry.point).foldl (follow positions anchored entry) s
    else s

/-- Expands entries until the frontier is empty, at most `rounds` of them. -/
def run (positions : Array (Vec3 S)) (g : Graph) (anchored : Nat → Bool) (s : Geodesic S) :
    Nat → Geodesic S
  | 0 => s
  | rounds + 1 =>
    if s.frontier.isEmpty then s else (s.step positions g anchored).run positions g anchored rounds

/-- How many entries a search expands at most: one for each anchor, and one for each edge leaving
a point, which is followed when the point is expanded for the only time. -/
def rounds (count : Nat) (g : Graph) : Nat := count + g.edges.length

/-- For every point the nearest anchor along the graph, and the distance. -/
def search (positions : Array (Vec3 S)) (g : Graph) (anchored : Nat → Bool) :
    Array (Reached S) :=
  ((start positions.size anchored).run positions g anchored (rounds positions.size g)).best

end Geodesic

end TetheredParticles
