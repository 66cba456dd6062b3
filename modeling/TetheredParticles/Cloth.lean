import TetheredParticles.Particle
import TetheredParticles.Graph
/-!
# Cloth

A rectangular cloth of particles in the plane of the first and the third axis. The first row is
anchored, every other particle has the inverse mass one, and neighbors are listed to the right and
in the next row.
-/

namespace TetheredParticles

/-- The measures of a cloth. -/
structure Cloth (S : Type) where
  width : Nat
  depth : Nat
  spacing : S
  offset : Vec3 S

namespace Cloth

variable {S : Type}

/-- The places of a cloth, row by row, as row and column. -/
def cells (c : Cloth S) : List (Nat × Nat) :=
  (List.range c.depth).flatMap fun row => (List.range c.width).map fun column => (row, column)

/-- The particle at a place. -/
def particleAt [Scalar S] (c : Cloth S) (row column : Nat) : Particle S :=
  let corner : Vec3 S :=
    ⟨Scalar.ofCount (UInt32.ofNat column), 0, Scalar.ofCount (UInt32.ofNat row)⟩
  .dynamic (corner * c.spacing + c.offset) (if row = 0 then 0 else 1)

/-- The particles, row by row. -/
def particles [Scalar S] (c : Cloth S) : List (Particle S) :=
  c.cells.map fun (row, column) => c.particleAt row column

/-- The particles to the right of a place and in the row after it. -/
def neighborsOf (c : Cloth S) (row column : Nat) : List Nat :=
  let index := row * c.width + column
  (if column + 1 < c.width then [index + 1] else []) ++
    (if row + 1 < c.depth then [index + c.width] else [])

/-- Who neighbors whom; every particle is listed. -/
def adjacency (c : Cloth S) : Graph :=
  .ofLists (c.cells.map fun (row, column) => (row * c.width + column, c.neighborsOf row column))

end Cloth

end TetheredParticles
