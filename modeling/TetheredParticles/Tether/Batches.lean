import TetheredParticles.Tether
/-!
# Batches of tethers

Tethers that end at the same particle disturb each other, others do not. Tethers are therefore
grouped into batches in which no two end at the same particle: each goes into the first batch that
has no tether with its tip. A set of batches shares one stiffness.

* `Tether.place`, `Tether.batches` — the grouping.
* `TetherBatches.tethers`, `TetherBatches.ranges` — the tethers batch by batch, and which range
  of them each batch covers.
-/

namespace TetheredParticles

/-- Puts a tether behind the others of the first batch in which no tether has its tip. -/
def Tether.place {S : Type} (t : Tether S) : List (List (Tether S)) → List (List (Tether S))
  | [] => [[t]]
  | batch :: rest =>
    if batch.any (·.tip == t.tip) then batch :: t.place rest else (batch ++ [t]) :: rest

/-- Groups tethers into batches with unique tips, keeping their order. -/
def Tether.batches {S : Type} (tethers : List (Tether S)) : List (List (Tether S)) :=
  tethers.foldl (fun batches t => t.place batches) []

/-- Batches of tethers with a common stiffness. -/
structure TetherBatches (S : Type) where
  batches : List (List (Tether S))
  /-- A number in `[0, 1]`, or no number. -/
  stiffness : S
deriving Repr

namespace TetherBatches

variable {S : Type} [Scalar S]

/-- The batches without tethers. -/
def empty (S : Type) [Scalar S] : TetherBatches S := ⟨[], 0⟩

/-- Groups tethers; the stiffness is moved into `[0, 1]`. -/
def ofTethers (tethers : List (Tether S)) (stiffness : S) : TetherBatches S :=
  ⟨Tether.batches tethers, Scalar.clamp stiffness 0 1⟩

/-- The tethers, batch by batch. -/
def tethers (b : TetherBatches S) : List (Tether S) := b.batches.flatten

/-- How many tethers there are. -/
def size (b : TetherBatches S) : Nat := b.tethers.length

/-- Whether there are no tethers. -/
def isEmpty (b : TetherBatches S) : Bool := b.tethers.isEmpty

/-- Consecutive ranges of the given lengths, from `start` on. -/
def consecutive (start : Nat) : List Nat → List (Nat × Nat)
  | [] => []
  | length :: rest => (start, start + length) :: consecutive (start + length) rest

/-- The range of `tethers` that each batch covers. -/
def ranges (b : TetherBatches S) : List (Nat × Nat) := consecutive 0 (b.batches.map List.length)

/-- The same batches with another stiffness, moved into `[0, 1]`. -/
def withStiffness (b : TetherBatches S) (stiffness : S) : TetherBatches S :=
  { b with stiffness := Scalar.clamp stiffness 0 1 }

end TetherBatches

end TetheredParticles
