import Mathlib.Algebra.Order.Field.Rat
import TetheredParticles.Proofs.Vec3
/-!
# Exact scalars

Rational numbers are scalars that never round, but for roots. A velocity of zero then tells that
nothing has moved, however long the step was.

* `Exact.sqrt`, `Exact.truncate`, `Exact.count` — what rational numbers have no operation for.
* `LawfulRest Rat` — who has moved has a velocity.
-/

namespace TetheredParticles

namespace Exact

/-- The root of a number, rounded down to a multiple of what the number is a multiple of. A square
has its exact root. -/
def sqrt (a : Rat) : Rat := (Nat.sqrt (a.num.toNat * a.den) : Rat) / a.den

/-- The integer nearest to a number on the side of zero. -/
def truncate (a : Rat) : Int := if 0 ≤ a then a.floor else a.ceil

/-- The count nearest to an integer. -/
def count (n : Int) : UInt32 := .ofNat (min n.toNat (UInt32.size - 1))

end Exact

instance : Scalar Rat where
  zero := 0
  one := 1
  decLt := fun a b => inferInstanceAs (Decidable (a < b))
  decLe := fun a b => inferInstanceAs (Decidable (a ≤ b))
  sqrt := Exact.sqrt
  remainder := fun a b => a - b * Exact.truncate (a / b)
  ofCount := fun n => (n.toNat : Rat)
  floorCount := fun a => Exact.count a.floor
  ceilCount := fun a => Exact.count a.ceil

instance : Timeline Rat Rat where
  widen := id
  narrow := id

instance : LawfulZero Rat := ⟨by decide⟩

/-- A quotient is zero only if the two numbers are one. -/
theorem Exact.eq_of_sub_div {a b dt : Rat} (hdt : 0 < dt) (h : ((b - a) / dt == 0) = true) :
    a = b := by
  have hzero : (b - a) / dt = 0 := beq_iff_eq.mp h
  rcases div_eq_zero_iff.mp hzero with hsub | hdt'
  · exact (sub_eq_zero.mp hsub).symm
  · exact absurd hdt' hdt.ne'

instance : LawfulRest Rat where
  rest before after dt hdt h := by
    unfold Integration.meanVelocity at h
    rw [if_pos hdt] at h
    have hcomponents := Bool.and_eq_true_iff.mp h
    rcases Bool.and_eq_true_iff.mp hcomponents.1 with ⟨hx, hy⟩
    exact ⟨.inl (Exact.eq_of_sub_div hdt hx), .inl (Exact.eq_of_sub_div hdt hy),
      .inl (Exact.eq_of_sub_div hdt hcomponents.2)⟩

end TetheredParticles
