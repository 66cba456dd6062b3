import TetheredParticles.Scalar.Binary
/-!
# Laws of scalars

Scalars are not required to satisfy any law. What theorems need is collected in classes that exact
and rounded arithmetic alike are instances of.

* `LawfulZero` — zero is a number.
* `Scalar.maxNum_zero` — a value cut off at zero is zero or positive, whatever it was.
-/

namespace TetheredParticles

/-- Zero equals itself. -/
class LawfulZero (S : Type) [Scalar S] : Prop where
  zero_beq_zero : ((0 : S) == 0) = true

instance : LawfulZero Float32 := ⟨by decide⟩

instance : LawfulZero Float := ⟨by decide⟩

/-- A value cut off at zero equals zero or is positive, even if it was no number before. -/
theorem Scalar.maxNum_zero {S : Type} [Scalar S] [LawfulZero S] (a : S) :
    (Scalar.maxNum a 0 == 0) = true ∨ 0 < Scalar.maxNum a 0 := by
  have hzero : isNumber (0 : S) = true := LawfulZero.zero_beq_zero
  unfold maxNum
  by_cases h : 0 < a
  · rw [if_pos h]
    exact .inr h
  · rw [if_neg h, if_pos hzero]
    exact .inl hzero

end TetheredParticles
