import Mathlib
import TetheredParticles.Proofs.Scalar.Order
import TetheredParticles.Proofs.Scalar.Exact
/-!
# Real scalars

Real numbers are scalars that never round, not even roots. What is said of lengths and directions then
holds as it does in geometry: a vector that is prolonged along its own direction keeps its direction, and
its length grows by as much.

* `LawfulOrder ℝ` — real numbers are ordered as scalars are.
* `Ideal.length_mul` — the length of a multiple.
* `Ideal.length_along`, `Ideal.directionAndLength_along` — vectors that are prolonged.
-/

namespace TetheredParticles

/-- The integer part of a real number on the side of zero. -/
noncomputable def Ideal.truncate (a : ℝ) : ℤ := if 0 ≤ a then ⌊a⌋ else ⌈a⌉

noncomputable instance : Scalar ℝ where
  zero := 0
  one := 1
  decLt := fun a b => inferInstanceAs (Decidable (a < b))
  decLe := fun a b => inferInstanceAs (Decidable (a ≤ b))
  sqrt := Real.sqrt
  remainder := fun a b => a - b * Ideal.truncate (a / b)
  ofCount := fun n => (n.toNat : ℝ)
  floorCount := fun a => Exact.count ⌊a⌋
  ceilCount := fun a => Exact.count ⌈a⌉

instance : LawfulOrder ℝ where
  zero_beq_zero := beq_self_eq_true _
  le_trans _ _ _ hab hbc := le_trans hab hbc
  le_total a b _ _ := le_total a b
  isNumber_of_le _ _ _ := ⟨beq_self_eq_true _, beq_self_eq_true _⟩
  lt_iff _ _ := lt_iff_le_not_ge
  beq_iff _ _ := beq_iff_eq.trans le_antisymm_iff

namespace Ideal

variable {v w : Vec3 ℝ} {m : ℝ}

theorem epsilon_pos : (0 : ℝ) < Scalar.epsilon := by
  show (0 : ℝ) < 1 / ((8388608 : UInt32).toNat : ℝ)
  exact one_div_pos.mpr (Nat.cast_pos.mpr (by decide))

theorem eq_of_components (hx : v.x = w.x) (hy : v.y = w.y) (hz : v.z = w.z) : v = w := by
  cases v
  cases w
  exact Vec3.mk.injEq .. ▸ ⟨hx, hy, hz⟩

theorem add_zero_eq (v : Vec3 ℝ) : v + (0 : Vec3 ℝ) = v :=
  eq_of_components (add_zero _) (add_zero _) (add_zero _)

theorem mul_zero_eq (v : Vec3 ℝ) : v * (0 : ℝ) = 0 :=
  eq_of_components (mul_zero _) (mul_zero _) (mul_zero _)

theorem zero_mul_eq (k : ℝ) : (0 : Vec3 ℝ) * k = 0 :=
  eq_of_components (zero_mul _) (zero_mul _) (zero_mul _)

theorem maxNum_eq (a b : ℝ) : Scalar.maxNum a b = max a b := by
  have hb : Scalar.isNumber b = true := beq_self_eq_true b
  unfold Scalar.maxNum
  rw [if_pos hb]
  by_cases h : b < a
  · exact (if_pos h).trans (max_eq_left h.le).symm
  · exact (if_neg h).trans (max_eq_right (not_lt.mp h)).symm

/-! ## Lengths -/

theorem length_nonneg (v : Vec3 ℝ) : 0 ≤ v.length := Real.sqrt_nonneg _

theorem length_mul (v : Vec3 ℝ) (k : ℝ) : (v * k).length = |k| * v.length := by
  have hsquare : v.x * k * (v.x * k) + v.y * k * (v.y * k) + v.z * k * (v.z * k) =
      k ^ 2 * (v.x * v.x + v.y * v.y + v.z * v.z) := by ring
  show √(v.x * k * (v.x * k) + v.y * k * (v.y * k) + v.z * k * (v.z * k)) = _
  rw [hsquare, Real.sqrt_mul (sq_nonneg k), Real.sqrt_sq_eq_abs]
  rfl

@[simp]
theorem length_zero : (0 : Vec3 ℝ).length = 0 := by
  show √((0 : ℝ) * 0 + 0 * 0 + 0 * 0) = 0
  norm_num

/-! ## Directions -/

theorem directionAndLength_of_lt (h : Scalar.epsilon < v.length) :
    v.directionAndLength = (v / v.length, v.length) := by
  have hfinite : Scalar.isFinite v.length = true := beq_iff_eq.mpr (sub_self _)
  exact if_pos ⟨h, hfinite⟩

theorem directionAndLength_of_le (h : v.length ≤ Scalar.epsilon) : v.directionAndLength = (0, 0) :=
  if_neg fun husable => absurd husable.1 (not_lt.mpr h)

/-- A vector of some length has a direction. -/
theorem direction_ne_zero (h : 0 < v.length) : ¬ (v / v.length == 0) = true := by
  intro hzero
  have hdirection : v / v.length = 0 := by
    have hcomponents := Bool.and_eq_true_iff.mp hzero
    rcases Bool.and_eq_true_iff.mp hcomponents.1 with ⟨hx, hy⟩
    exact eq_of_components (beq_iff_eq.mp hx) (beq_iff_eq.mp hy) (beq_iff_eq.mp hcomponents.2)
  have hv : v = v / v.length * v.length := eq_of_components (div_mul_cancel₀ _ h.ne').symm
    (div_mul_cancel₀ _ h.ne').symm (div_mul_cancel₀ _ h.ne').symm
  -- a multiple of no direction has no length
  have hlength : v.length = 0 := by
    rw [hv, hdirection, length_mul, length_zero, mul_zero]
  exact h.ne' hlength

/-- A vector that is prolonged is a multiple of itself. -/
theorem along_eq (v : Vec3 ℝ) (m : ℝ) : v + v / v.length * m = v * (1 + m / v.length) := by
  have hcomponent : ∀ a : ℝ, a + a / v.length * m = a * (1 + m / v.length) := fun a => by ring
  exact eq_of_components (hcomponent _) (hcomponent _) (hcomponent _)

/-- The length grows by as much as a vector is prolonged, or shrinks as long as something is left. -/
theorem length_along (h : 0 < v.length) (hm : 0 ≤ v.length + m) :
    (v + v / v.length * m).length = v.length + m := by
  have hfactor : 1 + m / v.length = (v.length + m) / v.length := by
    rw [add_div, div_self h.ne']
  rw [along_eq, length_mul, hfactor, abs_of_nonneg (div_nonneg hm h.le), div_mul_cancel₀ _ h.ne']

/-- What is left of a vector has the same direction. -/
theorem directionAndLength_along (h : Scalar.epsilon < v.length) (hm : Scalar.epsilon < v.length + m) :
    (v + v / v.length * m).directionAndLength = (v / v.length, v.length + m) := by
  have hpos := epsilon_pos.trans h
  have hleft := epsilon_pos.trans hm
  have hlength := length_along hpos hleft.le
  have hcomponent : ∀ a : ℝ, a * (1 + m / v.length) / (v.length + m) = a / v.length := fun a => by
    have hne := hpos.ne'
    have hne' := hleft.ne'
    field_simp
  rw [directionAndLength_of_lt (by rw [hlength]; exact hm), hlength, along_eq]
  exact congrArg (·, _) (eq_of_components (hcomponent _) (hcomponent _) (hcomponent _))

end Ideal

end TetheredParticles
