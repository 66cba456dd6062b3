import TetheredParticles.Proofs.Scalar.Exact
import TetheredParticles.Proofs.Scalar.Single
/-!
# Signs of scalars

A value that was cut off at zero is a number and not negative. That much holds of exact and of
rounded scalars.

* `LawfulSign` — what is not below zero.
* `Scalar.maxNum_nonneg`, `Scalar.isNumber_maxNum` — inverse masses as they are kept.
-/

namespace TetheredParticles

/-- What is zero or positive is not negative, and what is not negative is a number. -/
class LawfulSign (S : Type) [Scalar S] : Prop extends LawfulZero S where
  nonneg_of_zero : ∀ a : S, (a == 0) = true → 0 ≤ a
  nonneg_of_pos : ∀ a : S, 0 < a → 0 ≤ a
  isNumber_of_nonneg : ∀ a : S, 0 ≤ a → Scalar.isNumber a = true

namespace Scalar

variable {S : Type} [Scalar S] [LawfulSign S]

theorem zero_le_zero : (0 : S) ≤ 0 := LawfulSign.nonneg_of_zero 0 LawfulZero.zero_beq_zero

theorem maxNum_nonneg (a : S) : 0 ≤ maxNum a 0 := by
  rcases maxNum_zero a with hzero | hpos
  · exact LawfulSign.nonneg_of_zero _ hzero
  · exact LawfulSign.nonneg_of_pos _ hpos

omit [LawfulSign S] in
theorem minNum_nonneg {a b : S} (ha : 0 ≤ a) (hb : 0 ≤ b) : 0 ≤ minNum a b := by
  unfold minNum
  split
  · exact ha
  · split
    · exact hb
    · exact ha

theorem isNumber_maxNum (a : S) : isNumber (maxNum a 0) = true :=
  LawfulSign.isNumber_of_nonneg _ (maxNum_nonneg a)

end Scalar

instance : LawfulSign Rat where
  nonneg_of_zero _ h := ge_of_eq (beq_iff_eq.mp h)
  nonneg_of_pos _ h := le_of_lt h
  isNumber_of_nonneg _ _ := beq_self_eq_true _

namespace Single

open Float.Model Float.Model.UnpackedFloat

theorem nonneg_iff {a : Float32} :
    0 ≤ a ↔ ((UnpackedFloat.zero .positive).compare (unpack a)).any (·.isLE) = true := by
  show (decide ((UnpackedFloat.le _ _ : Bool) = true) = true) ↔ _
  rw [decide_eq_true_eq]
  rfl

theorem beq_iff {a b : Float32} :
    (a == b) = true ↔ (unpack a).compare (unpack b) = some .eq := by
  show (UnpackedFloat.beq _ _ : Bool) = true ↔ _
  unfold UnpackedFloat.beq
  exact beq_iff_eq

end Single

open Float.Model in
instance : LawfulSign Float32 where
  nonneg_of_zero a h := by
    replace h : (Single.unpack a).compare (.zero .positive) = some .eq := Single.beq_iff.mp h
    refine Single.nonneg_iff.mpr ?_
    cases hu : Single.unpack a with
    | zero s => rfl
    | notANumber =>
      rw [hu] at h
      cases h
    | infinity s =>
      rw [hu] at h
      cases s <;> cases h
    | finite s m e hm =>
      rw [hu] at h
      cases s <;> cases h
  nonneg_of_pos a h := by
    replace h : (UnpackedFloat.zero .positive).compare (Single.unpack a) = some .lt :=
      Single.lt_iff.mp h
    refine Single.nonneg_iff.mpr ?_
    rw [h]
    rfl
  isNumber_of_nonneg a h := by
    replace h := Single.nonneg_iff.mp h
    refine Single.beq_iff.mpr ?_
    cases hu : Single.unpack a with
    | notANumber =>
      rw [hu] at h
      cases h
    | infinity s => cases s <;> rfl
    | zero s => rfl
    | finite s m e hm =>
      have hself : (compare e e).then (compare m m) = .eq := by
        rw [Std.ReflOrd.compare_self, Std.ReflOrd.compare_self, Ordering.eq_then]
      cases s with
      | negative => exact congrArg (fun o => some o.swap) hself
      | positive => exact congrArg some hself

end TetheredParticles
