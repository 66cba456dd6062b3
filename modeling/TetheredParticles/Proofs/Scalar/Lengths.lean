import TetheredParticles.Proofs.Scalar.Sums
/-!
# Lengths

Lengths are roots, and lengths of ways are sums of them. What is known of both holds of exact and of
rounded scalars: a way does not get shorter by going on, and stays no longer than another one if both
go on by the same length. Distances of finite places are numbers, even where their squares overflow.

* `LawfulLengths` — the order of sums that are not negative.
* `LawfulDistances` — operands for which differences, squares and roots are numbers.
* `LawfulTerms`, `ExactSums` — what sums tell about their terms.
* `Vec3.distanceSquared_nonneg`, `Vec3.distance_nonneg` — distances are not negative.
-/

namespace TetheredParticles

/-- Roots are not negative, and sums of what is not negative are ordered as their terms are. -/
class LawfulLengths (S : Type) [Scalar S] : Prop extends LawfulOrder S where
  sqrt_nonneg : ∀ a : S, Scalar.isNumber (Scalar.sqrt a) = true → 0 ≤ Scalar.sqrt a
  le_add : ∀ a e : S, 0 ≤ a → 0 ≤ e → a ≤ a + e
  add_le_add : ∀ a b e : S, 0 ≤ a → a ≤ b → 0 ≤ e → a + e ≤ b + e

/-- Differences of what is finite, squares of numbers and roots of what is not negative are
numbers. -/
class LawfulDistances (S : Type) [Scalar S] : Prop extends LawfulLengths S where
  isNumber_sub : ∀ a b : S, Scalar.isFinite a = true → Scalar.isFinite b = true →
    Scalar.isNumber (a - b) = true
  mul_self_nonneg : ∀ a : S, Scalar.isNumber a = true → 0 ≤ a * a
  isNumber_sqrt : ∀ a : S, 0 ≤ a → Scalar.isNumber (Scalar.sqrt a) = true

/-- Sums with what is no number are no numbers. -/
class LawfulTerms (S : Type) [Scalar S] : Prop where
  isNumber_of_add : ∀ a b : S, Scalar.isNumber (a + b) = true → Scalar.isNumber b = true

/-- Sums of lengths are exact enough to tell which of two lengths had been the longer one. Rounded
sums are not: a length may be too short to make a difference. -/
class ExactSums (S : Type) [Scalar S] : Prop where
  /-- The same length can be taken off both sides again. -/
  le_of_add_le_add : ∀ a b e : S, 0 ≤ a → 0 ≤ b → 0 ≤ e → a + e ≤ b + e → a ≤ b

namespace Scalar

variable {S : Type} [Scalar S] [LawfulLengths S] {a b e : S}

theorem le_add (ha : 0 ≤ a) (he : 0 ≤ e) : a ≤ a + e := LawfulLengths.le_add a e ha he

theorem add_nonneg (ha : 0 ≤ a) (he : 0 ≤ e) : 0 ≤ a + e := le_trans ha (le_add ha he)

theorem add_le_add (ha : 0 ≤ a) (hab : a ≤ b) (he : 0 ≤ e) : a + e ≤ b + e :=
  LawfulLengths.add_le_add a b e ha hab he

end Scalar

namespace Vec3

variable {S : Type} [Scalar S] {v w : Vec3 S}

/-- All components are finite. -/
def IsFinite (v : Vec3 S) : Prop :=
  Scalar.isFinite v.x = true ∧ Scalar.isFinite v.y = true ∧ Scalar.isFinite v.z = true

instance (v : Vec3 S) : Decidable v.IsFinite := inferInstanceAs (Decidable (_ ∧ _ ∧ _))

theorem distance_nonneg [LawfulLengths S] (h : Scalar.isNumber (v.distance w) = true) :
    0 ≤ v.distance w := LawfulLengths.sqrt_nonneg _ h

variable [LawfulDistances S]

theorem distanceSquared_nonneg (hv : v.IsFinite) (hw : w.IsFinite) : 0 ≤ v.distanceSquared w := by
  have hsquare : ∀ a b : S, Scalar.isFinite a = true → Scalar.isFinite b = true →
      0 ≤ (a - b) * (a - b) := fun a b ha hb =>
    LawfulDistances.mul_self_nonneg _ (LawfulDistances.isNumber_sub a b ha hb)
  exact Scalar.add_nonneg (Scalar.add_nonneg (hsquare _ _ hv.1 hw.1) (hsquare _ _ hv.2.1 hw.2.1))
    (hsquare _ _ hv.2.2 hw.2.2)

theorem isNumber_distance (hv : v.IsFinite) (hw : w.IsFinite) :
    Scalar.isNumber (v.distance w) = true :=
  LawfulDistances.isNumber_sqrt _ (distanceSquared_nonneg hv hw)

end Vec3

/-! ## Exact scalars -/

theorem Exact.sqrt_nonneg (a : Rat) : 0 ≤ Exact.sqrt a :=
  div_nonneg (Nat.cast_nonneg _) (Nat.cast_nonneg _)

instance : LawfulDistances Rat where
  sqrt_nonneg a _ := Exact.sqrt_nonneg a
  le_add _ _ _ he := le_add_of_nonneg_right he
  add_le_add _ _ _ _ hab _ := add_le_add_left hab _
  isNumber_sub _ _ _ _ := beq_self_eq_true _
  mul_self_nonneg a _ := mul_self_nonneg a
  isNumber_sqrt _ _ := beq_self_eq_true _

instance : LawfulTerms Rat where
  isNumber_of_add _ _ _ := beq_self_eq_true _

instance : ExactSums Rat where
  le_of_add_le_add _ _ _ _ _ _ h := le_of_add_le_add_right h

/-! ## Single precision -/

namespace Single

open Float.Model Float.Model.UnpackedFloat

theorem isNonneg_sqrt {u : UnpackedFloat} (hu : IsNonneg u) :
    IsNonneg (UnpackedFloat.sqrt .binary32 u) := by
  match u, hu with
  | .infinity .positive, _ | .zero _, _ => trivial
  | .finite .positive .., _ => exact isNonneg_roundWithAccuracy _ _ _

/-- Only what is not negative has a root. -/
theorem isNonneg_of_sqrt {u : UnpackedFloat} (hu : UnpackedFloat.sqrt .binary32 u ≠ .notANumber) :
    IsNonneg u := by
  match u, hu with
  | .infinity .positive, _ | .zero _, _ | .finite .positive .., _ => trivial
  | .notANumber, hu | .infinity .negative, hu | .finite .negative .., hu => exact absurd rfl hu

theorem isNonneg_mul_self {u : UnpackedFloat} (hu : u ≠ .notANumber) :
    IsNonneg (UnpackedFloat.mul .binary32 u u) := by
  match u, hu with
  | .infinity s, _ | .zero s, _ => cases s <;> trivial
  | .finite s .., _ => cases s <;> exact isNonneg_roundWithAccuracy _ _ _

/-- What has been rounded is a number. -/
theorem round_ne_notANumber (s : Sign) (m : Nat) (e : Int) :
    UnpackedFloat.round .binary32 s m e ≠ .notANumber := by
  rw [round_eq_roundWithAccuracy s rfl]
  rcases roundWithAccuracy_cases s _ _ .exact with ⟨_, _, _, _, ⟨_, hzero⟩ | ⟨_, hfinite⟩⟩
  · rw [hzero]
    nofun
  · rw [hfinite]
    nofun

theorem sub_ne_notANumber {u v : UnpackedFloat} (hu : u.isFinite = true) (hv : v.isFinite = true) :
    UnpackedFloat.sub .binary32 u v ≠ .notANumber := by
  match u, v, hu, hv with
  | .zero s, .zero t, _, _ => cases s <;> cases t <;> nofun
  | .zero _, .finite .., _, _ | .finite .., .zero _, _, _ => nofun
  | .finite s m e _, .finite t n f _, _, _ =>
    show UnpackedFloat.normalize .binary32 _ _ _ ≠ .notANumber
    unfold UnpackedFloat.normalize
    split
    · exact round_ne_notANumber _ _ _
    · nofun
    · exact round_ne_notANumber _ _ _

/-- What is a number is read as one. -/
theorem reread_ne_notANumber {u : UnpackedFloat} : reread u ≠ .notANumber ↔ u ≠ .notANumber := by
  cases u with
  | notANumber => exact iff_of_false (fun h => h reread_notANumber) fun h => h rfl
  | infinity s =>
    rw [reread_infinity]
  | zero s =>
    rw [reread_zero]
  | finite s m e hm =>
    refine iff_of_true (fun hread => ?_) nofun
    rcases lt_or_ge 104 e with hhuge | hsmall
    · rw [reread_of_huge hm (by omega)] at hread
      cases hread
    · have hfinite := isFinite_reread (s := s) hm hsmall
      rw [hread] at hfinite
      cases hfinite

end Single

instance : LawfulTerms Float32 where
  isNumber_of_add a b h := by
    rw [Single.isNumber_iff, Single.unpack_add, Single.reread_ne_notANumber] at h
    rw [Single.isNumber_iff]
    intro hb
    rw [hb] at h
    cases hu : Single.unpack a <;> rw [hu] at h <;> exact h rfl

instance : LawfulDistances Float32 where
  sqrt_nonneg a h := by
    rw [Single.isNumber_iff, Single.unpack_sqrt, Single.reread_ne_notANumber] at h
    exact Single.nonneg_iff_isNonneg.mpr (Single.isNonneg_sqrt (Single.isNonneg_of_sqrt h)).reread
  le_add _ _ := Single.le_add
  add_le_add _ _ _ := Single.add_le_add
  isNumber_sub a b ha hb := by
    rw [Single.isNumber_iff, Single.unpack_sub, Single.reread_ne_notANumber]
    exact Single.sub_ne_notANumber (Single.isFinite_of_isFinite ha) (Single.isFinite_of_isFinite hb)
  mul_self_nonneg a ha := by
    rw [Single.isNumber_iff] at ha
    exact Single.nonneg_iff_isNonneg.mpr (Single.isNonneg_mul_self ha).reread
  isNumber_sqrt a ha := by
    have hsqrt : (0 : Float32) ≤ Scalar.sqrt a := Single.nonneg_iff_isNonneg.mpr
      (Single.isNonneg_sqrt (Single.nonneg_iff_isNonneg.mp ha)).reread
    exact (LawfulOrder.isNumber_of_le _ _ hsqrt).2

end TetheredParticles
