import TetheredParticles.Proofs.Scalar.Anchors
/-!
# Numbers of both signs in single precision

Rounding is symmetric about zero: negation commutes with every operation that rounds, and turns the
order around. What is known of numbers that are not negative therefore holds of all finite numbers.
Sums and differences of finite numbers are the roundings of the exact ones, and are ordered as those
are; products and quotients have the sign of their factors.

* `Single.reread_neg`, `Single.compare_neg` — negation.
* `Single.SignedRounding`, `Single.SignedRounding.le` — the order of roundings.
* `Single.Number.add`, `Single.rounding_sub` — sums and differences are rounded ones.
* `Single.sub_nonneg_of_le`, `Single.sub_le_self`, `Single.le_add_of_nonneg` — their signs and bounds.
* `Single.mul_nonneg`, `Single.div_nonpos` — products and quotients.
-/

namespace TetheredParticles

open Float.Model Float.Model.UnpackedFloat

namespace Single

/-! ## Negation -/

theorem neg_neg_eq (u : UnpackedFloat) : u.neg.neg = u := by
  match u with
  | .notANumber => rfl
  | .infinity s | .zero s | .finite s .. => cases s <;> rfl

theorem neg_roundWithAccuracy (s : Sign) (m : Nat) (e : Int) (acc : Accuracy) :
    (roundWithAccuracy .binary32 s m e acc).neg = roundWithAccuracy .binary32 (-s) m e acc := by
  unfold roundWithAccuracy
  dsimp only
  split <;> rfl

theorem neg_unpack_packComponents (s : Sign) (e : BitVec 8) (m : BitVec 23) :
    (UnpackedFloat.unpack .binary32 (packComponents .binary32 s e m)).neg =
      .unpack .binary32 (packComponents .binary32 (-s) e m) := by
  unfold UnpackedFloat.unpack
  dsimp only
  simp only [unpackSign_packComponents, Sign.ofBitVec_toBitVec, unpackExponent_packComponents,
    unpackMantissa_packComponents]
  split
  · split <;> rfl
  · split
    · split <;> rfl
    · rfl

/-- The sign bit is read as it was written. -/
theorem reread_neg (u : UnpackedFloat) : reread u.neg = (reread u).neg := by
  cases u with
  | notANumber => rfl
  | infinity s => cases s <;> rfl
  | zero s => cases s <;> rfl
  | finite s m e hm =>
    show reread (.finite (-s) m e hm) = _
    rw [reread_finite, reread_finite]
    split
    · cases s <;> rfl
    · split <;> exact (neg_unpack_packComponents ..).symm

theorem swap_compare (m n : Nat) (e f : Int) :
    ((compare e f).then (compare m n)).swap = (compare f e).then (compare n m) := by
  rw [Ordering.swap_then, ← Std.OrientedOrd.eq_swap, ← Std.OrientedOrd.eq_swap]

/-- Negation turns the order around. -/
theorem compare_neg (u v : UnpackedFloat) : u.neg.compare v.neg = v.compare u := by
  match u, v with
  | .notANumber, .notANumber | .notANumber, .infinity _ | .notANumber, .zero _
  | .notANumber, .finite .. | .zero _, .notANumber | .finite .., .notANumber | .zero _, .zero _ => rfl
  | .infinity s, .notANumber | .infinity s, .zero _ | .zero _, .infinity s | .zero _, .finite s ..
  | .finite s .., .zero _ => cases s <;> rfl
  | .infinity s, .infinity t | .infinity s, .finite t .. | .finite t .., .infinity s =>
    cases s <;> cases t <;> rfl
  | .finite s m e _, .finite t n f _ =>
    cases s <;> cases t
    · exact congrArg some (swap_compare n m f e).symm
    · rfl
    · rfl
    · exact congrArg some (swap_compare m n e f)

variable {a b : Float32} {u v : UnpackedFloat}

theorem nonpos_iff : a ≤ 0 ↔ IsNonneg (unpack a).neg := by
  have hzero : unpack (0 : Float32) = .zero .positive := rfl
  rw [le_iff, hzero]
  match unpack a with
  | .notANumber => exact iff_of_false Bool.false_ne_true id
  | .zero _ => exact iff_of_true rfl trivial
  | .infinity s | .finite s .. =>
    cases s
    · exact iff_of_true rfl trivial
    · exact iff_of_false Bool.false_ne_true id

/-! ## The order of roundings -/

theorem IsRounding.isNonneg {q : Rat} (h : IsRounding u q) : IsNonneg u := by
  rcases h with ⟨_, _, _, _, _, hread⟩
  exact hread.isNonneg

theorem IsRounding.eq_zero (h : IsRounding u 0) : ∃ s, u = .zero s := by
  rcases h with ⟨x, g, r, hx, hzero, hread⟩
  -- zero is rounded to the multiple zero of whatever unit it is rounded to
  have hpow : (2 : Rat) ^ g ≠ 0 := by positivity
  have hx0 : x = 0 := (mul_eq_zero.mp hzero.symm).resolve_right hpow
  have hr : r = 0 := by
    have hle := hx.le
    rw [hx0] at hle
    have hle' : 2 * r ≤ 1 := by exact_mod_cast (by linarith : 2 * (r : Rat) ≤ 1)
    omega
  rcases hread with ⟨_, s, hs⟩ | ⟨n, f, hn, _, _, hvalue⟩
  · exact ⟨s, hs⟩
  · rw [hr, Nat.cast_zero, zero_mul] at hvalue
    have hpos : (0 : Rat) < n * 2 ^ f := by
      have hcast : (0 : Rat) < n := Nat.cast_pos.mpr hn
      positivity
    exact absurd hvalue hpos.ne

/-- A number is the rounding of a value, which may be negative. -/
def SignedRounding (u : UnpackedFloat) (q : Rat) : Prop :=
  0 ≤ q ∧ IsRounding u q ∨ q ≤ 0 ∧ IsRounding u.neg (-q)

/-- What is not positive does not exceed what is not negative. -/
theorem isLE_of_signs (hu : IsNonneg u.neg) (hv : IsNonneg v) : (u.compare v).any (·.isLE) = true := by
  match u, v, hu, hv with
  | .zero _, .zero _, _, _ | .zero _, .infinity .positive, _, _ | .zero _, .finite .positive .., _, _
  | .infinity .negative, .zero _, _, _ | .infinity .negative, .infinity .positive, _, _
  | .infinity .negative, .finite .positive .., _, _ | .finite .negative .., .zero _, _, _
  | .finite .negative .., .infinity .positive, _, _
  | .finite .negative .., .finite .positive .., _, _ => rfl

/-- Larger values have larger roundings. -/
theorem SignedRounding.le {p q : Rat} (hu : SignedRounding u p) (hv : SignedRounding v q)
    (hpq : p ≤ q) : (u.compare v).any (·.isLE) = true := by
  rcases hu with ⟨hp, hu⟩ | ⟨hp, hu⟩ <;> rcases hv with ⟨hq, hv⟩ | ⟨hq, hv⟩
  · exact hu.le hv hpq
  · -- both values are zero
    have hp0 : p = 0 := le_antisymm (hpq.trans hq) hp
    have hq0 : -q = 0 := by linarith
    rw [hp0] at hu
    rw [hq0] at hv
    rcases hu.eq_zero with ⟨s, rfl⟩
    refine isLE_of_signs trivial ?_
    rcases hv.eq_zero with ⟨t, ht⟩
    rw [← neg_neg_eq v, ht]
    trivial
  · exact isLE_of_signs hu.isNonneg hv.isNonneg
  · rw [← compare_neg]
    exact hv.le hu (neg_le_neg hpq)

/-! ## Finite numbers -/

/-- A finite number and its value. -/
def Number (u : UnpackedFloat) (q : Rat) : Prop :=
  (∃ s, u = .zero s) ∧ q = 0 ∨
    ∃ s m e h, u = .finite s m e h ∧ Fitted m e ∧ e ≤ 104 ∧ q = s.apply m * 2 ^ e

theorem number_of_isFinite (ha : (unpack a).isFinite = true) : Number (unpack a) (value a) := by
  rcases cases_of_isFinite ha with ⟨s, ha⟩ | ⟨s, m, e, hm, ha⟩
  · exact .inl ⟨⟨s, ha⟩, value_of_zero ha⟩
  · refine .inr ⟨s, m, e, hm, ha, fitted_of_unpack ha, (exponent_of_unpack ha).2, ?_⟩
    unfold value
    rw [ha]

theorem Number.neg {q : Rat} (h : Number u q) : Number u.neg (-q) := by
  rcases h with ⟨⟨s, rfl⟩, rfl⟩ | ⟨s, m, e, hm, rfl, hfitted, he, rfl⟩
  · exact .inl ⟨⟨-s, rfl⟩, neg_zero⟩
  · refine .inr ⟨-s, m, e, hm, rfl, hfitted, he, ?_⟩
    cases s
    · show -(((-m : Int) : Rat) * _) = ((m : Int) : Rat) * _
      push_cast
      ring
    · show -(((m : Int) : Rat) * _) = ((-m : Int) : Rat) * _
      push_cast
      ring

/-- Finite numbers are their own roundings. -/
theorem Number.rounding {q : Rat} (h : Number u q) : SignedRounding u q := by
  rcases h with ⟨⟨s, rfl⟩, rfl⟩ | ⟨s, m, e, hm, rfl, hfitted, he, rfl⟩
  · exact .inl ⟨le_rfl, isRounding_zero s⟩
  · have hround := isRounding_of_fitted hm hfitted he
    have hpos : (0 : Rat) ≤ m * 2 ^ e := by positivity
    have hcast : ((m : Int) : Rat) = m := Int.cast_natCast m
    cases s
    · have hvalue : (((-m : Int) : Rat) * 2 ^ e) = -(m * 2 ^ e) := by
        push_cast
        ring
      show SignedRounding _ (((-m : Int) : Rat) * 2 ^ e)
      rw [hvalue]
      refine .inr ⟨neg_nonpos.mpr hpos, ?_⟩
      rwa [neg_neg]
    · show SignedRounding _ (((m : Int) : Rat) * 2 ^ e)
      rw [hcast]
      exact .inl ⟨hpos, hround⟩

/-! ## Sums and differences -/

theorem sub_eq_add (u v : UnpackedFloat) :
    UnpackedFloat.sub .binary32 u v = UnpackedFloat.add .binary32 u v.neg := by
  match u, v with
  | .notANumber, _ => rfl
  | .infinity _, .notANumber | .zero _, .notANumber | .finite .., .notANumber => rfl
  | .infinity _, .infinity _ | .infinity _, .zero _ | .infinity _, .finite .. | .zero _, .infinity _
  | .finite .., .infinity _ | .zero _, .zero _ | .zero _, .finite .. | .finite .., .zero _ => rfl
  | .finite s m e _, .finite t n f _ =>
    show UnpackedFloat.normalize .binary32 (s.apply _ - t.apply _) _ _ =
      UnpackedFloat.normalize .binary32 (s.apply _ + (-t).apply _) _ _
    congr 1
    cases t
    · exact Int.sub_neg _ _
    · exact Int.sub_eq_add_neg

/-- What is normalized is rounded, with its sign. -/
theorem rounding_normalize (m e : Int) (s : Sign) :
    SignedRounding (reread (UnpackedFloat.normalize .binary32 m e s)) (m * 2 ^ e) := by
  have hpow : (0 : Rat) < 2 ^ e := by positivity
  unfold UnpackedFloat.normalize
  split
  case h_1 hlt =>
    have hneg : m < 0 := compare_lt_iff_lt.mp hlt
    have hcast : (((-m).toNat : Nat) : Rat) = -m := by
      have hnat : (((-m).toNat : Nat) : Int) = -m := Int.toNat_of_nonneg (by omega)
      exact_mod_cast hnat
    -- it is the opposite number that is rounded, and its sign is put in afterwards
    have hround := isRounding_round (by omega : 0 < (-m).toNat) e
    rw [hcast] at hround
    have hm : (m : Rat) ≤ 0 := by exact_mod_cast hneg.le
    refine .inr ⟨mul_nonpos_of_nonpos_of_nonneg hm hpow.le, ?_⟩
    rw [← reread_neg, UnpackedFloat.round, neg_roundWithAccuracy, ← neg_mul]
    exact hround
  case h_2 heq =>
    have hzero : m = 0 := compare_eq_iff_eq.mp heq
    rw [hzero, reread_zero, Int.cast_zero, zero_mul]
    exact .inl ⟨le_rfl, isRounding_zero s⟩
  case h_3 hgt =>
    have hpos : 0 < m := compare_gt_iff_gt.mp hgt
    have hcast : ((m.toNat : Nat) : Rat) = m := by
      have hnat : ((m.toNat : Nat) : Int) = m := Int.toNat_of_nonneg hpos.le
      exact_mod_cast hnat
    have hround := isRounding_round (by omega : 0 < m.toNat) e
    rw [hcast] at hround
    have hm : (0 : Rat) ≤ m := by exact_mod_cast hpos.le
    exact .inl ⟨mul_nonneg hm hpow.le, hround⟩

theorem Number.reread {q : Rat} (h : Number u q) : reread u = u := by
  rcases h with ⟨⟨s, rfl⟩, _⟩ | ⟨s, m, e, hm, rfl, hfitted, he, _⟩
  · exact reread_zero s
  · exact reread_of_fitted hm hfitted he

/-- A mantissa in a smaller unit. -/
theorem apply_shiftLeft (s : Sign) (m : Nat) {e g : Int} (h : g ≤ e) :
    ((s.apply (m <<< (e - g).toNat : Nat) : Int) : Rat) * 2 ^ g = s.apply m * 2 ^ e := by
  rw [zpow_eq h, Nat.shiftLeft_eq]
  cases s
  · show ((-((m * 2 ^ (e - g).toNat : Nat) : Int) : Int) : Rat) * _ = ((-(m : Int) : Int) : Rat) * _
    push_cast
    ring
  · show (((m * 2 ^ (e - g).toNat : Nat) : Int) : Rat) * _ = ((m : Int) : Rat) * _
    push_cast
    ring

/-- A sum of finite numbers is the rounding of the exact one. -/
theorem Number.add {p q : Rat} (hu : Number u p) (hv : Number v q) :
    SignedRounding (Single.reread (UnpackedFloat.add .binary32 u v)) (p + q) := by
  have hreadu := hu.reread
  have hreadv := hv.reread
  have hroundu := hu.rounding
  have hroundv := hv.rounding
  rcases hu with ⟨⟨s, rfl⟩, rfl⟩ | ⟨s, m, e, hm, rfl, _, _, rfl⟩
  · rw [zero_add]
    rcases hv with ⟨⟨t, rfl⟩, rfl⟩ | ⟨t, n, f, hn, rfl, _, _, rfl⟩
    · cases s <;> cases t <;> exact .inl ⟨le_rfl, isRounding_zero _⟩
    · show SignedRounding (Single.reread (.finite t n f hn)) _
      rwa [hreadv]
  · rcases hv with ⟨⟨t, rfl⟩, rfl⟩ | ⟨t, n, f, hn, rfl, _, _, rfl⟩
    · rw [add_zero]
      show SignedRounding (Single.reread (.finite s m e hm)) _
      rwa [hreadu]
    · -- both mantissas are written with the smaller exponent
      rw [← apply_shiftLeft s m (min_le_left e f), ← apply_shiftLeft t n (min_le_right e f), ← add_mul]
      have hround := rounding_normalize (s.apply (m <<< (e - min e f).toNat : Nat) +
        t.apply (n <<< (f - min e f).toNat : Nat)) (min e f) .positive
      push_cast at hround
      exact hround

theorem rounding_add (ha : (unpack a).isFinite = true) (hb : (unpack b).isFinite = true) :
    SignedRounding (unpack (a + b)) (value a + value b) :=
  unpack_add a b ▸ (number_of_isFinite ha).add (number_of_isFinite hb)

theorem rounding_sub (ha : (unpack a).isFinite = true) (hb : (unpack b).isFinite = true) :
    SignedRounding (unpack (a - b)) (value a - value b) := by
  rw [unpack_sub, sub_eq_add, sub_eq_add_neg]
  exact (number_of_isFinite ha).add (number_of_isFinite hb).neg

/-- The order of finite numbers is that of their values. -/
theorem Number.le {p q : Rat} (hu : Number u p) (hv : Number v q)
    (h : (u.compare v).any (·.isLE) = true) : p ≤ q := by
  rcases hu with ⟨⟨s, rfl⟩, rfl⟩ | ⟨s, m, e, hm, rfl, hfit, _, rfl⟩ <;>
    rcases hv with ⟨⟨t, rfl⟩, rfl⟩ | ⟨t, n, f, hn, rfl, hfit', _, rfl⟩
  · exact le_rfl
  · cases t
    · cases h
    · show (0 : Rat) ≤ ((n : Int) : Rat) * 2 ^ f
      positivity
  · cases s
    · show ((-(m : Int) : Int) : Rat) * 2 ^ e ≤ 0
      have hpos : (0 : Rat) ≤ m * 2 ^ e := by positivity
      push_cast
      linarith
    · cases h
  · -- the signs decide, unless they are the same
    cases s <;> cases t
    · have hle := (isLE_compare_iff hfit' hfit).mp (by rw [← swap_compare]; exact h)
      show ((-(m : Int) : Int) : Rat) * 2 ^ e ≤ ((-(n : Int) : Int) : Rat) * 2 ^ f
      push_cast
      linarith
    · show ((-(m : Int) : Int) : Rat) * 2 ^ e ≤ ((n : Int) : Rat) * 2 ^ f
      have hpos : (0 : Rat) ≤ m * 2 ^ e := by positivity
      have hpos' : (0 : Rat) ≤ n * 2 ^ f := by positivity
      push_cast
      linarith
    · cases h
    · have hle := (isLE_compare_iff hfit hfit').mp h
      show ((m : Int) : Rat) * 2 ^ e ≤ ((n : Int) : Rat) * 2 ^ f
      push_cast
      exact hle

theorem value_mono (ha : (unpack a).isFinite = true) (hb : (unpack b).isFinite = true) (h : a ≤ b) :
    value a ≤ value b :=
  (number_of_isFinite ha).le (number_of_isFinite hb) (le_iff.mp h)

theorem number_zero : Number (unpack 0) 0 := .inl ⟨⟨.positive, rfl⟩, rfl⟩

/-- The sign of a difference tells which number is larger. -/
theorem sub_nonneg_of_le (ha : (unpack a).isFinite = true) (hb : (unpack b).isFinite = true)
    (h : b ≤ a) : 0 ≤ a - b :=
  le_iff.mpr <| number_zero.rounding.le (rounding_sub ha hb) (by linarith [value_mono hb ha h])

theorem sub_nonpos_of_le (ha : (unpack a).isFinite = true) (hb : (unpack b).isFinite = true)
    (h : a ≤ b) : a - b ≤ 0 :=
  le_iff.mpr <| (rounding_sub ha hb).le number_zero.rounding (by linarith [value_mono ha hb h])

/-- Taking off what is not negative gives no more. -/
theorem sub_le_self (ha : (unpack a).isFinite = true) (hb : (unpack b).isFinite = true) (h : 0 ≤ b) :
    a - b ≤ a := by
  have hvalue := number_zero.le (number_of_isFinite hb) (le_iff.mp h)
  exact le_iff.mpr <| (rounding_sub ha hb).le (number_of_isFinite ha).rounding (by linarith)

/-- Adding what is not negative gives no less. -/
theorem le_add_of_nonneg (ha : (unpack a).isFinite = true) (hb : (unpack b).isFinite = true)
    (h : 0 ≤ b) : a ≤ a + b := by
  have hvalue := number_zero.le (number_of_isFinite hb) (le_iff.mp h)
  exact le_iff.mpr <| (number_of_isFinite ha).rounding.le (rounding_add ha hb) (by linarith)

theorem add_le_of_nonpos (ha : (unpack a).isFinite = true) (hb : (unpack b).isFinite = true)
    (h : b ≤ 0) : a + b ≤ a := by
  have hvalue := (number_of_isFinite hb).le number_zero (le_iff.mp h)
  exact le_iff.mpr <| (rounding_add ha hb).le (number_of_isFinite ha).rounding (by linarith)

/-! ## Products and quotients -/

theorem isFinite_neg (u : UnpackedFloat) : u.neg.isFinite = u.isFinite := by
  cases u <;> rfl

theorem mul_neg_left (u v : UnpackedFloat) :
    UnpackedFloat.mul .binary32 u.neg v = (UnpackedFloat.mul .binary32 u v).neg := by
  match u, v with
  | .notANumber, _ | .infinity _, .notANumber | .zero _, .notANumber | .finite .., .notANumber
  | .infinity _, .zero _ | .zero _, .infinity _ => rfl
  | .infinity s, .infinity t | .infinity s, .finite t .. | .finite s .., .infinity t
  | .zero s, .zero t | .zero s, .finite t .. | .finite s .., .zero t => cases s <;> cases t <;> rfl
  | .finite s m e _, .finite t n f _ =>
    show roundWithAccuracy .binary32 (-s * t) (m * n) (e + f) .exact =
      (roundWithAccuracy .binary32 (s * t) (m * n) (e + f) .exact).neg
    rw [neg_roundWithAccuracy]
    cases s <;> cases t <;> rfl

theorem mul_neg_right (u v : UnpackedFloat) :
    UnpackedFloat.mul .binary32 u v.neg = (UnpackedFloat.mul .binary32 u v).neg := by
  match u, v with
  | .notANumber, _ | .infinity _, .notANumber | .zero _, .notANumber | .finite .., .notANumber
  | .infinity _, .zero _ | .zero _, .infinity _ => rfl
  | .infinity s, .infinity t | .infinity s, .finite t .. | .finite s .., .infinity t
  | .zero s, .zero t | .zero s, .finite t .. | .finite s .., .zero t => cases s <;> cases t <;> rfl
  | .finite s m e _, .finite t n f _ =>
    show roundWithAccuracy .binary32 (s * -t) (m * n) (e + f) .exact =
      (roundWithAccuracy .binary32 (s * t) (m * n) (e + f) .exact).neg
    rw [neg_roundWithAccuracy]
    cases s <;> cases t <;> rfl

theorem div_neg_left (u v : UnpackedFloat) :
    UnpackedFloat.div .binary32 u.neg v = (UnpackedFloat.div .binary32 u v).neg := by
  match u, v with
  | .notANumber, _ | .infinity _, .notANumber | .zero _, .notANumber | .finite .., .notANumber
  | .infinity _, .infinity _ | .zero _, .zero _ => rfl
  | .infinity s, .zero t | .infinity s, .finite t .. | .finite s .., .infinity t
  | .zero s, .infinity t | .zero s, .finite t .. | .finite s .., .zero t =>
    cases s <;> cases t <;> rfl
  | .finite s m e _, .finite t n f _ =>
    show roundWithAccuracy .binary32 (-s / t) _ _ _ = (roundWithAccuracy .binary32 (s / t) _ _ _).neg
    rw [neg_roundWithAccuracy]
    cases s <;> cases t <;> rfl

theorem isNonneg_mul (hu : IsNonneg u) (hv : IsNonneg v) (hfu : u.isFinite = true)
    (hfv : v.isFinite = true) : IsNonneg (UnpackedFloat.mul .binary32 u v) := by
  match u, v, hu, hv, hfu, hfv with
  | .zero _, .zero _, _, _, _, _ | .zero _, .finite .positive .., _, _, _, _
  | .finite .positive .., .zero _, _, _, _, _ => trivial
  | .finite .positive .., .finite .positive .., _, _, _, _ => exact isNonneg_roundWithAccuracy ..

section

variable (ha : (unpack a).isFinite = true) (hb : (unpack b).isFinite = true)

include ha hb

theorem mul_nonneg (hapos : 0 ≤ a) (hbpos : 0 ≤ b) : 0 ≤ a * b := by
  rw [nonneg_iff_isNonneg] at hapos hbpos ⊢
  rw [unpack_mul]
  exact (isNonneg_mul hapos hbpos ha hb).reread

theorem mul_nonpos_of_nonpos_left (haneg : a ≤ 0) (hbpos : 0 ≤ b) : a * b ≤ 0 := by
  rw [nonpos_iff] at haneg ⊢
  rw [nonneg_iff_isNonneg] at hbpos
  rw [unpack_mul, ← reread_neg, ← mul_neg_left]
  exact (isNonneg_mul haneg hbpos ((isFinite_neg _).trans ha) hb).reread

theorem mul_nonpos_of_nonpos_right (hapos : 0 ≤ a) (hbneg : b ≤ 0) : a * b ≤ 0 := by
  rw [nonpos_iff] at hbneg ⊢
  rw [nonneg_iff_isNonneg] at hapos
  rw [unpack_mul, ← reread_neg, ← mul_neg_right]
  exact (isNonneg_mul hapos hbneg ha ((isFinite_neg _).trans hb)).reread

theorem mul_nonneg_of_nonpos (haneg : a ≤ 0) (hbneg : b ≤ 0) : 0 ≤ a * b := by
  rw [nonpos_iff] at haneg hbneg
  rw [nonneg_iff_isNonneg, unpack_mul, ← neg_neg_eq (unpack a), mul_neg_left, ← mul_neg_right]
  exact (isNonneg_mul haneg hbneg ((isFinite_neg _).trans ha) ((isFinite_neg _).trans hb)).reread

end

/-- What is not positive stays so if it is divided by a positive number. -/
theorem div_nonpos (haneg : a ≤ 0) {m : Nat} {e : Int} {h : 0 < m}
    (hb : unpack b = .finite .positive m e h) : a / b ≤ 0 := by
  rw [nonpos_iff] at haneg ⊢
  rw [unpack_div, ← reread_neg, ← div_neg_left, hb]
  refine IsNonneg.reread ?_
  generalize (unpack a).neg = u at haneg
  match u, haneg with
  | .infinity .positive, _ | .zero _, _ => trivial
  | .finite .positive .., _ => exact isNonneg_roundWithAccuracy ..

end Single

end TetheredParticles
