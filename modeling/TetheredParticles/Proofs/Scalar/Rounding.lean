import Mathlib
import TetheredParticles.Proofs.Scalar.Sign
/-!
# Signs and order in single precision

No operation on numbers that are not negative makes a number negative, but for a subtraction, and
that only where it takes away more than there is. Products are rounded in order: what does not
exceed a number before it is rounded does not exceed it afterwards.

* `Single.IsNonneg` — signs, seen on unpacked numbers, and `Single.add_nonneg`,
  `Single.div_nonneg`, `Single.remainder_nonneg`, which keep them.
* `Single.Fitted`, `Single.reread_of_fitted` — the mantissas and exponents that need no rounding.
* `Single.value`, `Single.isLE_compare_iff` — the order of numbers is that of their values.
* `Single.mul_le`, `Single.sub_nonneg` — products and differences.
-/

namespace TetheredParticles

open Float.Model Float.Model.UnpackedFloat

namespace Single

/-! ## Signs -/

/-- A zero, or what has a positive sign. -/
def IsNonneg : UnpackedFloat → Prop
  | .zero _ | .infinity .positive | .finite .positive .. => True
  | _ => False

theorem nonneg_iff_isNonneg {a : Float32} : 0 ≤ a ↔ IsNonneg (unpack a) := by
  rw [nonneg_iff]
  generalize unpack a = u
  match u with
  | .zero _ | .infinity .positive | .finite .positive .. => exact iff_of_true rfl trivial
  | .notANumber | .infinity .negative | .finite .negative .. =>
    exact iff_of_false Bool.false_ne_true id

/-- The sign bit is read as it was written. -/
theorem isNonneg_packComponents (e : BitVec 8) (m : BitVec 23) (he : e ≠ -1#8) :
    IsNonneg (.unpack .binary32 (packComponents .binary32 .positive e m)) := by
  unfold UnpackedFloat.unpack
  dsimp only
  rw [unpackSign_packComponents, Sign.ofBitVec_toBitVec, unpackExponent_packComponents, if_neg he]
  split
  · split
    · trivial
    · trivial
  · trivial

theorem IsNonneg.reread {u : UnpackedFloat} (h : IsNonneg u) : IsNonneg (reread u) := by
  cases u with
  | infinity s =>
    rw [reread_infinity]
    exact h
  | notANumber => exact h
  | zero s =>
    rw [reread_zero]
    trivial
  | finite s m e hm =>
    cases s with
    | negative => exact h.elim
    | positive =>
      rw [reread_finite]
      split
      case isTrue => exact (reread_infinity .positive).symm.subst (motive := IsNonneg) trivial
      case isFalse hexponent =>
        split
        · refine isNonneg_packComponents _ _ fun heq => ?_
          have hvalue := congrArg BitVec.toNat heq
          have hall : BitVec.toNat (-1#8) = 255 := rfl
          rw [BitVec.toNat_ofNat, Nat.mod_eq_of_lt (by omega), hall] at hvalue
          omega
        · exact isNonneg_packComponents _ _ (by decide)

theorem isNonneg_roundWithAccuracy (m : Nat) (e : Int) (acc : Accuracy) :
    IsNonneg (roundWithAccuracy .binary32 .positive m e acc) := by
  rcases roundWithAccuracy_cases .positive m e acc with ⟨_, _, _, _, ⟨_, hzero⟩ | ⟨_, hfinite⟩⟩
  · exact hzero ▸ trivial
  · exact hfinite ▸ trivial

theorem isNonneg_round (m : Nat) (e : Int) :
    IsNonneg (UnpackedFloat.round .binary32 .positive m e) :=
  isNonneg_roundWithAccuracy _ _ _

theorem isNonneg_normalize {m : Int} (hm : 0 ≤ m) (e : Int) (s : Sign) :
    IsNonneg (UnpackedFloat.normalize .binary32 m e s) := by
  unfold UnpackedFloat.normalize
  split
  case h_1 hlt => exact absurd (compare_lt_iff_lt.mp hlt) (not_lt.mpr hm)
  case h_2 => trivial
  case h_3 => exact isNonneg_round _ _

variable {a b : Float32}

theorem add_nonneg (ha : 0 ≤ a) (hb : 0 ≤ b) : 0 ≤ a + b := by
  rw [nonneg_iff_isNonneg] at ha hb ⊢
  rw [unpack_add]
  refine IsNonneg.reread ?_
  generalize unpack a = u at ha
  generalize unpack b = v at hb
  match u, v, ha, hb with
  | .infinity .positive, .infinity .positive, _, _ => trivial
  | .infinity .positive, .zero _, _, _ => trivial
  | .infinity .positive, .finite .positive .., _, _ => trivial
  | .zero _, .infinity .positive, _, _ => trivial
  | .zero s, .zero t, _, _ => cases s <;> cases t <;> trivial
  | .zero _, .finite .positive .., _, _ => trivial
  | .finite .positive .., .infinity .positive, _, _ => trivial
  | .finite .positive .., .zero _, _, _ => trivial
  | .finite .positive .., .finite .positive .., _, _ =>
    exact isNonneg_normalize (Int.add_nonneg (Int.natCast_nonneg _) (Int.natCast_nonneg _)) _ _

/-- A positive finite number, in its parts. -/
theorem exists_of_pos_of_isFinite (hpos : 0 < b) (hfinite : (unpack b).isFinite = true) :
    ∃ m e h, unpack b = .finite .positive m e h := by
  replace hpos : (UnpackedFloat.zero .positive).compare (unpack b) = some .lt := lt_iff.mp hpos
  generalize unpack b = u at hpos hfinite
  match u, hpos, hfinite with
  | .finite .positive m e h, _, _ => exact ⟨m, e, h, rfl⟩

theorem div_nonneg (ha : 0 ≤ a) {m : Nat} {e : Int} {h : 0 < m}
    (hb : unpack b = .finite .positive m e h) : 0 ≤ a / b := by
  rw [nonneg_iff_isNonneg] at ha ⊢
  rw [unpack_div, hb]
  refine IsNonneg.reread ?_
  generalize unpack a = u at ha
  match u, ha with
  | .infinity .positive, _ => trivial
  | .zero _, _ => trivial
  | .finite .positive .., _ => exact isNonneg_roundWithAccuracy _ _ _

theorem unpack_remainder (a b : Float32) : unpack (Scalar.remainder a b) =
    reread (reread (Binary.remainder .binary32 (unpack a) (unpack b))) := rfl

theorem remainder_nonneg (ha : 0 ≤ a) (hfinite : (unpack a).isFinite = true) {m : Nat} {e : Int}
    {h : 0 < m} (hb : unpack b = .finite .positive m e h) : 0 ≤ Scalar.remainder a b := by
  rw [nonneg_iff_isNonneg] at ha ⊢
  rw [unpack_remainder, hb]
  refine IsNonneg.reread (IsNonneg.reread ?_)
  generalize unpack a = u at ha hfinite
  match u, ha, hfinite with
  | .zero _, _, _ => trivial
  | .finite .positive n f hn, _, _ =>
    unfold Binary.remainder
    dsimp only
    split
    · trivial
    · exact isNonneg_round _ _

/-! ## Numbers that fit -/

/-- The mantissas and exponents that numbers are written with: a mantissa has 24 digits at most, and
exactly so many unless the exponent is the least one. -/
structure Fitted (m : Nat) (e : Int) : Prop where
  lt : m < 2 ^ 24
  least : -149 ≤ e
  full : -149 < e → 2 ^ 23 ≤ m

theorem exponent_of_unpack {s : Sign} {m : Nat} {e : Int} {h : 0 < m}
    (ha : unpack a = .finite s m e h) : -149 ≤ e ∧ e ≤ 104 := by
  have hbias : Format.binary32.exponentBias = 127 := rfl
  have hlt : (@unpackExponent .binary32 a.toBits.toBitVec).toNat < 2 ^ 8 := BitVec.isLt _
  unfold unpack UnpackedFloat.unpack at ha
  dsimp only at ha
  split at ha
  case isTrue => split at ha <;> cases ha
  case isFalse hgreatest =>
    have hall : (@unpackExponent .binary32 a.toBits.toBitVec).toNat ≠ 255 :=
      fun hvalue => hgreatest (BitVec.toNat_inj.mp hvalue)
    split at ha
    case isTrue hleast =>
      split at ha
      · cases ha
      · rw [UnpackedFloat.finite.injEq] at ha
        rcases ha with ⟨_, _, rfl⟩
        rw [hleast, hbias]
        decide
    case isFalse hleast =>
      have hsome : (@unpackExponent .binary32 a.toBits.toBitVec).toNat ≠ 0 :=
        fun hvalue => hleast (BitVec.toNat_inj.mp hvalue)
      rw [UnpackedFloat.finite.injEq] at ha
      rcases ha with ⟨_, _, rfl⟩
      rw [hbias]
      omega

theorem fitted_of_unpack {s : Sign} {m : Nat} {e : Int} {h : 0 < m}
    (ha : unpack a = .finite s m e h) : Fitted m e :=
  ⟨(mantissa_of_unpack ha).1, (exponent_of_unpack ha).1, (mantissa_of_unpack ha).2⟩

/-- A mantissa with all its digits is read as it was written. -/
theorem reread_of_full {s : Sign} {m : Nat} {e : Int} (hm : 0 < m) (hlt : m < 2 ^ 24)
    (hfull : 2 ^ 23 ≤ m) (hleast : -149 ≤ e) (hgreatest : e ≤ 104) :
    reread (.finite s m e hm) = .finite s m e hm := by
  have hbias : Format.binary32.exponentBias = 127 := rfl
  have hlog : m.log2 = 23 := by
    have hle : 23 ≤ m.log2 := (Nat.le_log2 hm.ne').mpr hfull
    have hlt : m.log2 < 24 := (Nat.log2_lt hm.ne').mpr hlt
    omega
  have hexponent : (BitVec.ofNat 8 (e + 127 + 23).toNat).toNat = (e + 127 + 23).toNat := by
    rw [BitVec.toNat_ofNat, Nat.mod_eq_of_lt (by omega)]
  have hmantissa : (1#1 ++ BitVec.ofNat 23 m).toNat = m := by
    rw [BitVec.toNat_append, ← Nat.shiftLeft_add_eq_or_of_lt (BitVec.ofNat 23 m).isLt,
      BitVec.toNat_ofNat, Nat.shiftLeft_eq]
    show 1 * 2 ^ 23 + m % 2 ^ 23 = m
    omega
  -- the exponent is neither the one of infinities nor the one of subnormal numbers
  have hnotAll : BitVec.ofNat 8 (e + 127 + 23).toNat ≠ -1#8 := by
    intro heq
    have hvalue := congrArg BitVec.toNat heq
    have hall : BitVec.toNat (-1#8) = 255 := rfl
    rw [hexponent, hall] at hvalue
    omega
  have hnonzero : BitVec.ofNat 8 (e + 127 + 23).toNat ≠ 0#8 := by
    intro heq
    have hvalue := congrArg BitVec.toNat heq
    rw [hexponent, BitVec.toNat_zero] at hvalue
    omega
  rw [reread_finite, if_neg (by omega), if_pos (by omega)]
  unfold UnpackedFloat.unpack
  dsimp only
  rw [unpackSign_packComponents, Sign.ofBitVec_toBitVec, unpackExponent_packComponents,
    if_neg hnotAll, if_neg hnonzero, UnpackedFloat.finite.injEq]
  refine ⟨rfl, ?_, ?_⟩
  · rw [unpackMantissa_packComponents, hmantissa]
  · rw [hexponent, hbias]
    omega

/-- With the least exponent, a mantissa with fewer digits is read as it was written. -/
theorem reread_of_least {s : Sign} {m : Nat} (hm : 0 < m) (hlt : m < 2 ^ 23) :
    reread (.finite s m (-149) hm) = .finite s m (-149) hm := by
  have hbias : Format.binary32.exponentBias = 127 := rfl
  have hlog : m.log2 < 23 := (Nat.log2_lt hm.ne').mpr hlt
  have hmantissa : (BitVec.ofNat 23 m).toNat = m := by
    rw [BitVec.toNat_ofNat, Nat.mod_eq_of_lt hlt]
  have hnonzero : BitVec.ofNat 23 m ≠ 0#23 := by
    intro heq
    have hvalue := congrArg BitVec.toNat heq
    rw [hmantissa, BitVec.toNat_zero] at hvalue
    omega
  rw [reread_finite, if_neg (by omega), if_neg (by omega)]
  unfold UnpackedFloat.unpack
  dsimp only
  rw [unpackSign_packComponents, Sign.ofBitVec_toBitVec, unpackExponent_packComponents,
    if_neg (by decide), if_pos (by decide), dif_neg (by rwa [unpackMantissa_packComponents]),
    UnpackedFloat.finite.injEq]
  refine ⟨rfl, ?_, ?_⟩
  · rw [unpackMantissa_packComponents, hmantissa]
  · rw [hbias]
    decide

/-- What fits is read as it was written. -/
theorem reread_of_fitted {s : Sign} {m : Nat} {e : Int} (hm : 0 < m) (h : Fitted m e)
    (he : e ≤ 104) : reread (.finite s m e hm) = .finite s m e hm := by
  rcases Nat.lt_or_ge m (2 ^ 23) with hless | hfull
  · have hexponent : e = -149 := by
      have hleast := h.least
      have hfull := h.full
      omega
    subst hexponent
    exact reread_of_least hm hless
  · exact reread_of_full hm h.lt hfull h.least he

/-! ## The order of values -/

/-- The exact value of a number. What is not finite counts as zero. -/
def value (a : Float32) : Rat :=
  match unpack a with
  | .finite s m e _ => s.apply m * 2 ^ e
  | _ => 0

theorem value_of_unpack {m : Nat} {e : Int} {h : 0 < m} (ha : unpack a = .finite .positive m e h) :
    value a = m * 2 ^ e := by
  unfold value
  rw [ha]
  exact congrArg (· * (2 : Rat) ^ e) (Int.cast_natCast m)

theorem zpow_eq {e f : Int} (h : e ≤ f) : (2 : Rat) ^ f = 2 ^ (f - e).toNat * 2 ^ e := by
  rw [← zpow_natCast, ← zpow_add₀ two_ne_zero]
  congr 1
  omega

/-- The larger exponent decides. -/
theorem Fitted.lt_of_exponent_lt {m n : Nat} {e f : Int} (hm : Fitted m e) (hn : Fitted n f)
    (h : e < f) : (m : Rat) * 2 ^ e < n * 2 ^ f := by
  have hleast := hm.least
  have hlt : (m : Rat) < 2 ^ 24 := by exact_mod_cast hm.lt
  have hle : (2 : Rat) ^ 23 ≤ n := by exact_mod_cast hn.full (by omega)
  calc (m : Rat) * 2 ^ e < 2 ^ 24 * 2 ^ e := mul_lt_mul_of_pos_right hlt (by positivity)
    _ = 2 ^ 23 * 2 ^ (e + 1) := by
      rw [zpow_add_one₀ two_ne_zero]
      ring
    _ ≤ 2 ^ 23 * 2 ^ f := by
      refine mul_le_mul_of_nonneg_left ?_ (by positivity)
      exact zpow_le_zpow_right₀ one_le_two h
    _ ≤ n * 2 ^ f := mul_le_mul_of_nonneg_right hle (by positivity)

/-- Numbers that fit are compared by their values. -/
theorem isLE_compare_iff {m n : Nat} {e f : Int} (hm : Fitted m e) (hn : Fitted n f) :
    ((compare e f).then (compare m n)).isLE = true ↔ (m : Rat) * 2 ^ e ≤ n * 2 ^ f := by
  rcases lt_trichotomy e f with hlt | rfl | hgt
  · rw [compare_lt_iff_lt.mpr hlt]
    exact iff_of_true rfl (hm.lt_of_exponent_lt hn hlt).le
  · have hpos : (0 : Rat) < 2 ^ e := by positivity
    rw [Std.ReflOrd.compare_self, Ordering.eq_then, mul_le_mul_iff_of_pos_right hpos, Nat.cast_le]
    exact Std.isLE_compare
  · rw [compare_gt_iff_gt.mpr hgt]
    exact iff_of_false Bool.false_ne_true (not_le.mpr (hn.lt_of_exponent_lt hm hgt))

theorem le_iff : a ≤ b ↔ ((unpack a).compare (unpack b)).any (·.isLE) = true := by
  show (decide ((UnpackedFloat.le _ _ : Bool) = true) = true) ↔ _
  rw [decide_eq_true_eq]
  rfl

/-- Nothing below zero is left of a finite number, unless more than it is taken away. -/
theorem sub_nonneg (hfinite : (unpack a).isFinite = true) (hb : 0 ≤ b) (h : b ≤ a) : 0 ≤ a - b := by
  rw [le_iff] at h
  rw [nonneg_iff_isNonneg] at hb ⊢
  rw [unpack_sub]
  refine IsNonneg.reread ?_
  generalize hua : unpack a = u at hfinite h
  generalize hub : unpack b = v at hb h
  match u, v, hfinite, hb, h with
  | .zero s, .zero t, _, _, _ => cases s <;> cases t <;> trivial
  | .finite .positive .., .zero _, _, _, _ => trivial
  | .finite .positive m e hm, .finite .positive n f hn, _, _, h =>
    have hle := (isLE_compare_iff (fitted_of_unpack hub) (fitted_of_unpack hua)).mp h
    -- both mantissas are written with the smaller exponent
    have hmantissas : n <<< (f - min e f).toNat ≤ m <<< (e - min e f).toNat := by
      rw [zpow_eq (min_le_left e f), zpow_eq (min_le_right e f), ← mul_assoc, ← mul_assoc,
        mul_le_mul_iff_of_pos_right (by positivity)] at hle
      rw [Nat.shiftLeft_eq, Nat.shiftLeft_eq]
      exact_mod_cast hle
    refine isNonneg_normalize ?_ _ _
    exact Int.sub_nonneg_of_le (Int.ofNat_le.mpr hmantissas)

/-! ## Products -/

/-- A mantissa with enough digits is shifted to where it fits. What is lost by that is rounded, and
a carry is absorbed by the exponent. -/
theorem roundWithAccuracy_of_le (s : Sign) {m : Nat} {e g : Int} (acc : Accuracy)
    (he : e ≤ g) (hg : g = max ((m.log2 : Int) - 23 + e) (-149)) :
    ∃ k : Nat, g = e + k ∧ Fitted (m / 2 ^ k) g ∧ ∃ r, m / 2 ^ k ≤ r ∧ r ≤ m / 2 ^ k + 1 ∧
      (acc = .exact → Nearest m k r) ∧
      (roundWithAccuracy .binary32 s m e acc = .zero s ∧ r = 0 ∨
        ∃ n f h, roundWithAccuracy .binary32 s m e acc = .finite s n f h ∧ Fitted n f ∧
          g ≤ f ∧ f ≤ g + 1 ∧ (n : Rat) * 2 ^ f = r * 2 ^ g) := by
  have hfirst := excess_eq m e
  have hshifted := shifted_lt m e
  rcases roundWithAccuracy_cases s m e acc with ⟨r, hle, hlt, hexact, hround⟩
  have hexponent : g = e + excess m e := by omega
  have hfitted : Fitted (m / 2 ^ excess m e) g := by
    refine ⟨hshifted, by omega, fun hnormal => ?_⟩
    have hlog : 23 ≤ m.log2 := by omega
    have hne : m ≠ 0 := by
      rintro rfl
      exact absurd hlog (by decide)
    have hexcess : excess m e = m.log2 - 23 := by omega
    rw [hexcess, Nat.le_div_iff_mul_le (Nat.two_pow_pos _), ← Nat.pow_add,
      Nat.add_sub_cancel' hlog]
    exact Nat.log2_self_le hne
  refine ⟨excess m e, hexponent, hfitted, r, hle, hlt, hexact, ?_⟩
  rw [← hexponent] at hround
  have hsecond := excess_eq r g
  have hleast := hfitted.least
  rcases Nat.lt_or_ge r (2 ^ 24) with hsmall | hcarry
  -- without a carry the second shift does nothing
  · have hnone : excess r g = 0 := by
      have hlog : r.log2 < 24 := by
        rcases Nat.eq_zero_or_pos r with rfl | hpos
        · decide
        · exact (Nat.log2_lt hpos.ne').mpr hsmall
      omega
    rw [hnone, Nat.pow_zero, Nat.div_one, Int.natCast_zero, Int.add_zero] at hround
    rcases hround with ⟨hzero, hround⟩ | ⟨h, hround⟩
    · exact .inl ⟨hround, hzero⟩
    · exact .inr ⟨r, g, h, hround,
        ⟨hsmall, hleast, fun hnormal => (hfitted.full hnormal).trans hle⟩, le_rfl, by omega, rfl⟩
  -- a carry leaves a power of two, which is shifted without a loss
  · have hr : r = 2 ^ 24 := by omega
    have hlog : (2 ^ 24).log2 = 24 := Nat.log2_two_pow
    have hone : excess r g = 1 := by
      rw [hr, hlog] at hsecond
      rw [hr]
      omega
    have hhalf : r / 2 ^ 1 = 2 ^ 23 := by omega
    rw [hone, hhalf] at hround
    rcases hround with ⟨hzero, _⟩ | ⟨h, hround⟩
    · cases hzero
    · refine .inr ⟨2 ^ 23, g + 1, h, hround, ⟨by decide, by omega, fun _ => le_rfl⟩, by omega,
        le_rfl, ?_⟩
      rw [hr, zpow_add_one₀ two_ne_zero]
      push_cast
      ring

/-- What does not exceed a number that fits does not exceed it after rounding, unless it comes close to
that number and digits of it are lost. -/
theorem roundWithAccuracy_le (s : Sign) {m n : Nat} {e f : Int} {acc : Accuracy}
    (hm : 2 ^ 23 ≤ m ∨ e ≤ -149) (hn : Fitted n f) (h : (m : Rat) * 2 ^ e ≤ n * 2 ^ f)
    (hacc : (m : Rat) * 2 ^ e = n * 2 ^ f → acc = .exact) :
    roundWithAccuracy .binary32 s m e acc = .zero s ∨
      ∃ r g hr, roundWithAccuracy .binary32 s m e acc = .finite s r g hr ∧ Fitted r g ∧
        (r : Rat) * 2 ^ g ≤ n * 2 ^ f := by
  obtain ⟨g, hg⟩ : ∃ g, g = max ((m.log2 : Int) - 23 + e) (-149) := ⟨_, rfl⟩
  have heg : e ≤ g := by
    rcases hm with hm | hm
    · have hlog : 23 ≤ m.log2 := (Nat.le_log2 (by omega)).mpr hm
      omega
    · omega
  rcases roundWithAccuracy_of_le s acc heg hg with ⟨k, hk, hfitted, r, _, hr, hnearest, hround⟩
  have hleast := hfitted.least
  have hunit : (2 : Rat) ^ g = 2 ^ k * 2 ^ e := by
    rw [hk, add_comm, zpow_add₀ two_ne_zero, zpow_natCast]
  have hle : (r : Rat) * 2 ^ g ≤ n * 2 ^ f := by
    rcases le_or_gt g f with hle | hlt
    · -- what fits is a multiple of the unit, and so does not lie between a number and its rounding
      have hbound : (n : Rat) * 2 ^ f = (n * 2 ^ (f - g).toNat * 2 ^ k : Nat) * 2 ^ e := by
        rw [zpow_eq hle, hunit]
        push_cast
        ring
      rw [hbound] at h hacc
      have hshift : m ≤ n * 2 ^ (f - g).toNat * 2 ^ k := by
        rw [mul_le_mul_iff_of_pos_right (by positivity)] at h
        exact_mod_cast h
      have hrle : r ≤ n * 2 ^ (f - g).toNat := by
        rcases hshift.lt_or_eq with hless | hsame
        · have hdivide := (Nat.div_lt_iff_lt_mul (Nat.two_pow_pos k)).mpr hless
          omega
        · have hexact := (hnearest (hacc (by rw [hsame]))).lt
          rw [hsame, ← Nat.succ_mul] at hexact
          exact Nat.lt_succ_iff.mp (Nat.lt_of_mul_lt_mul_right hexact)
      rw [zpow_eq hle, ← mul_assoc]
      refine mul_le_mul_of_nonneg_right ?_ (by positivity)
      exact_mod_cast hrle
    · -- the number is at least as large as what is left of it after the shift
      have hdivide : ((m / 2 ^ k : Nat) : Rat) * 2 ^ k ≤ m := by
        exact_mod_cast Nat.div_mul_le_self m (2 ^ k)
      have hexceeds : ((m / 2 ^ k : Nat) : Rat) * 2 ^ g ≤ m * 2 ^ e := by
        rw [hunit, ← mul_assoc]
        exact mul_le_mul_of_nonneg_right hdivide (by positivity)
      exact absurd (hexceeds.trans h) (not_le.mpr (hn.lt_of_exponent_lt hfitted hlt))
  rcases hround with ⟨hzero, _⟩ | ⟨q, p, hq, hfinite, hfitted, _, _, hsame⟩
  · exact .inl hzero
  · exact .inr ⟨q, p, hq, hfinite, hfitted, hsame.trans_le hle⟩

/-- Before it is rounded, a short mantissa is shifted up to its full length. -/
theorem round_eq_roundWithAccuracy (s : Sign) {m d : Nat} {e : Int}
    (hd : d = (e - max ((m.log2 : Int) - 23 + e) (-149)).toNat) :
    UnpackedFloat.round .binary32 s m e =
      roundWithAccuracy .binary32 s (m * 2 ^ d) (e - d) .exact := by
  have hshift : (e - Format.binary32.targetExponent (totalExponent m e)).toNat = d := by
    show (e - max ((m.log2 : Int) + 1 + e - 24) (-149)).toNat = d
    omega
  unfold UnpackedFloat.round decreaseExponent
  dsimp only
  rw [hshift, Nat.shiftLeft_eq]

/-- A count is written with all digits, unless it is zero. -/
theorem unpack_ofCount {n : UInt32} (hn : n ≠ 0) :
    ∃ m e h, unpack (Scalar.ofCount n) = .finite .positive m e h ∧ 2 ^ 23 ≤ m := by
  have hsize := n.toNat_lt
  have hpos : 0 < n.toNat := Nat.pos_of_ne_zero fun hzero => hn (UInt32.toNat_inj.mp hzero)
  -- how far a short count is shifted up first
  obtain ⟨d, hd⟩ : ∃ d : Nat, d = 23 - n.toNat.log2 := ⟨_, rfl⟩
  have hread : unpack (Scalar.ofCount n) =
      reread (roundWithAccuracy .binary32 .positive (n.toNat * 2 ^ d) (-d) .exact) := by
    have hround : unpack (Scalar.ofCount n) =
        reread (UnpackedFloat.round .binary32 .positive n.toNat 0) := by
      show reread (UnpackedFloat.normalize .binary32 n.toNat 0 .positive) = _
      unfold UnpackedFloat.normalize
      rw [compare_gt_iff_gt.mpr (Int.natCast_pos.mpr hpos)]
      rfl
    have hshift : d = (0 - max ((n.toNat.log2 : Int) - 23 + 0) (-149)).toNat := by omega
    rw [hround, round_eq_roundWithAccuracy .positive hshift, Int.zero_sub]
  have hfull : 2 ^ 23 ≤ n.toNat * 2 ^ d := by
    calc 2 ^ 23 ≤ 2 ^ (n.toNat.log2 + d) := Nat.pow_le_pow_right Nat.two_pos (by omega)
      _ = 2 ^ n.toNat.log2 * 2 ^ d := Nat.pow_add ..
      _ ≤ n.toNat * 2 ^ d := Nat.mul_le_mul_right _ (Nat.log2_self_le hpos.ne')
  have hlog : (n.toNat * 2 ^ d).log2 < 32 + d := by
    refine (Nat.log2_lt (by omega)).mpr ?_
    rw [Nat.pow_add]
    exact Nat.mul_lt_mul_of_pos_right hsize (Nat.two_pow_pos d)
  have hlog' : 23 ≤ (n.toNat * 2 ^ d).log2 := (Nat.le_log2 (by omega)).mpr hfull
  obtain ⟨g, hg⟩ : ∃ g, g = max (((n.toNat * 2 ^ d).log2 : Int) - 23 + -d) (-149) := ⟨_, rfl⟩
  rcases roundWithAccuracy_of_le .positive .exact (by omega) hg with
    ⟨k, _, hfitted, r, hr, _, _, ⟨_, hzero⟩ | ⟨m, e, hm, hfinite, hfit, hge, hle, _⟩⟩
  · have hnormal := hfitted.full (by omega)
    omega
  · refine ⟨m, e, hm, ?_, hfit.full (by omega)⟩
    rw [hread, hfinite]
    exact reread_of_fitted hm hfit (by omega)

theorem zero_le_of_nonneg (hb : 0 ≤ b) (s : Sign) :
    ((UnpackedFloat.zero s).compare (unpack b)).any (·.isLE) = true := by
  replace hb := nonneg_iff_isNonneg.mp hb
  generalize unpack b = v at hb ⊢
  match v, hb with
  | .zero _, _ | .infinity .positive, _ | .finite .positive .., _ => rfl

/-- A number that is read from its rounding is not negative and does not exceed `b`. -/
def Below (u : UnpackedFloat) (b : Float32) : Prop :=
  IsNonneg (reread u) ∧ ((reread u).compare (unpack b)).any (·.isLE) = true

theorem below_zero (hb : 0 ≤ b) (s : Sign) : Below (.zero s) b := by
  unfold Below
  rw [reread_zero]
  exact ⟨trivial, zero_le_of_nonneg hb s⟩

/-- What does not exceed a number before it is rounded does not exceed it afterwards. -/
theorem below_roundWithAccuracy {m k : Nat} {e f : Int} {hk : 0 < k} (hm : 2 ^ 23 ≤ m)
    (hb : unpack b = .finite .positive k f hk) (hle : (m : Rat) * 2 ^ e ≤ k * 2 ^ f) :
    Below (roundWithAccuracy .binary32 .positive m e .exact) b := by
  have hbound := (exponent_of_unpack hb).2
  have hfit := fitted_of_unpack hb
  rcases roundWithAccuracy_le .positive (.inl hm) hfit hle fun _ => rfl
    with hround | ⟨r, g, hr, hround, hfitted, hvalue⟩
  · rw [hround]
    refine below_zero (nonneg_iff_isNonneg.mpr ?_) _
    rw [hb]
    trivial
  · have hexponent : g ≤ f :=
      not_lt.mp fun hlt => absurd hvalue (not_le.mpr (hfit.lt_of_exponent_lt hfitted hlt))
    unfold Below
    rw [hround, hb, reread_of_fitted hr hfitted (hexponent.trans hbound)]
    exact ⟨trivial, (isLE_compare_iff hfitted hfit).mpr hvalue⟩

/-- A multiple that fits into a finite number does so after it is rounded. -/
theorem mul_le {n : UInt32} {m : Nat} {e : Int} {h : 0 < m}
    (ha : unpack a = .finite .positive m e h) (hb : 0 ≤ b) (hfinite : (unpack b).isFinite = true)
    (hle : value (Scalar.ofCount n) * value a ≤ value b) :
    0 ≤ Scalar.ofCount n * a ∧ Scalar.ofCount n * a ≤ b := by
  rw [nonneg_iff_isNonneg, le_iff, unpack_mul, ha]
  by_cases hn : n = 0
  · subst hn
    exact below_zero hb _
  rcases unpack_ofCount hn with ⟨q, p, hq, hcount, hfull⟩
  have hproduct : value (Scalar.ofCount n) * value a = (q * m : Nat) * 2 ^ (p + e) := by
    rw [value_of_unpack hcount, value_of_unpack ha, zpow_add₀ two_ne_zero]
    push_cast
    ring
  have hpos : (0 : Rat) < (q * m : Nat) * 2 ^ (p + e) := by
    have hcast : (0 : Rat) < (q * m : Nat) := Nat.cast_pos.mpr (Nat.mul_pos hq h)
    positivity
  rw [hproduct] at hle
  rw [hcount]
  show Below (roundWithAccuracy .binary32 .positive (q * m) (p + e) .exact) b
  replace hb := nonneg_iff_isNonneg.mp hb
  match hub : unpack b, hb, hfinite with
  | .zero s, _, _ =>
    have hvalue : value b = 0 := by
      unfold value
      rw [hub]
    exact absurd (hpos.trans_le hle) (hvalue ▸ lt_irrefl _)
  | .finite .positive k f hk, _, _ =>
    rw [value_of_unpack hub] at hle
    exact below_roundWithAccuracy (hfull.trans (Nat.le_mul_of_pos_right q h)) hub hle

end Single

end TetheredParticles
