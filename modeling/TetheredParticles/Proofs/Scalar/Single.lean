import Mathlib.Algebra.Order.Group.Nat
import Mathlib.Data.Nat.Log
import TetheredParticles.Proofs.Vec3
/-!
# Directions in single precision

A usable length is finite and exceeds the distance between one and the next number, so the squares
of the components have not overflowed, and neither do the quotients. Directions are therefore
finite, and a finite number times zero is a zero.

* `Single.exponent_roundWithAccuracy`, `Single.reread_roundWithAccuracy_of_huge` — what rounding
  does to exponents.
* `Single.isFinite_div` — a quotient that does not overflow.
* `Single.isFinite_direction` — directions are finite.
-/

namespace TetheredParticles

open Float.Model Float.Model.UnpackedFloat

namespace Single

/-! ## Rounding -/

theorem mantissa_shiftRight (em : ExtendedMantissa) (k : Nat) :
    (em >>> k).mantissa = em.mantissa / 2 ^ k := by
  induction k with
  | zero => exact (Nat.div_one _).symm
  | succ k ih =>
    show (em >>> k).mantissa / 2 = _
    rw [ih, Nat.div_div_eq_div_mul, Nat.pow_succ]

theorem le_roundedMantissa (em : ExtendedMantissa) :
    em.mantissa ≤ em.roundedMantissa ∧ em.roundedMantissa ≤ em.mantissa + 1 := by
  rcases em with ⟨m, roundBit, stickyBit⟩
  have hodd : m % 2 < 2 := Nat.mod_lt m Nat.two_pos
  cases roundBit <;> cases stickyBit <;>
    simp only [ExtendedMantissa.roundedMantissa, ExtendedMantissa.accuracy,
      Accuracy.roundToNearestEven] <;> omega

/-- The bits behind a mantissa tell whether anything but zeros has been shifted out. -/
theorem residue_shiftRight (m k : Nat) :
    (((⟨m, false, false⟩ : ExtendedMantissa) >>> k).roundBit ||
      ((⟨m, false, false⟩ : ExtendedMantissa) >>> k).stickyBit) = decide (m % 2 ^ k ≠ 0) := by
  induction k with
  | zero => rw [Nat.pow_zero, Nat.mod_one]; rfl
  | succ k ih =>
    have hnext : (⟨m, false, false⟩ : ExtendedMantissa) >>> (k + 1) =
        ((⟨m, false, false⟩ : ExtendedMantissa) >>> k).shiftRightOne := rfl
    rw [hnext]
    unfold ExtendedMantissa.shiftRightOne
    dsimp only
    rw [ih, mantissa_shiftRight, Nat.pow_succ, Nat.mod_mul]
    have hpos := Nat.two_pow_pos k
    rcases Nat.mod_two_eq_zero_or_one (m / 2 ^ k) with hbit | hbit
    · rw [hbit, Nat.mul_zero, Nat.add_zero]
      rfl
    · rw [hbit, Nat.mul_one]
      exact (decide_eq_true (by omega)).symm

/-- A multiple of the unit that is nearest to a mantissa, and an even one if two are. -/
structure Nearest (m k r : Nat) : Prop where
  le : 2 * (r * 2 ^ k) ≤ 2 * m + 2 ^ k
  ge : 2 * m ≤ 2 * (r * 2 ^ k) + 2 ^ k
  even : 2 * (r * 2 ^ k) = 2 * m + 2 ^ k ∨ 2 * m = 2 * (r * 2 ^ k) + 2 ^ k → r % 2 = 0

theorem Nearest.lt {m k r : Nat} (h : Nearest m k r) : r * 2 ^ k < m + 2 ^ k := by
  have hle := h.le
  have hpos := Nat.two_pow_pos k
  omega

/-- What is shifted and rounded is the nearest multiple of the new unit. -/
theorem nearest_roundedMantissa (m k : Nat) :
    Nearest m k ((⟨m, false, false⟩ : ExtendedMantissa) >>> k).roundedMantissa := by
  cases k with
  | zero =>
    show Nearest m 0 m
    constructor <;> omega
  | succ k =>
    have hresidue := residue_shiftRight m k
    have hmantissa := mantissa_shiftRight ⟨m, false, false⟩ k
    have hnext : (⟨m, false, false⟩ : ExtendedMantissa) >>> (k + 1) =
        ((⟨m, false, false⟩ : ExtendedMantissa) >>> k).shiftRightOne := rfl
    rw [hnext]
    unfold ExtendedMantissa.shiftRightOne
    rw [hresidue, hmantissa]
    dsimp only
    -- a mantissa consists of what is kept, the first bit that is lost, and the rest
    have hsplit := Nat.div_add_mod' m (2 ^ k)
    have hbits := Nat.div_add_mod' (m / 2 ^ k) 2
    have hrest := Nat.mod_lt m (Nat.two_pow_pos k)
    rw [← hbits, Nat.add_mul, Nat.mul_assoc, Nat.mul_comm 2] at hsplit
    have hunit : ∀ r : Nat, r * (2 ^ k * 2) = 2 * (r * 2 ^ k) := fun r => by
      rw [← Nat.mul_assoc, Nat.mul_comm]
    have hnext : ∀ r : Nat, (r + 1) * 2 ^ k = r * 2 ^ k + 2 ^ k := fun r => Nat.succ_mul r _
    rw [hunit] at hsplit
    generalize m / 2 ^ k / 2 = q at hsplit ⊢
    generalize m % 2 ^ k = rest at hsplit hrest ⊢
    rcases Nat.mod_two_eq_zero_or_one (m / 2 ^ k) with hbit | hbit <;> rw [hbit] at hsplit ⊢
    · have hr : (⟨q, 0 != 0, decide (rest ≠ 0)⟩ : ExtendedMantissa).roundedMantissa = q := by
        cases decide (rest ≠ 0) <;> rfl
      rw [hr]
      constructor <;> rw [Nat.pow_succ, hunit] <;> omega
    · by_cases hzero : rest = 0
      · have hr : (⟨q, 1 != 0, decide (rest ≠ 0)⟩ : ExtendedMantissa).roundedMantissa = q + q % 2 := by
          rw [hzero]
          rfl
        rw [hr]
        rcases Nat.mod_two_eq_zero_or_one q with heven | hodd
        · rw [heven, Nat.add_zero q]
          constructor <;> rw [Nat.pow_succ, hunit] <;> omega
        · rw [hodd]
          constructor <;> rw [Nat.pow_succ, hunit, hnext] <;> omega
      · have hr : (⟨q, 1 != 0, decide (rest ≠ 0)⟩ : ExtendedMantissa).roundedMantissa = q + 1 := by
          rw [decide_eq_true hzero]
          rfl
        rw [hr]
        constructor <;> rw [Nat.pow_succ, hunit, hnext] <;> omega

/-- By how many bits a mantissa is shifted, so that it fits. -/
def excess (m : Nat) (e : Int) : Nat := (Format.binary32.targetExponent (totalExponent m e) - e).toNat

theorem excess_eq (m : Nat) (e : Int) : excess m e = (max ((m.log2 : Int) - 23 + e) (-149) - e).toNat := by
  show (max ((m.log2 : Int) + 1 + e - 24) (-149) - e).toNat = _
  congr 3
  omega

theorem shiftToTargetExponent_eq (m : Nat) (e : Int) (acc : Accuracy) :
    (shiftToTargetExponent .binary32 m e acc).1.mantissa = m / 2 ^ excess m e ∧
      (shiftToTargetExponent .binary32 m e acc).2 = e + excess m e := by
  refine ⟨?_, rfl⟩
  show (ExtendedMantissa.ofMantissaAndAccuracy m acc >>> excess m e).mantissa = _
  rw [mantissa_shiftRight]
  rcases acc with _ | o
  · rfl
  · cases o <;> rfl

/-- Rounding gives a zero or shifts the mantissa twice, with one carry in between. -/
theorem roundWithAccuracy_cases (s : Sign) (m : Nat) (e : Int) (acc : Accuracy) :
    ∃ r, m / 2 ^ excess m e ≤ r ∧ r ≤ m / 2 ^ excess m e + 1 ∧
      (acc = .exact → Nearest m (excess m e) r) ∧
      (r / 2 ^ excess r (e + excess m e) = 0 ∧
          roundWithAccuracy .binary32 s m e acc = .zero s ∨
        ∃ h, roundWithAccuracy .binary32 s m e acc =
          .finite s (r / 2 ^ excess r (e + excess m e))
            (e + excess m e + excess r (e + excess m e)) h) := by
  rcases shiftToTargetExponent_eq m e acc with ⟨hmantissa, hexponent⟩
  have hexact : acc = .exact →
      Nearest m (excess m e) (shiftToTargetExponent .binary32 m e acc).1.roundedMantissa := by
    rintro rfl
    exact nearest_roundedMantissa m (excess m e)
  rcases hfirst : shiftToTargetExponent .binary32 m e acc with ⟨em, e₁⟩
  rw [hfirst] at hmantissa hexponent hexact
  dsimp only at hmantissa hexponent
  subst hexponent
  rcases le_roundedMantissa em with ⟨hle, hlt⟩
  rw [hmantissa] at hle hlt
  refine ⟨em.roundedMantissa, hle, hlt, hexact, ?_⟩
  rcases shiftToTargetExponent_eq em.roundedMantissa (e + excess m e) .exact with ⟨hm, he⟩
  unfold roundWithAccuracy
  rw [hfirst]
  dsimp only
  rw [hm, he]
  by_cases hzero : em.roundedMantissa / 2 ^ excess em.roundedMantissa (e + excess m e) = 0
  · rw [dif_pos hzero]
    exact .inl ⟨hzero, rfl⟩
  · rw [dif_neg hzero]
    exact .inr ⟨_, rfl⟩

/-- A mantissa that is shifted by its excess has 24 bits at most. -/
theorem shifted_lt (m : Nat) (e : Int) : m / 2 ^ excess m e < 2 ^ 24 := by
  have hexcess := excess_eq m e
  refine (Nat.div_lt_iff_lt_mul (Nat.two_pow_pos _)).mpr ?_
  rw [← Nat.pow_add]
  exact Nat.lt_log2_self.trans_le (Nat.pow_le_pow_right Nat.two_pos (by omega))

/-- Something is left of a mantissa whose exponent is not too small. -/
theorem shifted_pos {m : Nat} {e : Int} (hm : m ≠ 0) (he : -149 ≤ (m.log2 : Int) - 23 + e) :
    m / 2 ^ excess m e ≠ 0 := by
  have hexcess := excess_eq m e
  have hle : 2 ^ excess m e ≤ m :=
    (Nat.pow_le_pow_right Nat.two_pos (by omega)).trans (Nat.log2_self_le hm)
  exact (Nat.div_pos hle (Nat.two_pow_pos _)).ne'

/-- Rounding raises the exponent no further than the leading digit requires. -/
theorem exponent_roundWithAccuracy (s : Sign) {m : Nat} {e bound : Int} (acc : Accuracy)
    (he : e ≤ bound) (hm : (m.log2 : Int) + e ≤ bound) (hbound : -149 ≤ bound) :
    roundWithAccuracy .binary32 s m e acc = .zero s ∨
      ∃ n f h, f ≤ bound + 1 ∧ roundWithAccuracy .binary32 s m e acc = .finite s n f h := by
  rcases roundWithAccuracy_cases s m e acc with ⟨r, _, hr, _, ⟨_, hzero⟩ | ⟨h, hfinite⟩⟩
  · exact .inl hzero
  · refine .inr ⟨_, _, h, ?_, hfinite⟩
    have hlog : r.log2 < 25 := by
      have hshifted := shifted_lt m e
      rcases Nat.eq_zero_or_pos r with rfl | hpos
      · decide
      · exact (Nat.log2_lt hpos.ne').mpr (by omega)
    have hfirst := excess_eq m e
    have hsecond := excess_eq r (e + excess m e)
    omega

/-! ## Numbers and their bits -/

/-- What is read from the bits of a number. -/
def reread (u : UnpackedFloat) : UnpackedFloat := .unpack .binary32 (UnpackedFloat.pack .binary32 u)

@[simp]
theorem reread_notANumber : reread .notANumber = .notANumber := rfl

@[simp]
theorem reread_infinity (s : Sign) : reread (.infinity s) = .infinity s := by
  cases s <;> rfl

@[simp]
theorem reread_zero (s : Sign) : reread (.zero s) = .zero s := by
  cases s <;> rfl

theorem reread_finite {s : Sign} {m : Nat} {e : Int} (h : 0 < m) :
    reread (.finite s m e h) = .unpack .binary32
      (if 256 ≤ (e + 127 + 23).toNat + 1 then packedInfinity .binary32 s
      else if m.log2 + 1 = 24 then
        packComponents .binary32 s (BitVec.ofNat 8 (e + 127 + 23).toNat) (BitVec.ofNat 23 m)
      else packComponents .binary32 s 0 (BitVec.ofNat 23 m)) := rfl

theorem isFinite_unpack (b : BitVec 32) (h : @unpackExponent .binary32 b ≠ -1#8) :
    (UnpackedFloat.unpack .binary32 b).isFinite = true := by
  unfold UnpackedFloat.unpack
  dsimp only
  rw [if_neg h]
  by_cases hleast : @unpackExponent .binary32 b = 0#8
  · rw [if_pos hleast]
    by_cases hzero : @unpackMantissa .binary32 b = 0#23
    · rw [dif_pos hzero]
      rfl
    · rw [dif_neg hzero]
      rfl
  · rw [if_neg hleast]
    rfl

/-- A number that fits its exponent is read as a finite number. -/
theorem isFinite_reread {s : Sign} {m : Nat} {e : Int} (h : 0 < m) (he : e ≤ 104) :
    (reread (.finite s m e h)).isFinite = true := by
  have hexponent : ∀ (biased : Nat) (mantissa : BitVec 23), biased < 255 →
      (UnpackedFloat.unpack .binary32
        (packComponents .binary32 s (BitVec.ofNat 8 biased) mantissa)).isFinite = true := by
    intro biased mantissa hbiased
    have hne : BitVec.ofNat 8 biased ≠ -1#8 := by
      intro heq
      have hall : BitVec.toNat (-1#8) = 255 := rfl
      have hvalue := congrArg BitVec.toNat heq
      rw [BitVec.toNat_ofNat, Nat.mod_eq_of_lt (by omega), hall] at hvalue
      omega
    refine isFinite_unpack _ ?_
    rw [unpackExponent_packComponents]
    exact hne
  rw [reread_finite, if_neg (by omega)]
  split
  · exact hexponent _ _ (by omega)
  · exact hexponent 0 _ (by decide)

/-- A number that does not fit its exponent is read as an infinity. -/
theorem reread_of_huge {s : Sign} {m : Nat} {e : Int} (h : 0 < m) (he : 105 ≤ e) :
    reread (.finite s m e h) = .infinity s := by
  rw [← reread_infinity, reread_finite, if_pos (by omega)]
  rfl

/-- The mantissa of a number has 24 bits at most, and exactly so many unless the exponent is the
least one. -/
theorem mantissa_of_unpack {a : Float32} {s : Sign} {m : Nat} {e : Int} {h : 0 < m}
    (ha : unpack a = .finite s m e h) : m < 2 ^ 24 ∧ (-149 < e → 2 ^ 23 ≤ m) := by
  have hbias : Format.binary32.exponentBias = 127 := rfl
  have hlt : (@unpackMantissa .binary32 a.toBits.toBitVec).toNat < 2 ^ 23 := BitVec.isLt _
  unfold unpack UnpackedFloat.unpack at ha
  dsimp only at ha
  by_cases hgreatest : @unpackExponent .binary32 a.toBits.toBitVec = -1#8
  · rw [if_pos hgreatest] at ha
    by_cases hzero : @unpackMantissa .binary32 a.toBits.toBitVec = 0#23
    · rw [if_pos hzero] at ha
      cases ha
    · rw [if_neg hzero] at ha
      cases ha
  rw [if_neg hgreatest] at ha
  by_cases hleast : @unpackExponent .binary32 a.toBits.toBitVec = 0#8
  · rw [if_pos hleast] at ha
    by_cases hzero : @unpackMantissa .binary32 a.toBits.toBitVec = 0#23
    · rw [dif_pos hzero] at ha
      cases ha
    · rw [dif_neg hzero, UnpackedFloat.finite.injEq] at ha
      rcases ha with ⟨_, rfl, rfl⟩
      rw [hleast, hbias]
      refine ⟨by omega, fun hexponent => ?_⟩
      exact absurd hexponent (by decide)
  · rw [if_neg hleast, UnpackedFloat.finite.injEq] at ha
    rcases ha with ⟨_, rfl, rfl⟩
    have hvalue : (1#1 ++ @unpackMantissa .binary32 a.toBits.toBitVec).toNat =
        2 ^ 23 + (@unpackMantissa .binary32 a.toBits.toBitVec).toNat := by
      rw [BitVec.toNat_append, ← Nat.shiftLeft_add_eq_or_of_lt hlt]
      rfl
    rw [hvalue]
    exact ⟨by omega, fun _ => Nat.le_add_right _ _⟩

theorem unpack_add (a b : Float32) :
    unpack (a + b) = reread (add .binary32 (unpack a) (unpack b)) := rfl

theorem unpack_sub (a b : Float32) :
    unpack (a - b) = reread (sub .binary32 (unpack a) (unpack b)) := rfl

theorem unpack_mul (a b : Float32) :
    unpack (a * b) = reread (mul .binary32 (unpack a) (unpack b)) := rfl

theorem unpack_div (a b : Float32) :
    unpack (a / b) = reread (div .binary32 (unpack a) (unpack b)) := rfl

theorem unpack_sqrt (a : Float32) :
    unpack (Scalar.sqrt a) = reread (sqrt .binary32 (unpack a)) := rfl

theorem lt_iff {a b : Float32} :
    a < b ↔ (unpack a).compare (unpack b) = some .lt := by
  show (decide ((UnpackedFloat.lt _ _ : Bool) = true) = true) ↔ _
  rw [decide_eq_true_eq]
  unfold UnpackedFloat.lt
  exact beq_iff_eq

/-- What is no finite number is not read as one. -/
theorem isFinite_of_reread {u : UnpackedFloat} (h : (reread u).isFinite = true) :
    u.isFinite = true := by
  cases u with
  | infinity s =>
    rw [reread_infinity] at h
    exact h
  | notANumber => exact h
  | zero s => rfl
  | finite s m e hm => rfl

/-! ## Finite operands -/

/-- Both terms of a finite sum are finite. -/
theorem isFinite_of_add {a b : Float32} (h : (unpack (a + b)).isFinite = true) :
    (unpack a).isFinite = true ∧ (unpack b).isFinite = true := by
  rw [unpack_add] at h
  replace h := isFinite_of_reread h
  generalize unpack a = u at h ⊢
  generalize unpack b = v at h ⊢
  have hleft : u.isFinite = true := by
    cases u with
    | infinity s => cases v with
      | infinity t => cases s <;> cases t <;> cases h
      | _ => cases h
    | notANumber => cases h
    | zero s => rfl
    | finite s m e hm => rfl
  refine ⟨hleft, ?_⟩
  cases v with
  | infinity s => cases u with
    | infinity t => cases hleft
    | _ => cases h
  | notANumber => cases u <;> cases h
  | zero s => rfl
  | finite s m e hm => rfl

/-- A root is finite only of a finite number. -/
theorem isFinite_of_sqrt {a : Float32} (h : (unpack (Scalar.sqrt a)).isFinite = true) :
    (unpack a).isFinite = true := by
  rw [unpack_sqrt] at h
  replace h := isFinite_of_reread h
  generalize unpack a = u at h
  cases u with
  | infinity s => cases s <;> cases h
  | notANumber => cases h
  | zero s => rfl
  | finite s m e hm => rfl

/-- Only what is finite has a difference of zero with itself. -/
theorem isFinite_of_isFinite {a : Float32} (h : Scalar.isFinite a = true) :
    (unpack a).isFinite = true := by
  have hcompare : (reread (UnpackedFloat.sub .binary32 (unpack a) (unpack a))).beq
      (.zero .positive) = true := h
  generalize unpack a = u at hcompare
  cases u with
  | infinity s => cases s <;> cases hcompare
  | notANumber => cases hcompare
  | zero s => rfl
  | finite s m e hm => rfl

/-- A number whose square is finite does not have a large exponent. -/
theorem exponent_of_square {a : Float32} (h : (unpack (a * a)).isFinite = true) :
    (∃ s, unpack a = .zero s) ∨ ∃ s m e hm, unpack a = .finite s m e hm ∧ e ≤ 52 := by
  rw [unpack_mul] at h
  cases ha : unpack a with
  | infinity s =>
    rw [ha] at h
    cases s <;> cases h
  | notANumber =>
    rw [ha] at h
    cases h
  | zero s => exact .inl ⟨s, rfl⟩
  | finite s m e hm =>
    refine .inr ⟨s, m, e, hm, rfl, ?_⟩
    by_contra hlarge
    have hmantissa := (mantissa_of_unpack ha).2 (by omega)
    have hproduct : 2 ^ 23 * 2 ^ 23 ≤ m * m := Nat.mul_le_mul hmantissa hmantissa
    have hlog : 46 ≤ (m * m).log2 := (Nat.le_log2 (by omega)).mpr hproduct
    rw [ha] at h
    change (reread (roundWithAccuracy .binary32 (s * s) (m * m) (e + e) .exact)).isFinite = true at h
    have hfirst := excess_eq (m * m) (e + e)
    rcases roundWithAccuracy_cases (s * s) (m * m) (e + e) .exact with
      ⟨r, hr, _, _, ⟨hzero, _⟩ | ⟨hpos, hfinite⟩⟩
    · have hleft := shifted_pos (m := m * m) (e := e + e) (by omega) (by omega)
      have hne : r ≠ 0 := fun h => hleft (Nat.le_zero.mp (h ▸ hr))
      exact shifted_pos hne (by omega) hzero
    · rw [hfinite, reread_of_huge hpos (by omega)] at h
      cases h

/-- A quotient of mantissas has one digit before the point at most. -/
theorem divCore_bounds {m n : Nat} (hm : m < 2 ^ 24) (hn : 2 ^ 23 ≤ n) (e f : Int) :
    (divCore .binary32 m e n f).2.1 ≤ e - f ∧
      ((divCore .binary32 m e n f).1.log2 : Int) + (divCore .binary32 m e n f).2.1 ≤ e - f := by
  unfold divCore
  dsimp only
  have hle : min (e - f) (Format.binary32.targetExponent (totalExponent m e - totalExponent n f)) ≤
    e - f := min_le_left _ _
  generalize min (e - f) _ = target at hle ⊢
  refine ⟨hle, ?_⟩
  generalize hshift : (e - f - target).toNat = shift
  have hlt : m <<< shift / n < 2 ^ (shift + 1) := by
    rw [Nat.shiftLeft_eq]
    refine (Nat.div_lt_iff_lt_mul (by omega)).mpr ?_
    calc m * 2 ^ shift < 2 ^ 24 * 2 ^ shift := Nat.mul_lt_mul_of_pos_right hm (Nat.two_pow_pos _)
      _ = 2 ^ (shift + 1) * 2 ^ 23 := by
        rw [← Nat.pow_add, ← Nat.pow_add]
        congr 1
        omega
      _ ≤ 2 ^ (shift + 1) * n := Nat.mul_le_mul_left _ hn
  have hlog : (m <<< shift / n).log2 < shift + 1 := by
    rcases Nat.eq_zero_or_pos (m <<< shift / n) with hzero | hpos
    · rw [hzero]
      exact Nat.succ_pos shift
    · exact (Nat.log2_lt hpos.ne').mpr hlt
  omega

/-- A quotient of a number without a large exponent by one that exceeds `Scalar.epsilon`. -/
theorem isFinite_div {a b : Float32}
    (ha : (∃ s, unpack a = .zero s) ∨ ∃ s m e hm, unpack a = .finite s m e hm ∧ e ≤ 52)
    (hb : Scalar.epsilon < b) (hfinite : (unpack b).isFinite = true) :
    (unpack (a / b)).isFinite = true := by
  have hepsilon : unpack (Scalar.epsilon : Float32) = .finite .positive (2 ^ 23) (-46) (by decide) :=
    rfl
  rw [lt_iff, hepsilon] at hb
  rw [unpack_div]
  cases hu : unpack b with
  | infinity s =>
    rw [hu] at hfinite
    cases hfinite
  | notANumber =>
    rw [hu] at hfinite
    cases hfinite
  | zero s =>
    rw [hu] at hb
    cases hb
  | finite s n f hn =>
    rw [hu] at hb
    -- below that exponent no divisor would exceed the threshold
    have hf : -46 ≤ f := by
      cases s with
      | negative => cases hb
      | positive =>
        by_contra hsmall
        have hgt : compare (-46 : Int) f = .gt := compare_gt_iff_gt.mpr (by omega)
        change some ((compare (-46 : Int) f).then (compare (2 ^ 23) n)) = some .lt at hb
        rw [hgt] at hb
        cases hb
    have hmantissa := (mantissa_of_unpack hu).2 (by omega)
    rcases ha with ⟨t, hzero⟩ | ⟨t, m, e, hm, heq, he⟩
    · rw [hzero]
      change (reread (.zero (t / s))).isFinite = true
      rw [reread_zero]
      rfl
    · have hlt := (mantissa_of_unpack heq).1
      rw [heq]
      change (reread (roundWithAccuracy .binary32 (t / s) (divCore .binary32 m e n f).1
        (divCore .binary32 m e n f).2.1 (divCore .binary32 m e n f).2.2)).isFinite = true
      rcases divCore_bounds hlt hmantissa e f with ⟨hle, hlog⟩
      have hround := exponent_roundWithAccuracy (t / s) (divCore .binary32 m e n f).2.2
        (hle.trans (by omega : e - f ≤ 98)) (hlog.trans (by omega)) (by decide)
      rcases hround with hround | ⟨k, g, hk, hg, hround⟩
      · rw [hround, reread_zero]
        rfl
      · rw [hround]
        exact isFinite_reread hk (by omega)

/-! ## Directions -/

/-- The direction of a vector is finite in all components. -/
theorem isFinite_direction (v : Vec3 Float32) {c : Float32} (hc : c = v.x ∨ c = v.y ∨ c = v.z)
    (hlength : Scalar.epsilon < v.length) (hfinite : Scalar.isFinite v.length = true) :
    (unpack (c / v.length)).isFinite = true := by
  have hlast := isFinite_of_isFinite hfinite
  have hsum := isFinite_of_add (isFinite_of_sqrt hlast)
  have hfirst := isFinite_of_add hsum.1
  refine isFinite_div (exponent_of_square ?_) hlength hlast
  rcases hc with rfl | rfl | rfl
  · exact hfirst.1
  · exact hfirst.2
  · exact hsum.2

/-- A finite number does not show in a product with a quotient of zero. -/
theorem same_mul_zero_div {d : Float32} (hd : (unpack d).isFinite = true) (a : Float32) :
    Scalar.Same (d * (0 / a)) (0 * (0 / a)) := by
  have hzero : unpack (0 : Float32) = .zero .positive := rfl
  have hquotient : (∃ s, unpack (0 / a) = .zero s) ∨ unpack (0 / a) = .notANumber := by
    rw [unpack_div, hzero]
    cases unpack a with
    | infinity s => exact .inl ⟨_, reread_zero _⟩
    | notANumber => exact .inr reread_notANumber
    | zero s => exact .inr reread_notANumber
    | finite s m e hm => exact .inl ⟨_, reread_zero _⟩
  generalize (0 : Float32) / a = q at hquotient ⊢
  rcases hquotient with ⟨s, hq⟩ | hq
  · refine .inr ?_
    show (unpack (d * q)).beq (unpack (0 * q)) = true
    rw [unpack_mul, unpack_mul, hq, hzero]
    cases hu : unpack d with
    | infinity t =>
      rw [hu] at hd
      cases hd
    | notANumber =>
      rw [hu] at hd
      cases hd
    | zero t =>
      show (reread (.zero (t * s))).beq (reread (.zero (.positive * s))) = true
      rw [reread_zero, reread_zero]
      rfl
    | finite t m e hm =>
      show (reread (.zero (t * s))).beq (reread (.zero (.positive * s))) = true
      rw [reread_zero, reread_zero]
      rfl
  · -- all products with what is no number are written with the same bits
    have hproduct : ∀ b : Float32, b * q = .ofModel (.pack .notANumber) := by
      intro b
      show Float32.ofModel (.pack (UnpackedFloat.mul .binary32 (unpack b) (unpack q))) = _
      rw [hq]
      cases unpack b <;> rfl
    exact .inl ((hproduct d).trans (hproduct 0).symm)

end Single

instance : LawfulDirections Float32 where
  still v dt := by
    unfold Vec3.directionAndLength
    split
    case isTrue h =>
      rcases h with ⟨hlength, hfinite⟩
      exact ⟨Single.same_mul_zero_div (Single.isFinite_direction v (.inl rfl) hlength hfinite) _,
        Single.same_mul_zero_div (Single.isFinite_direction v (.inr (.inl rfl)) hlength hfinite) _,
        Single.same_mul_zero_div (Single.isFinite_direction v (.inr (.inr rfl)) hlength hfinite) _⟩
    case isFalse => exact .refl _

end TetheredParticles
