import TetheredParticles.Proofs.Scalar.Pulls
/-!
# Bounds in single precision

What is rounded does not pass a number that fits. From bounds of the operands one can therefore tell a
bound of every result, and that it is finite; and a divisor that is not less than some positive number is
not zero.

* `Single.atMost_add`, `Single.atMost_sub`, `Single.atMost_mul_of_le`, `Single.atMost_sqrt` — bounds of
  results, from above.
* `Single.AtLeast` — positive numbers, from below.
* `Single.Bounded`, `Single.bounded_direction`, `Single.atMost_length` — vectors, directions and lengths.
-/

namespace TetheredParticles

/-- A number that in size does not exceed `bound`. -/
def Scalar.Within {S : Type} [Scalar S] (bound a : S) : Prop := -bound ≤ a ∧ a ≤ bound

instance {S : Type} [Scalar S] (bound a : S) : Decidable (Scalar.Within bound a) :=
  inferInstanceAs (Decidable (_ ∧ _))

/-- All components are in size at most `bound`. -/
def Vec3.Within {S : Type} [Scalar S] (bound : S) (v : Vec3 S) : Prop :=
  Scalar.Within bound v.x ∧ Scalar.Within bound v.y ∧ Scalar.Within bound v.z

instance {S : Type} [Scalar S] (bound : S) (v : Vec3 S) : Decidable (v.Within bound) :=
  inferInstanceAs (Decidable (_ ∧ _))

open Float.Model Float.Model.UnpackedFloat

namespace Single

variable {a b : Float32} {p q : Rat} {k : Nat} {i : Int}

/-! ## Products are rounded ones -/

theorem SignedRounding.neg {u : UnpackedFloat} (h : SignedRounding u q) : SignedRounding u.neg (-q) := by
  rcases h with ⟨hq, h⟩ | ⟨hq, h⟩
  · refine .inr ⟨neg_nonpos.mpr hq, ?_⟩
    rwa [neg_neg_eq, neg_neg]
  · exact .inl ⟨neg_nonneg.mpr hq, h⟩

/-- A product of finite numbers is the rounding of the exact one. -/
theorem rounding_mul (ha : (unpack a).isFinite = true) (hb : (unpack b).isFinite = true) :
    SignedRounding (unpack (a * b)) (value a * value b) := by
  have hzero : ∀ s, SignedRounding (reread (.zero s)) 0 := fun s => by
    rw [reread_zero]
    exact .inl ⟨le_rfl, isRounding_zero s⟩
  rw [unpack_mul]
  rcases cases_of_isFinite ha with ⟨s, ha⟩ | ⟨s, m, e, hm, ha⟩
  · rw [value_of_zero ha, zero_mul, ha]
    rcases cases_of_isFinite hb with ⟨t, hb⟩ | ⟨t, n, f, hn, hb⟩ <;> rw [hb] <;> exact hzero _
  rcases cases_of_isFinite hb with ⟨t, hb⟩ | ⟨t, n, f, hn, hb⟩
  · rw [value_of_zero hb, mul_zero, ha, hb]
    exact hzero _
  · have hdigits : e + f ≤ max (((m * n).log2 : Int) - 23 + (e + f)) (-149) := by
      rcases (fitted_of_unpack ha).mul_full (fitted_of_unpack hb) hm hn with hfull | hleast
      · have hlog : 23 ≤ (m * n).log2 := (Nat.le_log2 (by omega)).mpr hfull
        omega
      · omega
    have hround := isRounding_roundWithAccuracy hdigits
    have hproduct : ((m * n : Nat) : Rat) * 2 ^ (e + f) = m * 2 ^ e * (n * 2 ^ f) := by
      rw [zpow_add₀ two_ne_zero]
      push_cast
      ring
    rw [hproduct] at hround
    have hpositive : SignedRounding (reread (roundWithAccuracy .binary32 .positive (m * n) (e + f) .exact))
        (m * 2 ^ e * (n * 2 ^ f)) := .inl ⟨by positivity, hround⟩
    have hnegative := hpositive.neg
    rw [← reread_neg, neg_roundWithAccuracy] at hnegative
    have hvalues : value a * value b = s.apply m * 2 ^ e * (t.apply n * 2 ^ f) := by
      unfold value
      rw [ha, hb]
    rw [hvalues, ha, hb]
    -- the sign of the product is put in after rounding
    show SignedRounding (reread (roundWithAccuracy .binary32 (s * t) (m * n) (e + f) .exact)) _
    have hflip : ∀ r : Nat, ((Sign.apply .negative r : Int) : Rat) = -r := fun r => by
      show ((-(r : Int) : Int) : Rat) = -r
      push_cast
      rfl
    have hkeep : ∀ r : Nat, ((Sign.apply .positive r : Int) : Rat) = r := fun r => Int.cast_natCast r
    cases s <;> cases t <;> simp only [hflip, hkeep, neg_mul, mul_neg, neg_neg]
    · exact hpositive
    · exact hnegative
    · exact hnegative
    · exact hpositive

/-! ## Bounds from above -/

theorem AtMost.mono (h : AtMost a p) (hpq : p ≤ q) : AtMost a q := by
  rcases h with h | ⟨s, m, e, hm, h, hle⟩
  · exact .inl h
  · exact .inr ⟨s, m, e, hm, h, hle.trans hpq⟩

/-- A bound is one of the value. -/
theorem AtMost.abs_value (h : AtMost a q) (hq : 0 ≤ q) : |value a| ≤ q := by
  rcases h with ⟨s, h⟩ | ⟨s, m, e, hm, h, hle⟩
  · rw [value_of_zero h, abs_zero]
    exact hq
  · have hvalue : |value a| = m * 2 ^ e := by
      unfold value
      rw [h, abs_mul, abs_of_pos (by positivity : (0 : Rat) < 2 ^ e)]
      congr 1
      cases s
      · show |((-(m : Int) : Int) : Rat)| = m
        rw [Int.cast_neg, abs_neg, Int.cast_natCast, Nat.abs_cast]
      · show |((m : Int) : Rat)| = m
        rw [Int.cast_natCast, Nat.abs_cast]
    exact hvalue.trans_le hle

/-- A number that lies between two opposite ones. -/
theorem atMost_of_between {u : UnpackedFloat} {hk : 0 < k} (hu : u = unpack a) (hfit : Fitted k i)
    (hle : (u.compare (.finite .positive k i hk)).any (·.isLE) = true)
    (hge : ((UnpackedFloat.finite .negative k i hk).compare u).any (·.isLE) = true) :
    AtMost a (k * 2 ^ i) := by
  subst hu
  match hu : unpack a, hle, hge with
  | .zero s, _, _ => exact .inl ⟨s, hu⟩
  | .infinity .positive, hle, _ => cases hle
  | .infinity .negative, _, hge => cases hge
  | .finite .positive m e hm, hle, _ =>
    exact .inr ⟨_, m, e, hm, hu, (isLE_compare_iff (fitted_of_unpack hu) hfit).mp hle⟩
  | .finite .negative m e hm, _, hge =>
    refine .inr ⟨_, m, e, hm, hu, (isLE_compare_iff (fitted_of_unpack hu) hfit).mp ?_⟩
    rw [← swap_compare]
    exact hge

/-- A positive number that needs no rounding. -/
def Representable (q : Rat) : Prop := ∃ k i, 0 < k ∧ Fitted k i ∧ i ≤ 104 ∧ q = k * 2 ^ i

theorem representable_of_full {k : Nat} {i : Int} (hfull : 2 ^ 23 ≤ k) (hlt : k < 2 ^ 24)
    (hleast : -149 ≤ i) (hi : i ≤ 104) : Representable (k * 2 ^ i) :=
  ⟨k, i, by omega, ⟨hlt, hleast, fun _ => hfull⟩, hi, rfl⟩

/-- Multiples by powers of two have the same digits. -/
theorem representable_mul_two_pow {m d : Nat} {e : Int} (hfull : 2 ^ 23 ≤ m) (hlt : m < 2 ^ 24)
    (hleast : -149 ≤ e) (he : e + d ≤ 104) : Representable (m * 2 ^ e * 2 ^ d) := by
  have hpower : (m : Rat) * 2 ^ e * 2 ^ d = m * 2 ^ (e + d) := by
    rw [zpow_add₀ two_ne_zero, zpow_natCast, mul_assoc]
  rw [hpower]
  exact representable_of_full hfull hlt (by omega) he

/-- Small multiples of powers of two need no rounding. -/
theorem representable_of_eq {m d : Nat} (hm : 0 < m) (hlt : m < 2 ^ k) (hk : k ≤ 24) (hd : k + d ≤ 128)
    (h : q = m * 2 ^ d) : Representable q := by
  have hlog := (Nat.log2_lt hm.ne').mpr hlt
  -- digits are filled up with zeros
  have hfull : 2 ^ 23 ≤ m * 2 ^ (23 - m.log2) := by
    calc 2 ^ 23 = 2 ^ m.log2 * 2 ^ (23 - m.log2) := by rw [← pow_add]; congr 1; omega
      _ ≤ m * 2 ^ (23 - m.log2) := Nat.mul_le_mul_right _ (Nat.log2_self_le hm.ne')
  have hdigits : m * 2 ^ (23 - m.log2) < 2 ^ 24 := by
    calc m * 2 ^ (23 - m.log2) < 2 ^ (m.log2 + 1) * 2 ^ (23 - m.log2) :=
          Nat.mul_lt_mul_of_pos_right Nat.lt_log2_self (by positivity)
      _ = 2 ^ 24 := by rw [← pow_add]; congr 1; omega
  have hshift := representable_of_full (i := d - (23 - m.log2)) hfull hdigits (by omega) (by omega)
  have hvalue : ((m * 2 ^ (23 - m.log2) : Nat) : Rat) * 2 ^ ((d : Int) - (23 - m.log2)) = m * 2 ^ d := by
    have hpowers : (2 : Rat) ^ (23 - m.log2) * 2 ^ ((d : Int) - (23 - m.log2)) = 2 ^ d := by
      rw [← zpow_natCast, ← zpow_natCast, ← zpow_add₀ two_ne_zero]
      congr 1
      omega
    rw [Nat.cast_mul, Nat.cast_pow, Nat.cast_ofNat, mul_assoc, hpowers]
  rw [h, ← hvalue]
  exact hshift

theorem representable_two_pow {n : Int} (hleast : -126 ≤ n) (hn : n ≤ 127) :
    Representable (2 ^ n) := by
  have hpower : (2 : Rat) ^ n = (2 ^ 23 : Nat) * 2 ^ (n - 23) := by
    rw [Nat.cast_pow, Nat.cast_ofNat, ← zpow_natCast, ← zpow_add₀ two_ne_zero]
    congr 1
    omega
  rw [hpower]
  exact representable_of_full le_rfl (by norm_num) (by omega) (by omega)

theorem Representable.pos (h : Representable q) : 0 < q := by
  rcases h with ⟨k, i, hk, _, _, rfl⟩
  have hcast : (0 : Rat) < k := Nat.cast_pos.mpr hk
  positivity

/-- What does not exceed a number that fits does not exceed it after rounding. -/
theorem atMost_of_rounding (h : SignedRounding (unpack a) p) (hq : Representable q)
    (hp : |p| ≤ q) : AtMost a q := by
  rcases hq with ⟨k, i, hk, hfit, hi, rfl⟩
  have hbound : Number (.finite .positive k i hk) (k * 2 ^ i) := by
    refine .inr ⟨.positive, k, i, hk, rfl, hfit, hi, ?_⟩
    show _ = ((k : Int) : Rat) * _
    rw [Int.cast_natCast]
  rcases abs_le.mp hp with ⟨hlower, hupper⟩
  exact atMost_of_between rfl hfit (h.le hbound.rounding hupper) (hbound.neg.rounding.le h hlower)

section

variable {r : Rat} (ha : AtMost a p) (hb : AtMost b q) (hp : 0 ≤ p) (hq : 0 ≤ q)

include ha hb hp hq

theorem atMost_add (hr : Representable r) (h : p + q ≤ r) : AtMost (a + b) r := by
  refine atMost_of_rounding (rounding_add ha.isFinite hb.isFinite) hr ?_
  have hsum := abs_add_le (value a) (value b)
  linarith [ha.abs_value hp, hb.abs_value hq]

theorem atMost_sub (hr : Representable r) (h : p + q ≤ r) : AtMost (a - b) r := by
  refine atMost_of_rounding (rounding_sub ha.isFinite hb.isFinite) hr ?_
  have hdifference := abs_sub (value a) (value b)
  linarith [ha.abs_value hp, hb.abs_value hq]

theorem atMost_mul_of_le (hr : Representable r) (h : p * q ≤ r) : AtMost (a * b) r := by
  refine atMost_of_rounding (rounding_mul ha.isFinite hb.isFinite) hr ?_
  rw [abs_mul]
  exact (mul_le_mul (ha.abs_value hp) (hb.abs_value hq) (abs_nonneg _) hp).trans h

end

theorem unpack_neg (a : Float32) : unpack (-a) = (unpack a).neg := by
  show reread (unpack a).neg = _
  rw [reread_neg, reread_unpack]

theorem AtMost.neg (h : AtMost a q) : AtMost (-a) q := by
  unfold AtMost
  rw [unpack_neg]
  rcases h with ⟨s, h⟩ | ⟨s, m, e, hm, h, hle⟩ <;> rw [h]
  · exact .inl ⟨-s, rfl⟩
  · exact .inr ⟨-s, m, e, hm, rfl, hle⟩

/-- If the smaller one of two bounds makes no difference to the larger one, it makes none to what is
below them either. -/
theorem atMost_add_of_still {x y : Float32} {n : Nat} {f : Int} {hk : 0 < k} {hn : 0 < n}
    (hx : unpack x = .finite .positive k i hk) (hy : unpack y = .finite .positive n f hn)
    (hstill : unpack (x + y) = unpack x) (ha : AtMost a (k * 2 ^ i)) (hb : AtMost b (n * 2 ^ f)) :
    AtMost (a + b) (k * 2 ^ i) := by
  have hbounds := rounding_add (a := x) (b := y) (by rw [hx]; rfl) (by rw [hy]; rfl)
  rw [hstill, value_of_unpack hx, value_of_unpack hy, hx] at hbounds
  have hsum := rounding_add ha.isFinite hb.isFinite
  rcases abs_le.mp (ha.abs_value (by positivity)) with ⟨halower, haupper⟩
  rcases abs_le.mp (hb.abs_value (by positivity)) with ⟨hblower, hbupper⟩
  exact atMost_of_between rfl (fitted_of_unpack hx) (hsum.le hbounds (by linarith))
    (hbounds.neg.le hsum (by linarith))

/-- Everything that is finite is within the range of exponents. -/
theorem atMost_of_isFinite (h : (unpack a).isFinite = true) : AtMost a (2 ^ (128 : Int)) := by
  rcases cases_of_isFinite h with hzero | ⟨s, m, e, hm, ha⟩
  · exact .inl hzero
  · have hdigits : (m : Rat) ≤ 2 ^ (24 : Int) := by exact_mod_cast (fitted_of_unpack ha).lt.le
    have hpower : (2 : Rat) ^ e ≤ 2 ^ (104 : Int) :=
      zpow_le_zpow_right₀ one_le_two (exponent_of_unpack ha).2
    refine .inr ⟨s, m, e, hm, ha, ?_⟩
    calc (m : Rat) * 2 ^ e ≤ 2 ^ (24 : Int) * 2 ^ (104 : Int) :=
          mul_le_mul hdigits hpower (by positivity) (by positivity)
      _ = 2 ^ (128 : Int) := by norm_num

/-- The root of a number that does not exceed a square. -/
theorem atMost_sqrt (ha : 0 ≤ a) (h : AtMost a (q * q)) (hq : Representable q) :
    AtMost (Scalar.sqrt a) q := by
  rcases hq with ⟨k, i, hk, hfit, hi, rfl⟩
  rcases cases_of_nonneg ha h.isFinite with ⟨s, ha⟩ | ⟨n, f, hn, ha⟩
  · refine .inl ⟨s, ?_⟩
    rw [unpack_sqrt, ha]
    exact reread_zero s
  have hle : (n : Rat) * 2 ^ f ≤ k * 2 ^ i * (k * 2 ^ i) := by
    rcases h with ⟨s, h⟩ | ⟨s, m, e, hm, h, hle⟩ <;> rw [ha] at h
    · cases h
    · rw [UnpackedFloat.finite.injEq] at h
      rw [h.2.1, h.2.2]
      exact hle
  have hlog : n.log2 < 24 := (Nat.log2_lt hn.ne').mpr (fitted_of_unpack ha).lt
  have hexponent := exponent_of_unpack ha
  rcases exists_rooted hn hlog (by omega) hexponent.2 with ⟨root, d, t, hroot⟩
  have hread : unpack (Scalar.sqrt a) =
      reread (roundWithAccuracy .binary32 .positive root t (rootAccuracy (n * 2 ^ d) root)) := by
    have hcore : unpack (Scalar.sqrt a) = reread (roundWithAccuracy .binary32 .positive
        (sqrtCore .binary32 n f).1 (sqrtCore .binary32 n f).2.1 (sqrtCore .binary32 n f).2.2) := by
      rw [unpack_sqrt, ha]
      rfl
    rw [hcore, hroot.core]
  -- the square of what is cut off to is at most the radicand
  have hsquare : (root : Rat) * 2 ^ t * (root * 2 ^ t) ≤ n * 2 ^ f := by
    have hroots : (root : Rat) * root ≤ n * 2 ^ d := by exact_mod_cast hroot.le
    calc (root : Rat) * 2 ^ t * (root * 2 ^ t) = root * root * 2 ^ (t + t) := by
          rw [zpow_add₀ two_ne_zero]
          ring
      _ ≤ n * 2 ^ d * 2 ^ (t + t) := mul_le_mul_of_nonneg_right hroots (by positivity)
      _ = n * 2 ^ f := by rw [hroot.scale, mul_assoc]
  refine atMost_of_unpack hread (.inl hroot.full) hfit hi ?_ fun hsame => ?_
  · exact (mul_self_le_mul_self_iff (by positivity) (by positivity)).mpr (hsquare.trans hle)
  · -- if the bound is reached, nothing has been cut off
    have hexact : (n : Rat) * 2 ^ f = root * 2 ^ t * (root * 2 ^ t) :=
      le_antisymm (hsame ▸ hle) hsquare
    have hroots : (n : Rat) * 2 ^ d = root * root := by
      have hpos : (0 : Rat) < 2 ^ (t + t) := by positivity
      refine mul_right_cancel₀ hpos.ne' ?_
      rw [mul_assoc, ← hroot.scale, hexact, zpow_add₀ two_ne_zero]
      ring
    have hnat : n * 2 ^ d = root * root := by exact_mod_cast hroots
    unfold rootAccuracy
    rw [hnat, Nat.sub_self, if_pos rfl]

/-! ## Bounds from below -/

/-- A positive number, which may be infinite, is not less than a bound. -/
def AtLeast (a : Float32) (q : Rat) : Prop :=
  unpack a = .infinity .positive ∨ ∃ m e h, unpack a = .finite .positive m e h ∧ q ≤ m * 2 ^ e

theorem atLeast_of_unpack {n : Nat} {f : Int} {hn : 0 < n} (ha : unpack a = .finite .positive n f hn) :
    AtLeast a (n * 2 ^ f) :=
  .inr ⟨n, f, hn, ha, le_rfl⟩

theorem AtLeast.mono (h : AtLeast a q) (hpq : p ≤ q) : AtLeast a p := by
  rcases h with h | ⟨m, e, hm, h, hle⟩
  · exact .inl h
  · exact .inr ⟨m, e, hm, h, hpq.trans hle⟩

theorem AtLeast.pos (h : AtLeast a q) : 0 < a := by
  rw [lt_iff]
  rcases h with h | ⟨m, e, hm, h, _⟩ <;> rw [h] <;> rfl

theorem AtLeast.nonneg (h : AtLeast a q) : 0 ≤ a := Scalar.le_of_lt h.pos

/-- What is not less than a positive number is at least its value. -/
theorem atLeast_of_le {n : Nat} {f : Int} {hn : 0 < n} (ha : unpack a = .finite .positive n f hn)
    (h : a ≤ b) : AtLeast b (n * 2 ^ f) := by
  rw [le_iff, ha] at h
  match hb : unpack b, h with
  | .infinity .positive, _ => exact .inl hb
  | .finite .positive m e hm, h =>
    exact .inr ⟨m, e, hm, hb, (isLE_compare_iff (fitted_of_unpack ha) (fitted_of_unpack hb)).mp h⟩

theorem AtLeast.of_le (h : AtLeast a q) (hab : a ≤ b) : AtLeast b q := by
  rcases h with h | ⟨m, e, hm, h, hle⟩
  · rw [le_iff, h] at hab
    match hb : unpack b, hab with
    | .infinity .positive, _ => exact .inl hb
  · exact (atLeast_of_le h hab).mono hle

/-- What is not less than a number that fits is not less than it after rounding. -/
theorem atLeast_of_rounding (h : IsRounding (unpack a) p) (hq : Representable q) (hqp : q ≤ p) :
    AtLeast a q := by
  rcases hq with ⟨k, i, hk, hfit, hi, rfl⟩
  have hle := (isRounding_of_fitted hk hfit hi).le h hqp
  match ha : unpack a, hle with
  | .infinity .positive, _ => exact .inl ha
  | .finite .positive m e hm, hle =>
    exact .inr ⟨m, e, hm, ha, (isLE_compare_iff hfit (fitted_of_unpack ha)).mp hle⟩

theorem atLeast_mul {r : Rat} (ha : AtLeast a p) (hb : AtLeast b q) (hp : 0 < p) (hq : 0 < q)
    (hr : Representable r) (h : r ≤ p * q) : AtLeast (a * b) r := by
  -- a product with an infinite factor is infinite, and that is large enough
  have hinfinite : reread (.infinity .positive) = .infinity .positive := reread_infinity _
  rcases ha with ha | ⟨m, e, hm, ha, hle⟩ <;> rcases hb with hb | ⟨n, f, hn, hb, hle'⟩
  · exact .inl (by rw [unpack_mul, ha, hb]; exact hinfinite)
  · exact .inl (by rw [unpack_mul, ha, hb]; exact hinfinite)
  · exact .inl (by rw [unpack_mul, ha, hb]; exact hinfinite)
  · have hround := rounding_mul (a := a) (b := b) (by rw [ha]; rfl) (by rw [hb]; rfl)
    rw [value_of_unpack ha, value_of_unpack hb] at hround
    have hproduct : r ≤ (m : Rat) * 2 ^ e * (n * 2 ^ f) :=
      h.trans (mul_le_mul hle hle' hq.le (hp.le.trans hle))
    rcases hround with ⟨_, hround⟩ | ⟨hneg, _⟩
    · exact atLeast_of_rounding hround hr hproduct
    · exact absurd (hr.pos.trans_le hproduct) (not_lt.mpr hneg)

/-- Dividing by a number that is not too small gives a finite number. -/
theorem atMost_div_of_atLeast {r : Rat} (hb : AtLeast b q) (hr : Representable r)
    (ha : AtMost a (r * q)) : AtMost (a / b) r := by
  rcases hb with hb | ⟨n, f, hn, hb, hle⟩
  · rcases beq_zero_iff.mp (div_infinity ha.isFinite hb) with hzero
    exact .inl hzero
  · have hbound := ha.mono (mul_le_mul_of_nonneg_left hle hr.pos.le)
    rcases hr with ⟨k, i, _, hfit, hi, rfl⟩
    exact atMost_div_of_le hb hfit hi hbound

/-- The sign of a quotient by a positive number. -/
theorem div_nonneg_of_atLeast (ha : 0 ≤ a) (hfinite : (unpack a).isFinite = true) (hb : AtLeast b q) :
    0 ≤ a / b := by
  rcases hb with hb | ⟨n, f, hn, hb, _⟩
  · exact (Scalar.beq_iff.mp (div_infinity hfinite hb)).2
  · exact div_nonneg ha hb

/-! ## Vectors with bounds -/

/-- All components are finite and in size at most `q`. -/
def Bounded (v : Vec3 Float32) (q : Rat) : Prop := AtMost v.x q ∧ AtMost v.y q ∧ AtMost v.z q

variable {v w : Vec3 Float32} {r : Rat}

theorem Bounded.mono (h : Bounded v p) (hpq : p ≤ q) : Bounded v q :=
  ⟨h.1.mono hpq, h.2.1.mono hpq, h.2.2.mono hpq⟩

theorem Bounded.isFinite (h : Bounded v q) : v.IsFinite :=
  ⟨isFinite_iff.mpr h.1.isFinite, isFinite_iff.mpr h.2.1.isFinite, isFinite_iff.mpr h.2.2.isFinite⟩

section

variable (hp : 0 ≤ p) (hq : 0 ≤ q) (hr : Representable r)

include hp hq hr

theorem Bounded.add (hv : Bounded v p) (hw : Bounded w q) (h : p + q ≤ r) : Bounded (v + w) r :=
  ⟨atMost_add hv.1 hw.1 hp hq hr h, atMost_add hv.2.1 hw.2.1 hp hq hr h,
    atMost_add hv.2.2 hw.2.2 hp hq hr h⟩

theorem Bounded.sub (hv : Bounded v p) (hw : Bounded w q) (h : p + q ≤ r) : Bounded (v - w) r :=
  ⟨atMost_sub hv.1 hw.1 hp hq hr h, atMost_sub hv.2.1 hw.2.1 hp hq hr h,
    atMost_sub hv.2.2 hw.2.2 hp hq hr h⟩

theorem Bounded.mul (hv : Bounded v p) (ha : AtMost a q) (h : p * q ≤ r) : Bounded (v * a) r :=
  ⟨atMost_mul_of_le hv.1 ha hp hq hr h, atMost_mul_of_le hv.2.1 ha hp hq hr h,
    atMost_mul_of_le hv.2.2 ha hp hq hr h⟩

end

theorem atMost_zero (q : Rat) : AtMost 0 q := .inl ⟨.positive, rfl⟩

theorem bounded_zero (q : Rat) : Bounded 0 q := ⟨atMost_zero q, atMost_zero q, atMost_zero q⟩

/-- A number between two opposite ones. -/
theorem atMost_of_within {n : Nat} {f : Int} {hn : 0 < n} (hb : unpack b = .finite .positive n f hn)
    (h : Scalar.Within b a) : AtMost a (n * 2 ^ f) := by
  rcases h with ⟨hlower, hupper⟩
  rw [le_iff, hb] at hupper
  rw [le_iff, unpack_neg, hb] at hlower
  exact atMost_of_between rfl (fitted_of_unpack hb) hupper hlower

/-- Components of a direction do not exceed one. -/
theorem bounded_direction (v : Vec3 Float32) : Bounded v.directionAndLength.1 1 := by
  unfold Vec3.directionAndLength
  split
  case isTrue husable =>
    have hunit : ∀ c, c = v.x ∨ c = v.y ∨ c = v.z → AtMost (c / v.length) 1 := by
      intro c hc
      rcases component_le_length v hc husable.1 husable.2 with ⟨n, f, hn, hlength, hle⟩
      exact atMost_div hlength hle
    exact ⟨hunit _ (.inl rfl), hunit _ (.inr (.inl rfl)), hunit _ (.inr (.inr rfl))⟩
  case isFalse => exact bounded_zero 1

/-- A length of a vector with components up to `2 ^ 21`. -/
theorem atMost_length_of_bounded (h : Bounded v (2 ^ (21 : Int))) :
    AtMost v.directionAndLength.2 (7 * 2 ^ (19 : Int)) := by
  have hsquare : ∀ c, AtMost c (2 ^ (21 : Int)) → AtMost (c * c) (2 ^ (42 : Int)) ∧ 0 ≤ c * c := by
    intro c hc
    refine ⟨atMost_mul_of_le hc hc (by positivity) (by positivity)
      (representable_two_pow (by norm_num) (by norm_num)) (by norm_num), ?_⟩
    refine LawfulDistances.mul_self_nonneg c (isNumber_iff.mpr fun hnot => ?_)
    have hfinite := hc.isFinite
    rw [hnot] at hfinite
    cases hfinite
  have hx := hsquare _ h.1
  have hy := hsquare _ h.2.1
  have hz := hsquare _ h.2.2
  have hseven : Representable (7 * 2 ^ (19 : Int)) :=
    representable_of_eq (m := 7) (k := 3) (d := 19) (by norm_num) (by norm_num) (by norm_num)
      (by norm_num) (by norm_num)
  have hthree : Representable (3 * 2 ^ (42 : Int)) :=
    representable_of_eq (m := 3) (k := 2) (d := 42) (by norm_num) (by norm_num) (by norm_num)
      (by norm_num) (by norm_num)
  have hfirst : AtMost (v.x * v.x + v.y * v.y) (2 ^ (43 : Int)) :=
    atMost_add hx.1 hy.1 (by positivity) (by positivity)
      (representable_two_pow (by norm_num) (by norm_num)) (by norm_num)
  have hdot : AtMost (v.dot v) (3 * 2 ^ (42 : Int)) :=
    atMost_add hfirst hz.1 (by positivity) (by positivity) hthree (by norm_num)
  have hlength : AtMost v.length (7 * 2 ^ (19 : Int)) :=
    atMost_sqrt (add_nonneg (add_nonneg hx.2 hy.2) hz.2) (hdot.mono (by norm_num)) hseven
  unfold Vec3.directionAndLength
  split
  · exact hlength
  · exact atMost_zero _

/-- A length is never larger than the root of the largest number: there is none of a vector whose square
is not finite. -/
theorem atMost_length (v : Vec3 Float32) : AtMost v.directionAndLength.2 (2 ^ (64 : Int)) := by
  unfold Vec3.directionAndLength
  split
  case isFalse => exact atMost_zero _
  case isTrue husable =>
    have hlength := isFinite_iff.mp husable.2
    -- what has a root is not negative, and what has a finite root is finite
    have hroot : UnpackedFloat.sqrt .binary32 (unpack (v.dot v)) ≠ .notANumber := by
      intro hnot
      have hread : unpack v.length = reread .notANumber := hnot ▸ unpack_sqrt _
      rw [hread, reread_notANumber] at hlength
      cases hlength
    refine atMost_sqrt (nonneg_iff_isNonneg.mpr (isNonneg_of_sqrt hroot)) ?_
      (representable_two_pow (by norm_num) (by norm_num))
    exact (atMost_of_isFinite (isFinite_of_sqrt hlength)).mono (by norm_num)

end Single

end TetheredParticles
