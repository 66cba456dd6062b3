import TetheredParticles.Compliance
import TetheredParticles.Proofs.Scalar.Lengths
/-!
# Impulses on what weighs nothing

A constraint moves a particle by an impulse along a direction, multiplied with the inverse mass of
the particle. If the inverse mass is zero and the impulse is finite, the particle stays where it is.
In single precision an impulse is finite if its strength is, because no component of a direction
exceeds one: the root of a rounded square is not less than the number that was squared, and a
quotient that does not exceed one does not exceed it after rounding.

* `LawfulAnchors` — what is needed of scalars for particles without inverse mass to stay.
* `Single.le_sqrt` — roots of rounded squares.
* `Single.component_le_length`, `Single.atMost_div` — components of directions.
* `Single.isFinite_impulse` — impulses along directions.
-/

namespace TetheredParticles

/-- Constraints do not move what has no inverse mass. -/
class LawfulAnchors (S : Type) [Scalar S] : Prop where
  isFinite_zero : Scalar.isFinite (0 : S) = true
  /-- What weighs nothing by itself is not mobile. -/
  total_zero : ∀ z : S, (z == 0) = true → Compliance.total [z] ≤ Scalar.epsilon
  /-- A finite impulse along a direction, multiplied with zero. -/
  impulse_zero : ∀ (v : Vec3 S) (u z : S), Scalar.isFinite u = true → (z == 0) = true →
    (v.directionAndLength.1 * u * z == 0) = true
  add_zero : ∀ a z : S, (z == 0) = true → Scalar.Coincide a (a + z)
  sub_zero : ∀ a z : S, (z == 0) = true → Scalar.Coincide a (a - z)

namespace Vec3

variable {S : Type} [Scalar S] [LawfulAnchors S] {v z : Vec3 S}

omit [LawfulAnchors S] in
theorem beq_zero_iff : (z == 0) = true ↔
    (z.x == 0) = true ∧ (z.y == 0) = true ∧ (z.z == 0) = true := by
  show (z.x == 0 && z.y == 0 && z.z == 0) = true ↔ _
  rw [Bool.and_eq_true, Bool.and_eq_true, and_assoc]

theorem coincide_add (v : Vec3 S) (h : (z == 0) = true) : v.Coincide (v + z) := by
  rcases beq_zero_iff.mp h with ⟨hx, hy, hz⟩
  exact ⟨LawfulAnchors.add_zero _ _ hx, LawfulAnchors.add_zero _ _ hy,
    LawfulAnchors.add_zero _ _ hz⟩

theorem coincide_sub (v : Vec3 S) (h : (z == 0) = true) : v.Coincide (v - z) := by
  rcases beq_zero_iff.mp h with ⟨hx, hy, hz⟩
  exact ⟨LawfulAnchors.sub_zero _ _ hx, LawfulAnchors.sub_zero _ _ hy,
    LawfulAnchors.sub_zero _ _ hz⟩

end Vec3

/-! ## Exact numbers -/

instance : LawfulAnchors Rat where
  isFinite_zero := beq_iff_eq.mpr (sub_self 0)
  total_zero z hz := by
    have hzero : z = 0 := beq_iff_eq.mp hz
    subst hzero
    show -(0 : Rat) + 0 ≤ 1 / ((8388608 : UInt32).toNat : Rat)
    rw [neg_zero, add_zero]
    positivity
  impulse_zero v u z _ hz := by
    have hzero : z = 0 := beq_iff_eq.mp hz
    subst hzero
    refine Vec3.beq_zero_iff.mpr ⟨?_, ?_, ?_⟩ <;> exact beq_iff_eq.mpr (mul_zero _)
  add_zero a z hz := by
    have hzero : z = 0 := beq_iff_eq.mp hz
    exact .inl (by rw [hzero]; exact (add_zero a).symm)
  sub_zero a z hz := by
    have hzero : z = 0 := beq_iff_eq.mp hz
    exact .inl (by rw [hzero]; exact (sub_zero a).symm)

/-! ## Zeros in single precision -/

namespace Single

open Float.Model Float.Model.UnpackedFloat

variable {a b : Float32}

theorem beq_zero_iff : (a == 0) = true ↔ ∃ s, unpack a = .zero s := by
  rw [beq_iff]
  show (unpack a).compare (.zero .positive) = some .eq ↔ _
  cases unpack a with
  | zero s => exact iff_of_true rfl ⟨s, rfl⟩
  | notANumber => exact iff_of_false nofun nofun
  | infinity s => cases s <;> exact iff_of_false nofun nofun
  | finite s m e hm => cases s <;> exact iff_of_false nofun nofun

/-- A number is told by its parts. -/
theorem eq_of_unpack (h : unpack a = unpack b) : a = b :=
  Float32.toBits_inj.mp (UInt32.toBitVec_inj.mp
    ((unpack_inj_of_valid a.toModel.valid b.toModel.valid).mp h))

theorem reread_unpack (a : Float32) : reread (unpack a) = unpack a :=
  congrArg (UnpackedFloat.unpack .binary32) (pack_unpack_of_valid a.toModel.valid)

theorem coincide_add_zero (a : Float32) {z : Float32} (hz : (z == 0) = true) :
    Scalar.Coincide a (a + z) := by
  rcases beq_zero_iff.mp hz with ⟨t, ht⟩
  have hsum := unpack_add a z
  rw [ht] at hsum
  cases ha : unpack a with
  | zero s =>
    refine .inr ⟨beq_zero_iff.mpr ⟨s, ha⟩, beq_zero_iff.mpr ?_⟩
    rw [hsum, ha]
    cases s <;> cases t <;> exact ⟨_, reread_zero _⟩
  | _ =>
    have hread := reread_unpack a
    rw [ha] at hsum hread
    refine .inl (eq_of_unpack ?_)
    rw [ha, hsum]
    exact hread.symm

theorem coincide_sub_zero (a : Float32) {z : Float32} (hz : (z == 0) = true) :
    Scalar.Coincide a (a - z) := by
  rcases beq_zero_iff.mp hz with ⟨t, ht⟩
  have hdifference := unpack_sub a z
  rw [ht] at hdifference
  cases ha : unpack a with
  | zero s =>
    refine .inr ⟨beq_zero_iff.mpr ⟨s, ha⟩, beq_zero_iff.mpr ?_⟩
    rw [hdifference, ha]
    cases s <;> cases t <;> exact ⟨_, reread_zero _⟩
  | _ =>
    have hread := reread_unpack a
    rw [ha] at hdifference hread
    refine .inl (eq_of_unpack ?_)
    rw [ha, hdifference]
    exact hread.symm

theorem cases_of_isFinite (ha : (unpack a).isFinite = true) :
    (∃ s, unpack a = .zero s) ∨ ∃ s m e h, unpack a = .finite s m e h := by
  cases hu : unpack a with
  | zero s => exact .inl ⟨s, rfl⟩
  | finite s m e hm => exact .inr ⟨s, m, e, hm, rfl⟩
  | notANumber =>
    rw [hu] at ha
    cases ha
  | infinity s =>
    rw [hu] at ha
    cases ha

/-- A finite number times zero. -/
theorem mul_zero_of_isFinite (ha : (unpack a).isFinite = true) {z : Float32}
    (hz : (z == 0) = true) : (a * z == 0) = true := by
  rcases beq_zero_iff.mp hz with ⟨t, ht⟩
  rw [beq_zero_iff, unpack_mul, ht]
  rcases cases_of_isFinite ha with ⟨s, ha⟩ | ⟨s, m, e, hm, ha⟩
  · rw [ha]
    exact ⟨_, reread_zero _⟩
  · rw [ha]
    exact ⟨_, reread_zero _⟩

/-! ## Roots of squares -/

/-- The size of a number that is finite does not exceed a bound. -/
def AtMost (a : Float32) (q : Rat) : Prop :=
  (∃ s, unpack a = .zero s) ∨ ∃ s m e h, unpack a = .finite s m e h ∧ (m : Rat) * 2 ^ e ≤ q

/-- A number that exceeds `Scalar.epsilon` is written with all digits. -/
theorem Fitted.full_of_lt {m : Nat} {e : Int} (h : Fitted m e)
    (hlt : (2 : Rat) ^ (-23 : Int) < m * 2 ^ e) : 2 ^ 23 ≤ m ∧ -46 ≤ e := by
  have hexponent : -46 ≤ e := by
    by_contra hsmall
    have hm : (m : Rat) ≤ 2 ^ 24 := by exact_mod_cast h.lt.le
    have hpow : (2 : Rat) ^ e ≤ 2 ^ (-47 : Int) := zpow_le_zpow_right₀ one_le_two (by omega)
    have hle : (m : Rat) * 2 ^ e ≤ 2 ^ 24 * 2 ^ (-47 : Int) :=
      mul_le_mul hm hpow (by positivity) (by positivity)
    exact absurd (hlt.trans_le hle) (by norm_num)
  exact ⟨h.full (by omega), hexponent⟩

/-- A square is not rounded down by much: its root does not come closer to the number before. -/
theorem square_bounds {s : Sign} {m : Nat} {e : Int} {h : 0 < m} (ha : unpack a = .finite s m e h)
    (hlarge : (2 : Rat) ^ (-23 : Int) < m * 2 ^ e) (hfinite : (unpack (a * a)).isFinite = true) :
    ∃ n f hn, unpack (a * a) = .finite .positive n f hn ∧
      (2 : Rat) ^ 46 * 2 ^ (e + e) ≤ n * 2 ^ f ∧
      ((m : Rat) * m - m + 1) * 2 ^ (e + e) ≤ n * 2 ^ f := by
  rcases (fitted_of_unpack ha).full_of_lt hlarge with ⟨hfull, hexponent⟩
  have hlt := (fitted_of_unpack ha).lt
  have hproduct : 2 ^ 46 ≤ m * m := by
    calc 2 ^ 46 = 2 ^ 23 * 2 ^ 23 := by norm_num
      _ ≤ m * m := Nat.mul_le_mul hfull hfull
  have hlog : 46 ≤ (m * m).log2 := (Nat.le_log2 (by omega)).mpr hproduct
  obtain ⟨g, hg⟩ : ∃ g, g = max (((m * m).log2 : Int) - 23 + (e + e)) (-149) := ⟨_, rfl⟩
  -- the square is far above the least exponent
  have hgreater : g = ((m * m).log2 : Int) - 23 + (e + e) :=
    hg.trans (max_eq_left (by linarith [(Int.ofNat_le.mpr hlog : (46 : Int) ≤ (m * m).log2)]))
  rcases roundWithAccuracy_of_le .positive .exact (by omega) hg with
    ⟨k, hk, hfitted, r, hr, _, hnearest, hround⟩
  have hshift : k + 23 = (m * m).log2 := by omega
  -- half a unit of the square is less than the number
  have hunit : 2 ^ k < 2 * m := by
    have hle : 2 ^ k * 2 ^ 23 ≤ m * m := by
      rw [← Nat.pow_add, hshift]
      exact Nat.log2_self_le (by omega)
    have hmul : m * m < 2 * m * 2 ^ 23 := by
      calc m * m < m * 2 ^ 24 := Nat.mul_lt_mul_of_pos_left hlt h
        _ = 2 * m * 2 ^ 23 := by ring
    exact Nat.lt_of_mul_lt_mul_right (hle.trans_lt hmul)
  have hnear : m * m + 1 ≤ r * 2 ^ k + m := by
    have hge := (hnearest rfl).ge
    omega
  have hpower : 2 ^ 46 ≤ r * 2 ^ k := by
    have hrfull : 2 ^ 23 ≤ r := (hfitted.full (by omega)).trans hr
    calc 2 ^ 46 = 2 ^ 23 * 2 ^ 23 := by norm_num
      _ ≤ r * 2 ^ k := Nat.mul_le_mul hrfull (Nat.pow_le_pow_right Nat.two_pos (by omega))
  have hvalue : (r : Rat) * 2 ^ g = (r * 2 ^ k : Nat) * 2 ^ (e + e) := by
    rw [hk, add_comm, zpow_add₀ two_ne_zero, zpow_natCast, ← mul_assoc]
    push_cast
    ring
  have hsquare : unpack (a * a) =
      reread (roundWithAccuracy .binary32 .positive (m * m) (e + e) .exact) := by
    rw [unpack_mul, ha]
    cases s <;> rfl
  rcases hround with ⟨_, hzero⟩ | ⟨n, f, hn, hround, hfit, _, _, hsame⟩
  · rw [hzero, Nat.zero_mul] at hpower
    omega
  · rw [hround] at hsquare
    have hexp : f ≤ 104 := by
      by_contra hhuge
      rw [hsquare, reread_of_huge hn (by omega)] at hfinite
      cases hfinite
    rw [reread_of_fitted hn hfit hexp] at hsquare
    refine ⟨n, f, hn, hsquare, ?_, ?_⟩
    · rw [hsame, hvalue]
      refine mul_le_mul_of_nonneg_right ?_ (by positivity)
      exact_mod_cast hpower
    · rw [hsame, hvalue]
      refine mul_le_mul_of_nonneg_right ?_ (by positivity)
      have hcast : (m : Rat) * m + 1 ≤ (r * 2 ^ k : Nat) + m := by exact_mod_cast hnear
      linarith

/-- Rounding up a full mantissa adds one unit. -/
theorem roundWithAccuracy_gt (s : Sign) {m : Nat} {e : Int} (hfull : 2 ^ 23 ≤ m) (hlt : m < 2 ^ 24)
    (he : -149 ≤ e) : ∃ n f h, roundWithAccuracy .binary32 s m e (.inexact .gt) = .finite s n f h ∧
      Fitted n f ∧ f ≤ e + 1 ∧ (n : Rat) * 2 ^ f = (m + 1 : Nat) * 2 ^ e := by
  have hlog : m.log2 = 23 := (Nat.log2_eq_iff (by omega)).mpr ⟨hfull, hlt⟩
  have hfirst : excess m e = 0 := by
    rw [excess_eq, hlog]
    omega
  have hshift : shiftToTargetExponent .binary32 m e (.inexact .gt) = (⟨m, true, true⟩, e) := by
    show ((⟨m, true, true⟩ : ExtendedMantissa) >>> excess m e, e + (excess m e : Int)) = _
    rw [hfirst, Int.natCast_zero, Int.add_zero]
    rfl
  have hcarry := excess_eq (m + 1) e
  have hsecond := shiftToTargetExponent_eq (m + 1) e .exact
  have hround : roundWithAccuracy .binary32 s m e (.inexact .gt) =
      if h : (m + 1) / 2 ^ excess (m + 1) e = 0 then .zero s
      else .finite s ((m + 1) / 2 ^ excess (m + 1) e) (e + excess (m + 1) e)
        (Nat.pos_of_ne_zero h) := by
    unfold roundWithAccuracy
    rw [hshift]
    simp only [ExtendedMantissa.roundedMantissa, ExtendedMantissa.accuracy,
      Accuracy.roundToNearestEven, hsecond.1, hsecond.2]
  rw [hround]
  -- one unit more may need one more digit
  rcases Nat.lt_or_ge (m + 1) (2 ^ 24) with hsmall | hlarge
  · have hlog' : (m + 1).log2 = 23 := (Nat.log2_eq_iff (by omega)).mpr ⟨by omega, hsmall⟩
    have hnone : excess (m + 1) e = 0 := by
      rw [hcarry, hlog']
      omega
    rw [hnone, Nat.pow_zero, Nat.div_one, Int.natCast_zero, Int.add_zero,
      dif_neg (Nat.succ_ne_zero m)]
    exact ⟨m + 1, e, _, rfl, ⟨hsmall, he, fun _ => by omega⟩, by omega, rfl⟩
  · have heq : m + 1 = 2 ^ 24 := by omega
    have hone : excess (m + 1) e = 1 := by
      rw [hcarry, heq, Nat.log2_two_pow]
      omega
    have hhalf : (m + 1) / 2 ^ 1 = 2 ^ 23 := by omega
    rw [hone, hhalf, dif_neg (by decide)]
    refine ⟨2 ^ 23, e + 1, _, rfl, ⟨by decide, by omega, fun _ => le_rfl⟩, le_rfl, ?_⟩
    rw [heq, zpow_add_one₀ two_ne_zero]
    push_cast
    ring

/-- What a power of two does not exceed has as many digits. -/
theorem le_log2_add {n : Nat} {f k : Int} (h : (2 : Rat) ^ k ≤ n * 2 ^ f) : k ≤ n.log2 + f := by
  have hupper : (n : Rat) < 2 ^ (n.log2 + 1) := by exact_mod_cast Nat.lt_log2_self
  have hpowers : (2 : Rat) ^ k < 2 ^ ((n.log2 + 1 : Nat) + f : Int) := by
    calc (2 : Rat) ^ k ≤ n * 2 ^ f := h
      _ < 2 ^ (n.log2 + 1) * 2 ^ f := mul_lt_mul_of_pos_right hupper (by positivity)
      _ = 2 ^ ((n.log2 + 1 : Nat) + f : Int) := by rw [zpow_add₀ two_ne_zero, zpow_natCast]
  have hexponents := (zpow_lt_zpow_iff_right₀ one_lt_two).mp hpowers
  push_cast at hexponents
  omega

/-- How the root of a radicand has been cut off. -/
def rootAccuracy (radicand root : Nat) : Accuracy :=
  if radicand - root * root = 0 then .exact
  else .inexact (if radicand - root * root ≤ root then .lt else .gt)

/-- A root is computed with all its digits, for the radicand times an even power of two. -/
structure Rooted (n : Nat) (f : Int) (root d : Nat) (t : Int) : Prop where
  core : sqrtCore .binary32 n f = (root, t, rootAccuracy (n * 2 ^ d) root)
  scale : (2 : Rat) ^ f = 2 ^ d * 2 ^ (t + t)
  small : n * 2 ^ d < 2 ^ 48
  le : root * root ≤ n * 2 ^ d
  gt : n * 2 ^ d < (root + 1) * (root + 1)
  full : 2 ^ 23 ≤ root
  lt : root < 2 ^ 24
  least : -149 ≤ t
  most : t ≤ 40

theorem exists_rooted {n : Nat} {f : Int} (hn : 0 < n) (hlog : n.log2 < 24)
    (hsize : -149 ≤ (n.log2 : Int) + f) (hbound : f ≤ 104) : ∃ root d t, Rooted n f root d t := by
  -- the radicand is shifted so that its root has 24 digits
  obtain ⟨t, ht⟩ : ∃ t : Int, t = ((n.log2 : Int) + f + 2) / 2 - 24 := ⟨_, rfl⟩
  have htarget : min (f.ediv 2)
      (Format.binary32.targetExponent ((totalExponent n f + 1).ediv 2)) = t := by
    show min (f / 2) (max (((n.log2 : Int) + 1 + f + 1) / 2 - 24) (-149)) = t
    omega
  obtain ⟨d, hd⟩ : ∃ d : Nat, (d : Int) = f - 2 * t := ⟨(f - 2 * t).toNat, by omega⟩
  have hlower : 2 ^ 46 ≤ n * 2 ^ d := by
    calc 2 ^ 46 ≤ 2 ^ (n.log2 + d) := Nat.pow_le_pow_right Nat.two_pos (by omega)
      _ = 2 ^ n.log2 * 2 ^ d := Nat.pow_add ..
      _ ≤ n * 2 ^ d := Nat.mul_le_mul_right _ (Nat.log2_self_le hn.ne')
  have hupper : n * 2 ^ d < 2 ^ 48 := by
    calc n * 2 ^ d < 2 ^ (n.log2 + 1) * 2 ^ d :=
          Nat.mul_lt_mul_of_pos_right Nat.lt_log2_self (Nat.two_pow_pos d)
      _ = 2 ^ (n.log2 + 1 + d) := (Nat.pow_add ..).symm
      _ ≤ 2 ^ 48 := Nat.pow_le_pow_right Nat.two_pos (by omega)
  refine ⟨Nat.sqrt (n * 2 ^ d), d, t, ?_, ?_, hupper, Nat.sqrt_le _, Nat.lt_succ_sqrt _, ?_, ?_,
    by omega, by omega⟩
  · unfold sqrtCore rootAccuracy
    dsimp only
    rw [htarget, show (f - 2 * t).toNat = d by omega, Nat.shiftLeft_eq]
  · rw [← zpow_natCast, ← zpow_add₀ two_ne_zero]
    congr 1
    omega
  · rw [Nat.le_sqrt]
    exact le_trans (by norm_num) hlower
  · rw [Nat.sqrt_lt]
    exact hupper.trans_le (by norm_num)

/-- Rounding does not make a full mantissa smaller, and adds a unit if more than half of one has
been cut off. -/
theorem le_reread_of_full {root : Nat} {t : Int} (hfull : 2 ^ 23 ≤ root) (hlt : root < 2 ^ 24)
    (hleast : -149 ≤ t) (hmost : t ≤ 40) (acc : Accuracy) :
    ∃ k g hk, reread (roundWithAccuracy .binary32 .positive root t acc) = .finite .positive k g hk ∧
      (root : Rat) * 2 ^ t ≤ k * 2 ^ g ∧
      (acc = .inexact .gt → ((root + 1 : Nat) : Rat) * 2 ^ t ≤ k * 2 ^ g) := by
  by_cases hup : acc = .inexact .gt
  · rcases roundWithAccuracy_gt .positive hfull hlt hleast with
      ⟨k, g, hk, hround, hfitted, hg, hvalue⟩
    refine ⟨k, g, hk, ?_, ?_, fun _ => hvalue.ge⟩
    · rw [hup, hround, reread_of_fitted hk hfitted (by omega)]
    · rw [hvalue]
      refine mul_le_mul_of_nonneg_right ?_ (by positivity)
      exact_mod_cast Nat.le_succ root
  · have hlog : root.log2 = 23 := (Nat.log2_eq_iff (by omega)).mpr ⟨hfull, hlt⟩
    have htarget : t = max ((root.log2 : Int) - 23 + t) (-149) := by
      rw [hlog]
      omega
    rcases roundWithAccuracy_of_le .positive acc (le_refl t) htarget with
      ⟨k, hk, _, r, hr, _, _, hround⟩
    have hzero : k = 0 := by omega
    rw [hzero, Nat.pow_zero, Nat.div_one] at hr
    rcases hround with ⟨_, hzero⟩ | ⟨k, g, hk, hround, hfitted, _, hg, hvalue⟩
    · omega
    · refine ⟨k, g, hk, ?_, ?_, fun hacc => absurd hacc hup⟩
      · rw [hround, reread_of_fitted hk hfitted (by omega)]
      · rw [hvalue]
        refine mul_le_mul_of_nonneg_right ?_ (by positivity)
        exact_mod_cast hr

/-- A root that is cut off is the number whose square is near, or it is one less and more than half
of a unit has been cut off. -/
theorem le_or_eq_of_near {m root radicand : Nat} (hnear : m * m + 1 ≤ radicand + m)
    (hgt : radicand < (root + 1) * (root + 1)) :
    m ≤ root ∨ root + 1 = m ∧ rootAccuracy radicand root = .inexact .gt := by
  rcases Nat.lt_or_ge root m with hbelow | habove
  · obtain ⟨p, rfl⟩ : ∃ p, m = root + 1 + p := ⟨m - (root + 1), by omega⟩
    have hsquare : (root + 1) * (root + 1) = root * root + 2 * root + 1 := by ring
    have hproduct : (root + 1 + p) * (root + 1 + p) =
        root * root + 2 * root + 1 + p * (2 * root + 1) + p + p * p := by ring
    -- two units are more than the square of the root leaves room for
    have hnone : p = 0 := by
      by_contra hpos
      have hmul : p * 1 ≤ p * (2 * root + 1) := Nat.mul_le_mul_left p (by omega)
      have hmul' : 1 * (2 * root + 1) ≤ p * (2 * root + 1) :=
        Nat.mul_le_mul_right _ (by omega)
      have hself : p * 1 ≤ p * p := Nat.mul_le_mul_left p (by omega)
      omega
    subst hnone
    refine .inr ⟨rfl, ?_⟩
    unfold rootAccuracy
    rw [if_neg (by omega), if_neg (by omega)]
  · exact .inl habove

/-- The root of a rounded square, and of what is larger, is not less than the number that was
squared. -/
theorem le_sqrt {n m : Nat} {f e : Int} {hn : 0 < n} (hb : unpack b = .finite .positive n f hn)
    (hfull : 2 ^ 23 ≤ m) (hlt : m < 2 ^ 24) (he : -46 ≤ e)
    (hpower : (2 : Rat) ^ 46 * 2 ^ (e + e) ≤ n * 2 ^ f)
    (hnear : ((m : Rat) * m - m + 1) * 2 ^ (e + e) ≤ n * 2 ^ f) :
    ∃ k g hk, unpack (Scalar.sqrt b) = .finite .positive k g hk ∧
      (m : Rat) * 2 ^ e ≤ k * 2 ^ g := by
  have hlog : n.log2 < 24 := (Nat.log2_lt hn.ne').mpr (fitted_of_unpack hb).lt
  have hsize : 46 + (e + e) ≤ n.log2 + f := by
    refine le_log2_add (le_trans (le_of_eq ?_) hpower)
    rw [zpow_add₀ two_ne_zero 46]
    norm_num
  rcases exists_rooted hn hlog (by omega) (exponent_of_unpack hb).2 with ⟨root, d, t, hroot⟩
  rcases le_reread_of_full hroot.full hroot.lt hroot.least hroot.most
    (rootAccuracy (n * 2 ^ d) root) with ⟨k, g, hk, hround, hvalue, hup⟩
  refine ⟨k, g, hk, ?_, ?_⟩
  · have hunpack : unpack (Scalar.sqrt b) = reread (roundWithAccuracy .binary32 .positive
        (sqrtCore .binary32 n f).1 (sqrtCore .binary32 n f).2.1 (sqrtCore .binary32 n f).2.2) := by
      rw [unpack_sqrt, hb]
      rfl
    rw [hunpack, hroot.core]
    exact hround
  rcases lt_trichotomy e t with hless | rfl | hgreater
  · -- the unit of the root is larger
    have hm : (m : Rat) ≤ 2 ^ 24 := by exact_mod_cast hlt.le
    have hr : (2 : Rat) ^ 23 ≤ root := by exact_mod_cast hroot.full
    have hpow : (2 : Rat) ^ (e + 1) ≤ 2 ^ t := zpow_le_zpow_right₀ one_le_two hless
    calc (m : Rat) * 2 ^ e ≤ 2 ^ 24 * 2 ^ e := mul_le_mul_of_nonneg_right hm (by positivity)
      _ = 2 ^ 23 * 2 ^ (e + 1) := by
        rw [zpow_add_one₀ two_ne_zero]
        ring
      _ ≤ root * 2 ^ t := mul_le_mul hr hpow (by positivity) (by positivity)
      _ ≤ k * 2 ^ g := hvalue
  · -- the unit is the same: the root is the number, or is rounded up to it
    rw [hroot.scale, ← mul_assoc, mul_le_mul_iff_of_pos_right (by positivity)] at hnear
    have hsquare : m * m + 1 ≤ n * 2 ^ d + m := by
      have hcast : (m : Rat) * m + 1 ≤ n * 2 ^ d + m := by linarith
      exact_mod_cast hcast
    rcases le_or_eq_of_near hsquare hroot.gt with hle | ⟨rfl, haccuracy⟩
    · refine le_trans (mul_le_mul_of_nonneg_right ?_ (by positivity)) hvalue
      exact_mod_cast hle
    · exact hup haccuracy
  · -- the radicand would have too many digits
    have hpow : (2 : Rat) ^ (t + t + 2) ≤ 2 ^ (e + e) := zpow_le_zpow_right₀ one_le_two (by omega)
    have hmany : (2 : Rat) ^ 48 * 2 ^ (t + t) ≤ n * 2 ^ d * 2 ^ (t + t) := by
      calc (2 : Rat) ^ 48 * 2 ^ (t + t) = 2 ^ 46 * 2 ^ (t + t + 2) := by
            rw [zpow_add₀ two_ne_zero (t + t)]
            norm_num
            ring
        _ ≤ 2 ^ 46 * 2 ^ (e + e) := mul_le_mul_of_nonneg_left hpow (by positivity)
        _ ≤ n * 2 ^ f := hpower
        _ = n * 2 ^ d * 2 ^ (t + t) := by rw [hroot.scale, mul_assoc]
    rw [mul_le_mul_iff_of_pos_right (by positivity)] at hmany
    have hnat : 2 ^ 48 ≤ n * 2 ^ d := by exact_mod_cast hmany
    exact absurd hroot.small (not_lt.mpr hnat)

/-! ## Directions -/

/-- A length does not exceed its sum with another one. -/
theorem le_add_left (ha : 0 ≤ a) (hb : 0 ≤ b) : b ≤ a + b := by
  have hsum := nonneg_iff_isNonneg.mp (add_nonneg ha hb)
  rw [le_iff]
  by_cases hinfinite : unpack a = .infinity .positive ∨ unpack b = .infinity .positive
  · rw [unpack_add_of_infinity ha hb hinfinite]
    exact le_infinity (nonneg_iff_isNonneg.mp hb)
  · rw [not_or] at hinfinite
    have hround := ((isRounding_of_nonneg hb).resolve_left hinfinite.2).1
    have hnonneg := ((isRounding_of_nonneg ha).resolve_left hinfinite.1).2
    exact hround.le (isRounding_add ha hb hinfinite.1 hinfinite.2) (le_add_of_nonneg_left hnonneg)

/-- A component squared is finite and does not exceed the length squared. -/
theorem square_le_dot {v : Vec3 Float32} {c : Float32} (hc : c = v.x ∨ c = v.y ∨ c = v.z)
    (hfinite : (unpack (v.dot v)).isFinite = true) :
    (unpack (c * c)).isFinite = true ∧ 0 ≤ c * c ∧ c * c ≤ v.dot v := by
  have hsum := isFinite_of_add hfinite
  have hfirst := isFinite_of_add hsum.1
  have hsquare : ∀ d : Float32, (unpack (d * d)).isFinite = true → 0 ≤ d * d := fun d hd =>
    LawfulDistances.mul_self_nonneg d <| isNumber_iff.mpr fun hnumber => by
      rw [unpack_mul, hnumber] at hd
      cases hd
  have hx := hsquare v.x hfirst.1
  have hy := hsquare v.y hfirst.2
  have hz := hsquare v.z hsum.2
  rcases hc with rfl | rfl | rfl
  · exact ⟨hfirst.1, hx, Scalar.le_trans (le_add hx hy) (le_add (add_nonneg hx hy) hz)⟩
  · exact ⟨hfirst.2, hy, Scalar.le_trans (le_add_left hx hy) (le_add (add_nonneg hx hy) hz)⟩
  · exact ⟨hsum.2, hz, le_add_left (add_nonneg hx hy) hz⟩

theorem ne_infinity_of_isFinite (ha : (unpack a).isFinite = true) :
    unpack a ≠ .infinity .positive := by
  intro hinfinite
  rw [hinfinite] at ha
  cases ha

/-- A number that is not less than one above zero has the larger value. -/
theorem exists_of_le (ha : 0 < a) (hfinite : (unpack b).isFinite = true) (hab : a ≤ b) :
    ∃ n f hn, unpack b = .finite .positive n f hn ∧ value a ≤ n * 2 ^ f := by
  rcases Scalar.lt_iff.mp ha with ⟨hnonneg, hpos⟩
  have hb : 0 < b :=
    Scalar.lt_iff.mpr ⟨Scalar.le_trans hnonneg hab, fun hzero => hpos (Scalar.le_trans hab hzero)⟩
  rcases exists_of_pos_of_isFinite hb hfinite with ⟨n, f, hn, hunpack⟩
  refine ⟨n, f, hn, hunpack, ?_⟩
  rw [← value_of_unpack hunpack]
  exact (value_le hnonneg (ne_infinity_of_isFinite hfinite) hab).2

/-- A component does not exceed a length that is usable. -/
theorem component_le_length (v : Vec3 Float32) {c : Float32} (hc : c = v.x ∨ c = v.y ∨ c = v.z)
    (hlength : Scalar.epsilon < v.length) (hfinite : Scalar.isFinite v.length = true) :
    ∃ n f hn, unpack v.length = .finite .positive n f hn ∧ AtMost c (n * 2 ^ f) := by
  have hepsilon : unpack (Scalar.epsilon : Float32) =
      .finite .positive (2 ^ 23) (-46) (by decide) := rfl
  have hlast := isFinite_of_isFinite hfinite
  have hdot := isFinite_of_sqrt hlast
  rcases square_le_dot hc hdot with ⟨hsquare, _, hle⟩
  rcases exists_of_le (lt_iff.mpr rfl) hlast (Scalar.le_of_lt hlength) with
    ⟨n, f, hn, hunpack, hlower⟩
  rw [value_of_unpack hepsilon] at hlower
  refine ⟨n, f, hn, hunpack, ?_⟩
  rcases exponent_of_square hsquare with hzero | ⟨s, m, e, hm, hcomponent, _⟩
  · exact .inl hzero
  refine .inr ⟨s, m, e, hm, hcomponent, ?_⟩
  -- components below the least usable length need no root
  rcases le_or_gt ((m : Rat) * 2 ^ e) (2 ^ (-23 : Int)) with hsmall | hlarge
  · refine hsmall.trans (le_trans ?_ hlower)
    norm_num
  · have hfitted := fitted_of_unpack hcomponent
    rcases hfitted.full_of_lt hlarge with ⟨hfull, hexponent⟩
    rcases square_bounds hcomponent hlarge hsquare with ⟨k, g, hk, hproduct, hpower, hnear⟩
    have hpositive : 0 < c * c := lt_iff.mpr (by rw [hproduct]; rfl)
    rcases exists_of_le hpositive hdot hle with ⟨p, q, hp, hsum, hbound⟩
    rw [value_of_unpack hproduct] at hbound
    rcases le_sqrt hsum hfull hfitted.lt hexponent (hpower.trans hbound) (hnear.trans hbound) with
      ⟨n', f', hn', hroot, hvalue⟩
    have hsame : unpack v.length = .finite .positive n' f' hn' := hroot
    rw [hunpack, UnpackedFloat.finite.injEq] at hsame
    rw [hsame.2.1, hsame.2.2]
    exact hvalue

/-! ## Products and quotients -/

theorem AtMost.isFinite {q : Rat} (h : AtMost a q) : (unpack a).isFinite = true := by
  rcases h with ⟨s, h⟩ | ⟨s, m, e, hm, h, _⟩ <;> rw [h] <;> rfl

/-- What does not exceed a number that fits is not read as more than that number. -/
theorem atMost_of_unpack {s : Sign} {m n : Nat} {e f : Int} {acc : Accuracy}
    (ha : unpack a = reread (roundWithAccuracy .binary32 s m e acc)) (hm : 2 ^ 23 ≤ m ∨ e ≤ -149)
    (hn : Fitted n f) (hf : f ≤ 104) (h : (m : Rat) * 2 ^ e ≤ n * 2 ^ f)
    (hacc : (m : Rat) * 2 ^ e = n * 2 ^ f → acc = .exact) : AtMost a (n * 2 ^ f) := by
  rcases roundWithAccuracy_le s hm hn h hacc with hround | ⟨r, g, hr, hround, hfitted, hle⟩
  · rw [hround, reread_zero] at ha
    exact .inl ⟨s, ha⟩
  · have hexponent : g ≤ f :=
      not_lt.mp fun hlt => absurd hle (not_le.mpr (hn.lt_of_exponent_lt hfitted hlt))
    rw [hround, reread_of_fitted hr hfitted (hexponent.trans hf)] at ha
    exact .inr ⟨s, r, g, hr, ha, hle⟩

/-- A product of mantissas has all digits, unless both factors have the least exponent. -/
theorem Fitted.mul_full {m n : Nat} {e f : Int} (hm : Fitted m e) (hn : Fitted n f) (hmpos : 0 < m)
    (hnpos : 0 < n) : 2 ^ 23 ≤ m * n ∨ e + f ≤ -149 := by
  by_cases hfirst : -149 < e
  · exact .inl ((hm.full hfirst).trans (Nat.le_mul_of_pos_right m hnpos))
  by_cases hsecond : -149 < f
  · exact .inl ((hn.full hsecond).trans (Nat.le_mul_of_pos_left n hmpos))
  · exact .inr (by omega)

/-- The product of a number with one that does not exceed one does not exceed the number. -/
theorem atMost_mul (ha : AtMost a 1) {s : Sign} {n : Nat} {f : Int} {hn : 0 < n}
    (hb : unpack b = .finite s n f hn) : AtMost (a * b) (n * 2 ^ f) := by
  have hread := unpack_mul a b
  rw [hb] at hread
  rcases ha with ⟨t, ha⟩ | ⟨t, m, e, hm, ha, hle⟩ <;> rw [ha] at hread
  · exact .inl ⟨_, hread.trans (reread_zero _)⟩
  · have hfitted := fitted_of_unpack hb
    refine atMost_of_unpack hread ((fitted_of_unpack ha).mul_full hfitted hm hn) hfitted
      (exponent_of_unpack hb).2 ?_ fun _ => rfl
    calc ((m * n : Nat) : Rat) * 2 ^ (e + f) = m * 2 ^ e * (n * 2 ^ f) := by
          rw [zpow_add₀ two_ne_zero]
          push_cast
          ring
      _ ≤ 1 * (n * 2 ^ f) := mul_le_mul_of_nonneg_right hle (by positivity)
      _ = n * 2 ^ f := one_mul _

/-- The product of a finite number with one that does not exceed one is finite. -/
theorem isFinite_mul (ha : AtMost a 1) (hb : (unpack b).isFinite = true) :
    (unpack (a * b)).isFinite = true := by
  rcases cases_of_isFinite hb with ⟨t, hb⟩ | ⟨t, n, f, hn, hb⟩
  · rcases beq_zero_iff.mp (mul_zero_of_isFinite ha.isFinite (beq_zero_iff.mpr ⟨t, hb⟩)) with ⟨s, hs⟩
    rw [hs]
    rfl
  · exact (atMost_mul ha hb).isFinite

/-- A quotient of mantissas is computed with all digits, or down to the least exponent. -/
theorem exists_divCore {m n : Nat} {e : Int} (hm : 0 < m) (hfit : Fitted m e) (hn : 0 < n) (f : Int) :
    ∃ (d : Nat) (t : Int), (d : Int) = e - f - t ∧
      divCore .binary32 m e n f = (m * 2 ^ d / n, t, accuracyOfFraction (m * 2 ^ d % n) n) ∧
      (2 ^ 23 ≤ m * 2 ^ d / n ∨ t ≤ -149) := by
  obtain ⟨t, ht⟩ : ∃ t : Int, t =
    min (e - f) (max ((m.log2 : Int) + e - (n.log2 + f) - 24) (-149)) := ⟨_, rfl⟩
  obtain ⟨d, hd⟩ : ∃ d : Nat, (d : Int) = e - f - t := ⟨(e - f - t).toNat, by omega⟩
  refine ⟨d, t, hd, ?_, ?_⟩
  · have htarget : min (e - f)
        (Format.binary32.targetExponent (totalExponent m e - totalExponent n f)) = t := by
      show min (e - f) (max ((m.log2 : Int) + 1 + e - ((n.log2 : Int) + 1 + f) - 24) (-149)) = _
      omega
    unfold divCore
    dsimp only
    rw [htarget, show (e - f - t).toNat = d by omega, Nat.shiftLeft_eq]
  · rcases le_or_gt t (-149) with hleast | hmore
    · exact .inr hleast
    · have hlog : m.log2 < 24 := (Nat.log2_lt hm.ne').mpr hfit.lt
      refine .inl ((Nat.le_div_iff_mul_le hn).mpr ?_)
      calc 2 ^ 23 * n ≤ 2 ^ 23 * 2 ^ (n.log2 + 1) := Nat.mul_le_mul_left _ Nat.lt_log2_self.le
        _ = 2 ^ (23 + (n.log2 + 1)) := (Nat.pow_add ..).symm
        _ ≤ 2 ^ (m.log2 + d) := Nat.pow_le_pow_right Nat.two_pos (by omega)
        _ = 2 ^ m.log2 * 2 ^ d := Nat.pow_add ..
        _ ≤ m * 2 ^ d := Nat.mul_le_mul_right _ (Nat.log2_self_le hm.ne')

/-- A quotient that does not exceed a number does not exceed it after rounding. -/
theorem atMost_div_of_le {n k : Nat} {f i : Int} {hn : 0 < n} (hb : unpack b = .finite .positive n f hn)
    (hk : Fitted k i) (hi : i ≤ 104) (ha : AtMost a (k * 2 ^ i * (n * 2 ^ f))) :
    AtMost (a / b) (k * 2 ^ i) := by
  have hread := unpack_div a b
  rw [hb] at hread
  rcases ha with ⟨s, ha⟩ | ⟨s, m, e, hm, ha, hle⟩ <;> rw [ha] at hread
  · exact .inl ⟨_, hread.trans (reread_zero _)⟩
  change unpack (a / b) = reread (roundWithAccuracy .binary32 (s / .positive)
    (divCore .binary32 m e n f).1 (divCore .binary32 m e n f).2.1
    (divCore .binary32 m e n f).2.2) at hread
  rcases exists_divCore hm (fitted_of_unpack ha) hn f with ⟨d, t, hd, hcore, hdigits⟩
  rw [hcore] at hread
  dsimp only at hread
  have hnpos : (0 : Rat) < n := Nat.cast_pos.mpr hn
  -- the bound, with the dividend in units of the quotient
  have hbound : ((m * 2 ^ d : Nat) : Rat) * 2 ^ t ≤ k * 2 ^ i * n := by
    have hunit : (2 : Rat) ^ e = 2 ^ d * 2 ^ t * 2 ^ f := by
      rw [← zpow_natCast, ← zpow_add₀ two_ne_zero, ← zpow_add₀ two_ne_zero]
      congr 1
      omega
    rw [hunit, ← mul_assoc, ← mul_assoc, ← mul_assoc _ (n : Rat),
      mul_le_mul_iff_of_pos_right (by positivity)] at hle
    push_cast
    exact hle
  have hfloor : ((m * 2 ^ d / n : Nat) : Rat) * n ≤ (m * 2 ^ d : Nat) := by
    exact_mod_cast Nat.div_mul_le_self (m * 2 ^ d) n
  have hscaled := mul_le_mul_of_nonneg_right hfloor (by positivity : (0 : Rat) ≤ 2 ^ t)
  rw [mul_right_comm] at hscaled
  refine atMost_of_unpack hread hdigits hk hi ?_ fun hsame => ?_
  · exact le_of_mul_le_mul_right (hscaled.trans hbound) hnpos
  · -- nothing is left over if the bound is reached
    rw [← hsame, mul_right_comm, mul_le_mul_iff_of_pos_right (by positivity)] at hbound
    have hexact : m * 2 ^ d ≤ m * 2 ^ d / n * n := by exact_mod_cast hbound
    have hsplit := Nat.div_add_mod' (m * 2 ^ d) n
    exact if_pos (by omega)

/-- A quotient that does not exceed one does not exceed it after rounding. -/
theorem atMost_div {n : Nat} {f : Int} {hn : 0 < n} (hb : unpack b = .finite .positive n f hn)
    (ha : AtMost a (n * 2 ^ f)) : AtMost (a / b) 1 := by
  have hone : ((2 ^ 23 : Nat) : Rat) * 2 ^ (-23 : Int) = 1 := by norm_num
  have hfitted : Fitted (2 ^ 23) (-23) := ⟨by decide, by decide, fun _ => le_rfl⟩
  rw [← hone]
  refine atMost_div_of_le hb hfitted (by decide) ?_
  rw [hone, one_mul]
  exact ha

/-- What does not exceed the value of a number does not exceed the number. -/
theorem le_of_atMost {n : Nat} {f : Int} {hn : 0 < n} (hb : unpack b = .finite .positive n f hn)
    (ha : AtMost a (n * 2 ^ f)) : a ≤ b := by
  rw [le_iff, hb]
  rcases ha with ⟨s, ha⟩ | ⟨s, m, e, hm, ha, hle⟩ <;> rw [ha]
  · rfl
  · cases s with
    | negative => rfl
    | positive => exact (isLE_compare_iff (fitted_of_unpack ha) (fitted_of_unpack hb)).mpr hle

/-- A finite impulse along a direction is finite. -/
theorem isFinite_impulse (v : Vec3 Float32) {u : Float32} (hu : Scalar.isFinite u = true) :
    (unpack (v.directionAndLength.1.x * u)).isFinite = true ∧
      (unpack (v.directionAndLength.1.y * u)).isFinite = true ∧
      (unpack (v.directionAndLength.1.z * u)).isFinite = true := by
  have hfinite := isFinite_of_isFinite hu
  unfold Vec3.directionAndLength
  split
  case isTrue husable =>
    have hunit : ∀ c, c = v.x ∨ c = v.y ∨ c = v.z →
        (unpack (c / v.length * u)).isFinite = true := by
      intro c hc
      rcases component_le_length v hc husable.1 husable.2 with ⟨n, f, hn, hlength, hle⟩
      exact isFinite_mul (atMost_div hlength hle) hfinite
    exact ⟨hunit _ (.inl rfl), hunit _ (.inr (.inl rfl)), hunit _ (.inr (.inr rfl))⟩
  case isFalse =>
    have hzero : (unpack ((0 : Float32) * u)).isFinite = true :=
      isFinite_mul (.inl ⟨.positive, rfl⟩) hfinite
    exact ⟨hzero, hzero, hzero⟩

end Single

instance : LawfulAnchors Float32 where
  isFinite_zero := by decide
  total_zero z hz := by
    rcases Single.beq_zero_iff.mp hz with ⟨s, hs⟩
    rw [Single.le_iff]
    show ((Single.unpack (Scalar.emptySum + z)).compare _).any _ = true
    rw [Single.unpack_add, hs]
    cases s <;> rfl
  impulse_zero v u z hu hz := by
    rcases Single.isFinite_impulse v hu with ⟨hx, hy, hz'⟩
    exact Vec3.beq_zero_iff.mpr
      ⟨Single.mul_zero_of_isFinite hx hz, Single.mul_zero_of_isFinite hy hz,
        Single.mul_zero_of_isFinite hz' hz⟩
  add_zero a _ hz := Single.coincide_add_zero a hz
  sub_zero a _ hz := Single.coincide_sub_zero a hz

end TetheredParticles
