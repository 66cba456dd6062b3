import TetheredParticles.Proofs.Scalar.Order
/-!
# Sums in single precision

What is not negative is rounded in order: larger values have larger roundings. Two values are rounded
to multiples of the same unit, where ties go to the even one, or a power of two is between their
roundings. Numbers are their own roundings, so that a sum is never less than its terms.

* `Single.Rounded`, `Single.Rounded.mul_le_mul` — values between two multiples of a unit.
* `Single.IsRounding`, `Single.IsRounding.le` — the order of roundings.
* `Single.le_add`, `Single.add_le_add` — sums are ordered as their terms are.
-/

namespace TetheredParticles

open Float.Model Float.Model.UnpackedFloat

namespace Single

/-! ## Roundings -/

/-- A whole number of units `2 ^ g` next to `x` units, an even one if two are. The unit is the one
that numbers as large as that are written with. -/
structure Rounded (x : Rat) (g : Int) (r : Nat) : Prop where
  least : -149 ≤ g
  full : -149 < g → 2 ^ 23 ≤ x
  lt : x < 2 ^ 24
  le : 2 * (r : Rat) ≤ 2 * x + 1
  ge : 2 * x ≤ 2 * (r : Rat) + 1
  even : 2 * (r : Rat) = 2 * x + 1 ∨ 2 * x = 2 * (r : Rat) + 1 → r % 2 = 0

namespace Rounded

variable {x y : Rat} {g h : Int} {r s : Nat}

theorem le_two_pow (hx : Rounded x g r) : r ≤ 2 ^ 24 := by
  have hlt : 2 * (r : Rat) < 2 * 2 ^ 24 + 1 := by linarith [hx.le, hx.lt]
  have hlt' : 2 * r < 2 * 2 ^ 24 + 1 := by exact_mod_cast hlt
  omega

theorem two_pow_le (hx : Rounded x g r) (hg : -149 < g) : 2 ^ 23 ≤ r := by
  have hle : 2 * 2 ^ 23 ≤ 2 * (r : Rat) + 1 := by linarith [hx.ge, hx.full hg]
  have hle' : 2 * 2 ^ 23 ≤ 2 * r + 1 := by exact_mod_cast hle
  omega

/-- With one unit, larger values have larger roundings. -/
theorem mono (hx : Rounded x g r) (hy : Rounded y g s) (hxy : x ≤ y) : r ≤ s := by
  by_contra hlt
  have hle : (s : Rat) + 1 ≤ r := by exact_mod_cast Nat.not_le.mp hlt
  have hxle := hx.le
  have hyge := hy.ge
  -- the two values are one, halfway between two even numbers of units
  have hr := hx.even (.inl (by linarith))
  have hs := hy.even (.inr (by linarith))
  have hsucc : r = s + 1 := by
    have heq : (r : Rat) = s + 1 := by linarith
    exact_mod_cast heq
  omega

/-- Larger values do not have smaller units. -/
theorem unit_le (hx : Rounded x g r) (hy : Rounded y h s) (hxy : x * 2 ^ g ≤ y * 2 ^ h) : g ≤ h := by
  by_contra hlt
  have hfull := hx.full (by linarith [hy.least])
  have hpow : (2 : Rat) ^ (h + 1) ≤ 2 ^ g := zpow_le_zpow_right₀ one_le_two (by omega)
  have hlarge : y * 2 ^ h < x * 2 ^ g :=
    calc y * 2 ^ h < 2 ^ 24 * 2 ^ h := mul_lt_mul_of_pos_right hy.lt (by positivity)
      _ = 2 ^ 23 * 2 ^ (h + 1) := by
        rw [zpow_add_one₀ two_ne_zero]
        ring
      _ ≤ 2 ^ 23 * 2 ^ g := mul_le_mul_of_nonneg_left hpow (by positivity)
      _ ≤ x * 2 ^ g := mul_le_mul_of_nonneg_right hfull (by positivity)
  exact absurd hxy (not_le.mpr hlarge)

/-- Larger values have larger roundings. -/
theorem mul_le_mul (hx : Rounded x g r) (hy : Rounded y h s) (hxy : x * 2 ^ g ≤ y * 2 ^ h) :
    (r : Rat) * 2 ^ g ≤ s * 2 ^ h := by
  rcases (hx.unit_le hy hxy).lt_or_eq with hlt | rfl
  · -- a power of two is between the two
    have hr : (r : Rat) ≤ 2 ^ 24 := by exact_mod_cast hx.le_two_pow
    have hs : (2 : Rat) ^ 23 ≤ s := by exact_mod_cast hy.two_pow_le (by linarith [hx.least])
    have hpow : (2 : Rat) ^ (g + 1) ≤ 2 ^ h := zpow_le_zpow_right₀ one_le_two (by omega)
    calc (r : Rat) * 2 ^ g ≤ 2 ^ 24 * 2 ^ g := mul_le_mul_of_nonneg_right hr (by positivity)
      _ = 2 ^ 23 * 2 ^ (g + 1) := by
        rw [zpow_add_one₀ two_ne_zero]
        ring
      _ ≤ 2 ^ 23 * 2 ^ h := mul_le_mul_of_nonneg_left hpow (by positivity)
      _ ≤ s * 2 ^ h := mul_le_mul_of_nonneg_right hs (by positivity)
  · have hpos : (0 : Rat) < 2 ^ g := by positivity
    have hrs : (r : Rat) ≤ s := by
      exact_mod_cast hx.mono hy ((mul_le_mul_iff_of_pos_right hpos).mp hxy)
    exact mul_le_mul_of_nonneg_right hrs hpos.le

end Rounded

/-- A number is read from a value that fits: as an infinity if the exponent is too large. -/
def ReadFrom (u : UnpackedFloat) (v : Rat) : Prop :=
  (v = 0 ∧ ∃ s, u = .zero s) ∨
    ∃ n f h, u = reread (.finite .positive n f h) ∧ Fitted n f ∧ v = n * 2 ^ f

theorem ReadFrom.isNonneg {u : UnpackedFloat} {v : Rat} (hu : ReadFrom u v) : IsNonneg u := by
  rcases hu with ⟨_, s, rfl⟩ | ⟨n, f, hn, rfl, _⟩
  · trivial
  · exact IsNonneg.reread trivial

theorem le_infinity {u : UnpackedFloat} (hu : IsNonneg u) :
    (u.compare (.infinity .positive)).any (·.isLE) = true := by
  match u, hu with
  | .zero _, _ | .infinity .positive, _ | .finite .positive .., _ => rfl

/-- Larger values are read as larger numbers. -/
theorem ReadFrom.le {u w : UnpackedFloat} {p q : Rat} (hu : ReadFrom u p) (hw : ReadFrom w q)
    (hpq : p ≤ q) : (u.compare w).any (·.isLE) = true := by
  rcases hw with ⟨rfl, t, rfl⟩ | ⟨k, f', hk, rfl, hfit', rfl⟩
  · rcases hu with ⟨_, s, rfl⟩ | ⟨n, f, hn, _, _, rfl⟩
    · rfl
    · have hcast : (0 : Rat) < n := Nat.cast_pos.mpr hn
      exact absurd hpq (not_le.mpr (by positivity))
  · rcases lt_or_ge 104 f' with hhuge | hsmall
    · rw [reread_of_huge hk (by omega)]
      exact le_infinity hu.isNonneg
    · rw [reread_of_fitted hk hfit' hsmall]
      rcases hu with ⟨_, s, rfl⟩ | ⟨n, f, hn, rfl, hfit, rfl⟩
      · rfl
      · have hexponent : f ≤ f' :=
          not_lt.mp fun hlt => absurd hpq (not_le.mpr (hfit'.lt_of_exponent_lt hfit hlt))
        rw [reread_of_fitted hn hfit (hexponent.trans hsmall)]
        exact (isLE_compare_iff hfit hfit').mpr hpq

/-- A number is the rounding of a value. -/
def IsRounding (u : UnpackedFloat) (q : Rat) : Prop :=
  ∃ x g r, Rounded x g r ∧ q = x * 2 ^ g ∧ ReadFrom u (r * 2 ^ g)

/-- Larger values have larger roundings. -/
theorem IsRounding.le {u w : UnpackedFloat} {p q : Rat} (hu : IsRounding u p) (hw : IsRounding w q)
    (hpq : p ≤ q) : (u.compare w).any (·.isLE) = true := by
  rcases hu with ⟨x, g, r, hx, rfl, hu⟩
  rcases hw with ⟨y, h, s, hy, rfl, hw⟩
  exact hu.le hw (hx.mul_le_mul hy hpq)

theorem isRounding_zero (s : Sign) : IsRounding (.zero s) 0 := by
  refine ⟨0, -149, 0, ?_, (zero_mul _).symm, .inl ⟨by norm_num, s, rfl⟩⟩
  constructor <;> norm_num

/-- What fits is its own rounding. -/
theorem isRounding_of_fitted {m : Nat} {e : Int} (h : 0 < m) (hfit : Fitted m e) (he : e ≤ 104) :
    IsRounding (.finite .positive m e h) (m * 2 ^ e) := by
  have hread := reread_of_fitted (s := .positive) h hfit he
  refine ⟨m, e, m, ?_, rfl, .inr ⟨m, e, h, hread.symm, hfit, rfl⟩⟩
  refine ⟨hfit.least, fun hleast => by exact_mod_cast hfit.full hleast, by exact_mod_cast hfit.lt,
    by linarith, by linarith, fun htie => ?_⟩
  rcases htie with htie | htie <;> linarith

/-- Numbers are their own roundings. -/
theorem isRounding_of_unpack {a : Float32} {m : Nat} {e : Int} {h : 0 < m}
    (ha : unpack a = .finite .positive m e h) : IsRounding (unpack a) (m * 2 ^ e) :=
  ha ▸ isRounding_of_fitted h (fitted_of_unpack ha) (exponent_of_unpack ha).2

theorem log2_mul_two_pow {m : Nat} (hm : m ≠ 0) (d : Nat) : (m * 2 ^ d).log2 = m.log2 + d := by
  induction d with
  | zero => rw [Nat.pow_zero, Nat.mul_one, Nat.add_zero]
  | succ d ih =>
    have hne : m * 2 ^ d ≠ 0 := Nat.mul_ne_zero hm (Nat.two_pow_pos d).ne'
    rw [Nat.pow_succ, ← Nat.mul_assoc, Nat.mul_comm, Nat.log2_two_mul hne, ih, Nat.add_assoc]

/-- The nearest multiple of a larger unit is a rounding. -/
theorem rounded_of_nearest {n k r : Nat} {g : Int} (hfit : Fitted (n / 2 ^ k) g)
    (hr : Nearest n k r) : Rounded (n / 2 ^ k) g r := by
  have hpos : (0 : Rat) < 2 ^ k := by positivity
  have hsplit : (n : Rat) = n / 2 ^ k * 2 ^ k := (div_mul_cancel₀ _ hpos.ne').symm
  have hle : 2 * ((r : Rat) * 2 ^ k) ≤ 2 * n + 2 ^ k := by exact_mod_cast hr.le
  have hge : 2 * (n : Rat) ≤ 2 * (r * 2 ^ k) + 2 ^ k := by exact_mod_cast hr.ge
  rw [hsplit] at hle hge
  refine ⟨hfit.least, fun hleast => ?_, ?_, ?_, ?_, fun htie => hr.even ?_⟩
  · rw [le_div_iff₀ hpos]
    exact_mod_cast (Nat.le_div_iff_mul_le (Nat.two_pow_pos k)).mp (hfit.full hleast)
  · rw [div_lt_iff₀ hpos]
    exact_mod_cast (Nat.div_lt_iff_lt_mul (Nat.two_pow_pos k)).mp hfit.lt
  · refine le_of_mul_le_mul_right ?_ hpos
    linarith
  · refine le_of_mul_le_mul_right ?_ hpos
    linarith
  · have hunits : ∀ a b : Rat, a = b → a * 2 ^ k = b * 2 ^ k := fun a b h => h ▸ rfl
    rcases htie with htie | htie
    · left
      have hscaled := hunits _ _ htie
      have hcast : 2 * ((r : Rat) * 2 ^ k) = 2 * n + 2 ^ k := by
        rw [hsplit]
        linarith
      exact_mod_cast hcast
    · right
      have hscaled := hunits _ _ htie
      have hcast : 2 * (n : Rat) = 2 * (r * 2 ^ k) + 2 ^ k := by
        rw [hsplit]
        linarith
      exact_mod_cast hcast

/-- A mantissa with enough digits is rounded to the rounding. -/
theorem isRounding_roundWithAccuracy {m : Nat} {e : Int}
    (he : e ≤ max ((m.log2 : Int) - 23 + e) (-149)) :
    IsRounding (reread (roundWithAccuracy .binary32 .positive m e .exact)) (m * 2 ^ e) := by
  rcases roundWithAccuracy_of_le .positive .exact he rfl with ⟨k, hk, hfit, r, _, _, hnearest, hends⟩
  refine ⟨m / 2 ^ k, _, r, rounded_of_nearest hfit (hnearest rfl), ?_, ?_⟩
  · rw [hk, add_comm, zpow_add₀ two_ne_zero, zpow_natCast, ← mul_assoc,
      div_mul_cancel₀ _ (by positivity)]
  · rcases hends with ⟨hzero, rfl⟩ | ⟨q, f, hq, hfinite, hfitted, _, _, hsame⟩
    · rw [hzero, reread_zero]
      exact .inl ⟨by rw [Nat.cast_zero, zero_mul], _, rfl⟩
    · rw [hfinite]
      exact .inr ⟨q, f, hq, rfl, hfitted, hsame.symm⟩

/-- Rounding gives the rounding. -/
theorem isRounding_round {m : Nat} (hm : 0 < m) (e : Int) :
    IsRounding (reread (UnpackedFloat.round .binary32 .positive m e)) (m * 2 ^ e) := by
  -- how far a short mantissa is shifted up first
  obtain ⟨d, hd⟩ : ∃ d, d = (e - max ((m.log2 : Int) - 23 + e) (-149)).toNat := ⟨_, rfl⟩
  have hlog := log2_mul_two_pow hm.ne' d
  have hvalue : (m : Rat) * 2 ^ e = (m * 2 ^ d : Nat) * 2 ^ (e - d) := by
    rw [Nat.cast_mul, Nat.cast_pow, Nat.cast_ofNat, mul_assoc, ← zpow_natCast,
      ← zpow_add₀ two_ne_zero, add_sub_cancel]
  rw [round_eq_roundWithAccuracy .positive hd, hvalue]
  exact isRounding_roundWithAccuracy (by omega)

/-! ## Sums -/

variable {a b e : Float32}

theorem value_of_zero {s : Sign} (ha : unpack a = .zero s) : value a = 0 := by
  unfold value
  rw [ha]

/-- What is not negative is infinite, or the rounding of its value. -/
theorem isRounding_of_nonneg (ha : 0 ≤ a) : unpack a = .infinity .positive ∨
    IsRounding (unpack a) (value a) ∧ 0 ≤ value a := by
  replace ha := nonneg_iff_isNonneg.mp ha
  match hu : unpack a, ha with
  | .infinity .positive, _ => exact .inl rfl
  | .zero s, _ =>
    rw [value_of_zero hu]
    exact .inr ⟨isRounding_zero s, le_rfl⟩
  | .finite .positive m e hm, _ =>
    rw [value_of_unpack hu]
    exact .inr ⟨hu ▸ isRounding_of_unpack hu, by positivity⟩

theorem unpack_add_of_infinity (ha : 0 ≤ a) (hb : 0 ≤ b)
    (h : unpack a = .infinity .positive ∨ unpack b = .infinity .positive) :
    unpack (a + b) = .infinity .positive := by
  rw [nonneg_iff_isNonneg] at ha hb
  rw [unpack_add, ← reread_infinity]
  refine congrArg reread ?_
  rcases h with h | h
  · rw [h]
    match unpack b, hb with
    | .zero _, _ | .infinity .positive, _ | .finite .positive .., _ => rfl
  · rw [h]
    match unpack a, ha with
    | .zero _, _ | .infinity .positive, _ | .finite .positive .., _ => rfl

/-- A finite sum is the rounding of the sum of the values. -/
theorem isRounding_add (ha : 0 ≤ a) (hb : 0 ≤ b) (hfa : unpack a ≠ .infinity .positive)
    (hfb : unpack b ≠ .infinity .positive) : IsRounding (unpack (a + b)) (value a + value b) := by
  rw [nonneg_iff_isNonneg] at ha hb
  rw [unpack_add]
  match hu : unpack a, hv : unpack b, ha, hb, hfa, hfb with
  | .zero s, .zero t, _, _, _, _ =>
    rw [value_of_zero hu, value_of_zero hv, add_zero]
    cases s <;> cases t <;> exact isRounding_zero _
  | .zero s, .finite .positive n f hn, _, _, _, _ =>
    have hread := reread_of_fitted (s := .positive) hn (fitted_of_unpack hv) (exponent_of_unpack hv).2
    show IsRounding (reread (.finite .positive n f hn)) _
    rw [value_of_zero hu, zero_add, value_of_unpack hv, hread, ← hv]
    exact isRounding_of_unpack hv
  | .finite .positive m e hm, .zero t, _, _, _, _ =>
    have hread := reread_of_fitted (s := .positive) hm (fitted_of_unpack hu) (exponent_of_unpack hu).2
    show IsRounding (reread (.finite .positive m e hm)) _
    rw [value_of_zero hv, add_zero, value_of_unpack hu, hread, ← hu]
    exact isRounding_of_unpack hu
  | .finite .positive m e hm, .finite .positive n f hn, _, _, _, _ =>
    -- both mantissas are written with the smaller exponent
    have hsum : value a + value b =
        (m <<< (e - min e f).toNat + n <<< (f - min e f).toNat : Nat) * 2 ^ min e f := by
      rw [value_of_unpack hu, value_of_unpack hv, zpow_eq (min_le_left e f),
        zpow_eq (min_le_right e f), Nat.shiftLeft_eq, Nat.shiftLeft_eq]
      push_cast
      ring
    have hpos : 0 < m <<< (e - min e f).toNat + n <<< (f - min e f).toNat := by
      rw [Nat.shiftLeft_eq]
      exact Nat.add_pos_left (Nat.mul_pos hm (Nat.two_pow_pos _)) _
    rw [hsum]
    show IsRounding (reread (UnpackedFloat.normalize .binary32
      ((m <<< (e - min e f).toNat : Nat) + (n <<< (f - min e f).toNat : Nat) : Int)
      (min e f) .positive)) _
    rw [← Int.natCast_add]
    unfold UnpackedFloat.normalize
    rw [compare_gt_iff_gt.mpr (Int.natCast_pos.mpr hpos)]
    exact isRounding_round hpos _

theorem le_add (ha : 0 ≤ a) (he : 0 ≤ e) : a ≤ a + e := by
  have hsum := nonneg_iff_isNonneg.mp (add_nonneg ha he)
  rw [le_iff]
  by_cases hinfinite : unpack a = .infinity .positive ∨ unpack e = .infinity .positive
  · rw [unpack_add_of_infinity ha he hinfinite]
    exact le_infinity (nonneg_iff_isNonneg.mp ha)
  · rw [not_or] at hinfinite
    have hround := ((isRounding_of_nonneg ha).resolve_left hinfinite.1).1
    have hnonneg := ((isRounding_of_nonneg he).resolve_left hinfinite.2).2
    exact hround.le (isRounding_add ha he hinfinite.1 hinfinite.2) (le_add_of_nonneg_right hnonneg)

/-- The order of finite numbers is that of their values. -/
theorem value_le (ha : 0 ≤ a) (hb : unpack b ≠ .infinity .positive) (hab : a ≤ b) :
    unpack a ≠ .infinity .positive ∧ value a ≤ value b := by
  replace ha := nonneg_iff_isNonneg.mp ha
  rw [le_iff] at hab
  match hu : unpack a, hv : unpack b, ha, hb, hab with
  | .zero s, .zero t, _, _, _ =>
    rw [value_of_zero hu, value_of_zero hv]
    exact ⟨nofun, le_rfl⟩
  | .zero s, .finite .positive n f hn, _, _, _ =>
    rw [value_of_zero hu, value_of_unpack hv]
    exact ⟨nofun, by positivity⟩
  | .finite .positive m e hm, .finite .positive n f hn, _, _, hle =>
    rw [value_of_unpack hu, value_of_unpack hv]
    exact ⟨nofun, (isLE_compare_iff (fitted_of_unpack hu) (fitted_of_unpack hv)).mp hle⟩

theorem add_le_add (ha : 0 ≤ a) (hab : a ≤ b) (he : 0 ≤ e) : a + e ≤ b + e := by
  have hb : 0 ≤ b := LawfulOrder.le_trans _ _ _ ha hab
  rw [le_iff]
  by_cases hinfinite : unpack b = .infinity .positive ∨ unpack e = .infinity .positive
  · rw [unpack_add_of_infinity hb he hinfinite]
    exact le_infinity (nonneg_iff_isNonneg.mp (add_nonneg ha he))
  · rw [not_or] at hinfinite
    rcases value_le ha hinfinite.1 hab with ⟨hfinite, hvalue⟩
    exact (isRounding_add ha he hfinite hinfinite.2).le
      (isRounding_add hb he hinfinite.1 hinfinite.2) (add_le_add_left hvalue _)

end Single

end TetheredParticles
