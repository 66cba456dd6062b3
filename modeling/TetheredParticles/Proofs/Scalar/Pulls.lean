import TetheredParticles.Proofs.Scalar.Signed
import TetheredParticles.Tether.Projection
/-!
# Pulls

A pull moves a place along the direction to another one, by some of the distance between the two. What
is needed of scalars for that to bring the places together, and never to go further than was asked
for, holds of exact and of rounded scalars.

* `Vec3.Toward`, `Vec3.Away` — moves that lead to a place or away from it, in every component.
* `LawfulPulls` — signs and bounds of what tethers compute.
* `Exact.toward_direction`, `Single.moves_direction` — moves along a direction and against it.
-/

namespace TetheredParticles

variable {S : Type} [Scalar S]

/-- A move from `before` to `after` does not lead away from `target`. -/
def Scalar.Toward (target before after : S) : Prop :=
  (before ≤ target → before ≤ after) ∧ (target ≤ before → after ≤ before)

/-- A move from `before` to `after` does not lead to `target`. -/
def Scalar.Away (target before after : S) : Prop :=
  (before ≤ target → after ≤ before) ∧ (target ≤ before → before ≤ after)

namespace Vec3

/-- A move leads away from `target` in no component. -/
def Toward (target before after : Vec3 S) : Prop :=
  Scalar.Toward target.x before.x after.x ∧ Scalar.Toward target.y before.y after.y ∧
    Scalar.Toward target.z before.z after.z

/-- A move leads to `target` in no component. -/
def Away (target before after : Vec3 S) : Prop :=
  Scalar.Away target.x before.x after.x ∧ Scalar.Away target.y before.y after.y ∧
    Scalar.Away target.z before.z after.z

end Vec3

/-- Fractions, shares and differences of finite lengths have the signs and the bounds that they should
have, and moves along a direction lead to where it points. -/
class LawfulPulls (S : Type) [Scalar S] : Prop extends LawfulLengths S, LawfulAnchors S where
  isFinite_of_le : ∀ a b : S, 0 ≤ a → a ≤ b → Scalar.isFinite b = true → Scalar.isFinite a = true
  sub_nonneg : ∀ a b : S, Scalar.isFinite a = true → 0 ≤ b → b ≤ a → 0 ≤ a - b
  sub_nonpos : ∀ a b : S, Scalar.isFinite a = true → 0 ≤ b → a ≤ b → a - b ≤ 0
  sub_le : ∀ a b : S, Scalar.isFinite a = true → 0 ≤ b → a - b ≤ a
  mul_le : ∀ s a : S, 0 ≤ s → s ≤ 1 → 0 ≤ a → Scalar.isFinite a = true → 0 ≤ s * a ∧ s * a ≤ a
  div_le : ∀ a d : S, 1 ≤ d → 0 ≤ a → Scalar.isFinite a = true → 0 ≤ a / d ∧ a / d ≤ a
  div_nonpos : ∀ a d : S, 1 ≤ d → a ≤ 0 → Scalar.isFinite (a / d) = true → a / d ≤ 0
  compliance_nonneg : ∀ s dt : S, 0 < s → 0 < dt →
    0 ≤ (TetherSet.leastCompliance : S) / (s * dt * dt)
  mul_zero : ∀ a z : S, Scalar.isFinite a = true → (z == 0) = true → (a * z == 0) = true
  /-- Nothing moves by a distance of zero. -/
  still : ∀ (v : Vec3 S) (z : S), (z == 0) = true → (v.directionAndLength.1 * z == 0) = true
  /-- A move along the direction to a place. -/
  toward : ∀ (target v : Vec3 S) (m : S), Scalar.isFinite m = true → 0 ≤ m →
    Vec3.Toward target v (v + (target - v).directionAndLength.1 * m)
  /-- A move against the direction to a place. -/
  away : ∀ (target v : Vec3 S) (m : S), Scalar.isFinite m = true → m ≤ 0 →
    Vec3.Away target v (v + (target - v).directionAndLength.1 * m)

namespace Scalar

variable {a b : S}

/-- One place is in the same place in the order. -/
theorem Coincide.le [LawfulOrder S] (h : Coincide a b) (ha : isNumber a = true) : a ≤ b ∧ b ≤ a := by
  rcases h with rfl | ⟨ha0, hb0⟩
  · exact ⟨le_refl ha, le_refl ha⟩
  · rw [beq_iff] at ha0 hb0
    exact ⟨le_trans ha0.1 hb0.2, le_trans hb0.1 ha0.2⟩

theorem Coincide.toward [LawfulOrder S] (h : Coincide a b) (target : S) : Toward target a b :=
  ⟨fun hle => (h.le (isNumber_left hle)).1, fun hle => (h.le (isNumber_right hle)).2⟩

theorem Coincide.away [LawfulOrder S] (h : Coincide a b) (target : S) : Away target a b :=
  ⟨fun hle => (h.le (isNumber_left hle)).2, fun hle => (h.le (isNumber_right hle)).1⟩

end Scalar

/-! ## Exact scalars -/

namespace Exact

theorem toward_add {target a l m : Rat} (hl : 0 ≤ l) (hm : 0 ≤ m) :
    Scalar.Toward target a (a + (target - a) / l * m) := by
  constructor
  · intro h
    have hd := div_nonneg (sub_nonneg.mpr h) hl
    linarith [mul_nonneg hd hm]
  · intro h
    have hd := div_nonpos_of_nonpos_of_nonneg (sub_nonpos.mpr h) hl
    linarith [mul_nonpos_of_nonpos_of_nonneg hd hm]

theorem away_add {target a l m : Rat} (hl : 0 ≤ l) (hm : m ≤ 0) :
    Scalar.Away target a (a + (target - a) / l * m) := by
  constructor
  · intro h
    have hd := div_nonneg (sub_nonneg.mpr h) hl
    linarith [mul_nonpos_of_nonneg_of_nonpos hd hm]
  · intro h
    have hd := div_nonpos_of_nonpos_of_nonneg (sub_nonpos.mpr h) hl
    linarith [mul_nonneg_of_nonpos_of_nonpos hd hm]

/-- A vector without a usable length moves nothing. -/
theorem coincide_add_zero_mul (a m : Rat) : Scalar.Coincide a (a + 0 * m) :=
  .inl (by rw [zero_mul, add_zero])

theorem toward_direction (p q : Vec3 Rat) {m : Rat} (hm : 0 ≤ m) :
    Vec3.Toward p q (q + (p - q).directionAndLength.1 * m) := by
  unfold Vec3.directionAndLength
  split
  case isTrue =>
    have hl := sqrt_nonneg ((p - q).dot (p - q))
    exact ⟨toward_add hl hm, toward_add hl hm, toward_add hl hm⟩
  case isFalse =>
    exact ⟨(coincide_add_zero_mul ..).toward _, (coincide_add_zero_mul ..).toward _,
      (coincide_add_zero_mul ..).toward _⟩

theorem away_direction (p q : Vec3 Rat) {m : Rat} (hm : m ≤ 0) :
    Vec3.Away p q (q + (p - q).directionAndLength.1 * m) := by
  unfold Vec3.directionAndLength
  split
  case isTrue =>
    have hl := sqrt_nonneg ((p - q).dot (p - q))
    exact ⟨away_add hl hm, away_add hl hm, away_add hl hm⟩
  case isFalse =>
    exact ⟨(coincide_add_zero_mul ..).away _, (coincide_add_zero_mul ..).away _,
      (coincide_add_zero_mul ..).away _⟩

end Exact

instance : LawfulPulls Rat where
  isFinite_of_le a _ _ _ _ := beq_iff_eq.mpr (sub_self a)
  sub_nonneg _ _ _ _ h := sub_nonneg.mpr h
  sub_nonpos _ _ _ _ h := sub_nonpos.mpr h
  sub_le _ _ _ h := sub_le_self _ h
  mul_le _ _ hs hone ha _ := ⟨mul_nonneg hs ha, mul_le_of_le_one_left ha hone⟩
  div_le _ _ hone ha _ := ⟨div_nonneg ha (zero_le_one.trans hone), div_le_self ha hone⟩
  div_nonpos _ _ hone ha _ := div_nonpos_of_nonpos_of_nonneg ha (zero_le_one.trans hone)
  compliance_nonneg s dt hs hdt := by
    have hratio : (0 : Rat) ≤ TetherSet.leastCompliance :=
      div_nonneg (Nat.cast_nonneg _) (Nat.cast_nonneg _)
    exact div_nonneg hratio (mul_nonneg (mul_nonneg hs.le hdt.le) hdt.le)
  mul_zero a z _ hz := by
    have hzero : z = 0 := beq_iff_eq.mp hz
    exact beq_iff_eq.mpr (by rw [hzero, mul_zero])
  still v z hz := by
    have hzero : z = 0 := beq_iff_eq.mp hz
    subst hzero
    refine Vec3.beq_zero_iff.mpr ⟨?_, ?_, ?_⟩ <;> exact beq_iff_eq.mpr (mul_zero _)
  toward target v _ _ hm := Exact.toward_direction target v hm
  away target v _ _ hm := Exact.away_direction target v hm

/-! ## Single precision -/

namespace Single

open Float.Model Float.Model.UnpackedFloat

variable {a b : Float32}

theorem isFinite_of_sub (h : (unpack (a - b)).isFinite = true) :
    (unpack a).isFinite = true ∧ (unpack b).isFinite = true := by
  rw [unpack_sub] at h
  replace h := isFinite_of_reread h
  match hu : unpack a, hv : unpack b, h with
  | .zero _, .zero _, _ | .zero _, .finite .., _ | .finite .., .zero _, _ | .finite .., .finite .., _ =>
    exact ⟨rfl, rfl⟩
  | .infinity s, .infinity t, h => cases s <;> cases t <;> cases h

/-- A number that is finite is written in its parts, with a sign if it is not zero. -/
theorem cases_of_nonneg (ha : 0 ≤ a) (hfinite : (unpack a).isFinite = true) :
    (∃ s, unpack a = .zero s) ∨ ∃ m e h, unpack a = .finite .positive m e h := by
  rw [nonneg_iff_isNonneg] at ha
  rcases cases_of_isFinite hfinite with hzero | ⟨s, m, e, hm, hu⟩
  · exact .inl hzero
  · rw [hu] at ha
    cases s
    · exact ha.elim
    · exact .inr ⟨m, e, hm, hu⟩

/-- A length that does not exceed a finite one is finite, and so is its value. -/
theorem atMost_of_le (ha : 0 ≤ a) {n : Nat} {f : Int} {hn : 0 < n}
    (hb : unpack b = .finite .positive n f hn) (h : a ≤ b) : AtMost a (n * 2 ^ f) := by
  have hinfinite : unpack b ≠ .infinity .positive := by
    rw [hb]
    nofun
  rcases value_le ha hinfinite h with ⟨hnot, hvalue⟩
  rw [nonneg_iff_isNonneg] at ha
  rw [value_of_unpack hb] at hvalue
  match hu : unpack a, ha, hnot with
  | .zero s, _, _ => exact .inl ⟨s, hu⟩
  | .infinity .positive, _, hnot => exact absurd rfl hnot
  | .finite .positive m e hm, _, _ =>
    rw [value_of_unpack hu] at hvalue
    exact .inr ⟨.positive, m, e, hm, hu, hvalue⟩

theorem isFinite_of_le (ha : 0 ≤ a) (h : a ≤ b) (hb : (unpack b).isFinite = true) :
    (unpack a).isFinite = true := by
  rcases cases_of_nonneg (LawfulOrder.le_trans _ _ _ ha h) hb with ⟨s, hzero⟩ | ⟨n, f, hn, hb⟩
  · -- what does not exceed zero is zero
    have hle := h
    rw [le_iff, hzero] at hle
    rw [nonneg_iff_isNonneg] at ha
    match hu : unpack a, ha, hle with
    | .zero _, _, _ => rfl
  · exact (atMost_of_le ha hb h).isFinite

theorem isFinite_iff : Scalar.isFinite a = true ↔ (unpack a).isFinite = true := by
  refine ⟨isFinite_of_isFinite, fun h => ?_⟩
  show (a - a == 0) = true
  rw [beq_zero_iff, unpack_sub]
  rcases cases_of_isFinite h with ⟨s, h⟩ | ⟨s, m, e, hm, h⟩ <;> rw [h]
  · cases s <;> exact ⟨_, reread_zero _⟩
  · show ∃ t, reread (UnpackedFloat.normalize .binary32 (s.apply _ - s.apply _) _ .positive) = .zero t
    rw [sub_self]
    exact ⟨_, reread_zero _⟩

/-- A length is finite, or nothing finite is left if it is taken off. -/
theorem isFinite_or_sub_le (ha : (unpack a).isFinite = true) (hb : 0 ≤ b) :
    (unpack b).isFinite = true ∨ ∀ c : Float32, (unpack c).isFinite = true → a - b ≤ c := by
  rw [nonneg_iff_isNonneg] at hb
  match hv : unpack b, hb with
  | .zero _, _ | .finite .positive .., _ => exact .inl rfl
  | .infinity .positive, _ =>
    refine .inr fun c hc => ?_
    -- what an infinite length leaves is below everything finite
    have hdifference : unpack (a - b) = .infinity .negative := by
      rw [unpack_sub, hv]
      rcases cases_of_isFinite ha with ⟨s, ha⟩ | ⟨s, m, e, hm, ha⟩ <;> rw [ha] <;>
        exact reread_infinity _
    rw [le_iff, hdifference]
    rcases cases_of_isFinite hc with ⟨s, hc⟩ | ⟨s, m, e, hm, hc⟩ <;> rw [hc]
    · rfl
    · cases s <;> rfl

theorem mul_le_of_le_one (ha : 0 ≤ a) (hone : a ≤ 1) (hb : 0 ≤ b) (hfinite : (unpack b).isFinite = true) :
    0 ≤ a * b ∧ a * b ≤ b := by
  have hunpack : unpack (1 : Float32) = .finite .positive (2 ^ 23) (-23) (by decide) := rfl
  have hatMost : AtMost a 1 := by
    have h := atMost_of_le ha hunpack hone
    norm_num at h
    exact h
  refine ⟨mul_nonneg hatMost.isFinite hfinite ha hb, ?_⟩
  rcases cases_of_nonneg hb hfinite with ⟨s, hzero⟩ | ⟨n, f, hn, hunpack⟩
  · have hz := mul_zero_of_isFinite hatMost.isFinite (beq_zero_iff.mpr ⟨s, hzero⟩)
    exact LawfulOrder.le_trans _ _ _ (Scalar.beq_iff.mp hz).1 hb
  · exact le_of_atMost hunpack (atMost_mul hatMost hunpack)

/-- A number that is not less than one is infinite, or is written in its parts. -/
theorem cases_of_one_le (h : 1 ≤ a) : unpack a = .infinity .positive ∨
    ∃ m e hm, unpack a = .finite .positive m e hm ∧ (1 : Rat) ≤ m * 2 ^ e := by
  have hone : unpack (1 : Float32) = .finite .positive (2 ^ 23) (-23) (by decide) := rfl
  rw [le_iff, hone] at h
  match hu : unpack a, h with
  | .infinity .positive, _ => exact .inl rfl
  | .finite .positive m e hm, h =>
    have hfitted : Fitted (2 ^ 23) (-23) := ⟨by decide, by decide, fun _ => le_rfl⟩
    have hle := (isLE_compare_iff hfitted (fitted_of_unpack hu)).mp h
    norm_num at hle
    exact .inr ⟨m, e, hm, rfl, hle⟩

theorem div_infinity (ha : (unpack a).isFinite = true) (hb : unpack b = .infinity .positive) :
    (a / b == 0) = true := by
  rw [beq_zero_iff, unpack_div, hb]
  rcases cases_of_isFinite ha with ⟨s, ha⟩ | ⟨s, m, e, hm, ha⟩ <;> rw [ha] <;>
    exact ⟨_, reread_zero _⟩

theorem div_le_of_one_le (hone : 1 ≤ b) (ha : 0 ≤ a) (hfinite : (unpack a).isFinite = true) :
    0 ≤ a / b ∧ a / b ≤ a := by
  rcases cases_of_one_le hone with hinfinite | ⟨n, f, hn, hb, hle⟩
  · have hzero := Scalar.beq_iff.mp (div_infinity hfinite hinfinite)
    exact ⟨hzero.2, LawfulOrder.le_trans _ _ _ hzero.1 ha⟩
  · refine ⟨div_nonneg ha hb, ?_⟩
    rcases cases_of_nonneg ha hfinite with ⟨s, hzero⟩ | ⟨m, e, hm, hu⟩
    · have hquotient : (a / b == 0) = true := by
        rw [beq_zero_iff, unpack_div, hzero, hb]
        exact ⟨_, reread_zero _⟩
      exact LawfulOrder.le_trans _ _ _ (Scalar.beq_iff.mp hquotient).1 ha
    · refine le_of_atMost hu (atMost_div_of_le hb (fitted_of_unpack hu) (exponent_of_unpack hu).2 ?_)
      exact .inr ⟨.positive, m, e, hm, hu, le_mul_of_one_le_right (by positivity) hle⟩

theorem div_nonpos_of_one_le (hone : 1 ≤ b) (ha : a ≤ 0) (hfinite : (unpack (a / b)).isFinite = true) :
    a / b ≤ 0 := by
  rcases cases_of_one_le hone with hinfinite | ⟨n, f, hn, hb, _⟩
  · have hdividend : (unpack a).isFinite = true := by
      rw [unpack_div, hinfinite] at hfinite
      replace hfinite := isFinite_of_reread hfinite
      match hu : unpack a, hfinite with
      | .zero _, _ | .finite .., _ => rfl
    exact (Scalar.beq_iff.mp (div_infinity hdividend hinfinite)).1
  · exact div_nonpos ha hb

/-- The sign of a compliance term is that of its factors, even if they are too small or too large for
their product to be told from zero or to be finite. -/
def Plus (u : UnpackedFloat) : Prop :=
  u = .zero .positive ∨ u = .infinity .positive ∨ ∃ m e h, u = .finite .positive m e h ∧ Fitted m e

theorem plus_roundWithAccuracy {m : Nat} {e : Int} (hm : 2 ^ 23 ≤ m ∨ e ≤ -149) :
    Plus (reread (roundWithAccuracy .binary32 .positive m e .exact)) := by
  obtain ⟨g, hg⟩ : ∃ g, g = max ((m.log2 : Int) - 23 + e) (-149) := ⟨_, rfl⟩
  have heg : e ≤ g := by
    rcases hm with hm | hm
    · have hlog : 23 ≤ m.log2 := (Nat.le_log2 (by omega)).mpr hm
      omega
    · omega
  rcases roundWithAccuracy_of_le .positive .exact heg hg with
    ⟨_, _, _, _, _, _, _, ⟨hzero, _⟩ | ⟨n, f, hn, hround, hfitted, _⟩⟩
  · rw [hzero]
    exact .inl (reread_zero _)
  · rw [hround]
    rcases le_or_gt f 104 with hsmall | hlarge
    · exact .inr (.inr ⟨n, f, hn, reread_of_fitted hn hfitted hsmall, hfitted⟩)
    · exact .inr (.inl (reread_of_huge hn (by omega)))

theorem plus_of_pos (h : 0 < a) : Plus (unpack a) ∧ unpack a ≠ .zero .positive := by
  rw [lt_iff] at h
  change (UnpackedFloat.zero .positive).compare _ = _ at h
  match hu : unpack a, h with
  | .infinity .positive, _ => exact ⟨.inr (.inl rfl), nofun⟩
  | .finite .positive m e hm, _ => exact ⟨.inr (.inr ⟨m, e, hm, rfl, fitted_of_unpack hu⟩), nofun⟩

/-- The product of two numbers with positive signs, unless one is zero and the other infinite. -/
theorem plus_mul (ha : Plus (unpack a)) (hb : Plus (unpack b))
    (h : unpack a = .zero .positive → unpack b ≠ .infinity .positive)
    (h' : unpack b = .zero .positive → unpack a ≠ .infinity .positive) : Plus (unpack (a * b)) := by
  rw [unpack_mul]
  rcases ha with ha | ha | ⟨m, e, hm, ha, hfit⟩ <;> rcases hb with hb | hb | ⟨n, f, hn, hb, hfit'⟩ <;>
    rw [ha, hb]
  · exact .inl (reread_zero _)
  · exact absurd hb (h ha)
  · exact .inl (reread_zero _)
  · exact absurd ha (h' hb)
  · exact .inr (.inl (reread_infinity _))
  · exact .inr (.inl (reread_infinity _))
  · exact .inl (reread_zero _)
  · exact .inr (.inl (reread_infinity _))
  · exact plus_roundWithAccuracy (hfit.mul_full hfit' hm hn)

theorem compliance_nonneg {s dt : Float32} (hs : 0 < s) (hdt : 0 < dt) :
    0 ≤ (TetherSet.leastCompliance : Float32) / (s * dt * dt) := by
  rcases plus_of_pos hs with ⟨hs, hsne⟩
  rcases plus_of_pos hdt with ⟨hdt, hdtne⟩
  have hfirst := plus_mul hs hdt (fun h => absurd h hsne) (fun h => absurd h hdtne)
  have hproduct : Plus (unpack (s * dt * dt)) := by
    refine plus_mul hfirst hdt (fun hzero hinfinite => ?_) fun h => absurd h hdtne
    -- an infinite time step has an infinite product with the stiffness
    rw [unpack_mul, hinfinite] at hzero
    rcases hs with hs | hs | ⟨m, e, hm, hs, _⟩
    · exact hsne hs
    · rw [hs] at hzero
      cases hzero
    · rw [hs] at hzero
      change reread (.infinity .positive) = .zero .positive at hzero
      rw [reread_infinity] at hzero
      cases hzero
  have hleast : ∃ m e h, unpack (TetherSet.leastCompliance : Float32) = .finite .positive m e h :=
    ⟨_, _, _, rfl⟩
  rcases hleast with ⟨m, e, hm, hleast⟩
  -- a product that is rounded to zero gives an infinite term, and an infinite product none
  rcases hproduct with hzero | hinfinite | ⟨n, f, hn, hfinite, _⟩
  · rw [nonneg_iff_isNonneg, unpack_div, hleast, hzero]
    exact IsNonneg.reread (u := .infinity .positive) trivial
  · rw [nonneg_iff_isNonneg, unpack_div, hleast, hinfinite]
    exact IsNonneg.reread (u := .zero .positive) trivial
  · refine div_nonneg (nonneg_iff_isNonneg.mpr ?_) hfinite
    rw [hleast]
    trivial

/-! ## Directions -/

/-- A component of a direction is finite, and so are the two places that it points between. -/
theorem isFinite_component {p q : Vec3 Float32} {a b : Float32}
    (hc : a - b = (p - q).x ∨ a - b = (p - q).y ∨ a - b = (p - q).z)
    (hlength : Scalar.epsilon < (p - q).length) (hfinite : Scalar.isFinite (p - q).length = true) :
    (unpack a).isFinite = true ∧ (unpack b).isFinite = true ∧
      ∃ m e h, unpack (p - q).length = .finite .positive m e h ∧ AtMost ((a - b) / (p - q).length) 1 := by
  rcases component_le_length _ hc hlength hfinite with ⟨m, e, hm, hunpack, hle⟩
  rcases isFinite_of_sub hle.isFinite with ⟨ha, hb⟩
  exact ⟨ha, hb, m, e, hm, hunpack, atMost_div hunpack hle⟩

theorem toward_add {p q : Vec3 Float32} {a b m : Float32}
    (hc : a - b = (p - q).x ∨ a - b = (p - q).y ∨ a - b = (p - q).z)
    (hlength : Scalar.epsilon < (p - q).length) (hfinite : Scalar.isFinite (p - q).length = true)
    (hm : (unpack m).isFinite = true) :
    (0 ≤ m → Scalar.Toward a b (b + (a - b) / (p - q).length * m)) ∧
      (m ≤ 0 → Scalar.Away a b (b + (a - b) / (p - q).length * m)) := by
  rcases isFinite_component hc hlength hfinite with ⟨ha, hb, n, f, hn, hunpack, hone⟩
  have hd := hone.isFinite
  have hmove := isFinite_mul hone hm
  have hahead : b ≤ a → 0 ≤ (a - b) / (p - q).length := fun h =>
    div_nonneg (sub_nonneg_of_le ha hb h) hunpack
  have hbehind : a ≤ b → (a - b) / (p - q).length ≤ 0 := fun h =>
    div_nonpos (sub_nonpos_of_le ha hb h) hunpack
  refine ⟨fun hpos => ⟨fun h => ?_, fun h => ?_⟩, fun hneg => ⟨fun h => ?_, fun h => ?_⟩⟩
  · exact le_add_of_nonneg hb hmove (mul_nonneg hd hm (hahead h) hpos)
  · exact add_le_of_nonpos hb hmove (mul_nonpos_of_nonpos_left hd hm (hbehind h) hpos)
  · exact add_le_of_nonpos hb hmove (mul_nonpos_of_nonpos_right hd hm (hahead h) hneg)
  · exact le_add_of_nonneg hb hmove (mul_nonneg_of_nonpos hd hm (hbehind h) hneg)

/-- A vector without a usable length moves nothing. -/
theorem coincide_add_zero_mul (a : Float32) {m : Float32} (hm : (unpack m).isFinite = true) :
    Scalar.Coincide a (a + 0 * m) := by
  refine coincide_add_zero a ?_
  rw [beq_zero_iff, unpack_mul, show unpack (0 : Float32) = .zero .positive from rfl]
  rcases cases_of_isFinite hm with ⟨s, h⟩ | ⟨s, n, f, hn, h⟩ <;> rw [h] <;> exact ⟨_, reread_zero _⟩

/-- A finite move along the direction to a place, or against it. -/
theorem moves_direction (p q : Vec3 Float32) {m : Float32} (hm : (unpack m).isFinite = true) :
    (0 ≤ m → Vec3.Toward p q (q + (p - q).directionAndLength.1 * m)) ∧
      (m ≤ 0 → Vec3.Away p q (q + (p - q).directionAndLength.1 * m)) := by
  unfold Vec3.directionAndLength
  split
  case isTrue h =>
    rcases h with ⟨hlength, hfinite⟩
    have hx := toward_add (a := p.x) (b := q.x) (.inl rfl) hlength hfinite hm
    have hy := toward_add (a := p.y) (b := q.y) (.inr (.inl rfl)) hlength hfinite hm
    have hz := toward_add (a := p.z) (b := q.z) (.inr (.inr rfl)) hlength hfinite hm
    exact ⟨fun h => ⟨hx.1 h, hy.1 h, hz.1 h⟩, fun h => ⟨hx.2 h, hy.2 h, hz.2 h⟩⟩
  case isFalse =>
    have hstay := fun a => coincide_add_zero_mul a hm
    exact ⟨fun _ => ⟨(hstay _).toward _, (hstay _).toward _, (hstay _).toward _⟩,
      fun _ => ⟨(hstay _).away _, (hstay _).away _, (hstay _).away _⟩⟩

end Single

instance : LawfulPulls Float32 where
  isFinite_of_le _ _ ha h hb :=
    Single.isFinite_iff.mpr (Single.isFinite_of_le ha h (Single.isFinite_iff.mp hb))
  sub_nonneg _ _ ha hb h := Single.sub_nonneg (Single.isFinite_iff.mp ha) hb h
  sub_nonpos a b ha hb h := by
    replace ha := Single.isFinite_iff.mp ha
    exact (Single.isFinite_or_sub_le ha hb).elim (Single.sub_nonpos_of_le ha · h) fun hle => hle 0 rfl
  sub_le a b ha hb := by
    replace ha := Single.isFinite_iff.mp ha
    exact (Single.isFinite_or_sub_le ha hb).elim (Single.sub_le_self ha · hb) fun hle => hle a ha
  mul_le _ _ hs hone ha hfinite :=
    Single.mul_le_of_le_one hs hone ha (Single.isFinite_iff.mp hfinite)
  div_le _ _ hone ha hfinite := Single.div_le_of_one_le hone ha (Single.isFinite_iff.mp hfinite)
  div_nonpos _ _ hone ha hfinite :=
    Single.div_nonpos_of_one_le hone ha (Single.isFinite_iff.mp hfinite)
  compliance_nonneg _ _ hs hdt := Single.compliance_nonneg hs hdt
  mul_zero _ _ ha hz := Single.mul_zero_of_isFinite (Single.isFinite_iff.mp ha) hz
  still v z hz := by
    unfold Vec3.directionAndLength
    split
    case isTrue h =>
      rcases h with ⟨hlength, hfinite⟩
      have hzero : ∀ c, c = v.x ∨ c = v.y ∨ c = v.z → (c / v.length * z == 0) = true := fun c hc =>
        Single.mul_zero_of_isFinite (Single.isFinite_direction v hc hlength hfinite) hz
      exact Vec3.beq_zero_iff.mpr
        ⟨hzero _ (.inl rfl), hzero _ (.inr (.inl rfl)), hzero _ (.inr (.inr rfl))⟩
    case isFalse =>
      have hzero : ((0 : Float32) * z == 0) = true := Single.mul_zero_of_isFinite rfl hz
      exact Vec3.beq_zero_iff.mpr ⟨hzero, hzero, hzero⟩
  toward target v _ hm := (Single.moves_direction target v (Single.isFinite_iff.mp hm)).1
  away target v _ hm := (Single.moves_direction target v (Single.isFinite_iff.mp hm)).2

end TetheredParticles
