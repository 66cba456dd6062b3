import TetheredParticles.Proofs.Tether.Relaxation
/-!
# Constraints that settle

An update of a multiplier takes account of what has been accumulated before. With real numbers, a
constraint that nothing else disturbs is therefore where it should be after one projection: the direction
is the same as before, or has been lost with the length, and the next update is zero. However often it is
projected, positions and multipliers are those of the first time.

* `Ideal.update_again` — an update leaves nothing to the next one.
* `Ideal.along_settled` — lengths and directions after an update.
* `Joint.settles`, `Suspension.settles`, `Tether.settles` — the constraints.
* `Compliance.projections_settle` — projections that are repeated.
-/

namespace TetheredParticles

/-- What an action does not change any more, is reached by it once and for all. -/
theorem repeatAction_settled {α : Type} {action : α → Except Fault α} {a b : α}
    (hfirst : action a = .ok b) (hagain : action b = .ok b) {n : Nat} (hn : 1 ≤ n) :
    repeatAction action n a = .ok b := by
  have hstays : ∀ m, repeatAction action m b = .ok b := by
    intro m
    induction m with
    | zero => rfl
    | succ m ih =>
      rw [repeatAction, hagain]
      exact ih
  obtain ⟨m, rfl⟩ := Nat.exists_eq_add_of_le' hn
  rw [repeatAction, hfirst]
  exact hstays m

namespace Ideal

variable {multiplier violation compliance dt restLength : ℝ} {masses : List ℝ} {v w : Vec3 ℝ}

/-! ## Updates -/

theorem total_pair (wa wb : ℝ) : Compliance.total [wa, wb] = wa + wb := by
  show -0 + wa + wb = wa + wb
  ring

theorem total_single (w : ℝ) : Compliance.total [w] = w := by
  show -0 + w = w
  ring

theorem update_of_fixed (h : Compliance.total masses ≤ Scalar.epsilon ∨ dt ≤ 0)
    (multiplier violation : ℝ) :
    Compliance.update multiplier violation masses compliance dt = 0 := if_pos h

theorem update_of_free (h : ¬ (Compliance.total masses ≤ Scalar.epsilon ∨ dt ≤ 0))
    (multiplier violation : ℝ) :
    Compliance.update multiplier violation masses compliance dt =
      (-violation - compliance / (dt * dt) * multiplier) /
        (Compliance.total masses + compliance / (dt * dt)) := if_neg h

/-- When an update has been carried out, there is nothing left for another one. -/
theorem update_again (multiplier violation : ℝ) (masses : List ℝ) (compliance dt : ℝ) :
    Compliance.update (multiplier + Compliance.update multiplier violation masses compliance dt)
        (violation + Compliance.update multiplier violation masses compliance dt *
          Compliance.total masses) masses compliance dt = 0 := by
  by_cases hfixed : Compliance.total masses ≤ Scalar.epsilon ∨ dt ≤ 0
  · exact update_of_fixed hfixed ..
  · rw [update_of_free hfixed (_ + _)]
    obtain ⟨u, hu⟩ : ∃ u, u = Compliance.update multiplier violation masses compliance dt := ⟨_, rfl⟩
    rw [← hu]
    rw [update_of_free hfixed] at hu
    rcases eq_or_ne (Compliance.total masses + compliance / (dt * dt)) 0 with hzero | hne
    · rw [hzero, div_zero]
    · -- the update is the one that makes up for the violation and for what has been accumulated
      have hupdate : u * (Compliance.total masses + compliance / (dt * dt)) =
          -violation - compliance / (dt * dt) * multiplier := by
        rw [hu, div_mul_cancel₀ _ hne]
      rw [div_eq_zero_iff]
      exact .inl (by linear_combination -hupdate)

/-- Neither does the first update shorten a constraint to less than nothing. -/
theorem update_bounds (hrest : 0 ≤ restLength) (hcompliance : 0 ≤ compliance) {d : ℝ} (hd : 0 ≤ d) :
    0 ≤ d + Compliance.update 0 (d - restLength) masses compliance dt * Compliance.total masses := by
  by_cases hfixed : Compliance.total masses ≤ Scalar.epsilon ∨ dt ≤ 0
  · rw [update_of_fixed hfixed, zero_mul, add_zero]
    exact hd
  · rw [update_of_free hfixed]
    have hmobile : 0 < Compliance.total masses := by
      rw [not_or, not_le] at hfixed
      exact epsilon_pos.trans hfixed.1
    have hsoft : 0 ≤ compliance / (dt * dt) := div_nonneg hcompliance (mul_self_nonneg dt)
    obtain ⟨W, hW⟩ : ∃ W, W = Compliance.total masses := ⟨_, rfl⟩
    obtain ⟨A, hA⟩ : ∃ A, A = compliance / (dt * dt) := ⟨_, rfl⟩
    rw [← hW] at hmobile
    rw [← hA] at hsoft
    rw [← hW, ← hA]
    have hpos : 0 < W + A := by linarith
    -- the length is a mean of the one before and the rest length
    have hmean : d + (-(d - restLength) - A * 0) / (W + A) * W = (d * A + restLength * W) / (W + A) := by
      field_simp
      ring
    rw [hmean]
    exact div_nonneg (add_nonneg (mul_nonneg hd hsoft) (mul_nonneg hrest hmobile.le)) hpos.le

/-- After the first update, a constraint either has no direction any more, or it has the same one and
asks for no other update. -/
theorem along_settled (hrest : 0 ≤ restLength) (hcompliance : 0 ≤ compliance)
    (hlt : Scalar.epsilon < v.length) (hzero : multiplier = 0)
    (hw : w = v + v / v.length *
      (Compliance.update multiplier (v.length - restLength) masses compliance dt *
        Compliance.total masses)) :
    w.directionAndLength = (0, 0) ∨
      ∃ d, w.directionAndLength = (v / v.length, d) ∧
        Compliance.update
            (multiplier + Compliance.update multiplier (v.length - restLength) masses compliance dt)
            (d - restLength) masses compliance dt = 0 := by
  have hagain := update_again multiplier (v.length - restLength) masses compliance dt
  have hnonneg : 0 ≤ v.length + Compliance.update multiplier (v.length - restLength) masses compliance dt *
      Compliance.total masses := hzero ▸ update_bounds hrest hcompliance (length_nonneg v)
  obtain ⟨m, hm⟩ : ∃ m, m = Compliance.update multiplier (v.length - restLength) masses compliance dt *
    Compliance.total masses := ⟨_, rfl⟩
  rw [← hm] at hw hagain hnonneg
  have hlength := length_along (epsilon_pos.trans hlt) hnonneg
  rcases lt_or_ge Scalar.epsilon (v.length + m) with hleft | hlost
  · refine .inr ⟨v.length + m, hw ▸ directionAndLength_along hlt hleft, ?_⟩
    rw [add_sub_right_comm]
    exact hagain
  · refine .inl (directionAndLength_of_le ?_)
    rw [hw, hlength]
    exact hlost

end Ideal

/-! ## Joints and suspensions -/

namespace Total

variable {S : Type} [Scalar S] {masses : Array S} {positions : Array (Vec3 S)} {n : Vec3 S} {d : S}

theorem joint_of_direction (j : Joint S) (masses : Array S) (dt : S)
    (h : (positions.getD j.second 0 - positions.getD j.first 0).directionAndLength = (n, d))
    (hn : ¬ (n == 0) = true) :
    joint j masses dt positions =
      let update := Compliance.update j.multiplier (d - j.restLength)
        [masses.getD j.first 0, masses.getD j.second 0] j.compliance dt
      ({ j with multiplier := j.multiplier + update, direction := n },
        (positions.modify j.first (· - n * update * masses.getD j.first 0)).modify j.second
          (· + n * update * masses.getD j.second 0)) := by
  unfold joint
  rw [h]
  exact if_neg hn

theorem joint_of_none (j : Joint S) (masses : Array S) (dt : S)
    (h : (positions.getD j.second 0 - positions.getD j.first 0).directionAndLength = (n, d))
    (hn : (n == 0) = true) : joint j masses dt positions = (j, positions) := by
  unfold joint
  rw [h]
  exact if_pos hn

theorem suspension_of_direction (s : Suspension S) (masses : Array S) (dt : S)
    (h : (positions.getD s.particle 0 - s.target).directionAndLength = (n, d))
    (hn : ¬ (n == 0) = true) :
    suspension s masses dt positions =
      let update := Compliance.update s.multiplier (d - s.restLength) [masses.getD s.particle 0]
        s.compliance dt
      ({ s with multiplier := s.multiplier + update, direction := n },
        positions.modify s.particle (· + n * update * masses.getD s.particle 0)) := by
  unfold suspension
  rw [h]
  exact if_neg hn

theorem suspension_of_none (s : Suspension S) (masses : Array S) (dt : S)
    (h : (positions.getD s.particle 0 - s.target).directionAndLength = (n, d))
    (hn : (n == 0) = true) : suspension s masses dt positions = (s, positions) := by
  unfold suspension
  rw [h]
  exact if_pos hn

end Total

namespace Ideal

variable {masses : Array ℝ} {positions : Array (Vec3 ℝ)}

theorem no_direction : ((0 : Vec3 ℝ) == 0) = true := by
  have hzero : ((0 : ℝ) == 0) = true := LawfulZero.zero_beq_zero
  exact Vec3.beq_zero_iff.mpr ⟨hzero, hzero, hzero⟩

theorem still_add (v n : Vec3 ℝ) (w : ℝ) : v + n * (0 : ℝ) * w = v := by
  rw [mul_zero_eq, zero_mul_eq, add_zero_eq]

theorem still_sub (v n : Vec3 ℝ) (w : ℝ) : v - n * (0 : ℝ) * w = v := by
  rw [mul_zero_eq, zero_mul_eq]
  exact eq_of_components (sub_zero _) (sub_zero _) (sub_zero _)

/-- When two particles are moved along a direction and against it, their difference changes by that. -/
theorem apart_moved {first second : Nat} (hdistinct : first ≠ second) (hfirst : first < positions.size)
    (hsecond : second < positions.size) (n : Vec3 ℝ) (u wa wb : ℝ) :
    ((positions.modify first (· - n * u * wa)).modify second (· + n * u * wb)).getD second 0 -
        ((positions.modify first (· - n * u * wa)).modify second (· + n * u * wb)).getD first 0 =
      positions.getD second 0 - positions.getD first 0 + n * (u * Compliance.total [wa, wb]) := by
  rw [getD_modify_self _ (by rw [Array.size_modify]; exact hsecond), getD_modify_of_ne _ hdistinct,
    getD_modify_of_ne _ hdistinct.symm, getD_modify_self _ hfirst, total_pair]
  have hcomponent : ∀ a b n : ℝ, b + n * u * wb - (a - n * u * wa) = b - a + n * (u * (wa + wb)) :=
    fun a b n => by ring
  exact eq_of_components (hcomponent ..) (hcomponent ..) (hcomponent ..)

/-- A joint that has been projected once is not changed by another projection. -/
theorem joint_again {j : Joint ℝ} (hdistinct : j.first ≠ j.second) (hfirst : j.first < positions.size)
    (hsecond : j.second < positions.size) (hrest : 0 ≤ j.restLength) (hcompliance : 0 ≤ j.compliance)
    (hzero : j.multiplier = 0) (masses : Array ℝ) (dt : ℝ) :
    Total.joint (Total.joint j masses dt positions).1 masses dt (Total.joint j masses dt positions).2 =
      Total.joint j masses dt positions := by
  obtain ⟨v, hv⟩ : ∃ v, v = positions.getD j.second 0 - positions.getD j.first 0 := ⟨_, rfl⟩
  rcases lt_or_ge Scalar.epsilon v.length with hlt | hge
  case inr =>
    have hstill := Total.joint_of_none j masses dt (hv ▸ directionAndLength_of_le hge) no_direction
    rw [hstill, hstill]
  case inl =>
    have hn := direction_ne_zero (epsilon_pos.trans hlt)
    obtain ⟨u, hu⟩ : ∃ u, u = Compliance.update j.multiplier (v.length - j.restLength)
      [masses.getD j.first 0, masses.getD j.second 0] j.compliance dt := ⟨_, rfl⟩
    obtain ⟨moved, hmoved⟩ : ∃ moved, moved =
      (positions.modify j.first (· - v / v.length * u * masses.getD j.first 0)).modify j.second
        (· + v / v.length * u * masses.getD j.second 0) := ⟨_, rfl⟩
    have hdirection : (positions.getD j.second 0 - positions.getD j.first 0).directionAndLength =
        (v / v.length, v.length) := by
      rw [← hv]
      exact directionAndLength_of_lt hlt
    have hjoint : Total.joint j masses dt positions =
        ({ j with multiplier := j.multiplier + u, direction := v / v.length }, moved) := by
      rw [Total.joint_of_direction j masses dt hdirection hn, hmoved, hu]
    have hapart : moved.getD j.second 0 - moved.getD j.first 0 = v + v / v.length *
        (u * Compliance.total [masses.getD j.first 0, masses.getD j.second 0]) := by
      rw [hmoved, hv]
      exact apart_moved hdistinct hfirst hsecond ..
    rw [hjoint]
    rw [hu] at hapart
    rcases along_settled hrest hcompliance hlt hzero hapart with hnone | ⟨d, hd, hagain⟩
    · exact Total.joint_of_none _ masses dt hnone no_direction
    · rw [← hu] at hagain
      refine (Total.joint_of_direction
        { j with multiplier := j.multiplier + u, direction := v / v.length } masses dt hd hn).trans ?_
      dsimp only
      rw [hagain, add_zero, modify_still moved j.first (still_sub · _ _),
        modify_still moved j.second (still_add · _ _)]

/-- A suspension that has been projected once is not changed by another projection. -/
theorem suspension_again {s : Suspension ℝ} (hparticle : s.particle < positions.size)
    (hrest : 0 ≤ s.restLength) (hcompliance : 0 ≤ s.compliance) (hzero : s.multiplier = 0)
    (masses : Array ℝ) (dt : ℝ) :
    Total.suspension (Total.suspension s masses dt positions).1 masses dt
        (Total.suspension s masses dt positions).2 =
      Total.suspension s masses dt positions := by
  obtain ⟨v, hv⟩ : ∃ v, v = positions.getD s.particle 0 - s.target := ⟨_, rfl⟩
  rcases lt_or_ge Scalar.epsilon v.length with hlt | hge
  case inr =>
    have hstill := Total.suspension_of_none s masses dt (hv ▸ directionAndLength_of_le hge) no_direction
    rw [hstill, hstill]
  case inl =>
    have hn := direction_ne_zero (epsilon_pos.trans hlt)
    obtain ⟨u, hu⟩ : ∃ u, u = Compliance.update s.multiplier (v.length - s.restLength)
      [masses.getD s.particle 0] s.compliance dt := ⟨_, rfl⟩
    obtain ⟨moved, hmoved⟩ : ∃ moved, moved =
      positions.modify s.particle (· + v / v.length * u * masses.getD s.particle 0) := ⟨_, rfl⟩
    have hdirection : (positions.getD s.particle 0 - s.target).directionAndLength =
        (v / v.length, v.length) := by
      rw [← hv]
      exact directionAndLength_of_lt hlt
    have hsuspension : Total.suspension s masses dt positions =
        ({ s with multiplier := s.multiplier + u, direction := v / v.length }, moved) := by
      rw [Total.suspension_of_direction s masses dt hdirection hn, hmoved, hu]
    have hapart : moved.getD s.particle 0 - s.target = v + v / v.length *
        (u * Compliance.total [masses.getD s.particle 0]) := by
      rw [hmoved, getD_modify_self _ hparticle, total_single, hv]
      have hcomponent : ∀ a p n w : ℝ, p + n * u * w - a = p - a + n * (u * w) :=
        fun a p n w => by ring
      exact eq_of_components (hcomponent ..) (hcomponent ..) (hcomponent ..)
    rw [hsuspension]
    rw [hu] at hapart
    rcases along_settled hrest hcompliance hlt hzero hapart with hnone | ⟨d, hd, hagain⟩
    · exact Total.suspension_of_none _ masses dt hnone no_direction
    · rw [← hu] at hagain
      refine (Total.suspension_of_direction
        { s with multiplier := s.multiplier + u, direction := v / v.length } masses dt hd hn).trans ?_
      dsimp only
      rw [hagain, add_zero, modify_still moved s.particle (still_add · _ _)]

end Ideal

/-! ## Tethers -/

/-- Of the violation, a compliance term `alpha` leaves the share that belongs to it. A tether that is not
too short does not become so. -/
structure Tether.Yields (t : Tether ℝ) (alpha : ℝ) (before after : Array (Vec3 ℝ)) : Prop where
  offset : ∃ had, t.offset before = .ok had ∧ t.offset after = .ok (alpha / (1 + alpha) * had)
  span : t.referenceLength ≤ t.span before → t.referenceLength ≤ t.span after

namespace Ideal

variable {t : Tether ℝ} {alpha : ℝ} {before after : Array (Vec3 ℝ)}

theorem alpha_pos {batches : TetherBatches ℝ} {dt : ℝ} (h : TetherSet.alpha? batches dt = some alpha) :
    0 < alpha := by
  unfold TetherSet.alpha? at h
  split at h
  case isFalse => cases h
  case isTrue husable =>
    cases h
    have hleast : (0 : ℝ) < TetherSet.leastCompliance := by
      show (0 : ℝ) < ((1 : UInt32).toNat : ℝ) / ((1000 : UInt32).toNat : ℝ)
      exact div_pos (Nat.cast_pos.mpr (by decide)) (Nat.cast_pos.mpr (by decide))
    exact div_pos hleast (mul_pos (mul_pos husable.1 husable.2) husable.2)

/-- The first update is a share of the violation. -/
theorem update_zero (t : Tether ℝ) (alpha : ℝ) (before : Array (Vec3 ℝ)) :
    t.update alpha 0 before = t.violation before / (1 + alpha) := by
  unfold Tether.update
  rw [mul_zero, sub_zero]

theorem update_le (halpha : 0 < alpha) (t : Tether ℝ) (before : Array (Vec3 ℝ)) :
    0 ≤ t.update alpha 0 before ∧ t.update alpha 0 before ≤ t.violation before := by
  have hviolation := violation_nonneg t before
  rw [update_zero]
  exact ⟨div_nonneg hviolation (by linarith), div_le_self hviolation (by linarith)⟩

/-- What is left of the span and of the violation after a first update. -/
theorem span_update (hlength : Scalar.epsilon < t.referenceLength) (halpha : 0 < alpha)
    (hspan : t.span after = t.span before - t.update alpha 0 before) :
    t.excess (t.span after) = alpha / (1 + alpha) * t.excess (t.span before) ∧
      t.violation after = t.violation before - t.update alpha 0 before ∧
      (t.referenceLength ≤ t.span before → t.referenceLength ≤ t.span after) := by
  have hpos : 0 < 1 + alpha := by linarith
  have hnonneg : 0 ≤ t.referenceLength := epsilon_pos.le.trans hlength.le
  rcases le_or_gt (t.span before) t.referenceLength with hslack | htaut
  case inl =>
    have hexcess := excess_eq_zero hslack
    have hnone : t.violation before = 0 := by
      rcases lt_or_ge Scalar.epsilon (t.span before) with hlt | hge
      · exact (violation_of_lt hlt).trans hexcess
      · exact violation_of_le hnonneg hge
    rw [update_zero, hnone, zero_div, sub_zero] at hspan
    have hsame : t.violation after = 0 := by
      rcases lt_or_ge Scalar.epsilon (t.span after) with hlt | hge
      · exact (violation_of_lt hlt).trans (hspan ▸ hexcess)
      · exact violation_of_le hnonneg hge
    rw [hspan, hexcess, mul_zero, hsame, hnone, update_zero, hnone, zero_div, sub_zero]
    exact ⟨rfl, rfl, id⟩
  case inr =>
    have hexcess : t.excess (t.span before) = t.span before - t.referenceLength := by
      rw [excess_eq]
      exact max_eq_left (sub_nonneg.mpr htaut.le)
    have hviolation := violation_of_lt (hlength.trans htaut)
    have hmore : 0 < t.span before - t.referenceLength := sub_pos.mpr htaut
    -- the share that is left keeps the tether longer than it should be
    have hleft : t.span after - t.referenceLength =
        alpha / (1 + alpha) * (t.span before - t.referenceLength) := by
      rw [hspan, update_zero, hviolation, hexcess]
      field_simp
      ring
    have hlong : t.referenceLength < t.span after := by
      rw [← sub_pos, hleft]
      exact mul_pos (div_pos halpha hpos) hmore
    have hexcess' : t.excess (t.span after) = t.span after - t.referenceLength := by
      rw [excess_eq]
      exact max_eq_left (sub_nonneg.mpr hlong.le)
    refine ⟨by rw [hexcess', hleft, hexcess], ?_, fun _ => hlong.le⟩
    rw [violation_of_lt (hlength.trans hlong), hexcess', hspan, hviolation, hexcess]
    ring

end Ideal

namespace TetherSet

variable {t : Tether ℝ} {stiffness dt alpha multiplier : ℝ} {masses : Array ℝ}
variable {positions : Array (Vec3 ℝ)}

/-- A pass over a single tether. -/
theorem apply_single {S : Type} [Scalar S] {t : Tether S} {stiffness dt alpha : S}
    (halpha : alpha? (.ofTethers [t] stiffness) dt = some alpha) (multiplier : S)
    (positions : Array (Vec3 S)) :
    Total.apply (.xpbd (.ofTethers [t] stiffness) [multiplier]) dt positions =
      (.xpbd (.ofTethers [t] stiffness) [multiplier + t.update alpha multiplier positions],
        TetherRule.correct positions t.tip
          ((t.reach positions).1 * t.update alpha multiplier positions)) := by
  unfold Total.apply
  dsimp only
  rw [halpha]
  rfl

/-- A single tether that has been projected once is not changed by another pass, and has given way to a
share of its violation. -/
theorem single_again (halpha : alpha? (.ofTethers [t] stiffness) dt = some alpha)
    (hfits : t.Fits masses) (hlength : Scalar.epsilon < t.referenceLength)
    (hsize : positions.size = masses.size) :
    ∃ set moved,
      Total.apply (.xpbd (.ofTethers [t] stiffness) [0]) dt positions = (set, moved) ∧
      Total.apply set dt moved = (set, moved) ∧ t.Yields alpha positions moved := by
  have hpos := Ideal.alpha_pos halpha
  have htip : t.tip < positions.size := by
    rcases hfits.tip with ⟨w, hw, _⟩
    exact hsize ▸ (Array.getElem?_eq_some_iff.mp hw).1
  obtain ⟨u, hu⟩ : ∃ u, u = t.update alpha 0 positions := ⟨_, rfl⟩
  obtain ⟨moved, hmoved⟩ : ∃ moved, moved =
    TetherRule.correct positions t.tip ((t.reach positions).1 * u) := ⟨_, rfl⟩
  have hspan : t.span moved = t.span positions - u := by
    rcases Ideal.update_le hpos t positions with ⟨hnonneg, hle⟩
    refine Ideal.span_pull (Ideal.epsilon_pos.le.trans hlength.le) (hu ▸ hnonneg) (hu ▸ hle) ?_ ?_
    · rw [hmoved]
      exact getD_modify_of_ne positions (hfits.tip_ne_anchor hfits) _ 0
    · rw [hmoved]
      exact getD_modify_self positions htip _ 0
  rcases Ideal.span_update hlength hpos (hu ▸ hspan) with ⟨hexcess, hviolation, hlong⟩
  -- the violation that is left is what the multiplier accounts for
  have hbalanced : t.update alpha (0 + u) moved = 0 := by
    have hne : 1 + alpha ≠ 0 := by linarith
    unfold Tether.update
    rw [hviolation, ← hu, hu, Ideal.update_zero]
    field_simp
    ring
  refine ⟨_, _, apply_single halpha 0 positions, ?_, ?_⟩
  · rw [← hu, ← hmoved, apply_single halpha, hbalanced, add_zero, Ideal.mul_zero_eq]
    exact congrArg (_, ·) (modify_still moved t.tip Ideal.add_zero_eq)
  · rw [← hu, ← hmoved]
    refine ⟨⟨_, Tether.offset_eq hfits hsize, ?_⟩, hlong⟩
    rw [Tether.offset_eq hfits (hmoved ▸ (Total.size_correct ..).trans hsize), hexcess]

end TetherSet

/-! ## Projections that are repeated -/

section Times

variable {S : Type} [Scalar S]

/-- Passes over tethers, one right after the other. -/
def TetherSet.applyTimes (set : TetherSet S) (dt : S) (schedule : Schedule) (masses : Array S) (n : Nat)
    (positions : Array (Vec3 S)) : Except Fault (TetherSet S × Array (Vec3 S)) :=
  repeatAction (fun x : TetherSet S × _ => x.1.apply dt schedule masses x.2) n (set, positions)

/-- Projections of a joint, one right after the other. -/
def Joint.solveTimes (j : Joint S) (masses : Array S) (dt : S) (n : Nat) (positions : Array (Vec3 S)) :
    Except Fault (Joint S × Array (Vec3 S)) :=
  repeatAction (fun x : Joint S × _ => x.1.solve masses dt x.2) n (j, positions)

/-- Projections of a suspension, one right after the other. -/
def Suspension.solveTimes (s : Suspension S) (masses : Array S) (dt : S) (n : Nat)
    (positions : Array (Vec3 S)) : Except Fault (Suspension S × Array (Vec3 S)) :=
  repeatAction (fun x : Suspension S × _ => x.1.solve masses dt x.2) n (s, positions)

end Times

/-- A tether is settled by one pass. -/
theorem Tether.settles {t : Tether ℝ} {masses : Array ℝ} {positions : Array (Vec3 ℝ)}
    (hfits : t.Fits masses) (hlength : Scalar.epsilon < t.referenceLength)
    (hsize : positions.size = masses.size) (stiffness dt : ℝ) (schedule : Schedule) :
    ∃ set moved,
      (∀ n ≥ 1, (TetherSet.ofBatches .xpbd (.ofTethers [t] stiffness)).applyTimes dt schedule masses n
        positions = .ok (set, moved)) ∧
      ∀ alpha, TetherSet.alpha? (.ofTethers [t] stiffness) dt = some alpha →
        t.Yields alpha positions moved := by
  have hfit : (TetherSet.ofBatches .xpbd (.ofTethers [t] stiffness)).Fits masses :=
    TetherSet.fits_ofBatches .xpbd (List.forall_mem_singleton.mpr hfits)
  have hfirst := TetherSet.apply_eq_total rfl hfit dt schedule hsize
  cases halpha : TetherSet.alpha? (.ofTethers [t] stiffness) dt with
  | none =>
    -- the tether is not to be solved, and stays as it is
    have hstill : Total.apply (.ofBatches .xpbd (.ofTethers [t] stiffness)) dt positions =
        (.ofBatches .xpbd (.ofTethers [t] stiffness), positions) := by
      show Total.apply (.xpbd _ _) dt positions = _
      unfold Total.apply
      dsimp only
      rw [halpha]
      rfl
    rw [hstill] at hfirst
    exact ⟨_, _, fun n hn => repeatAction_settled hfirst hfirst hn, nofun⟩
  | some alpha =>
    rcases TetherSet.single_again halpha hfits hlength hsize with ⟨set, moved, hset, hagain, hyields⟩
    have htotal : Total.apply (.ofBatches .xpbd (.ofTethers [t] stiffness)) dt positions =
        (set, moved) := hset
    rw [htotal] at hfirst
    have hkept := TetherSet.restart_apply (.ofBatches .xpbd (.ofTethers [t] stiffness)) dt positions
    have hfit' := Total.fits_apply hfit dt positions
    have hsize' := (Total.size_apply (.ofBatches .xpbd (.ofTethers [t] stiffness)) dt positions).trans
      hsize
    rw [htotal] at hkept hfit' hsize'
    have hbatches : set.batches = .ofTethers [t] stiffness := by
      rw [← TetherSet.batches_restart, hkept, TetherSet.batches_restart]
      rfl
    have hsecond := TetherSet.apply_eq_total hbatches hfit' dt schedule hsize'
    rw [hagain] at hsecond
    refine ⟨set, moved, fun n hn => repeatAction_settled hfirst hsecond hn, ?_⟩
    rintro _ ⟨⟩
    exact hyields

/-- A joint is settled by one projection. -/
theorem Joint.settles {j : Joint ℝ} {masses : Array ℝ} {positions : Array (Vec3 ℝ)}
    (hdistinct : j.first ≠ j.second) (hfirst : j.first < positions.size)
    (hsecond : j.second < positions.size) (hrest : 0 ≤ j.restLength) (hcompliance : 0 ≤ j.compliance)
    (hzero : j.multiplier = 0) (hsize : positions.size = masses.size) (dt : ℝ) :
    ∃ settled moved, ∀ n ≥ 1, j.solveTimes masses dt n positions = .ok (settled, moved) := by
  have hagain := Ideal.joint_again hdistinct hfirst hsecond hrest hcompliance hzero masses dt
  rcases Total.joint_keeps j masses dt positions with ⟨hmoved, multiplier, direction, hkept⟩
  have honce := Total.joint_eq dt hfirst hsecond hsize
  have htwice : (Total.joint j masses dt positions).1.solve masses dt
      (Total.joint j masses dt positions).2 = .ok (Total.joint j masses dt positions) := by
    refine (Total.joint_eq dt ?_ ?_ (hmoved.trans hsize)).trans (congrArg Except.ok hagain)
    · rw [hmoved, hkept]
      exact hfirst
    · rw [hmoved, hkept]
      exact hsecond
  exact ⟨_, _, fun n hn => repeatAction_settled honce htwice hn⟩

/-- A suspension is settled by one projection. -/
theorem Suspension.settles {s : Suspension ℝ} {masses : Array ℝ} {positions : Array (Vec3 ℝ)}
    (hparticle : s.particle < positions.size) (hrest : 0 ≤ s.restLength)
    (hcompliance : 0 ≤ s.compliance) (hzero : s.multiplier = 0)
    (hsize : positions.size = masses.size) (dt : ℝ) :
    ∃ settled moved, ∀ n ≥ 1, s.solveTimes masses dt n positions = .ok (settled, moved) := by
  have hagain := Ideal.suspension_again hparticle hrest hcompliance hzero masses dt
  rcases Total.suspension_keeps s masses dt positions with ⟨hmoved, multiplier, direction, hkept⟩
  have honce := Total.suspension_eq dt hparticle hsize
  have htwice : (Total.suspension s masses dt positions).1.solve masses dt
      (Total.suspension s masses dt positions).2 = .ok (Total.suspension s masses dt positions) := by
    refine (Total.suspension_eq dt ?_ (hmoved.trans hsize)).trans (congrArg Except.ok hagain)
    rw [hmoved, hkept]
    exact hparticle
  exact ⟨_, _, fun n hn => repeatAction_settled honce htwice hn⟩

namespace Compliance

/-- Projecting a constraint again and again does what projecting it once does, to particles and to the
multiplier, unless other constraints move its particles in between. A tether thereby keeps a share of
its violation, and is never pulled too far. -/
theorem projections_settle {masses : Array ℝ} {positions : Array (Vec3 ℝ)}
    (hsize : positions.size = masses.size) (dt : ℝ) :
    (∀ (t : Tether ℝ) stiffness schedule, t.Fits masses → Scalar.epsilon < t.referenceLength →
      ∃ set moved,
        (∀ n ≥ 1, (TetherSet.ofBatches .xpbd (.ofTethers [t] stiffness)).applyTimes dt schedule masses n
          positions = .ok (set, moved)) ∧
        ∀ alpha, TetherSet.alpha? (.ofTethers [t] stiffness) dt = some alpha →
          t.Yields alpha positions moved) ∧
    (∀ j : Joint ℝ, j.first ≠ j.second → j.first < positions.size → j.second < positions.size →
      0 ≤ j.restLength → 0 ≤ j.compliance → j.multiplier = 0 →
      ∃ settled moved, ∀ n ≥ 1, j.solveTimes masses dt n positions = .ok (settled, moved)) ∧
    (∀ s : Suspension ℝ, s.particle < positions.size →
      0 ≤ s.restLength → 0 ≤ s.compliance → s.multiplier = 0 →
      ∃ settled moved, ∀ n ≥ 1, s.solveTimes masses dt n positions = .ok (settled, moved)) :=
  ⟨fun _ stiffness schedule hfits hlength => Tether.settles hfits hlength hsize stiffness dt schedule,
    fun _ hdistinct hfirst hsecond hrest hcompliance hzero =>
      Joint.settles hdistinct hfirst hsecond hrest hcompliance hzero hsize dt,
    fun _ hparticle hrest hcompliance hzero =>
      Suspension.settles hparticle hrest hcompliance hzero hsize dt⟩

/-- A tether, a joint and a suspension between two particles at a distance of ten from each other. -/
theorem cord_settles :
    (∃ set moved alpha,
      (∀ n ≥ 1, (TetherSet.ofBatches .xpbd (.ofTethers [TetherSet.cord] 1)).applyTimes 1 .serial #[0, 1]
        n #[0, ⟨10, 0, 0⟩] = .ok (set, moved)) ∧
      TetherSet.alpha? (.ofTethers [TetherSet.cord] 1) 1 = some alpha ∧
      TetherSet.cord.Yields alpha #[0, ⟨10, 0, 0⟩] moved) ∧
    (∃ settled moved, ∀ n ≥ 1,
      (Joint.create 0 1 (5 : ℝ) 1).solveTimes #[0, 1] 1 n #[0, ⟨10, 0, 0⟩] = .ok (settled, moved)) ∧
    ∃ settled moved, ∀ n ≥ 1,
      (Suspension.create 1 (0 : Vec3 ℝ) 5 1).solveTimes #[0, 1] 1 n #[0, ⟨10, 0, 0⟩] =
        .ok (settled, moved) := by
  have hsize : (#[0, ⟨10, 0, 0⟩] : Array (Vec3 ℝ)).size = (#[0, 1] : Array ℝ).size := rfl
  have hlength : Scalar.epsilon < TetherSet.cord.referenceLength := by
    show (1 : ℝ) / ((8388608 : UInt32).toNat : ℝ) < 5
    rw [show (8388608 : UInt32).toNat = 8388608 by decide]
    norm_num
  have hfive : (0 : ℝ) ≤ 5 := by norm_num
  have halpha : TetherSet.alpha? (.ofTethers [TetherSet.cord] 1) (1 : ℝ) =
      some (TetherSet.leastCompliance / (1 * 1 * 1)) := by
    unfold TetherSet.alpha? TetherBatches.ofTethers
    dsimp only
    rw [TetherSet.clamp_eq zero_lt_one le_rfl, if_pos ⟨zero_lt_one, zero_lt_one⟩]
  rcases projections_settle hsize 1 with ⟨htether, hjoint, hsuspension⟩
  rcases htether TetherSet.cord 1 .serial (TetherSet.cord_untangled.fits _ (by simp)) hlength with
    ⟨set, moved, hset, hyields⟩
  exact ⟨⟨set, moved, _, hset, halpha, hyields _ halpha⟩,
    hjoint (.create 0 1 5 1) (by decide) (by decide) (by decide) hfive zero_le_one rfl,
    hsuspension (.create 1 0 5 1) (by decide) hfive zero_le_one rfl⟩

end Compliance

end TetheredParticles
