import TetheredParticles.Proofs.Compliance.Settled
import TetheredParticles.Proofs.Scalar.Bounds
/-!
# Projections that stay finite

What a projection divides by is computed from the square of the step size, and that is zero in single
precision when the step size is too small. From a least step size on, no divisor is zero, and with
places, lengths and multipliers of ordinary size everything that projections compute is finite.

* `Single.atMost_share` — the quotient that all updates are.
* `Single.visit_bounded` — a pass over tethers, of which many may move the same particle.
* `Joint.finite_solve`, `Suspension.finite_solve` — the other constraints, and their forces.
* `Compliance.staysFinite_of_leastStep_le` — from the least step size on everything stays finite.
* `Compliance.tinyStep_divides_by_zero` — a step size with which it does not.
-/

namespace TetheredParticles

namespace Compliance

/-- From this step size on, the square of a step size is not so small that forces become infinite. -/
def leastStep : Float32 := 1 / 140737488355328

/-- An inverse mass of zero, or one that is neither very small nor very large. -/
def OrdinaryMass (w : Float32) : Prop := (w == 0) = true ∨ Config.ratio 1 1000 ≤ w ∧ w ≤ 1000

instance (w : Float32) : Decidable (OrdinaryMass w) := inferInstanceAs (Decidable (_ ∨ _))

/-- Particles with such masses, none of them far away. -/
structure OrdinaryParticles (masses : Array Float32) (positions : Array (Vec3 Float32)) : Prop where
  size : positions.size = masses.size
  masses : ∀ w ∈ masses, OrdinaryMass w
  positions : ∀ p ∈ positions, p.Within 1000000

end Compliance

/-- A set that fits its particles, with a stiffness that is not very small and with lengths and
multipliers of ordinary size. -/
structure TetherSet.Ordinary (masses : Array Float32) (set : TetherSet Float32) : Prop where
  fits : set.Fits masses
  grouped : ∃ tethers, set.batches.batches = Tether.batches tethers
  stiffness : Config.ratio 1 1000 ≤ set.batches.stiffness ∧ set.batches.stiffness ≤ 1
  lengths : ∀ t ∈ set.batches.tethers, Scalar.Within 1000000 t.referenceLength
  multipliers : ∀ ms, set.multipliers? = some ms → ∀ m ∈ ms, Scalar.Within 1000000 m

/-- A joint that is not more than soft, with lengths and multipliers of ordinary size. -/
structure Joint.Ordinary (j : Joint Float32) : Prop where
  restLength : Scalar.Within 1000000 j.restLength
  compliance : 0 ≤ j.compliance ∧ j.compliance ≤ 1
  multiplier : Scalar.Within 1000000 j.multiplier
  direction : j.direction.Within 1

/-- A suspension that is not more than soft, with a near target, and with lengths and multipliers of
ordinary size. -/
structure Suspension.Ordinary (s : Suspension Float32) : Prop where
  target : s.target.Within 1000000
  restLength : Scalar.Within 1000000 s.restLength
  compliance : 0 ≤ s.compliance ∧ s.compliance ≤ 1
  multiplier : Scalar.Within 1000000 s.multiplier
  direction : s.direction.Within 1

/-- What is true of all entries and of the one in place of missing ones. -/
theorem getD_of_forall {α : Type} {entries : Array α} {P : α → Prop} {fallback : α}
    (h : ∀ a ∈ entries, P a) (hfallback : P fallback) (i : Nat) : P (entries.getD i fallback) := by
  rw [Array.getD_eq_getD_getElem?]
  cases hentry : entries[i]? with
  | none => exact hfallback
  | some a => exact h a (Array.mem_of_getElem? hentry)

open Float.Model Float.Model.UnpackedFloat

namespace Single

variable {v w : Vec3 Float32} {a b : Float32} {p q : Rat}

/-! ## Updates -/

/-- The quotient that updates of multipliers are: what is asked for beyond a multiple of the multiplier,
shared out. However large the factor is, the divisor grows with it, so that the quotient exceeds what is
asked for by no more than a constant factor. -/
theorem atMost_share {asked factor multiplier mobility : Float32} {t : Rat} (hone : 1 ≤ t)
    (ht : ∀ d : Nat, d ≤ 31 → Representable (t * 2 ^ d)) (hasked : AtMost asked (t * 2 ^ 20))
    (hmultiplier : AtMost multiplier (2 ^ 20)) (hnonneg : 0 ≤ factor)
    (hfactor : AtMost factor (2 ^ (95 : Int))) (hmobility : AtLeast mobility (2 ^ (-10 : Int))) :
    AtLeast (mobility + factor) (2 ^ (-10 : Int)) ∧
      AtMost ((asked - factor * multiplier) / (mobility + factor)) (t * 2 ^ 31) := by
  have hdivisor : AtLeast (mobility + factor) (2 ^ (-10 : Int)) :=
    hmobility.of_le (le_add hmobility.nonneg hnonneg)
  refine ⟨hdivisor, ?_⟩
  by_cases hsmall : AtMost factor t
  case pos =>
    -- no more is taken off than may be asked for
    have hproduct : AtMost (factor * multiplier) (t * 2 ^ 20) :=
      atMost_mul_of_le hsmall hmultiplier (by positivity) (by positivity) (ht 20 (by norm_num)) le_rfl
    have hdividend : AtMost (asked - factor * multiplier) (t * 2 ^ 21) :=
      atMost_sub hasked hproduct (by positivity) (by positivity) (ht 21 (by norm_num)) (by linarith)
    refine atMost_div_of_atLeast hdivisor (ht 31 (by norm_num)) (hdividend.mono ?_)
    norm_num
    linarith
  case neg =>
    -- such a factor has all digits, and so have its multiples by powers of two
    rcases cases_of_nonneg hnonneg hfactor.isFinite with ⟨s, hzero⟩ | ⟨m, e, hm, hunpack⟩
    · exact absurd (.inl ⟨s, hzero⟩) hsmall
    have hlarge : t < (m : Rat) * 2 ^ e :=
      not_le.mp fun hle => hsmall (.inr ⟨_, m, e, hm, hunpack, hle⟩)
    have hfit := fitted_of_unpack hunpack
    have hfull : 2 ^ 23 ≤ m :=
      (hfit.full_of_lt (lt_trans (by norm_num) (hone.trans_lt hlarge))).1
    have hself : AtMost factor (m * 2 ^ e) := .inr ⟨_, m, e, hm, hunpack, le_rfl⟩
    have hexponent : e ≤ 72 := by
      have hvalue := hfactor.abs_value (by positivity)
      rw [value_of_unpack hunpack, abs_of_pos (by positivity)] at hvalue
      have hdigits : (2 : Rat) ^ (23 : Int) ≤ m := by exact_mod_cast hfull
      have hpowers : (2 : Rat) ^ (23 + e) ≤ 2 ^ (95 : Int) := by
        rw [zpow_add₀ two_ne_zero]
        exact (mul_le_mul_of_nonneg_right hdigits (by positivity)).trans hvalue
      have hexponents := (zpow_le_zpow_iff_right₀ one_lt_two).mp hpowers
      omega
    have hmultiple : ∀ d : Nat, d ≤ 21 → Representable (m * 2 ^ e * 2 ^ d) := fun d hd =>
      representable_mul_two_pow hfull hfit.lt hfit.least (by omega)
    have hproduct : AtMost (factor * multiplier) (m * 2 ^ e * 2 ^ 20) :=
      atMost_mul_of_le hself hmultiplier (by positivity) (by positivity) (hmultiple 20 (by norm_num))
        le_rfl
    have hdividend : AtMost (asked - factor * multiplier) (m * 2 ^ e * 2 ^ 21) := by
      refine atMost_sub hasked hproduct (by positivity) (by positivity) (hmultiple 21 le_rfl) ?_
      linarith
    have hdivisor' : AtLeast (mobility + factor) (m * 2 ^ e) :=
      atLeast_of_le hunpack (le_add_left hmobility.nonneg hnonneg)
    have hquotient : AtMost ((asked - factor * multiplier) / (mobility + factor)) (2 ^ (21 : Int)) := by
      refine atMost_div_of_atLeast hdivisor' (representable_two_pow (by norm_num) (by norm_num)) ?_
      rw [mul_comm]
      exact hdividend
    exact hquotient.mono (by norm_num; linarith)

/-! ## Divisors -/

theorem unpack_one : unpack 1 = .finite .positive (2 ^ 23) (-23) (by decide) := rfl

section Divisors

variable {dt stiffness compliance : Float32}

theorem atLeast_ratio (h : Config.ratio 1 1000 ≤ a) : AtLeast a (2 ^ (-10 : Int)) := by
  have hratio : unpack (Config.ratio 1 1000) = .finite .positive 8589935 (-33) (by decide) := rfl
  exact (atLeast_of_le hratio h).mono (by norm_num)

theorem atLeast_step (h : Compliance.leastStep ≤ dt) : AtLeast dt (2 ^ (-47 : Int)) := by
  have hleast : unpack Compliance.leastStep = .finite .positive (2 ^ 23) (-70) (by decide) := rfl
  exact (atLeast_of_le hleast h).mono (by norm_num)

theorem atLeast_square (h : Compliance.leastStep ≤ dt) : AtLeast (dt * dt) (2 ^ (-94 : Int)) :=
  atLeast_mul (atLeast_step h) (atLeast_step h) (by positivity) (by positivity)
    (representable_two_pow (by norm_num) (by norm_num)) (by norm_num)

theorem atLeast_stiffness (h : Compliance.leastStep ≤ dt) (hs : Config.ratio 1 1000 ≤ stiffness) :
    AtLeast (stiffness * dt * dt) (2 ^ (-104 : Int)) := by
  have hstep := atLeast_step h
  have hfirst : AtLeast (stiffness * dt) (2 ^ (-57 : Int)) :=
    atLeast_mul (atLeast_ratio hs) hstep (by positivity) (by positivity)
      (representable_two_pow (by norm_num) (by norm_num)) (by norm_num)
  exact atLeast_mul hfirst hstep (by positivity) (by positivity)
    (representable_two_pow (by norm_num) (by norm_num)) (by norm_num)

/-- The compliance term of tethers. -/
theorem alpha_bounds (h : Compliance.leastStep ≤ dt) (hs : Config.ratio 1 1000 ≤ stiffness) :
    0 ≤ TetherSet.leastCompliance / (stiffness * dt * dt) ∧
      AtMost (TetherSet.leastCompliance / (stiffness * dt * dt)) (2 ^ (95 : Int)) := by
  have hratio : unpack TetherSet.leastCompliance = .finite .positive 8589935 (-33) (by decide) := rfl
  have hdivisor := atLeast_stiffness h hs
  refine ⟨div_nonneg_of_atLeast ?_ (by rw [hratio]; rfl) hdivisor, ?_⟩
  · rw [nonneg_iff_isNonneg, hratio]
    trivial
  · refine atMost_div_of_atLeast hdivisor (representable_two_pow (by norm_num) (by norm_num)) ?_
    exact .inr ⟨_, _, _, _, hratio, by norm_num⟩

/-- The compliance term of joints and suspensions. -/
theorem softness_bounds (h : Compliance.leastStep ≤ dt) (hnonneg : 0 ≤ compliance)
    (hone : compliance ≤ 1) :
    0 ≤ compliance / (dt * dt) ∧ AtMost (compliance / (dt * dt)) (2 ^ (95 : Int)) := by
  have hcompliance : AtMost compliance 1 :=
    (atMost_of_le hnonneg unpack_one hone).mono (by norm_num)
  exact ⟨div_nonneg_of_atLeast hnonneg hcompliance.isFinite (atLeast_square h),
    atMost_div_of_atLeast (atLeast_square h) (representable_two_pow (by norm_num) (by norm_num))
      (hcompliance.mono (by norm_num))⟩

end Divisors

/-- A number of up to a million. -/
theorem atMost_of_million (h : Scalar.Within 1000000 a) : AtMost a (2 ^ 20) := by
  have hunpack : unpack (1000000 : Float32) = .finite .positive 16000000 (-4) (by decide) := rfl
  exact (atMost_of_within hunpack h).mono (by norm_num)

theorem bounded_of_million (h : v.Within 1000000) : Bounded v (2 ^ 20) :=
  ⟨atMost_of_million h.1, atMost_of_million h.2.1, atMost_of_million h.2.2⟩

/-! ## Tethers -/

section Tethers

variable {alpha multiplier : Float32}

theorem atMost_maxNum (h : AtMost a q) : AtMost (Scalar.maxNum a 0) q := by
  unfold Scalar.maxNum
  split
  · exact h
  · split
    · exact atMost_zero q
    · exact h

/-- A rule that moves no particle far, wherever it finds the ends of a tether, and keeps multipliers
finite. -/
def Moderate (rule : TetherRule Float32) : Prop :=
  ∀ offset multiplier, AtMost offset (2 ^ (65 : Int)) → Scalar.Within 1000000 multiplier →
    AtMost (rule offset multiplier).1 (2 ^ (76 : Int)) ∧
      Scalar.isFinite (rule offset multiplier).2 = true

theorem moderate_plain {stiffness : Float32} (hs : AtMost stiffness 1) :
    Moderate (.plain stiffness) := by
  intro offset multiplier hoffset hmultiplier
  refine ⟨?_, isFinite_iff.mpr (atMost_of_million hmultiplier).isFinite⟩
  exact atMost_mul_of_le hs hoffset (by norm_num) (by positivity)
    (representable_two_pow (by norm_num) (by norm_num)) (by norm_num)

theorem moderate_compliant (hnonneg : 0 ≤ alpha) (halpha : AtMost alpha (2 ^ (95 : Int))) :
    Moderate (.compliant alpha) := by
  intro offset multiplier hoffset hmultiplier
  have hpower : ∀ d : Nat, d ≤ 31 → Representable (2 ^ (45 : Int) * 2 ^ d) := by
    intro d hd
    rw [← zpow_natCast, ← zpow_add₀ two_ne_zero]
    exact representable_two_pow (by omega) (by omega)
  have hshare := atMost_share (by norm_num) hpower (hoffset.mono (by norm_num))
    (atMost_of_million hmultiplier) hnonneg halpha
    ((atLeast_of_unpack unpack_one).mono (by norm_num))
  have hupdate : AtMost (TetherRule.compliant alpha offset multiplier).1 (2 ^ (76 : Int)) :=
    hshare.2.mono (by norm_num)
  have hnext : AtMost (TetherRule.compliant alpha offset multiplier).2 (2 ^ (77 : Int)) :=
    atMost_add (atMost_of_million hmultiplier) hupdate (by positivity) (by positivity)
      (representable_two_pow (by norm_num) (by norm_num)) (by norm_num)
  exact ⟨hupdate, isFinite_iff.mpr hnext.isFinite⟩

/-- Wherever the ends of a tether are, its violation is not larger than this. -/
theorem atMost_tether_violation {t : Tether Float32} (h : Scalar.Within 1000000 t.referenceLength)
    (positions : Array (Vec3 Float32)) : AtMost (t.violation positions) (2 ^ (65 : Int)) :=
  atMost_maxNum (atMost_sub (atMost_length _) (atMost_of_million h) (by positivity) (by positivity)
    (representable_two_pow (by norm_num) (by norm_num)) (by norm_num))

/-- Adding what is that much smaller makes a number no larger than this. -/
theorem atMost_add_far (ha : AtMost a (2 ^ (100 : Int))) (hb : AtMost b (2 ^ (76 : Int))) :
    AtMost (a + b) (2 ^ (100 : Int)) := by
  have hfar : unpack (140737488355328 * 140737488355328 * 64) =
      .finite .positive (2 ^ 23) 77 (by decide) := rfl
  have hnear : unpack (140737488355328 * 536870912) = .finite .positive (2 ^ 23) 53 (by decide) := rfl
  have hstill : unpack (140737488355328 * 140737488355328 * 64 + 140737488355328 * 536870912) =
      unpack (140737488355328 * 140737488355328 * 64) := by
    rw [unpack_add, hfar, hnear]
    rfl
  have hsum := atMost_add_of_still hfar hnear hstill (ha.mono (by norm_num)) (hb.mono (by norm_num))
  exact hsum.mono (by norm_num)

theorem Bounded.add_far (hv : Bounded v (2 ^ (100 : Int))) (hw : Bounded w (2 ^ (76 : Int))) :
    Bounded (v + w) (2 ^ (100 : Int)) :=
  ⟨atMost_add_far hv.1 hw.1, atMost_add_far hv.2.1 hw.2.1, atMost_add_far hv.2.2 hw.2.2⟩

theorem bounded_modify {positions : Array (Vec3 Float32)} (h : ∀ i, Bounded (positions.getD i 0) p)
    (hpq : p ≤ q) {f : Vec3 Float32 → Vec3 Float32} (hf : ∀ v, Bounded v p → Bounded (f v) q)
    (index i : Nat) : Bounded ((positions.modify index f).getD i 0) q := by
  have hi := h i
  rw [Array.getD_eq_getD_getElem?] at hi ⊢
  rw [Array.getElem?_modify]
  split
  · cases hentry : positions[i]? with
    | none => exact bounded_zero q
    | some v =>
      rw [hentry] at hi
      exact hf v hi
  · exact hi.mono hpq

/-- However many tethers move the same particle, no place becomes larger than this in a pass. -/
theorem visit_bounded {rule : TetherRule Float32} (hrule : Moderate rule)
    {load : List (Tether Float32 × Float32)}
    (hload : ∀ x ∈ load, Scalar.Within 1000000 x.1.referenceLength ∧ Scalar.Within 1000000 x.2)
    {positions : Array (Vec3 Float32)} (h : ∀ i, Bounded (positions.getD i 0) (2 ^ (100 : Int))) :
    (∀ multiplier ∈ (Total.visit rule load positions).1, Scalar.isFinite multiplier = true) ∧
      ∀ i, Bounded ((Total.visit rule load positions).2.getD i 0) (2 ^ (100 : Int)) := by
  -- the bound of places carries the induction; each tether brings a multiplier of its own
  induction load generalizing positions with
  | nil => exact ⟨nofun, h⟩
  | cons x rest ih =>
    rw [List.forall_mem_cons] at hload
    rcases hrule _ _ (atMost_tether_violation hload.1.1 positions) hload.1.2 with
      ⟨hdistance, hmultiplier⟩
    have hmove : Bounded ((x.1.reach positions).1 * (rule (x.1.violation positions) x.2).1)
        (2 ^ (76 : Int)) :=
      (bounded_direction _).mul (by norm_num) (by positivity)
        (representable_two_pow (by norm_num) (by norm_num)) hdistance (by norm_num)
    have hcorrected : ∀ i, Bounded ((TetherRule.correct positions x.1.tip
        ((x.1.reach positions).1 * (rule (x.1.violation positions) x.2).1)).getD i 0)
        (2 ^ (100 : Int)) :=
      bounded_modify h le_rfl (fun v hv => hv.add_far hmove) x.1.tip
    rcases ih hload.2 hcorrected with ⟨hrest, hmoved⟩
    exact ⟨List.forall_mem_cons.mpr ⟨hmultiplier, hrest⟩, hmoved⟩

end Tethers

/-! ## Joints and suspensions -/

section Constraints

variable {dt multiplier violation compliance : Float32} {masses : List Float32}

theorem zero_add_zero (ha : (a == 0) = true) (hb : (b == 0) = true) : (a + b == 0) = true := by
  rw [beq_zero_iff] at ha hb ⊢
  rcases ha with ⟨s, ha⟩
  rcases hb with ⟨t, hb⟩
  rw [unpack_add, ha, hb]
  cases s <;> cases t <;> exact ⟨_, reread_zero _⟩

theorem atMost_of_ordinaryMass (h : Compliance.OrdinaryMass a) : AtMost a (2 ^ 10) := by
  rcases h with hzero | ⟨hleast, hle⟩
  · exact .inl (beq_zero_iff.mp hzero)
  · have hunpack : unpack (1000 : Float32) = .finite .positive 16384000 (-14) (by decide) := rfl
    exact (atMost_of_le (atLeast_ratio hleast).nonneg hunpack hle).mono (by norm_num)

/-- A sum of inverse masses is zero, or it is not small. -/
theorem total_cases (hmasses : ∀ w ∈ masses, Compliance.OrdinaryMass w) :
    (Compliance.total masses == 0) = true ∨ AtLeast (Compliance.total masses) (2 ^ (-10 : Int)) := by
  have hsum : ∀ start : Float32, (start == 0) = true ∨ AtLeast start (2 ^ (-10 : Int)) →
      (masses.foldl (· + ·) start == 0) = true ∨
        AtLeast (masses.foldl (· + ·) start) (2 ^ (-10 : Int)) := by
    -- zeros add up to zero, and after the first other mass no sum is small again
    induction masses with
    | nil => exact fun _ h => h
    | cons w rest ih =>
      rw [List.forall_mem_cons] at hmasses
      refine fun start hstart => ih hmasses.2 (start + w) ?_
      rcases hstart with hzero | hstart <;> rcases hmasses.1 with hnone | ⟨hleast, _⟩
      · exact .inl (zero_add_zero hzero hnone)
      · exact .inr ((atLeast_ratio hleast).of_le
          (le_add_left (Scalar.beq_iff.mp hzero).2 (atLeast_ratio hleast).nonneg))
      · exact .inr (hstart.of_le (le_add hstart.nonneg (Scalar.beq_iff.mp hnone).2))
      · exact .inr (hstart.of_le (le_add hstart.nonneg (atLeast_ratio hleast).nonneg))
  exact hsum Scalar.emptySum (.inl (by decide +kernel))

/-- Masses that are not too small to be moved are not small. -/
theorem atLeast_total (hmasses : ∀ w ∈ masses, Compliance.OrdinaryMass w)
    (h : ¬ Compliance.total masses ≤ Scalar.epsilon) :
    AtLeast (Compliance.total masses) (2 ^ (-10 : Int)) := by
  refine (total_cases hmasses).resolve_left fun hzero => h ?_
  exact Scalar.le_trans (Scalar.beq_iff.mp hzero).1 (by decide +kernel)

theorem representable_five {d : Nat} (hd : d ≤ 125) : Representable (5 * 2 ^ d) :=
  representable_of_eq (m := 5) (k := 3) (d := d) (by norm_num) (by norm_num) (by norm_num) (by omega)
    (by norm_num)

theorem representable_eleven {d : Nat} (hd : d ≤ 124) : Representable (11 * 2 ^ d) :=
  representable_of_eq (m := 11) (k := 4) (d := d) (by norm_num) (by norm_num) (by norm_num) (by omega)
    (by norm_num)

/-- What an update divides by, and how large it is. -/
theorem update_bounds (h : Compliance.leastStep ≤ dt) (hmultiplier : Scalar.Within 1000000 multiplier)
    (hviolation : AtMost violation (5 * 2 ^ 20)) (hmasses : ∀ w ∈ masses, Compliance.OrdinaryMass w)
    (hnonneg : 0 ≤ compliance) (hone : compliance ≤ 1) :
    (¬ Compliance.total masses ≤ Scalar.epsilon →
        0 < Compliance.total masses + compliance / (dt * dt)) ∧
      AtMost (Compliance.update multiplier violation masses compliance dt) (5 * 2 ^ 31) := by
  rcases softness_bounds h hnonneg hone with ⟨hsoftness, hlarge⟩
  have hshare := fun hpast => atMost_share (by norm_num) (fun d hd => representable_five (by omega))
    hviolation.neg (atMost_of_million hmultiplier) hsoftness hlarge (atLeast_total hmasses hpast)
  refine ⟨fun hpast => (hshare hpast).1.pos, ?_⟩
  unfold Compliance.update
  dsimp only
  split
  case isTrue => exact atMost_zero _
  case isFalse hguard => exact (hshare (not_or.mp hguard).1).2

/-- The multiplier after an update. -/
theorem atMost_next (ha : Scalar.Within 1000000 a) (hb : AtMost b (5 * 2 ^ 31)) :
    AtMost (a + b) (11 * 2 ^ 30) :=
  atMost_add (atMost_of_million ha) hb (by positivity) (by positivity)
    (representable_eleven (by norm_num)) (by norm_num)

/-- The force behind a multiplier after an update. -/
theorem bounded_force {direction : Vec3 Float32} (h : Compliance.leastStep ≤ dt)
    (hmultiplier : AtMost multiplier (11 * 2 ^ 30)) (hdirection : Bounded direction 1) :
    Bounded (Compliance.force multiplier direction dt) (11 * 2 ^ 124) := by
  unfold Compliance.force
  split
  · exact bounded_zero _
  · have hquotient : AtMost (multiplier / (dt * dt)) (11 * 2 ^ 124) :=
      atMost_div_of_atLeast (atLeast_square h) (representable_eleven le_rfl)
        (hmultiplier.mono (by norm_num))
    exact hdirection.mul (by norm_num) (by positivity) (representable_eleven le_rfl) hquotient
      (by norm_num)

/-- The force behind a multiplier of ordinary size. -/
theorem isFinite_force {direction : Vec3 Float32} (h : Compliance.leastStep ≤ dt)
    (hmultiplier : Scalar.Within 1000000 multiplier) (hdirection : direction.Within 1) :
    (Compliance.force multiplier direction dt).IsFinite := by
  have hunit : ∀ c, Scalar.Within 1 c → AtMost c 1 := fun c hc =>
    (atMost_of_within unpack_one hc).mono (by norm_num)
  exact (bounded_force h ((atMost_of_million hmultiplier).mono (by norm_num))
    ⟨hunit _ hdirection.1, hunit _ hdirection.2.1, hunit _ hdirection.2.2⟩).isFinite

end Constraints

/-! ## Places of particles -/

section Places

variable {weights : Array Float32} {positions : Array (Vec3 Float32)}

theorem isFinite_of_bounded (h : ∀ i, Bounded (positions.getD i 0) q) :
    ∀ v ∈ positions, v.IsFinite := by
  intro v hv
  rcases Array.getElem_of_mem hv with ⟨i, hi, rfl⟩
  have hbounded := h i
  rw [Array.getD_eq_getD_getElem?, Array.getElem?_eq_getElem hi] at hbounded
  exact hbounded.isFinite

theorem bounded_getD (h : Compliance.OrdinaryParticles weights positions) (i : Nat) :
    Bounded (positions.getD i 0) (2 ^ 20) :=
  getD_of_forall (fun v hv => bounded_of_million (h.positions v hv)) (bounded_zero _) i

theorem ordinaryMass_getD (h : Compliance.OrdinaryParticles weights positions) (i : Nat) :
    Compliance.OrdinaryMass (weights.getD i 0) :=
  getD_of_forall h.masses (.inl (by decide +kernel)) i

/-- What a joint or a suspension finds between two places that are not far away. -/
theorem atMost_violation (hv : Bounded v (2 ^ 20)) (hw : Bounded w (2 ^ 20))
    (ha : Scalar.Within 1000000 a) : AtMost ((v - w).directionAndLength.2 - a) (5 * 2 ^ 20) := by
  have hdifference : Bounded (v - w) (2 ^ (21 : Int)) :=
    hv.sub (by norm_num) (by norm_num) (representable_two_pow (by norm_num) (by norm_num)) hw
      (by norm_num)
  exact atMost_sub (atMost_length_of_bounded hdifference) (atMost_of_million ha) (by positivity)
    (by positivity) (representable_five (by norm_num)) (by norm_num)

/-- How far an update of a multiplier moves a particle. -/
theorem bounded_move (hv : Bounded v 1) (ha : AtMost a (5 * 2 ^ 31)) (hb : AtMost b (2 ^ 10)) :
    Bounded (v * a * b) (5 * 2 ^ 41) := by
  have himpulse : Bounded (v * a) (5 * 2 ^ 31) :=
    hv.mul (by norm_num) (by positivity) (representable_five (by norm_num)) ha (by norm_num)
  exact himpulse.mul (by positivity) (by norm_num) (representable_five (by norm_num)) hb (by norm_num)

end Places

end Single

/-! ## Projections -/

section Projections

variable {dt : Float32} {masses : Array Float32} {positions : Array (Vec3 Float32)}

/-- The compliance term of a step. -/
theorem TetherSet.alpha_finite (h : Compliance.leastStep ≤ dt) {batches : TetherBatches Float32}
    (hs : Config.ratio 1 1000 ≤ batches.stiffness) :
    0 < batches.stiffness * dt * dt ∧
      ∃ alpha, TetherSet.alpha? batches dt = some alpha ∧ 0 ≤ alpha ∧
        Single.AtMost alpha (2 ^ (95 : Int)) ∧ 0 < 1 + alpha := by
  have hdivisor := Single.atLeast_stiffness h hs
  rcases Single.alpha_bounds h hs with ⟨hnonneg, hle⟩
  refine ⟨hdivisor.pos, _, ?_, hnonneg, hle, ?_⟩
  · unfold TetherSet.alpha?
    rw [if_pos ⟨(Single.atLeast_ratio hs).pos, (Single.atLeast_step h).pos⟩]
  · have hone : Single.AtLeast 1 (2 ^ 23 * 2 ^ (-23 : Int)) := Single.atLeast_of_unpack Single.unpack_one
    exact (hone.of_le (Scalar.le_add hone.nonneg hnonneg)).pos

/-- A pass over tethers. -/
theorem TetherSet.finite_apply (h : Compliance.leastStep ≤ dt) {set : TetherSet Float32}
    (hset : set.Ordinary masses) (hparticles : Compliance.OrdinaryParticles masses positions) :
    (∀ ms, (Total.apply set dt positions).1.multipliers? = some ms →
        ∀ m ∈ ms, Scalar.isFinite m = true) ∧
      ∀ p ∈ (Total.apply set dt positions).2, p.IsFinite := by
  have hplaces : ∀ i, Single.Bounded (positions.getD i 0) (2 ^ (100 : Int)) := fun i =>
    (Single.bounded_getD hparticles i).mono (by norm_num)
  cases set with
  | pbd batches =>
    refine ⟨nofun, Single.isFinite_of_bounded (q := 2 ^ (100 : Int)) ?_⟩
    show ∀ i, Single.Bounded ((Total.project batches batches.stiffness positions).getD i 0) _
    unfold Total.project
    split
    · exact hplaces
    · have hstiffness : Single.AtMost batches.stiffness 1 :=
        (Single.atMost_of_le (Single.atLeast_ratio hset.stiffness.1).nonneg Single.unpack_one
          hset.stiffness.2).mono (by norm_num)
      have hload : ∀ x ∈ batches.tethers.zip (List.replicate batches.size (0 : Float32)),
          Scalar.Within 1000000 x.1.referenceLength ∧ Scalar.Within 1000000 x.2 := by
        intro x hx
        rcases List.of_mem_zip hx with ⟨ht, hm⟩
        rw [List.eq_of_mem_replicate hm]
        exact ⟨hset.lengths _ ht, by decide +kernel, by decide +kernel⟩
      exact (Single.visit_bounded (Single.moderate_plain hstiffness) hload hplaces).2
  | xpbd batches multipliers =>
    rcases TetherSet.alpha_finite h hset.stiffness.1 with ⟨_, alpha, halpha, hnonneg, hle, _⟩
    change alpha? batches dt = some alpha at halpha
    have hload : ∀ x ∈ batches.tethers.zip multipliers,
        Scalar.Within 1000000 x.1.referenceLength ∧ Scalar.Within 1000000 x.2 := fun x hx =>
      ⟨hset.lengths _ (List.of_mem_zip hx).1, hset.multipliers _ rfl _ (List.of_mem_zip hx).2⟩
    have hvisits := Single.visit_bounded (Single.moderate_compliant hnonneg hle) hload hplaces
    unfold Total.apply
    dsimp only
    rw [halpha]
    refine ⟨?_, Single.isFinite_of_bounded hvisits.2⟩
    rintro _ ⟨⟩
    exact hvisits.1

/-- A projection of a joint. -/
theorem Joint.finite_solve (h : Compliance.leastStep ≤ dt) {j : Joint Float32} (hj : j.Ordinary)
    (hparticles : Compliance.OrdinaryParticles masses positions) :
    Scalar.isFinite (Total.joint j masses dt positions).1.multiplier = true ∧
      (∀ p ∈ (Total.joint j masses dt positions).2, p.IsFinite) ∧
      ((Total.joint j masses dt positions).1.force dt).IsFinite := by
  have hplaces := Single.bounded_getD hparticles
  have hweights := Single.ordinaryMass_getD hparticles
  have hviolation := Single.atMost_violation (hplaces j.second) (hplaces j.first) hj.restLength
  have hdirection := Single.bounded_direction (positions.getD j.second 0 - positions.getD j.first 0)
  rcases hlength : (positions.getD j.second 0 - positions.getD j.first 0).directionAndLength with ⟨n, d⟩
  rw [hlength] at hviolation hdirection
  by_cases hnone : (n == 0) = true
  case pos =>
    rw [Total.joint_of_none j masses dt hlength hnone]
    exact ⟨Single.isFinite_iff.mpr (Single.atMost_of_million hj.multiplier).isFinite,
      Single.isFinite_of_bounded hplaces, Single.isFinite_force h hj.multiplier hj.direction⟩
  case neg =>
    have hupdate := (Single.update_bounds h hj.multiplier hviolation (List.forall_mem_cons.mpr
      ⟨hweights j.first, List.forall_mem_singleton.mpr (hweights j.second)⟩) hj.compliance.1
      hj.compliance.2).2
    have hnext := Single.atMost_next hj.multiplier hupdate
    -- the first particle is moved against the direction, and the second one along it
    have hmove := fun i =>
      Single.bounded_move hdirection hupdate (Single.atMost_of_ordinaryMass (hweights i))
    have hback := Single.bounded_modify hplaces (q := 2 ^ (44 : Int)) (by norm_num)
      (fun v hv => hv.sub (by positivity) (by positivity)
        (Single.representable_two_pow (by norm_num) (by norm_num)) (hmove j.first) (by norm_num)) j.first
    have hboth := Single.bounded_modify hback (q := 2 ^ (45 : Int)) (by norm_num)
      (fun v hv => hv.add (by positivity) (by positivity)
        (Single.representable_two_pow (by norm_num) (by norm_num)) (hmove j.second) (by norm_num))
      j.second
    rw [Total.joint_of_direction j masses dt hlength hnone]
    exact ⟨Single.isFinite_iff.mpr hnext.isFinite, Single.isFinite_of_bounded hboth,
      (Single.bounded_force h hnext hdirection).isFinite⟩

/-- A projection of a suspension. -/
theorem Suspension.finite_solve (h : Compliance.leastStep ≤ dt) {s : Suspension Float32}
    (hs : s.Ordinary) (hparticles : Compliance.OrdinaryParticles masses positions) :
    Scalar.isFinite (Total.suspension s masses dt positions).1.multiplier = true ∧
      (∀ p ∈ (Total.suspension s masses dt positions).2, p.IsFinite) ∧
      ((Total.suspension s masses dt positions).1.force dt).IsFinite := by
  have hplaces := Single.bounded_getD hparticles
  have hweight := Single.ordinaryMass_getD hparticles s.particle
  have hviolation := Single.atMost_violation (hplaces s.particle) (Single.bounded_of_million hs.target)
    hs.restLength
  have hdirection := Single.bounded_direction (positions.getD s.particle 0 - s.target)
  rcases hlength : (positions.getD s.particle 0 - s.target).directionAndLength with ⟨n, d⟩
  rw [hlength] at hviolation hdirection
  by_cases hnone : (n == 0) = true
  case pos =>
    rw [Total.suspension_of_none s masses dt hlength hnone]
    exact ⟨Single.isFinite_iff.mpr (Single.atMost_of_million hs.multiplier).isFinite,
      Single.isFinite_of_bounded hplaces, Single.isFinite_force h hs.multiplier hs.direction⟩
  case neg =>
    have hupdate := (Single.update_bounds h hs.multiplier hviolation
      (List.forall_mem_singleton.mpr hweight) hs.compliance.1 hs.compliance.2).2
    have hnext := Single.atMost_next hs.multiplier hupdate
    have hmove := Single.bounded_move hdirection hupdate (Single.atMost_of_ordinaryMass hweight)
    have hmoved := Single.bounded_modify hplaces (q := 2 ^ (44 : Int)) (by norm_num)
      (fun v hv => hv.add (by positivity) (by positivity)
        (Single.representable_two_pow (by norm_num) (by norm_num)) hmove (by norm_num)) s.particle
    rw [Total.suspension_of_direction s masses dt hlength hnone]
    exact ⟨Single.isFinite_iff.mpr hnext.isFinite, Single.isFinite_of_bounded hmoved,
      (Single.bounded_force h hnext hdirection).isFinite⟩

end Projections

namespace Compliance

/-- With this step size nothing is divided by zero, and whatever is computed from numbers of ordinary
size is finite. -/
structure StaysFinite (dt : Float32) : Prop where
  /-- Tethers have a compliance term, and what it is divided by and what updates are divided by are
  positive. -/
  alpha : ∀ batches : TetherBatches Float32, Config.ratio 1 1000 ≤ batches.stiffness →
    0 < batches.stiffness * dt * dt ∧
      ∃ alpha, TetherSet.alpha? batches dt = some alpha ∧ Scalar.isFinite alpha = true ∧ 0 < 1 + alpha
  /-- Behind the guard, an update divides by positive numbers. Violations may be as large as places and
  lengths make them. -/
  update : ∀ multiplier violation masses compliance, Scalar.Within 1000000 multiplier →
    Scalar.Within 5000000 violation → (∀ w ∈ masses, OrdinaryMass w) → 0 ≤ compliance →
    compliance ≤ 1 →
    (¬ total masses ≤ Scalar.epsilon → 0 < dt * dt ∧ 0 < total masses + compliance / (dt * dt)) ∧
      Scalar.isFinite (update multiplier violation masses compliance dt) = true
  /-- A force is the multiplier divided by a positive number. -/
  force : ∀ multiplier direction, Scalar.Within 1000000 multiplier → direction.Within 1 →
    0 < dt * dt ∧ (force multiplier direction dt).IsFinite
  /-- Passes over tethers do not fail, -/
  tethers : ∀ (set : TetherSet Float32) masses positions schedule, set.Ordinary masses →
    OrdinaryParticles masses positions →
    ∃ set' moved, set.apply dt schedule masses positions = .ok (set', moved) ∧
      (∀ ms, set'.multipliers? = some ms → ∀ m ∈ ms, Scalar.isFinite m = true) ∧
      ∀ p ∈ moved, p.IsFinite
  /-- nor do projections of joints, -/
  joint : ∀ (j : Joint Float32) masses positions, j.Ordinary → OrdinaryParticles masses positions →
    j.first < positions.size → j.second < positions.size →
    ∃ j' moved, j.solve masses dt positions = .ok (j', moved) ∧
      Scalar.isFinite j'.multiplier = true ∧ (∀ p ∈ moved, p.IsFinite) ∧ (j'.force dt).IsFinite
  /-- nor projections of suspensions. -/
  suspension : ∀ (s : Suspension Float32) masses positions, s.Ordinary →
    OrdinaryParticles masses positions →
    s.particle < positions.size →
    ∃ s' moved, s.solve masses dt positions = .ok (s', moved) ∧
      Scalar.isFinite s'.multiplier = true ∧ (∀ p ∈ moved, p.IsFinite) ∧ (s'.force dt).IsFinite

/-- From the least step size on, nothing is divided by zero and everything stays finite. -/
theorem staysFinite_of_leastStep_le {dt : Float32} (h : leastStep ≤ dt) : StaysFinite dt where
  alpha batches hs := by
    rcases TetherSet.alpha_finite h hs with ⟨hdivisor, alpha, halpha, _, hle, hsum⟩
    exact ⟨hdivisor, alpha, halpha, Single.isFinite_iff.mpr hle.isFinite, hsum⟩
  update multiplier violation masses compliance hmultiplier hviolation hmasses hnonneg hone := by
    have hunpack : Single.unpack (5000000 : Float32) = .finite .positive 10000000 (-1) (by decide) := rfl
    have hbound := (Single.atMost_of_within hunpack hviolation).mono
      (by norm_num : ((10000000 : Nat) : Rat) * 2 ^ (-1 : Int) ≤ 5 * 2 ^ 20)
    rcases Single.update_bounds h hmultiplier hbound hmasses hnonneg hone with ⟨hdivisor, hupdate⟩
    exact ⟨fun hpast => ⟨(Single.atLeast_square h).pos, hdivisor hpast⟩,
      Single.isFinite_iff.mpr hupdate.isFinite⟩
  force _ _ hmultiplier hdirection :=
    ⟨(Single.atLeast_square h).pos, Single.isFinite_force h hmultiplier hdirection⟩
  tethers set masses positions schedule hset hparticles := by
    rcases hset.grouped with ⟨tethers, hgrouped⟩
    have hpass := TetherSet.apply_eq_of_grouped hgrouped dt schedule masses positions
    rw [Total.apply_eq hset.fits hparticles.size dt] at hpass
    exact ⟨(Total.apply set dt positions).1, (Total.apply set dt positions).2, hpass,
      TetherSet.finite_apply h hset hparticles⟩
  joint j masses positions hj hparticles hfirst hsecond :=
    ⟨(Total.joint j masses dt positions).1, (Total.joint j masses dt positions).2,
      Total.joint_eq dt hfirst hsecond hparticles.size, Joint.finite_solve h hj hparticles⟩
  suspension s masses positions hs hparticles hparticle :=
    ⟨(Total.suspension s masses dt positions).1, (Total.suspension s masses dt positions).2,
      Total.suspension_eq dt hparticle hparticles.size, Suspension.finite_solve h hs hparticles⟩

/-- A step of a sixtieth of a second, with a tether, a joint and a suspension of the same two particles. -/
theorem sixtieth_finite :
    leastStep ≤ Config.ratio 1 60 ∧
      (∃ set moved, (TetherSet.ofBatches .xpbd (.ofTethers [TetherSet.leash] 1)).apply
            (Config.ratio 1 60) .serial #[0, 1] #[0, ⟨10, 0, 0⟩] = .ok (set, moved) ∧
          (∀ ms, set.multipliers? = some ms → ∀ m ∈ ms, Scalar.isFinite m = true) ∧
          ∀ p ∈ moved, p.IsFinite) ∧
      (∃ j moved, (Joint.create 0 1 (5 : Float32) 1).solve #[0, 1] (Config.ratio 1 60)
            #[0, ⟨10, 0, 0⟩] = .ok (j, moved) ∧
          Scalar.isFinite j.multiplier = true ∧ (∀ p ∈ moved, p.IsFinite) ∧
          (j.force (Config.ratio 1 60)).IsFinite) ∧
      ∃ s moved, (Suspension.create 1 (0 : Vec3 Float32) 5 1).solve #[0, 1] (Config.ratio 1 60)
            #[0, ⟨10, 0, 0⟩] = .ok (s, moved) ∧
          Scalar.isFinite s.multiplier = true ∧ (∀ p ∈ moved, p.IsFinite) ∧
          (s.force (Config.ratio 1 60)).IsFinite := by
  have hleast : leastStep ≤ Config.ratio 1 60 := by decide +kernel
  have hparticles : OrdinaryParticles #[0, 1] #[0, ⟨10, 0, 0⟩] :=
    ⟨rfl, by decide +kernel, by decide +kernel⟩
  have hfits : TetherSet.leash.Fits #[0, 1] :=
    ⟨⟨0, rfl, by decide +kernel⟩, 1, rfl, by decide +kernel⟩
  have hset : (TetherSet.ofBatches .xpbd (.ofTethers [TetherSet.leash] 1)).Ordinary #[0, 1] := by
    refine ⟨TetherSet.fits_ofBatches .xpbd (List.forall_mem_singleton.mpr hfits), ⟨_, rfl⟩,
      by decide +kernel, List.forall_mem_singleton.mpr (by decide +kernel), ?_⟩
    rintro _ ⟨⟩
    exact List.forall_mem_singleton.mpr (by decide +kernel)
  have hjoint : (Joint.create 0 1 (5 : Float32) 1).Ordinary :=
    ⟨by decide +kernel, by decide +kernel, by decide +kernel, by decide +kernel⟩
  have hsuspension : (Suspension.create 1 (0 : Vec3 Float32) 5 1).Ordinary :=
    ⟨by decide +kernel, by decide +kernel, by decide +kernel, by decide +kernel, by decide +kernel⟩
  have hfinite := staysFinite_of_leastStep_le hleast
  exact ⟨hleast, hfinite.tethers _ _ _ _ hset hparticles,
    hfinite.joint _ _ _ hjoint hparticles (by decide) (by decide),
    hfinite.suspension _ _ _ hsuspension hparticles (by decide)⟩

/-- A quarter of the least step size is too small: what a joint between distant places accumulates,
divided by the square, is infinite, and the force is no number in the components in which the direction
is zero. -/
example :
    (match (Joint.create 0 1 (0 : Float32) 0).solve #[0, Config.ratio 1 1000] (leastStep / 4)
        #[⟨-1000000, 0, 0⟩, ⟨1000000, 0, 0⟩] with
      | .ok (j, _) => Scalar.isNumber (j.force (leastStep / 4)).y
      | .error _ => true) = false := by
  decide +kernel

/-- A step size whose square is too small to be told from zero. -/
def tinyStep : Float32 := leastStep * leastStep

/-- Such a step size may be configured and is not stopped by any guard, but with it updates and forces are
no numbers. -/
theorem tinyStep_divides_by_zero :
    ({ Config.standard with fixedStep := some tinyStep } : Config Float32).check.isOk = true ∧
      ¬ total [(1 : Float32)] ≤ Scalar.epsilon ∧ 0 < tinyStep ∧ (tinyStep * tinyStep == 0) = true ∧
      Scalar.isNumber (update 0 1 [1] 0 tinyStep) = false ∧
      Scalar.isNumber (force 0 ⟨1, 0, 0⟩ tinyStep).x = false := by
  decide +kernel

end Compliance

end TetheredParticles
