import Mathlib.Tactic.FieldSimp
import Mathlib.Tactic.Linarith
import TetheredParticles.Clock
import TetheredParticles.Proofs.Config
import TetheredParticles.Proofs.Scalar.Exact
/-!
# The balance of the exact clock

Without rounding, the clock only hands out time that it was given. What it carries over is less
than a step, which is also why a frame never covers less time than was carried over before it.

* `StepClock.covers` — the number of steps in a frame, before it is made to fit a word.
* `StepClock.Settled` — what may be carried over between two frames.
* `StepClock.Balanced`, `StepClock.plan_balanced` — what a frame does to the time carried over.
-/

namespace TetheredParticles

/-! ## Exact operations -/

namespace Exact

theorem maxNum_eq (a b : Rat) : Scalar.maxNum a b = max a b := by
  have hb : Scalar.isNumber b = true := beq_self_eq_true b
  unfold Scalar.maxNum
  rw [if_pos hb]
  by_cases h : b < a
  · exact (if_pos h).trans (max_eq_left h.le).symm
  · exact (if_neg h).trans (max_eq_right (not_lt.mp h)).symm

theorem minNum_eq (a b : Rat) : Scalar.minNum a b = min a b := by
  have hb : Scalar.isNumber b = true := beq_self_eq_true b
  unfold Scalar.minNum
  rw [if_pos hb]
  by_cases h : a < b
  · exact (if_pos h).trans (min_eq_left h.le).symm
  · exact (if_neg h).trans (min_eq_right (not_lt.mp h)).symm

theorem ofCount_eq (n : UInt32) : (Scalar.ofCount n : Rat) = n.toNat := rfl

theorem toNat_count {n : Int} (h : n < UInt32.size - 1) : (count n).toNat = n.toNat := by
  have hsize : UInt32.size = 4294967296 := rfl
  have hlt : min n.toNat (UInt32.size - 1) = n.toNat := by omega
  unfold count
  rw [hlt, UInt32.toNat_ofNat', Nat.mod_eq_of_lt (by omega)]

/-- A count stands for the integer it was made from, if that is not negative and not too large. -/
theorem ofCount_count {n : Int} (hn : 0 ≤ n) (h : n < UInt32.size - 1) :
    (Scalar.ofCount (count n) : Rat) = n := by
  rw [ofCount_eq, toNat_count h, ← Int.cast_natCast, Int.toNat_of_nonneg hn]

/-- Rounding a quotient down, the divisor goes into the dividend so many times and leaves less than
itself over. -/
theorem floor_div {a b : Rat} (ha : 0 ≤ a) (hb : 0 < b) :
    0 ≤ (a / b).floor ∧ (a / b).floor * b ≤ a ∧ a < (a / b).floor * b + b := by
  have hlt := (div_lt_iff₀ hb).mp (Rat.lt_floor_add_one (a / b))
  rw [Int.cast_add, Int.cast_one, add_mul, one_mul] at hlt
  exact ⟨Rat.le_floor_iff.mpr (div_nonneg ha hb.le), (le_div_iff₀ hb).mp (Rat.floor_le _), hlt⟩

/-- Rounding a quotient up, so many times the divisor is at least the dividend, and exceeds it by
less than the divisor. -/
theorem ceil_div {a b : Rat} (ha : 0 ≤ a) (hb : 0 < b) :
    0 ≤ (a / b).ceil ∧ a ≤ (a / b).ceil * b ∧ (a / b).ceil * b < a + b := by
  have hle : a ≤ (a / b).ceil * b := (div_le_iff₀ hb).mp Rat.le_ceil
  have hlt : ((a / b).ceil : Rat) < a / b + 1 := Rat.ceil_lt
  have hnonneg : (0 : Rat) ≤ (a / b).ceil := (div_nonneg ha hb.le).trans Rat.le_ceil
  refine ⟨Int.cast_nonneg_iff.mp hnonneg, hle, ?_⟩
  calc ((a / b).ceil : Rat) * b < (a / b + 1) * b := mul_lt_mul_of_pos_right hlt hb
    _ = a + b := by rw [add_mul, one_mul, div_mul_cancel₀ a hb.ne']

/-- What is left over when the divisor is taken away as often as possible. -/
theorem remainder_eq {a b : Rat} (ha : 0 ≤ a) (hb : 0 < b) :
    (Scalar.remainder a b : Rat) = a - b * (a / b).floor := by
  have htruncate : truncate (a / b) = (a / b).floor := if_pos (div_nonneg ha hb.le)
  rw [← htruncate]
  rfl

end Exact

/-! ## The length of steps -/

/-- The largest size of a step. -/
def Config.longestStep (c : Config Rat) : Rat := c.fixedStep.getD c.maxDeltaTime

theorem Config.Timed.longestStep_pos {c : Config Rat} (h : c.Timed) : 0 < c.longestStep := by
  unfold longestStep
  cases hfixed : c.fixedStep with
  | some step => exact (h.fixedStep step hfixed).1
  | none => exact h.maxDeltaTime

/-- The time that the steps of a plan cover together. -/
def StepPlan.span (plan : StepPlan Rat) : Rat := plan.dt * Scalar.ofCount plan.steps

namespace StepClock

/-- The time that passes in a frame. -/
def frameTime (dt : Rat) (paused : Bool) : Rat := if paused then 0 else max dt 0

/-- How many steps a frame covers, before the number is made to fit a word. -/
def covers (clock : StepClock Rat) (config : Config Rat) (dt : Rat) (paused : Bool) : Int :=
  if paused then 1
  else
    let total := clock.accumulated + max dt 0
    match config.fixedStep with
    | some step => (total / step).floor
    | none => if 1 < config.maxSubsteps then (total / config.maxDeltaTime).ceil else 1

/-- What may be carried over: less than a step of fixed size, or a frame that was too short. -/
structure Settled (config : Config Rat) (clock : StepClock Rat) : Prop where
  nonneg : 0 ≤ clock.accumulated
  fixedStep : ∀ step ∈ config.fixedStep, clock.accumulated < step
  short : config.fixedStep = none →
    clock.accumulated = 0 ∨ clock.accumulated < config.minDeltaTime

/-- What a frame of a length does with the time that is carried over: the steps and what is carried
over after them are no longer than what there was, and no shorter than what had been carried over
before. -/
structure Balanced (config : Config Rat) (clock : StepClock Rat) (frame : Rat)
    (plan : StepPlan Rat) (after : StepClock Rat) : Prop where
  settled : after.Settled config
  steps_le : plan.steps ≤ config.maxSubsteps
  dt_nonneg : 0 ≤ plan.dt
  dt_le : plan.dt ≤ config.longestStep
  span_le : plan.span + after.accumulated ≤ clock.accumulated + frame
  le_span : clock.accumulated ≤ plan.span + after.accumulated

theorem settled_start {config : Config Rat} (hc : config.Timed) : start.Settled config :=
  ⟨le_rfl, fun step hstep => (hc.fixedStep step hstep).1, fun _ => .inl rfl⟩

/-! ## Frames -/

variable {config : Config Rat} {clock : StepClock Rat}

theorem Settled.of_fixed {step rest : Rat} (hfixed : config.fixedStep = some step)
    (hrest : 0 ≤ rest) (hlt : rest < step) : Settled config ⟨rest⟩ where
  nonneg := hrest
  fixedStep := by
    intro other hother
    cases hfixed.symm.trans hother
    exact hlt
  short hnone := nomatch hfixed.symm.trans hnone

/-- Steps of the fixed size, and what is left over. -/
theorem balanced_of_fixed {step rest : Rat} (hfixed : config.fixedStep = some step)
    (hstep : 0 < step) {taken : UInt32} {dt : Rat} (hsteps : taken ≤ config.maxSubsteps)
    (hrest : 0 ≤ rest) (hlt : rest < step)
    (hle : step * Scalar.ofCount taken + rest ≤ clock.accumulated + dt)
    (hge : clock.accumulated ≤ step * Scalar.ofCount taken + rest) :
    Balanced config clock dt ⟨taken, step⟩ ⟨rest⟩ where
  settled := .of_fixed hfixed hrest hlt
  steps_le := hsteps
  dt_nonneg := hstep.le
  dt_le := by
    unfold Config.longestStep
    rw [hfixed]
    exact le_rfl
  span_le := hle
  le_span := hge

/-- A frame of no length turns what was carried over into a step. -/
theorem flush_balanced (hc : config.Timed) {step : Rat} (hfixed : config.fixedStep = some step)
    (h : clock.Settled config) {dt : Rat} (hdt : 0 ≤ dt) :
    Balanced config clock dt ⟨1, clock.accumulated⟩ ⟨0⟩ := by
  have hspan : StepPlan.span ⟨1, clock.accumulated⟩ = clock.accumulated := mul_one _
  constructor
  · exact .of_fixed hfixed le_rfl (hc.fixedStep step hfixed).1
  · exact UInt32.le_iff_toNat_le.mpr hc.maxSubsteps
  · exact h.nonneg
  · unfold Config.longestStep
    rw [hfixed]
    exact (h.fixedStep step hfixed).le
  · rw [hspan]
    linarith
  · rw [hspan]
    linarith

theorem planFixed_balanced (hc : config.Timed) {step : Rat} (hfixed : config.fixedStep = some step)
    (h : clock.Settled config) {dt : Rat} (hdt : 0 ≤ dt)
    (hcovers : ((clock.accumulated + dt) / step).floor < UInt32.size - 1) :
    Balanced config clock dt (clock.planFixed config.maxSubsteps step dt).1
      (clock.planFixed config.maxSubsteps step dt).2 := by
  have hpos : (0 : Rat) < step := (hc.fixedStep step hfixed).1
  have hnonneg := h.nonneg
  have hlt := h.fixedStep step hfixed
  unfold planFixed
  split
  case isTrue => exact flush_balanced hc hfixed h hdt
  case isFalse =>
    obtain ⟨total, htotal⟩ : ∃ total, total = clock.accumulated + dt := ⟨_, rfl⟩
    have hle : 0 ≤ total := by linarith
    rcases Exact.floor_div hle hpos with ⟨hn, hfloor, hnext⟩
    dsimp only
    rw [← htotal] at hcovers ⊢
    -- the whole steps in the time, and those that are taken
    obtain ⟨whole, hwhole⟩ : ∃ whole, whole = Scalar.floorCount (total / step) := ⟨_, rfl⟩
    obtain ⟨taken, htaken⟩ : ∃ taken, taken = min whole config.maxSubsteps := ⟨_, rfl⟩
    have hcount : (Scalar.ofCount whole : Rat) = (total / step).floor :=
      hwhole ▸ Exact.ofCount_count hn hcovers
    have hmin : taken.toNat = min whole.toNat config.maxSubsteps.toNat :=
      htaken ▸ UInt32.toNat_min whole config.maxSubsteps
    have hsteps : taken ≤ config.maxSubsteps :=
      UInt32.le_iff_toNat_le.mpr (hmin ▸ Nat.min_le_right ..)
    rw [← hwhole, ← htaken]
    split
    case isTrue hcapped =>
      have hmore : (Scalar.ofCount taken : Rat) ≤ (total / step).floor :=
        hcount ▸ Nat.cast_le.mpr (UInt32.lt_iff_toNat_lt.mp hcapped).le
      have hone : (1 : Rat) ≤ Scalar.ofCount taken := by
        have hallowed := hc.maxSubsteps
        have hsome : 1 ≤ taken.toNat := by
          have hlast := UInt32.lt_iff_toNat_lt.mp hcapped
          omega
        exact Nat.one_le_cast.mpr hsome
      have hspan := mul_le_mul_of_nonneg_left hmore hpos.le
      have hstep := mul_le_mul_of_nonneg_left hone hpos.le
      rw [Exact.remainder_eq hle hpos]
      -- at least one step is taken, which is more than what had been carried over
      refine balanced_of_fixed hfixed hpos hsteps ?_ ?_ ?_ ?_ <;> linarith
    case isFalse hall =>
      have hsame : taken = whole := by
        rw [UInt32.lt_iff_toNat_lt] at hall
        exact UInt32.toNat_inj.mp (by omega)
      rw [hsame] at hsteps ⊢
      refine balanced_of_fixed hfixed hpos hsteps ?_ ?_ ?_ ?_ <;> rw [hcount] <;> linarith

/-- A time is divided into allowed steps of at most the largest size. They cover no more than the
time, and all of it unless it is longer than one such step. -/
structure Divided (maxSubsteps : UInt32) (maxDelta total : Rat) (plan : StepPlan Rat) : Prop where
  steps_le : plan.steps ≤ maxSubsteps
  dt_nonneg : 0 ≤ plan.dt
  dt_le : plan.dt ≤ maxDelta
  span_le : plan.span ≤ total
  le_span : min total maxDelta ≤ plan.span

variable {maxSubsteps : UInt32} {maxDelta total : Rat}

theorem divided_evenly {steps : UInt32} (hsteps : steps ≤ maxSubsteps) (hsome : 0 < steps.toNat)
    (htotal : 0 ≤ total) (henough : total ≤ maxDelta * Scalar.ofCount steps) :
    Divided maxSubsteps maxDelta total ⟨steps, total / Scalar.ofCount steps⟩ := by
  have hpos : (0 : Rat) < Scalar.ofCount steps := Nat.cast_pos.mpr hsome
  have hspan : StepPlan.span ⟨steps, total / Scalar.ofCount steps⟩ = total :=
    div_mul_cancel₀ total hpos.ne'
  exact ⟨hsteps, div_nonneg htotal hpos.le, (div_le_iff₀ hpos).mpr henough, hspan.le,
    (min_le_left ..).trans hspan.ge⟩

theorem divided_cut (hsubsteps : 0 < maxSubsteps.toNat) (hdelta : 0 < maxDelta)
    (hlong : maxDelta * Scalar.ofCount maxSubsteps ≤ total) :
    Divided maxSubsteps maxDelta total ⟨maxSubsteps, maxDelta⟩ := by
  have hone : (1 : Rat) ≤ Scalar.ofCount maxSubsteps := Nat.one_le_cast.mpr hsubsteps
  refine ⟨UInt32.le_refl _, hdelta.le, le_rfl, hlong, (min_le_right ..).trans ?_⟩
  exact le_mul_of_one_le_right hdelta.le hone

theorem divided_divide (hsubsteps : 0 < maxSubsteps.toNat) (hdelta : 0 < maxDelta)
    (htotal : 0 ≤ total)
    (hcovers : 1 < maxSubsteps → (total / maxDelta).ceil < UInt32.size - 1) :
    Divided maxSubsteps maxDelta total (divide maxSubsteps maxDelta total) := by
  unfold divide
  split
  case isTrue hmany =>
    rcases Exact.ceil_div htotal hdelta with ⟨hn, hceil, hnext⟩
    obtain ⟨steps, hsteps⟩ : ∃ steps, steps = max (Scalar.ceilCount (total / maxDelta)) 1 :=
      ⟨_, rfl⟩
    have hmax : steps.toNat = max (total / maxDelta).ceil.toNat 1 := by
      rw [hsteps, UInt32.toNat_max]
      exact congrArg (max · 1) (Exact.toNat_count (hcovers hmany))
    dsimp only
    rw [← hsteps]
    split
    case isTrue hcapped =>
      -- what is cut off is a part of the last step that the time covers, and all after it
      have hbefore : (Scalar.ofCount maxSubsteps : Rat) + 1 ≤ (total / maxDelta).ceil := by
        have htwo := UInt32.lt_iff_toNat_lt.mp hmany
        have hone : UInt32.toNat 1 = 1 := rfl
        have hlt := UInt32.lt_iff_toNat_lt.mp hcapped
        have hle : ((maxSubsteps.toNat + 1 : Nat) : Int) ≤ (total / maxDelta).ceil := by omega
        rw [Exact.ofCount_eq]
        exact_mod_cast hle
      have hspan := mul_le_mul_of_nonneg_right hbefore hdelta.le
      exact divided_cut hsubsteps hdelta (by linarith)
    case isFalse hall =>
      have henough : ((total / maxDelta).ceil : Rat) ≤ Scalar.ofCount steps := by
        have hle : (total / maxDelta).ceil ≤ (steps.toNat : Int) := by omega
        rw [Exact.ofCount_eq]
        exact_mod_cast hle
      have hspan := mul_le_mul_of_nonneg_right henough hdelta.le
      exact divided_evenly (UInt32.not_lt.mp hall) (by omega) htotal (by linarith)
  case isFalse hone =>
    have hspan : StepPlan.span ⟨1, min total maxDelta⟩ = min total maxDelta := mul_one _
    rw [Exact.minNum_eq]
    exact ⟨UInt32.le_iff_toNat_le.mpr hsubsteps, le_min htotal hdelta.le, min_le_right ..,
      hspan.trans_le (min_le_left ..), hspan.ge⟩

theorem planVariable_balanced (hc : config.Timed) (hfixed : config.fixedStep = none)
    (h : clock.Settled config) {dt : Rat} (hdt : 0 ≤ dt)
    (hcovers : 1 < config.maxSubsteps →
      ((clock.accumulated + dt) / config.maxDeltaTime).ceil < UInt32.size - 1) :
    Balanced config clock dt (clock.planVariable config dt).1 (clock.planVariable config dt).2 := by
  have hdelta : (0 : Rat) < config.maxDeltaTime := hc.maxDeltaTime
  have hmin : (0 : Rat) ≤ config.minDeltaTime := hc.minDeltaTime
  have horder : (config.minDeltaTime : Rat) ≤ config.maxDeltaTime := hc.minDeltaTime_le
  have hnonneg := h.nonneg
  have hlongest : config.longestStep = config.maxDeltaTime := by
    unfold Config.longestStep
    rw [hfixed]
    rfl
  have hsettled : ∀ rest : Rat, 0 ≤ rest → rest = 0 ∨ rest < config.minDeltaTime →
      Settled config ⟨rest⟩ := by
    intro rest hrest hshort
    refine ⟨hrest, fun step hstep => ?_, fun _ => hshort⟩
    cases hfixed.symm.trans hstep
  unfold planVariable
  dsimp only
  split
  case isTrue hshort =>
    have hspan : StepPlan.span ⟨0, 0⟩ = 0 := zero_mul _
    refine ⟨hsettled _ (by linarith) (.inr hshort), UInt32.zero_le, le_rfl, ?_, ?_, ?_⟩
    · rw [hlongest]
      exact hdelta.le
    · rw [hspan]
      linarith
    · rw [hspan]
      linarith
  case isFalse =>
    rcases divided_divide hc.maxSubsteps hdelta (by linarith) hcovers with
      ⟨hsteps, hdt0, hdtle, hspan, hleast⟩
    have hbefore : clock.accumulated ≤ min (clock.accumulated + dt) config.maxDeltaTime := by
      refine le_min (by linarith) ?_
      rcases h.short hfixed with hzero | hshort
      · linarith
      · linarith
    refine ⟨hsettled 0 le_rfl (.inl rfl), hsteps, hdt0, hlongest ▸ hdtle, ?_, ?_⟩
    · dsimp only
      linarith
    · dsimp only
      linarith

/-- A frame hands out what it was given, in steps of allowed size and number. -/
theorem plan_balanced (hc : config.Timed) (h : clock.Settled config) {dt : Rat} {paused : Bool}
    (hcovers : clock.covers config dt paused < UInt32.size - 1) :
    Balanced config clock (frameTime dt paused) (clock.plan config dt paused).1
      (clock.plan config dt paused).2 := by
  unfold covers at hcovers
  unfold plan frameTime
  cases paused with
  | true =>
    have hspan : StepPlan.span ⟨1, 0⟩ = 0 := zero_mul _
    refine ⟨h, UInt32.le_iff_toNat_le.mpr hc.maxSubsteps, le_rfl, hc.longestStep_pos.le, ?_, ?_⟩
    · rw [if_pos rfl, if_pos rfl, hspan]
      linarith
    · rw [if_pos rfl, hspan]
      linarith
  | false =>
    rw [if_neg Bool.false_ne_true] at hcovers ⊢
    rw [if_neg Bool.false_ne_true, Exact.maxNum_eq]
    dsimp only at hcovers ⊢
    cases hfixed : config.fixedStep with
    | some step =>
      rw [hfixed] at hcovers
      exact planFixed_balanced hc hfixed h (le_max_right ..) hcovers
    | none =>
      rw [hfixed] at hcovers
      refine planVariable_balanced hc hfixed h (le_max_right ..) fun hmany => ?_
      dsimp only at hcovers
      rwa [if_pos hmany] at hcovers

end StepClock

end TetheredParticles
