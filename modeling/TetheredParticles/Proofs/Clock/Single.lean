import TetheredParticles.Clock
import TetheredParticles.Proofs.Config
import TetheredParticles.Proofs.Scalar.Rounding
/-!
# The clock in single precision

Frame times may be anything that single precision has bits for. Without a fixed step, whatever is
planned or carried over is a time: a number, and not negative. With one, that takes frames that can
be measured. Two kinds cannot. A time that overflows has no remainder, and a quotient that is
rounded up to the next integer counts a step that does not fit.

* `Scalar.IsTime` — what is a length of time.
* `StepClock.Frame`, `StepClock.history` — the plans of frames, and the clock after each.
* `StepClock.Measured` — the frames that can be measured.
* `StepClock.plan_isTime`, `StepClock.history_isTime` — these leave lengths of time.
* `StepClock.history_not_isTime` — others do not.
-/

namespace TetheredParticles

/-- A length of time: a number, and not negative. -/
def Scalar.IsTime {S : Type} [Scalar S] (a : S) : Prop := Scalar.isNumber a = true ∧ 0 ≤ a

instance {S : Type} [Scalar S] (a : S) : Decidable (Scalar.IsTime a) :=
  inferInstanceAs (Decidable (_ ∧ _))

theorem Scalar.isTime_of_nonneg {S : Type} [Scalar S] [LawfulSign S] {a : S} (h : 0 ≤ a) :
    IsTime a := ⟨LawfulSign.isNumber_of_nonneg a h, h⟩

namespace StepClock

section History

variable {S : Type} [Scalar S]

/-- What the clock is told of a frame. -/
structure Frame (S : Type) where
  config : Config S
  dt : S
  /-- The frame only applies writes. -/
  paused : Bool

/-- The plan of each frame, and the clock after it. -/
def history (clock : StepClock S) : List (Frame S) → List (StepPlan S × StepClock S)
  | [] => []
  | frame :: rest =>
    let planned := clock.plan frame.config frame.dt frame.paused
    planned :: planned.2.history rest

end History

/-- The time that is there to be stepped in a frame. -/
def available (clock : StepClock Float32) (frame : Frame Float32) : Float32 :=
  clock.accumulated + Scalar.maxNum frame.dt 0

/-- The time of a frame that is divided into steps of fixed size is finite, and no more steps are
counted in it than fit, unless it is cut down anyway. -/
def Measured (clock : StepClock Float32) (frame : Frame Float32) : Prop :=
  frame.paused = false → ∀ step ∈ frame.config.fixedStep,
    (Scalar.maxNum frame.dt 0 == 0) = false →
    Scalar.isFinite (clock.available frame) = true ∧
      (Scalar.floorCount (clock.available frame / step) ≤ frame.config.maxSubsteps →
        Single.value (Scalar.ofCount (Scalar.floorCount (clock.available frame / step))) *
          Single.value step ≤ Single.value (clock.available frame))

instance (clock : StepClock Float32) (frame : Frame Float32) : Decidable (clock.Measured frame) :=
  inferInstanceAs (Decidable (_ → _))

/-- All frames can be measured, one after the other. -/
def AllMeasured (clock : StepClock Float32) : List (Frame Float32) → Prop
  | [] => True
  | frame :: rest =>
    clock.Measured frame ∧ (clock.plan frame.config frame.dt frame.paused).2.AllMeasured rest

instance decidableAllMeasured (clock : StepClock Float32) :
    (frames : List (Frame Float32)) → Decidable (clock.AllMeasured frames)
  | [] => inferInstanceAs (Decidable True)
  | frame :: rest =>
    have := decidableAllMeasured (clock.plan frame.config frame.dt frame.paused).2 rest
    inferInstanceAs (Decidable (_ ∧ _))

/-! ## Plans -/

variable {clock : StepClock Float32}

theorem divide_nonneg (maxSubsteps : UInt32) {maxDelta total : Float32} (hdelta : 0 < maxDelta)
    (htotal : 0 ≤ total) : 0 ≤ (divide maxSubsteps maxDelta total).dt := by
  have hdelta' : 0 ≤ maxDelta := LawfulSign.nonneg_of_pos _ hdelta
  unfold divide
  dsimp only
  split
  case isTrue =>
    split
    · exact hdelta'
    · have hsteps : max (Scalar.ceilCount (total / maxDelta)) 1 ≠ 0 := by
        intro hzero
        have hvalue := congrArg UInt32.toNat hzero
        have hone : UInt32.toNat 1 = 1 := rfl
        rw [UInt32.toNat_max, hone, UInt32.toNat_zero] at hvalue
        omega
      rcases Single.unpack_ofCount hsteps with ⟨m, e, h, hcount, _⟩
      exact Single.div_nonneg htotal hcount
  case isFalse => exact Scalar.minNum_nonneg htotal hdelta'

theorem planVariable_nonneg {config : Config Float32} (hc : config.Timed)
    (h : 0 ≤ clock.accumulated) {dt : Float32} (hdt : 0 ≤ dt) :
    0 ≤ (clock.planVariable config dt).1.dt ∧
      0 ≤ (clock.planVariable config dt).2.accumulated := by
  have htotal := Single.add_nonneg h hdt
  unfold planVariable
  dsimp only
  split
  · exact ⟨Scalar.zero_le_zero, htotal⟩
  · exact ⟨divide_nonneg _ hc.maxDeltaTime htotal, Scalar.zero_le_zero⟩

/-- With a fixed step, what is left over is a time if the count of steps is right. -/
theorem planFixed_nonneg {step : Float32} (hstep : 0 < step) (hfinite : Scalar.isFinite step = true)
    (maxSubsteps : UInt32) (h : 0 ≤ clock.accumulated) {dt : Float32} (hdt : 0 ≤ dt)
    (hmeasured : (dt == 0) = false → Scalar.isFinite (clock.accumulated + dt) = true ∧
      (Scalar.floorCount ((clock.accumulated + dt) / step) ≤ maxSubsteps →
        Single.value (Scalar.ofCount (Scalar.floorCount ((clock.accumulated + dt) / step))) *
          Single.value step ≤ Single.value (clock.accumulated + dt))) :
    0 ≤ (clock.planFixed maxSubsteps step dt).1.dt ∧
      0 ≤ (clock.planFixed maxSubsteps step dt).2.accumulated := by
  rcases Single.exists_of_pos_of_isFinite hstep (Single.isFinite_of_isFinite hfinite) with
    ⟨m, e, hm, hparts⟩
  have htotal := Single.add_nonneg h hdt
  unfold planFixed
  split
  case isTrue => exact ⟨h, Scalar.zero_le_zero⟩
  case isFalse hsome =>
    rcases hmeasured (Bool.eq_false_iff.mpr hsome) with ⟨htotalFinite, hfits⟩
    have htotalFinite := Single.isFinite_of_isFinite htotalFinite
    refine ⟨LawfulSign.nonneg_of_pos _ hstep, ?_⟩
    dsimp only
    split
    case isTrue => exact Single.remainder_nonneg htotal htotalFinite hparts
    case isFalse hall =>
      obtain ⟨whole, hwhole⟩ : ∃ whole : UInt32,
        whole = Scalar.floorCount ((clock.accumulated + dt) / step) := ⟨_, rfl⟩
      rw [← hwhole] at hfits hall ⊢
      have hle : whole ≤ maxSubsteps := by
        rw [UInt32.lt_iff_toNat_lt, UInt32.toNat_min] at hall
        rw [UInt32.le_iff_toNat_le]
        omega
      have htaken : min whole maxSubsteps = whole := by
        rw [← UInt32.toNat_inj, UInt32.toNat_min]
        exact Nat.min_eq_left (UInt32.le_iff_toNat_le.mp hle)
      rw [htaken]
      rcases Single.mul_le hparts htotal htotalFinite (hfits hle) with ⟨hnonneg, hproduct⟩
      exact Single.sub_nonneg htotalFinite hnonneg hproduct

/-- A frame that can be measured is planned in steps that take time, and leaves time over. -/
theorem plan_isTime {frame : Frame Float32} (hc : frame.config.check = .ok ())
    (h : Scalar.IsTime clock.accumulated) (hmeasured : clock.Measured frame) :
    Scalar.IsTime (clock.plan frame.config frame.dt frame.paused).1.dt ∧
      Scalar.IsTime (clock.plan frame.config frame.dt frame.paused).2.accumulated := by
  have htimed := Config.timed_of_check hc
  have hdt : 0 ≤ Scalar.maxNum frame.dt 0 := Scalar.maxNum_nonneg frame.dt
  suffices hnonneg : 0 ≤ (clock.plan frame.config frame.dt frame.paused).1.dt ∧
      0 ≤ (clock.plan frame.config frame.dt frame.paused).2.accumulated from
    ⟨Scalar.isTime_of_nonneg hnonneg.1, Scalar.isTime_of_nonneg hnonneg.2⟩
  unfold plan
  cases hpaused : frame.paused with
  | true => exact ⟨Scalar.zero_le_zero, h.2⟩
  | false =>
    rw [if_neg Bool.false_ne_true]
    cases hfixed : frame.config.fixedStep with
    | some step =>
      rcases htimed.fixedStep step hfixed with ⟨hstep, hfinite⟩
      exact planFixed_nonneg hstep hfinite _ h.2 hdt (hmeasured hpaused step hfixed)
    | none => exact planVariable_nonneg htimed h.2 hdt

/-! ## Histories -/

theorem history_isTime_from {frames : List (Frame Float32)} (h : Scalar.IsTime clock.accumulated)
    (hc : ∀ frame ∈ frames, frame.config.check = .ok ()) (hmeasured : clock.AllMeasured frames) :
    ∀ entry ∈ clock.history frames,
      Scalar.IsTime entry.1.dt ∧ Scalar.IsTime entry.2.accumulated := by
  induction frames generalizing clock with
  | nil => exact fun _ hentry => absurd hentry List.not_mem_nil
  | cons frame rest ih =>
    have hplan := plan_isTime (hc frame (List.mem_cons_self ..)) h hmeasured.1
    intro entry hentry
    rcases List.mem_cons.mp hentry with rfl | hrest
    · exact hplan
    · exact ih hplan.2 (fun other hother => hc other (List.mem_cons_of_mem _ hother)) hmeasured.2
        entry hrest

/-- As long as the frames can be measured, all planned steps take time, and what is carried over is
time. -/
theorem history_isTime {frames : List (Frame Float32)}
    (hc : ∀ frame ∈ frames, frame.config.check = .ok ()) (hmeasured : start.AllMeasured frames) :
    ∀ entry ∈ start.history frames,
      Scalar.IsTime entry.1.dt ∧ Scalar.IsTime entry.2.accumulated :=
  history_isTime_from (Scalar.isTime_of_nonneg Scalar.zero_le_zero) hc hmeasured

/-- A frame that leaves a part of a step over, one that is cut down, a negative one, one whose
length is no number, and without a fixed step one that never ends. -/
def ordinary : List (Frame Float32) :=
  [⟨.standard, Config.ratio 1 50, false⟩, ⟨.standard, 1, false⟩, ⟨.standard, -1, false⟩,
    ⟨.standard, 0 / 0, false⟩, ⟨{ Config.standard with fixedStep := none }, 1 / 0, false⟩]

theorem ordinary_isTime : start.AllMeasured ordinary ∧ ∀ entry ∈ start.history ordinary,
    Scalar.IsTime entry.1.dt ∧ Scalar.IsTime entry.2.accumulated := by
  have hmeasured : start.AllMeasured ordinary := by decide +kernel
  refine ⟨hmeasured, history_isTime ?_ hmeasured⟩
  intro frame hframe
  simp only [ordinary, List.mem_cons, List.not_mem_nil, or_false] at hframe
  rcases hframe with rfl | rfl | rfl | rfl | rfl <;> rfl

/-- Three sixtieths are counted in a twentieth, though as numbers are rounded they do not fit. The
clock is then short of time, and a frame of no length turns that into a step. -/
def overdrawn : List (Frame Float32) :=
  [⟨.standard, Config.ratio 1 20, false⟩, ⟨.standard, 0, false⟩]

/-- A frame that never ends. -/
def endless : List (Frame Float32) := [⟨.standard, 1 / 0, false⟩]

/-- Accepted configurations do not keep the clock from running a debt, or from losing its time. -/
theorem history_not_isTime :
    (∀ frame ∈ overdrawn ++ endless, frame.config.check = .ok ()) ∧
      (∃ entry ∈ start.history overdrawn, entry.2.accumulated < 0) ∧
      (∃ entry ∈ start.history overdrawn, entry.1.dt < 0) ∧
      ∃ entry ∈ start.history endless, Scalar.isNumber entry.2.accumulated = false := by
  refine ⟨fun frame hframe => ?_, by decide +kernel, by decide +kernel, by decide +kernel⟩
  simp only [overdrawn, endless, List.mem_append, List.mem_cons, List.not_mem_nil, or_false]
    at hframe
  rcases hframe with (rfl | rfl) | rfl <;> rfl

end StepClock

end TetheredParticles
