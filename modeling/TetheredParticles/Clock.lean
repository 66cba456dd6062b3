import TetheredParticles.Config
/-!
# The step clock

Turns frame times into steps. Time that is not stepped yet is carried over to the next frame.

* Paused: one step of no length, which only applies writes.
* With a fixed step: as many whole steps as the carried time holds, up to the allowed number;
  what a capped frame leaves over is dropped except for the remainder. A frame of no length
  turns the carried time into one step.
* Without one: the frame is divided into equal steps none of which is too long, and frames that
  are too short are carried over.
-/

namespace TetheredParticles

/-- How many steps of which size an advance runs. -/
structure StepPlan (S : Type) where
  steps : UInt32
  dt : S
deriving Repr

/-- The time carried over between frames. -/
structure StepClock (S : Type) where
  accumulated : S
deriving Repr

namespace StepClock

variable {S : Type} [Scalar S]

/-- The clock that carries nothing over. -/
def start : StepClock S := ⟨0⟩

/-- The plan with steps of fixed size, for a frame time that is not negative. -/
def planFixed (clock : StepClock S) (maxSubsteps : UInt32) (step dt : S) :
    StepPlan S × StepClock S :=
  if dt == 0 then (⟨1, clock.accumulated⟩, ⟨0⟩)
  else
    let total := clock.accumulated + dt
    let whole := Scalar.floorCount (total / step)
    let taken := min whole maxSubsteps
    let rest := if taken < whole then Scalar.remainder total step
      else total - Scalar.ofCount taken * step
    (⟨taken, step⟩, ⟨rest⟩)

/-- How a time long enough to be stepped is divided into steps of at most `maxDelta`. -/
def divide (maxSubsteps : UInt32) (maxDelta total : S) : StepPlan S :=
  if 1 < maxSubsteps then
    let steps := max (Scalar.ceilCount (total / maxDelta)) 1
    if maxSubsteps < steps then ⟨maxSubsteps, maxDelta⟩
    else ⟨steps, total / Scalar.ofCount steps⟩
  else ⟨1, Scalar.minNum total maxDelta⟩

/-- The plan with steps that follow the frame time, for a frame time that is not negative. -/
def planVariable (clock : StepClock S) (config : Config S) (dt : S) :
    StepPlan S × StepClock S :=
  let total := clock.accumulated + dt
  if total < config.minDeltaTime then (⟨0, 0⟩, ⟨total⟩)
  else (divide config.maxSubsteps config.maxDeltaTime total, ⟨0⟩)

/-- The steps for a frame of length `dt`, and the clock after it. A negative frame time counts
as none. -/
def plan (clock : StepClock S) (config : Config S) (dt : S) (paused : Bool) :
    StepPlan S × StepClock S :=
  if paused then (⟨1, 0⟩, clock)
  else
    let dt := Scalar.maxNum dt 0
    match config.fixedStep with
    | some step => clock.planFixed config.maxSubsteps step dt
    | none => clock.planVariable config dt

end StepClock

end TetheredParticles
