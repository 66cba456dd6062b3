import TetheredParticles.Vec3
import TetheredParticles.Decimal.Shortest
/-!
# Configuration

All tuning of a solver. The same configuration governs the producer's clock and the world's
steps.

* `Config.standard` — the configuration used when nothing else is asked for.
* `Config.check` — the first setting that is out of range, if any.
* `Config.interpolates` — whether results are blended between two snapshots.
-/

namespace TetheredParticles

/-- How advances are scheduled. -/
inductive Threading where
  /-- Every advance runs to its end before the call returns. -/
  | singleThread
  /-- Advances run in the background. -/
  | taskPool
deriving DecidableEq, Repr

/-- How tethers measure their reference length. -/
inductive TetherMode where
  /-- Along the edges of the graph. -/
  | geodesic
  /-- Along the straight line, within an island. -/
  | euclidean
deriving DecidableEq, Repr

/-- How tethers are projected. -/
inductive TetherSolver where
  /-- By a fraction of the violation in every pass. -/
  | pbd
  /-- With a compliance and a multiplier accumulated over the passes. -/
  | xpbd
deriving DecidableEq, Repr

/-- The name of a way of scheduling. -/
def Threading.name : Threading → String
  | .singleThread => "SingleThread"
  | .taskPool => "TaskPool"

/-- The name of a way of measuring. -/
def TetherMode.name : TetherMode → String
  | .geodesic => "Geodesic"
  | .euclidean => "Euclidean"

/-- The name of a way of projecting. -/
def TetherSolver.name : TetherSolver → String
  | .pbd => "Pbd"
  | .xpbd => "Xpbd"

/-- Settings of the tethers that are laid out for clusters. -/
structure TetherConfig (S : Type) where
  mode : TetherMode
  /-- The stiffness of clusters that do not ask for one. -/
  stiffness : S
  /-- Multiplies every reference length. -/
  limitScale : S
  solver : TetherSolver
deriving Repr

/-- The configuration of a solver. -/
structure Config (S : Type) where
  positionIterations : UInt32
  /-- Rigid tether passes after the projection, which do not reach velocities. -/
  pushOutIterations : UInt32
  /-- Collision passes, told to the hooks. -/
  collisionIterations : UInt32
  /-- Passes over joints and suspensions within each projection pass. -/
  jointIterations : UInt32
  cullDistance : S
  /-- The size of every step; without it steps follow the frame time. -/
  fixedStep : Option S
  maxSubsteps : UInt32
  /-- Shorter frames are carried over when there is no fixed step. -/
  minDeltaTime : S
  /-- The largest step when there is no fixed step. -/
  maxDeltaTime : S
  maxIslands : Nat
  tether : TetherConfig S
  gravity : Vec3 S
  linearDamping : S
  /-- Blend results between snapshots; needs a fixed step. -/
  interpolateResults : Bool
  /-- How many fixed steps the results lag behind. -/
  interpolationMultiplier : S
  threading : Threading
deriving Repr

/-- The setting that keeps a configuration from being used. -/
inductive ConfigError (S : Type) where
  | invalidFixedStep (step : S)
  | zeroMaxSubsteps
  | zeroMaxIslands
  | invalidDeltaTimeRange (min max : S)
  | invalidStiffness (stiffness : S)
  | invalidLimitScale (scale : S)
  | negativeDamping (damping : S)
  | invalidInterpolationMultiplier (multiplier : S)
  | negativeCullDistance (distance : S)
deriving Repr

namespace Config

variable {S : Type} [Scalar S]

/-- The quotient of two counts. -/
def ratio (num den : UInt32) : S := Scalar.ofCount num / Scalar.ofCount den

/-- Sixty steps a second, at most four at once, under the gravity of the earth. -/
def standard : Config S where
  positionIterations := 8
  pushOutIterations := 1
  collisionIterations := 4
  jointIterations := 1
  cullDistance := Scalar.ofCount 3
  fixedStep := some (ratio 1 60)
  maxSubsteps := 4
  minDeltaTime := 0
  maxDeltaTime := ratio 1 30
  maxIslands := 4
  tether := { mode := .geodesic, stiffness := 1, limitScale := 1, solver := .xpbd }
  gravity := ⟨0, -ratio 981 100, 0⟩
  linearDamping := 0
  interpolateResults := false
  interpolationMultiplier := 1
  threading := .taskPool

/-- The fixed step must be positive and finite, if there is one. -/
def checkFixedStep (c : Config S) : Except (ConfigError S) Unit :=
  match c.fixedStep with
  | none => .ok ()
  | some step =>
    if 0 < step ∧ Scalar.isFinite step then .ok () else .error (.invalidFixedStep step)

/-- Accepts a configuration, or names the first setting that is out of range. What is no number
is in no range. -/
def check (c : Config S) : Except (ConfigError S) Unit := do
  c.checkFixedStep
  if c.maxSubsteps = 0 then throw .zeroMaxSubsteps
  if c.maxIslands = 0 then throw .zeroMaxIslands
  unless 0 < c.maxDeltaTime ∧ 0 ≤ c.minDeltaTime ∧ c.minDeltaTime ≤ c.maxDeltaTime do
    throw (.invalidDeltaTimeRange c.minDeltaTime c.maxDeltaTime)
  unless 0 ≤ c.tether.stiffness ∧ c.tether.stiffness ≤ 1 do
    throw (.invalidStiffness c.tether.stiffness)
  unless 0 < c.tether.limitScale do throw (.invalidLimitScale c.tether.limitScale)
  unless 0 ≤ c.linearDamping do throw (.negativeDamping c.linearDamping)
  unless 0 ≤ c.interpolationMultiplier do
    throw (.invalidInterpolationMultiplier c.interpolationMultiplier)
  unless 0 ≤ c.cullDistance do throw (.negativeCullDistance c.cullDistance)

/-- Whether results are blended between two snapshots. -/
def interpolates (c : Config S) : Bool := c.interpolateResults && c.fixedStep.isSome

end Config

/-- The name of the kind of error. -/
def ConfigError.name {S : Type} : ConfigError S → String
  | .invalidFixedStep _ => "InvalidFixedStep"
  | .zeroMaxSubsteps => "ZeroMaxSubsteps"
  | .zeroMaxIslands => "ZeroMaxIslands"
  | .invalidDeltaTimeRange .. => "InvalidDeltaTimeRange"
  | .invalidStiffness _ => "InvalidStiffness"
  | .invalidLimitScale _ => "InvalidLimitScale"
  | .negativeDamping _ => "NegativeDamping"
  | .invalidInterpolationMultiplier _ => "InvalidInterpolationMultiplier"
  | .negativeCullDistance _ => "NegativeCullDistance"

/-- What is wrong with a configuration, in words. -/
def ConfigError.message : ConfigError Float32 → String
  | .invalidFixedStep step =>
    "fixed step must be positive and finite, got " ++ Decimal.ofSingle step
  | .zeroMaxSubsteps => "at least one sub-step must be allowed"
  | .zeroMaxIslands => "at least one island must be allowed"
  | .invalidDeltaTimeRange min max =>
    "invalid delta time range [" ++ Decimal.ofSingle min ++ ", " ++ Decimal.ofSingle max ++ "]"
  | .invalidStiffness stiffness =>
    "tether stiffness must be within [0, 1], got " ++ Decimal.ofSingle stiffness
  | .invalidLimitScale scale =>
    "tether limit scale must be positive, got " ++ Decimal.ofSingle scale
  | .negativeDamping damping =>
    "linear damping must not be negative, got " ++ Decimal.ofSingle damping
  | .invalidInterpolationMultiplier multiplier =>
    "interpolation multiplier must not be negative, got " ++ Decimal.ofSingle multiplier
  | .negativeCullDistance distance =>
    "cull distance must not be negative, got " ++ Decimal.ofSingle distance

end TetheredParticles
