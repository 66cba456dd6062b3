/-!
# Diagnostics

What a step tells about itself: how many islands and tethers there were and how many deltas had to
be dropped, and how long each stage took for whoever measures it.

* `StepCounts` — the counts that travel with results.
* `StageTimes.total`, `StageTimes.timers` — all stages together, and each with its name.
-/

namespace TetheredParticles

/-- The stages of a step in their order. -/
inductive Stage where
  | applyDeltas
  | rebuildIslands
  | integrate
  | solveConstraints
  | pushOut
  | finalize
deriving DecidableEq, Repr

/-- All stages in order. -/
def Stage.all : List Stage :=
  [.applyDeltas, .rebuildIslands, .integrate, .solveConstraints, .pushOut, .finalize]

/-- The name under which the time of a stage is reported. -/
def Stage.name : Stage → String
  | .applyDeltas => "apply_deltas"
  | .rebuildIslands => "rebuild_islands"
  | .integrate => "integrate"
  | .solveConstraints => "solve_constraints"
  | .pushOut => "push_out"
  | .finalize => "finalize"

/-- How long each stage took, in nanoseconds. -/
abbrev StageTimes := Stage → Nat

namespace StageTimes

/-- The time of all stages together. -/
def total (times : StageTimes) : Nat := (Stage.all.map times).foldl (· + ·) 0

/-- The time of each stage under its name, in order. -/
def timers (times : StageTimes) : List (String × Nat) :=
  Stage.all.map fun stage => (stage.name, times stage)

end StageTimes

/-- What a step counts. -/
structure StepCounts where
  islands : Nat := 0
  tethers : Nat := 0
  /-- How many deltas referred to something unknown. -/
  dropped : Nat := 0
deriving DecidableEq, Repr

end TetheredParticles
