import TetheredParticles.Tether.Batches
import TetheredParticles.Config
/-!
# Projecting tethers

A pass visits every tether and moves its tip towards its anchor. How far depends on the rule: a
`TetherRule` turns the violation and the multiplier that the tether has accumulated into a
distance and a new multiplier.

* `TetherRule.plain` — a fraction of the violation; the multiplier plays no part.
* `TetherRule.compliant` — the multiplier update of a compliant constraint.
* `TetherRule.pass` — one pass, batch after batch. A batch is visited in order, or cut into
  chunks whose corrections are all computed from the positions before the batch and then added in
  order.
* `TetherSet` — batches together with their way of being solved.
-/

namespace TetheredParticles

/-- How large batches are visited. -/
inductive Schedule where
  | serial
  /-- Batches that are large enough are cut into this many chunks. -/
  | chunked (chunks : Nat)
deriving DecidableEq, Repr

/-- Smaller batches are never cut into chunks. -/
def minChunkedBatch : Nat := 500

/-- From the violation and the accumulated multiplier of a tether: how far its tip moves towards
the anchor, and the new multiplier. -/
abbrev TetherRule (S : Type) := S → S → S × S

namespace TetherRule

variable {S : Type} [Scalar S]

/-- Moves the tip by a fraction of the violation. -/
def plain (stiffness : S) : TetherRule S := fun offset multiplier =>
  (stiffness * offset, multiplier)

/-- Moves the tip by the update of the multiplier, for the compliance `alpha` of a step. -/
def compliant (alpha : S) : TetherRule S := fun offset multiplier =>
  let update := (offset - alpha * multiplier) / (1 + alpha)
  (update, multiplier + update)

/-- Adds a correction to a position. -/
def correct (positions : Array (Vec3 S)) (index : Nat) (correction : Vec3 S) :
    Array (Vec3 S) :=
  positions.modify index (· + correction)

/-- The correction of one tether and its new multiplier. -/
def correction (rule : TetherRule S) (inverseMasses : Array S) (positions : Array (Vec3 S))
    (t : Tether S) (multiplier : S) : Except Fault (Vec3 S × S) := do
  let (direction, offset) ← t.delta positions inverseMasses
  let (distance, multiplier) := rule offset multiplier
  return (direction * distance, multiplier)

/-- Visits tethers one after the other: the new multipliers and positions. -/
def visit (rule : TetherRule S) (inverseMasses : Array S) :
    List (Tether S × S) → Array (Vec3 S) → Except Fault (List S × Array (Vec3 S))
  | [], positions => .ok ([], positions)
  | (t, multiplier) :: rest, positions => do
    let (move, multiplier) ← rule.correction inverseMasses positions t multiplier
    let (multipliers, positions) ←
      rule.visit inverseMasses rest (correct positions t.tip move)
    return (multiplier :: multipliers, positions)

/-- The corrections of a chunk of tethers, all computed from the same positions. -/
def chunkCorrections (rule : TetherRule S) (inverseMasses : Array S)
    (positions : Array (Vec3 S)) (chunk : List (Tether S × S)) :
    Except Fault (List (Nat × Vec3 S × S)) :=
  chunk.mapM fun (t, multiplier) => do
    let (move, multiplier) ← rule.correction inverseMasses positions t multiplier
    return (t.tip, move, multiplier)

/-- Cuts a list into chunks of the given size, which counts as one if it is zero; the last chunk
may be shorter. -/
def chunks {α : Type} (size : Nat) : List α → List (List α)
  | [] => []
  | x :: xs => (x :: xs.take (size - 1)) :: chunks size (xs.drop (size - 1))
termination_by xs => xs.length
decreasing_by simp only [List.length_drop, List.length_cons]; omega

/-- Visits tethers in chunks: corrections are computed from the positions before the batch, chunk
by chunk, and then added in order. -/
def visitChunks (rule : TetherRule S) (inverseMasses : Array S) (size : Nat)
    (batch : List (Tether S × S)) (positions : Array (Vec3 S)) :
    Except Fault (List S × Array (Vec3 S)) := do
  let computed ← (chunks size batch).mapM (rule.chunkCorrections inverseMasses positions)
  let all := computed.flatten
  return (all.map (·.2.2), all.foldl (fun ps (tip, move, _) => correct ps tip move) positions)

/-- Visits one batch as the schedule says. -/
def visitBatch (rule : TetherRule S) (schedule : Schedule) (inverseMasses : Array S)
    (batch : List (Tether S × S)) (positions : Array (Vec3 S)) :
    Except Fault (List S × Array (Vec3 S)) :=
  match schedule with
  | .serial => rule.visit inverseMasses batch positions
  | .chunked count =>
    if minChunkedBatch ≤ batch.length then
      let count := max count 1
      rule.visitChunks inverseMasses ((batch.length + count - 1) / count) batch positions
    else rule.visit inverseMasses batch positions

/-- One pass over all batches; multipliers are listed in the order of the tethers. -/
def pass (rule : TetherRule S) (schedule : Schedule) (inverseMasses : Array S) :
    List (List (Tether S)) → List S → Array (Vec3 S) → Except Fault (List S × Array (Vec3 S))
  | [], _, positions => .ok ([], positions)
  | batch :: rest, multipliers, positions => do
    let (first, positions) ← rule.visitBatch schedule inverseMasses
      (batch.zip (multipliers.take batch.length)) positions
    let (others, positions) ← rule.pass schedule inverseMasses rest
      (multipliers.drop batch.length) positions
    return (first ++ others, positions)

end TetherRule

/-- Batches of tethers and what solving them has accumulated. -/
inductive TetherSet (S : Type) where
  | pbd (batches : TetherBatches S)
  | xpbd (batches : TetherBatches S) (multipliers : List S)
deriving Repr

namespace TetherSet

variable {S : Type} [Scalar S]

/-- The compliance of tethers with a stiffness of one; smaller stiffnesses divide it. -/
def leastCompliance : S := Config.ratio 1 1000

/-- Batches to be solved in the given way, nothing being accumulated yet. -/
def ofBatches (solver : TetherSolver) (batches : TetherBatches S) : TetherSet S :=
  match solver with
  | .pbd => .pbd batches
  | .xpbd => .xpbd batches (List.replicate batches.size 0)

/-- The tethers of a set. -/
def batches : TetherSet S → TetherBatches S
  | .pbd batches => batches
  | .xpbd batches _ => batches

/-- The multipliers in the order of the tethers, if the set has any. -/
def multipliers? : TetherSet S → Option (List S)
  | .pbd _ => none
  | .xpbd _ multipliers => some multipliers

/-- The set with another stiffness, moved into `[0, 1]`. -/
def withStiffness (stiffness : S) : TetherSet S → TetherSet S
  | .pbd batches => .pbd (batches.withStiffness stiffness)
  | .xpbd batches multipliers => .xpbd (batches.withStiffness stiffness) multipliers

/-- The set at the start of a step, with all multipliers zero. -/
def restart : TetherSet S → TetherSet S
  | .pbd batches => .pbd batches
  | .xpbd batches _ => .xpbd batches (List.replicate batches.size 0)

/-- The compliance term of a step, or `none` if the tethers are not to be solved. -/
def alpha? (batches : TetherBatches S) (dt : S) : Option S :=
  if 0 < batches.stiffness ∧ 0 < dt then
    some (leastCompliance / (batches.stiffness * dt * dt))
  else none

/-- A pass by a fraction of the violations. Nothing moves unless the fraction is positive. -/
def project (batches : TetherBatches S) (stiffness : S) (schedule : Schedule)
    (inverseMasses : Array S) (positions : Array (Vec3 S)) : Except Fault (Array (Vec3 S)) := do
  if stiffness ≤ 0 then return positions
  let (_, positions) ← (TetherRule.plain stiffness).pass schedule inverseMasses batches.batches
    (List.replicate batches.size 0) positions
  return positions

/-- One projection pass. -/
def apply (set : TetherSet S) (dt : S) (schedule : Schedule) (inverseMasses : Array S)
    (positions : Array (Vec3 S)) : Except Fault (TetherSet S × Array (Vec3 S)) := do
  match set with
  | .pbd batches =>
    return (set, ← project batches batches.stiffness schedule inverseMasses positions)
  | .xpbd batches multipliers =>
    match alpha? batches dt with
    | none => return (set, positions)
    | some alpha =>
      let (multipliers, positions) ← (TetherRule.compliant alpha).pass schedule inverseMasses
        batches.batches multipliers positions
      return (.xpbd batches multipliers, positions)

/-- A pass that closes every violation and accumulates nothing. -/
def applyRigid (set : TetherSet S) (schedule : Schedule) (inverseMasses : Array S)
    (positions : Array (Vec3 S)) : Except Fault (Array (Vec3 S)) :=
  project set.batches 1 schedule inverseMasses positions

end TetherSet

end TetheredParticles
