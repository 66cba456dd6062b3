import TetheredParticles.World.Step
import TetheredParticles.Snapshot.Channel
/-!
# The engine

An engine is a world between two channels: it takes push snapshots from one, runs a step for each,
and sends the answers through the other. Hooks that are installed leave a record of every step in
a journal.

* `Engine.step` — runs a given snapshot.
* `Engine.stepNext` — runs the oldest pending snapshot, if there is one.
-/

namespace TetheredParticles

/-- The points of a step at which hooks run. -/
inductive Hook where
  /-- Deltas are applied and nothing has moved. -/
  | preStep
  /-- Everything has moved and nothing has been cleared. -/
  | preBuffer
  /-- The answer is complete. -/
  | postStep
deriving DecidableEq, Repr

/-- The name of a hook. -/
def Hook.name : Hook → String
  | .preStep => "pre_step"
  | .preBuffer => "pre_buffer"
  | .postStep => "post_step"

/-- The hook of a name. -/
def Hook.ofName? (name : String) : Option Hook :=
  [.preStep, .preBuffer, .postStep].find? fun hook => hook.name == name

/-- What a hook gets to see. -/
inductive Seen (S : Type) where
  | store (store : ParticleStore S)
  /-- How many results the answer holds. -/
  | results (count : Nat)

/-- One run of a hook. -/
structure HookCall (S T : Type) where
  hook : Hook
  info : StepInfo S T
  seen : Seen S

/-- The runs of hooks during a step, in order. -/
def StepOutcome.hookCalls {S T : Type} (o : StepOutcome S T) (installed : List Hook) :
    List (HookCall S T) :=
  [⟨.preStep, o.info, .store o.storeBefore⟩,
    ⟨.preBuffer, o.info, .store o.storeAfter⟩,
    ⟨.postStep, o.info, .results o.pull.results.length⟩].filter (installed.contains ·.hook)

/-- A world between two channels. -/
structure Engine (S T : Type) where
  world : World S
  /-- Where push snapshots come from. -/
  inbox : Channel (PushSnapshot S T)
  /-- Where pull snapshots go. -/
  outbox : Channel (PullSnapshot S T)
  /-- The hooks that leave records. -/
  hooks : List Hook
  /-- The records, oldest first. -/
  journal : List (HookCall S T)

namespace Engine

variable {S T : Type} [Scalar S] [Scalar T] [Timeline S T]

/-- An empty world with fresh channels. -/
def start (config : Config S) : Engine S T where
  world := .empty config
  inbox := .empty
  outbox := .empty
  hooks := []
  journal := []

/-- Runs one step and sends its answer. An answer that cannot be sent is lost. -/
def step (e : Engine S T) (snapshot : PushSnapshot S T) : Except Fault (Engine S T) := do
  let outcome ← e.world.step snapshot
  return { e with
    world := outcome.world
    outbox := match e.outbox.send outcome.pull with
      | .ok outbox => outbox
      | .error _ => e.outbox
    journal := e.journal ++ outcome.hookCalls e.hooks }

/-- Runs one step with the oldest pending snapshot. Without one nothing happens. -/
def stepNext (e : Engine S T) : Except Fault (Option Timestamp × Engine S T) := do
  match e.inbox.receive with
  | (.ok (some snapshot), inbox) =>
    let e ← { e with inbox }.step snapshot
    return (some snapshot.timestamp, e)
  | (_, inbox) => return (none, { e with inbox })

/-- Installs a hook. -/
def install (e : Engine S T) (hook : Hook) : Engine S T := { e with hooks := hook :: e.hooks }

/-- Takes all records out of the journal. -/
def takeJournal (e : Engine S T) : List (HookCall S T) × Engine S T :=
  (e.journal, { e with journal := [] })

end Engine

end TetheredParticles
