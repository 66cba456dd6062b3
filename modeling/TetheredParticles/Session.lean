import TetheredParticles.Clock
import TetheredParticles.Registry
import TetheredParticles.Snapshot.Sealing
import TetheredParticles.Snapshot.Playback
import TetheredParticles.World.Engine
/-!
# Sessions

A session is the producer's side of the whole simulation. Registrations and writes are buffered;
an advance turns frame time into steps, seals one push snapshot for each and hands them to the
engine; a pull brings the results back.

With a task pool the steps of an advance run in the background: `tick` runs the next of them and
may happen at any moment. Everything that touches the engine waits for them first.

* `register`, `unregister`, the `set…` functions — the producer's writes.
* `advance`, `tick`, `waitForPending` — running steps.
* `pull` — the producer's view of the results.
-/

namespace TetheredParticles

/-- The whole simulation as the producer sees it. -/
structure Session (S T : Type) where
  config : Config S
  registry : Registry S
  outbox : Outbox S
  playback : Playback S T
  engine : Engine S T
  /-- The steps that the advance in flight still has to run, if there is one. -/
  inFlight : Option Nat
  /-- The number of the last step that has run. -/
  progress : Timestamp
  clock : StepClock S
  /-- The time covered by all steps that were handed over. -/
  externalTime : T
  /-- Advances only apply writes. -/
  paused : Bool

namespace Session

variable {S T : Type} [Scalar S] [Scalar T] [Timeline S T]

/-- A session with an empty world, whatever the configuration. -/
def start (config : Config S) : Session S T where
  config := config
  registry := .empty
  outbox := .empty
  playback := .empty
  engine := .start config
  inFlight := none
  progress := .zero
  clock := .start
  externalTime := 0
  paused := false

/-- A session with an empty world, if the configuration is in order. -/
def create (config : Config S) : Except (ConfigError S) (Session S T) := do
  config.check
  return start config

/-- The number of the next snapshot. -/
def producerTimestamp (s : Session S T) : Timestamp := s.outbox.nextTimestamp

/-- Time that has not been stepped yet. -/
def accumulatedTime (s : Session S T) : S := s.clock.accumulated

/-- The time at which results are interpolated. -/
def resultsTime (s : Session S T) : T :=
  let lag := s.config.fixedStep.getD 0 * s.config.interpolationMultiplier
  s.externalTime + Timeline.widen s.clock.accumulated - Timeline.widen lag

/-- Whether an advance has not been waited for. -/
def isInFlight (s : Session S T) : Bool := s.inFlight.isSome

/-- Whether every step up to the given one has run. -/
def isComplete (s : Session S T) (target : Timestamp) : Bool := target ≤ s.progress

/-- Pauses or resumes. -/
def setPaused (s : Session S T) (paused : Bool) : Session S T := { s with paused }

/-! ## Running steps -/

/-- Runs the next pending snapshot and notes its number. -/
def runStep (s : Session S T) : Except Fault (Session S T) := do
  match ← s.engine.stepNext with
  | (some timestamp, engine) => return { s with engine, progress := timestamp }
  | (none, engine) => return { s with engine }

/-- Runs a number of steps. -/
def runSteps (count : Nat) (s : Session S T) : Except Fault (Session S T) :=
  repeatAction runStep count s

/-- Runs one step of the advance in flight, if it has one left. -/
def tick (s : Session S T) : Except Fault (Session S T) :=
  match s.inFlight with
  | some (left + 1) => runStep { s with inFlight := some left }
  | _ => .ok s

/-- Runs what is left of the advance in flight and takes the engine back. -/
def waitForPending (s : Session S T) : Except Fault (Session S T) :=
  match s.inFlight with
  | some left => runSteps left { s with inFlight := none }
  | none => .ok s

/-- Plans the steps of a frame, seals their snapshots and hands them over. Answers with the number
of the last sealed snapshot. At most one advance is in flight: an earlier one is finished first. -/
def advance (s : Session S T) (dt : S) : Except Fault (Timestamp × Session S T) := do
  let (plan, clock) := s.clock.plan s.config dt s.paused
  let (sent, outbox, inbox) ←
    s.outbox.sealSteps s.engine.inbox s.externalTime plan.dt plan.steps
  let s := { s with clock, outbox, engine := { s.engine with inbox } }
  match sent with
  | .error _ => return (outbox.sealedTimestamp, s)
  | .ok target =>
    let s := { s with
      externalTime := s.externalTime + Timeline.widen plan.dt * Scalar.ofCount plan.steps }
    if plan.steps = 0 then return (target, s)
    let s ← s.waitForPending
    match s.config.threading with
    | .taskPool => return (target, { s with inFlight := some plan.steps.toNat })
    | .singleThread => return (target, ← s.runSteps plan.steps.toNat)

/-- Replaces the configuration, if it is in order. -/
def setConfig (s : Session S T) (config : Config S) :
    Except Fault (Except (ConfigError S) (Session S T)) :=
  match config.check with
  | .error e => .ok (.error e)
  | .ok () => do
    let s ← waitForPending { s with config }
    return .ok { s with engine := { s.engine with world := s.engine.world.setConfig config } }

/-- Installs a hook. -/
def installHook (s : Session S T) (hook : Hook) : Except Fault (Session S T) := do
  let s ← s.waitForPending
  return { s with engine := s.engine.install hook }

/-- Takes the records of hooks. -/
def takeJournal (s : Session S T) : Except Fault (List (HookCall S T) × Session S T) := do
  let s ← s.waitForPending
  let (calls, engine) := s.engine.takeJournal
  return (calls, { s with engine })

/-! ## Results -/

/-- Gives proxies the results that have come back, and frees handles whose destruction has been
answered. Answers with the proxies that got a result. -/
def pull (s : Session S T) : List (Proxy S) × Session S T :=
  let (playback, channel) := s.playback.receive s.engine.outbox
  let pulled :=
    if s.config.interpolates then playback.pullAt s.resultsTime s.registry
    else playback.pullLatest s.registry
  (pulled.reported, { s with
    engine := { s.engine with outbox := channel }
    playback := pulled.playback
    registry := pulled.registry.collectGarbage (Playback.consumed channel) })

/-! ## Registrations and writes -/

/-- Buffers a write. -/
def send (s : Session S T) (proxy : ProxyId) (command : Command S) : Session S T :=
  { s with outbox := s.outbox.push ⟨proxy, command⟩ }

/-- Registers a proxy for an owner. -/
def register (s : Session S T) (owner : ExternalId) (blueprint : Blueprint S) :
    Except RegistrationError (ProxyId × Session S T) := do
  let (id, creation, registry) ←
    s.registry.register owner blueprint s.producerTimestamp s.config.tether.stiffness
  return (id, send { s with registry } id (.create creation))

/-- Unregisters a proxy and every constraint attached to it. -/
def unregister (s : Session S T) (id : ProxyId) : Except RegistrationError (Session S T) := do
  let (destroyed, registry) ← s.registry.unregister id s.producerTimestamp
  return destroyed.foldl (fun s id => s.send id .destroy) { s with registry }

/-- Unregisters the proxy of an owner. -/
def unregisterOwner (s : Session S T) (owner : ExternalId) :
    Except RegistrationError (Session S T) :=
  match s.registry.proxyOf? owner with
  | some id => s.unregister id
  | none => .error (.unknownOwner owner)

/-- Writes to a particle of a proxy; the producer's view changes at once. -/
def writeParticle (s : Session S T) (id : ProxyId) (index : Nat)
    (command : ParticleHandle → Command S) (view : ProxyState S → ProxyState S) :
    Except RegistrationError (Session S T) := do
  let (handle, registry) ← s.registry.particleForWrite id index s.producerTimestamp
  let registry := registry.modify id fun p => { p with state := view p.state }
  return send { s with registry } id (command handle)

/-- Moves a particle at once. -/
def setPosition (s : Session S T) (id : ProxyId) (index : Nat) (position : Vec3 S) :=
  s.writeParticle id index (.setPosition · position)
    fun v => { v with positions := v.positions.setIfInBounds index position }

/-- Changes the velocity of a particle. -/
def setVelocity (s : Session S T) (id : ProxyId) (index : Nat) (velocity : Vec3 S) :=
  s.writeParticle id index (.setVelocity · velocity)
    fun v => { v with velocities := v.velocities.setIfInBounds index velocity }

/-- Moves a kinematic particle during the next step. -/
def setKinematicTarget (s : Session S T) (id : ProxyId) (index : Nat) (target : Vec3 S) :=
  s.writeParticle id index (.setKinematicTarget · target) fun v => v

/-- Adds a force for the next step. -/
def addForce (s : Session S T) (id : ProxyId) (index : Nat) (force : Vec3 S) :=
  s.writeParticle id index (.addForce · force) fun v => v

/-- Changes the inverse mass of a particle. -/
def setInverseMass (s : Session S T) (id : ProxyId) (index : Nat) (inverseMass : S) :=
  s.writeParticle id index (.setInverseMass · inverseMass) fun v => v

/-- Changes the stiffness of a cluster's tethers. -/
def setTetherStiffness (s : Session S T) (id : ProxyId) (stiffness : S) :
    Except RegistrationError (Session S T) := do
  let (_, registry) ← s.registry.ofKindForWrite id .cluster s.producerTimestamp
  return send { s with registry } id (.setTetherStiffness stiffness)

/-- Writes to a constraint of one kind. -/
def writeConstraint (s : Session S T) (id : ProxyId) (kind : ProxyKind)
    (command : ConstraintHandle → Command S) : Except RegistrationError (Session S T) := do
  let (proxy, registry) ← s.registry.ofKindForWrite id kind s.producerTimestamp
  match proxy.constraint with
  | none => throw (.unknownProxy id)
  | some handle => return send { s with registry } id (command handle)

/-- Moves the point that a suspension hangs from. -/
def setSuspensionTarget (s : Session S T) (id : ProxyId) (target : Vec3 S) :=
  s.writeConstraint id .suspension (.setSuspensionTarget · target)

/-- Changes the distance that a joint keeps. -/
def setJointRestLength (s : Session S T) (id : ProxyId) (restLength : S) :=
  s.writeConstraint id .joint (.setJointRestLength · restLength)

end Session

end TetheredParticles
