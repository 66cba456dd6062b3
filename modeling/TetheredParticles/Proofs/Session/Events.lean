import TetheredParticles.Proofs.Registry.Rosters
import TetheredParticles.Session
/-!
# What happens to a session

A session is driven by the calls of the producer and by the steps of the background. Calls that are
refused change nothing. An advance falls into stages: it hands its snapshots over, and then its
steps are run, at once or in the background.

* `Session.Event`, `Session.perform` — one call or one background step.
* `Session.handOver`, `Session.advance_eq` — the stages of an advance.
* `Session.StepsKeep` — what holds after every step holds after an advance.
* `Tracked` — a session together with the numbers under which its proxies were registered.
-/

namespace TetheredParticles

variable {S T : Type} [Scalar S] [Scalar T] [Timeline S T]

namespace Session

/-- An advance up to where its first step begins: how many steps are to be run, and the number of
the last snapshot. -/
def handOver (s : Session S T) (dt : S) : Except Fault (Nat × Timestamp × Session S T) := do
  let (plan, clock) := s.clock.plan s.config dt s.paused
  let (sent, outbox, inbox) ←
    s.outbox.sealSteps s.engine.inbox s.externalTime plan.dt plan.steps
  let s := { s with clock, outbox, engine := { s.engine with inbox } }
  match sent with
  | .error _ => return (0, outbox.sealedTimestamp, s)
  | .ok target =>
    let s := { s with
      externalTime := s.externalTime + Timeline.widen plan.dt * Scalar.ofCount plan.steps }
    if plan.steps = 0 then return (0, target, s)
    let s ← s.waitForPending
    return (plan.steps.toNat, target, s)

/-- An advance hands its snapshots over and runs their steps, or leaves them to the background. -/
theorem advance_eq (s : Session S T) (dt : S) : s.advance dt = (do
    let (count, target, s) ← s.handOver dt
    if count = 0 then return (target, s)
    match s.config.threading with
    | .taskPool => return (target, { s with inFlight := some count })
    | .singleThread => return (target, ← s.runSteps count)) := by
  unfold advance handOver
  dsimp only
  cases s.outbox.sealSteps s.engine.inbox s.externalTime
      (s.clock.plan s.config dt s.paused).1.dt (s.clock.plan s.config dt s.paused).1.steps with
  | error f => rfl
  | ok sealed =>
    rcases sealed with ⟨sent, outbox, inbox⟩
    rw [ok_bind, ok_bind]
    cases sent with
    | error e => rfl
    | ok target =>
      dsimp only
      by_cases hzero : (s.clock.plan s.config dt s.paused).1.steps = 0
      · rw [if_pos hzero, if_pos hzero]
        rfl
      · rw [if_neg hzero, if_neg hzero]
        have hcount : (s.clock.plan s.config dt s.paused).1.steps.toNat ≠ 0 :=
          fun h => hzero (UInt32.toNat_inj.mp h)
        generalize waitForPending (S := S) (T := T) _ = waited
        cases waited with
        | error f => rfl
        | ok s =>
          rw [ok_bind, ok_bind]
          exact (if_neg hcount).symm

/-! ## What steps keep -/

/-- A step keeps a property, whatever is noted about the advance in flight. -/
structure StepsKeep (fails : Fault → Prop) (P : Session S T → Prop) : Prop where
  step : ∀ s, P s → Ends s.runStep fails P
  flight : ∀ s inFlight, P s → P { s with inFlight }

namespace StepsKeep

variable {fails : Fault → Prop} {P : Session S T → Prop} {s : Session S T}

theorem runSteps (h : StepsKeep fails P) (hs : P s) (count : Nat) :
    Ends (s.runSteps count) fails P := Ends.repeatAction h.step count hs

theorem waitForPending (h : StepsKeep fails P) (hs : P s) : Ends s.waitForPending fails P := by
  unfold Session.waitForPending
  split
  · exact h.runSteps (h.flight s none hs) _
  · exact .ok hs

theorem tick (h : StepsKeep fails P) (hs : P s) : Ends s.tick fails P := by
  unfold Session.tick
  split
  case h_1 left _ => exact h.step _ (h.flight s (some left) hs)
  case h_2 => exact .ok hs

/-- The snapshots of an advance are accepted, and a session that has sealed them has the property. -/
def Seals (s : Session S T) (fails : Fault → Prop) (P : Session S T → Prop) : Prop :=
  ∀ dt steps, Ends (s.outbox.sealSteps s.engine.inbox s.externalTime dt steps) fails
    fun (sent, outbox, inbox) => sent = .ok outbox.sealedTimestamp ∧ ∀ clock externalTime,
      P { s with clock, outbox, engine := { s.engine with inbox }, externalTime }

theorem handOver (h : StepsKeep fails P) (hs : Seals s fails P) (dt : S) :
    Ends (s.handOver dt) fails fun (_, _, after) => P after := by
  unfold Session.handOver
  dsimp only
  refine (hs _ _).bind ?_
  rintro ⟨sent, outbox, inbox⟩ ⟨hsent, hsealed⟩
  subst hsent
  dsimp only
  split
  · exact .pure (hsealed _ _)
  · refine (h.waitForPending (hsealed _ _)).bind ?_
    intro after hafter
    exact .pure hafter

theorem advance (h : StepsKeep fails P) (hs : Seals s fails P) (dt : S) :
    Ends (s.advance dt) fails fun (_, after) => P after := by
  rw [advance_eq]
  refine (h.handOver hs dt).bind ?_
  rintro ⟨count, target, handed⟩ hhanded
  dsimp only
  split
  · exact .pure hhanded
  · split
    · exact .pure (h.flight handed _ hhanded)
    · refine (h.runSteps hhanded count).bind ?_
      intro after hafter
      exact .pure hafter

end StepsKeep

/-! ## Calls and background steps -/

/-- What may happen to a session. The last two events are the stages of an advance that runs its
steps itself, so that a session may also be looked at between two of these steps. -/
inductive Event (S : Type) where
  | register (owner : ExternalId) (blueprint : Blueprint S)
  | unregister (id : ProxyId)
  | unregisterOwner (owner : ExternalId)
  | setPosition (id : ProxyId) (index : Nat) (position : Vec3 S)
  | setVelocity (id : ProxyId) (index : Nat) (velocity : Vec3 S)
  | setKinematicTarget (id : ProxyId) (index : Nat) (target : Vec3 S)
  | addForce (id : ProxyId) (index : Nat) (force : Vec3 S)
  | setInverseMass (id : ProxyId) (index : Nat) (inverseMass : S)
  | setTetherStiffness (id : ProxyId) (stiffness : S)
  | setSuspensionTarget (id : ProxyId) (target : Vec3 S)
  | setJointRestLength (id : ProxyId) (restLength : S)
  | setPaused (paused : Bool)
  | setConfig (config : Config S)
  | installHook (hook : Hook)
  | takeJournal
  /-- The world is looked at, once the background has finished. -/
  | waitForPending
  /-- Frame time passes. -/
  | advance (dt : S)
  | pull
  /-- The background runs a step. -/
  | tick
  /-- Frame time passes, up to where the first step begins. -/
  | handOver (dt : S)
  /-- The next step is run. -/
  | step

/-- The session after a request, which is the same if it was refused. -/
def orSame {E : Type} (s : Session S T) : Except E (Session S T) → Session S T
  | .ok after => after
  | .error _ => s

/-- The session after an event. -/
def perform (s : Session S T) : Event S → Except Fault (Session S T)
  | .register owner blueprint => .ok (s.orSame ((s.register owner blueprint).map (·.2)))
  | .unregister id => .ok (s.orSame (s.unregister id))
  | .unregisterOwner owner => .ok (s.orSame (s.unregisterOwner owner))
  | .setPosition id index position => .ok (s.orSame (s.setPosition id index position))
  | .setVelocity id index velocity => .ok (s.orSame (s.setVelocity id index velocity))
  | .setKinematicTarget id index target => .ok (s.orSame (s.setKinematicTarget id index target))
  | .addForce id index force => .ok (s.orSame (s.addForce id index force))
  | .setInverseMass id index inverseMass =>
    .ok (s.orSame (s.setInverseMass id index inverseMass))
  | .setTetherStiffness id stiffness => .ok (s.orSame (s.setTetherStiffness id stiffness))
  | .setSuspensionTarget id target => .ok (s.orSame (s.setSuspensionTarget id target))
  | .setJointRestLength id restLength => .ok (s.orSame (s.setJointRestLength id restLength))
  | .setPaused paused => .ok (s.setPaused paused)
  | .setConfig config => s.orSame <$> s.setConfig config
  | .installHook hook => s.installHook hook
  | .takeJournal => (·.2) <$> s.takeJournal
  | .waitForPending => s.waitForPending
  | .advance dt => (·.2) <$> s.advance dt
  | .pull => .ok s.pull.2
  | .tick => s.tick
  | .handOver dt => (·.2.2) <$> s.handOver dt
  | .step => s.runStep

end Session

/-! ## Sessions and registrations -/

/-- A session, and the number of the snapshot with the creation of each of its proxies. -/
structure Tracked (S T : Type) where
  session : Session S T
  /-- The number under which each proxy was registered. -/
  since : ProxyId → Timestamp

namespace Tracked

/-- A session without proxies. -/
def start (config : Config S) : Tracked S T := ⟨.start config, fun _ => .zero⟩

/-- The numbers of registrations after a proxy may have been added to the registry. -/
def noticed (since : ProxyId → Timestamp) (before after : Registry S) (now : Timestamp) :
    ProxyId → Timestamp := fun id =>
  if (before.get? id).isNone ∧ (after.get? id).isSome then now else since id

section Noticed

omit [Scalar S]

variable {since : ProxyId → Timestamp} {before after : Registry S} {now : Timestamp} {id : ProxyId}

/-- A proxy that was there keeps its number. -/
theorem noticed_of_isSome (h : (before.get? id).isSome) :
    noticed since before after now id = since id := by
  unfold noticed
  rw [if_neg]
  rintro ⟨hnone, _⟩
  rw [Option.isNone_iff_eq_none] at hnone
  rw [hnone] at h
  cases h

/-- No proxy has been registered with a later number than the current one. -/
theorem noticed_le (h : before.Sound since now) (hsome : (after.get? id).isSome) :
    noticed since before after now id ≤ now := by
  cases hold : before.get? id with
  | none =>
    unfold noticed
    rw [if_pos ⟨Option.isNone_iff_eq_none.mpr hold, hsome⟩]
  | some p =>
    rw [noticed_of_isSome (Option.isSome_iff_exists.mpr ⟨p, hold⟩)]
    exact (h.stamps id p hold).1

end Noticed

/-- The session after an event, with proxies that have appeared stamped with the number of the next
snapshot. -/
def perform (t : Tracked S T) (event : Session.Event S) : Except Fault (Tracked S T) := do
  let s ← t.session.perform event
  return ⟨s, noticed t.since t.session.registry s.registry t.session.producerTimestamp⟩

/-- What has become of a session after events in order. -/
def run (config : Config S) (events : List (Session.Event S)) : Except Fault (Tracked S T) :=
  events.foldlM perform (start config)

/-- The proxies that exist once the snapshot with a number has been answered: registered with a
number up to it, and not unregistered with one. -/
def rosterAt (t : Tracked S T) (number : Timestamp) : Roster :=
  t.session.registry.roster t.since number

end Tracked

end TetheredParticles
