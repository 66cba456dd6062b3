import TetheredParticles.Proofs.Registry.InPlace
import TetheredParticles.Proofs.Session.Fitting
/-!
# Refused calls

The calls of a session may be refused. Written step by step, with everything that is changed and
read on the way, they come to what a session performs: none of them meets a fault, and what is
refused leaves no trace.

* `Session.attempt` — a call step by step, with its answer.
* `Session.Intact.settles`, `Session.Intact.run_attempt` — what it comes to.
* `Session.Intact.unchanged` — what is left of a refusal.
* `Session.attemptAll`, `Session.refusals_unobserved` — calls one after the other, of which none
  notices a refused one.
-/

namespace TetheredParticles

variable {S T : Type}

/-- Why a call is refused. -/
inductive Refusal (S : Type) where
  | registration (error : RegistrationError)
  | config (error : ConfigError S)

/-- What a call answers. -/
inductive Reply (S T : Type) where
  | done
  | registered (id : ProxyId)
  /-- The number of the last snapshot that was handed over. -/
  | handedOver (timestamp : Timestamp)
  /-- The proxies that got a result. -/
  | pulled (proxies : List (Proxy S))
  | taken (calls : List (HookCall S T))

namespace Attempt

variable {σ E F α β : Type}

/-- A computation that is not refused. -/
def whole (x : σ → Except Fault (α × σ)) : Attempt σ E α :=
  ExceptT.mk fun s => (fun (a, after) => (.ok a, after)) <$> x s

/-- The same call with other words for its answer and its refusals. -/
def translate (refusal : E → F) (reply : α → β) (x : Attempt σ E α) : Attempt σ F β :=
  ExceptT.mk fun s => (fun (a, after) => ((reply <$> a).mapError refusal, after)) <$> x.run s

/-- An answer and the state after it, in other words. -/
def translated (refusal : E → F) (reply : α → β) (y : Except E (α × σ)) : Except F (β × σ) :=
  ((fun (a, after) => (reply a, after)) <$> y).mapError refusal

theorem Does.translate {x : Attempt σ E α} {s : σ} {y : Except E (α × σ)} (h : x.Does s y)
    (refusal : E → F) (reply : α → β) :
    (x.translate refusal reply).Does s (translated refusal reply y) := by
  unfold Does Attempt.run Attempt.translate at *
  show _ <$> x.run s = _
  unfold Attempt.run
  rw [h]
  cases y with
  | error e => rfl
  | ok result => rfl

/-- The state after a computation that is not refused. -/
theorem state_whole (x : σ → Except Fault β) (f : β → α × σ) (s : σ) :
    (·.2) <$> (whole fun s => f <$> x s : Attempt σ E α).run s = (fun b => (f b).2) <$> x s := by
  show _ <$> (_ <$> (f <$> x s)) = _
  cases x s with
  | error e => rfl
  | ok b => rfl

end Attempt

open Attempt (change check demand)

namespace Session

/-! ## Calls step by step -/

/-- A call of the registry, which is a part of the session. -/
def onRegistry {E α : Type} (x : Attempt (Registry S) E α) : Attempt (Session S T) E α :=
  ExceptT.mk fun s => (fun (a, registry) => (a, { s with registry })) <$> x.run s.registry

/-- Registers a proxy for an owner. -/
def registerInPlace [Scalar S] (owner : ExternalId) (blueprint : Blueprint S) :
    Attempt (Session S T) RegistrationError ProxyId := do
  let s ← get
  let (id, creation) ← onRegistry
    (Registry.registerInPlace owner blueprint s.producerTimestamp s.config.tether.stiffness)
  change (·.send id (.create creation))
  return id

/-- Unregisters a proxy and every constraint attached to it. -/
def unregisterInPlace (id : ProxyId) : Attempt (Session S T) RegistrationError Unit := do
  let s ← get
  let destroyed ← onRegistry (Registry.unregisterInPlace id s.producerTimestamp)
  destroyed.forM fun id => change (·.send id .destroy)

/-- Unregisters the proxy of an owner. -/
def unregisterOwnerInPlace (owner : ExternalId) : Attempt (Session S T) RegistrationError Unit := do
  let s ← get
  match s.registry.proxyOf? owner with
  | some id => unregisterInPlace id
  | none => throw (.unknownOwner owner)

/-- Writes to a particle of a proxy. The producer's view is read where it is changed. -/
def writeParticleInPlace (id : ProxyId) (index : Nat) (command : ParticleHandle → Command S)
    (access : ProxyState S → Except Fault Unit) (view : ProxyState S → ProxyState S) :
    Attempt (Session S T) RegistrationError Unit := do
  let s ← get
  let handle ← onRegistry (Registry.particleForWriteInPlace id index s.producerTimestamp)
  let s ← get
  (s.registry.get? id).forM fun p => demand (access p.state)
  change fun s =>
    { s with registry := s.registry.modify id fun p => { p with state := view p.state } }
  change (·.send id (command handle))

/-- Reads the position that is to be changed. -/
def accessPosition (index : Nat) (v : ProxyState S) : Except Fault Unit :=
  (fun _ => ()) <$> Fault.entry v.positions index

/-- Reads the velocity that is to be changed. -/
def accessVelocity (index : Nat) (v : ProxyState S) : Except Fault Unit :=
  (fun _ => ()) <$> Fault.entry v.velocities index

/-- Reads nothing. -/
def accessNothing (_ : ProxyState S) : Except Fault Unit := .ok ()

/-- Changes the stiffness of a cluster's tethers. -/
def setTetherStiffnessInPlace (id : ProxyId) (stiffness : S) :
    Attempt (Session S T) RegistrationError Unit := do
  let s ← get
  let _ ← onRegistry (Registry.ofKindForWriteInPlace id .cluster s.producerTimestamp)
  change (·.send id (.setTetherStiffness stiffness))

/-- Writes to a constraint of one kind. A proxy without a constraint has been stamped by the time
that it is refused. -/
def writeConstraintInPlace (id : ProxyId) (kind : ProxyKind)
    (command : ConstraintHandle → Command S) : Attempt (Session S T) RegistrationError Unit := do
  let s ← get
  let proxy ← onRegistry (Registry.ofKindForWriteInPlace id kind s.producerTimestamp)
  match proxy.constraint with
  | none => throw (.unknownProxy id)
  | some handle => change (·.send id (command handle))

variable [Scalar S] [Scalar T] [Timeline S T]

/-- Replaces the configuration. -/
def setConfigInPlace (config : Config S) : Attempt (Session S T) (ConfigError S) Unit := do
  check config.check
  change ({ · with config })
  let s ← get
  let s ← demand s.waitForPending
  change fun _ => { s with engine := { s.engine with world := s.engine.world.setConfig config } }

/-- A write to a particle. -/
def attemptWrite (id : ProxyId) (index : Nat) (command : ParticleHandle → Command S)
    (access : ProxyState S → Except Fault Unit) (view : ProxyState S → ProxyState S) :
    Attempt (Session S T) (Refusal S) (Reply S T) :=
  (writeParticleInPlace id index command access view).translate .registration fun _ => .done

/-- A call step by step. -/
def attempt : Event S → Attempt (Session S T) (Refusal S) (Reply S T)
  | .register owner blueprint =>
    (registerInPlace owner blueprint).translate .registration .registered
  | .unregister id => (unregisterInPlace id).translate .registration fun _ => .done
  | .unregisterOwner owner => (unregisterOwnerInPlace owner).translate .registration fun _ => .done
  | .setPosition id index position =>
    attemptWrite id index (.setPosition · position) (accessPosition index)
      fun v => { v with positions := v.positions.setIfInBounds index position }
  | .setVelocity id index velocity =>
    attemptWrite id index (.setVelocity · velocity) (accessVelocity index)
      fun v => { v with velocities := v.velocities.setIfInBounds index velocity }
  | .setKinematicTarget id index target =>
    attemptWrite id index (.setKinematicTarget · target) accessNothing fun v => v
  | .addForce id index force => attemptWrite id index (.addForce · force) accessNothing fun v => v
  | .setInverseMass id index inverseMass =>
    attemptWrite id index (.setInverseMass · inverseMass) accessNothing fun v => v
  | .setTetherStiffness id stiffness =>
    (setTetherStiffnessInPlace id stiffness).translate .registration fun _ => .done
  | .setSuspensionTarget id target =>
    (writeConstraintInPlace id .suspension (.setSuspensionTarget · target)).translate .registration
      fun _ => .done
  | .setJointRestLength id restLength =>
    (writeConstraintInPlace id .joint (.setJointRestLength · restLength)).translate .registration
      fun _ => .done
  | .setConfig config => (setConfigInPlace config).translate .config fun _ => .done
  | .setPaused paused => .whole fun s => .ok (.done, s.setPaused paused)
  | .installHook hook => .whole fun s => (fun after => (.done, after)) <$> s.installHook hook
  | .takeJournal => .whole fun s => (fun (calls, after) => (.taken calls, after)) <$> s.takeJournal
  | .waitForPending => .whole fun s => (fun after => (.done, after)) <$> s.waitForPending
  | .advance dt =>
    .whole fun s => (fun (target, after) => (.handedOver target, after)) <$> s.advance dt
  | .pull => .whole fun s => .ok (.pulled s.pull.1, s.pull.2)
  | .tick => .whole fun s => (fun after => (.done, after)) <$> s.tick
  | .handOver dt =>
    .whole fun s => (fun (_, target, after) => (.handedOver target, after)) <$> s.handOver dt
  | .step => .whole fun s => (fun after => (.done, after)) <$> s.runStep

/-! ## What the calls come to -/

section

omit [Scalar S] [Scalar T] [Timeline S T]

variable {s : Session S T} {E α β γ : Type}

theorem accessPosition_eq {index : Nat} {v : ProxyState S} (h : index < v.positions.size) :
    accessPosition index v = .ok () := by
  unfold accessPosition Fault.entry
  rw [dif_pos h]
  rfl

theorem accessVelocity_eq {index : Nat} {v : ProxyState S} (h : index < v.velocities.size) :
    accessVelocity index v = .ok () := by
  unfold accessVelocity Fault.entry
  rw [dif_pos h]
  rfl

theorem does_onRegistry {x : Attempt (Registry S) E α} {y : Except E (α × Registry S)}
    (h : x.Does s.registry y) :
    (onRegistry x).Does s ((fun (a, registry) => (a, { s with registry })) <$> y) := by
  unfold Attempt.Does Attempt.run at *
  show _ <$> x.run s.registry = _
  unfold Attempt.run
  rw [h]
  cases y with
  | error e => rfl
  | ok result => rfl

/-- What a call of the registry does, and what the session does after it. -/
theorem does_bind_onRegistry {x : Attempt (Registry S) E α} {y : Except E (α × Registry S)}
    {f : α → Attempt (Session S T) E β} {p : α × Registry S → Except E γ}
    {k : γ → β × Session S T} (h : x.Does s.registry y)
    (hf : ∀ a registry, y = .ok (a, registry) → ∃ c, p (a, registry) = .ok c ∧
      (f a).Yields { s with registry } (k c).1 (k c).2) :
    Attempt.Does (onRegistry x >>= f) s (k <$> (y >>= p)) := by
  cases y with
  | error e =>
    have hopen := does_onRegistry h
    unfold Attempt.Does at hopen ⊢
    rw [Attempt.run_bind, hopen]
    rfl
  | ok result =>
    rcases hf result.1 result.2 rfl with ⟨c, hc, hyields⟩
    show Attempt.Does _ s (k <$> p result)
    rw [hc]
    exact .ok (.bind (does_onRegistry h) hyields)

theorem yields_destroy (ids : List ProxyId) (s : Session S T) :
    (ids.forM fun id => change (·.send id .destroy) : Attempt (Session S T) E _).Yields s ()
      (ids.foldl (fun s id => s.send id .destroy) s) := by
  induction ids generalizing s with
  | nil => exact .pure _ s
  | cons id rest ih => exact .bind (.change _ s) (ih _)

theorem does_unregister (s : Session S T) (id : ProxyId) :
    (unregisterInPlace id).Does s ((fun after => ((), after)) <$> s.unregister id) := by
  unfold unregisterInPlace Session.unregister
  refine .read (does_bind_onRegistry (Registry.does_unregister s.registry id _) ?_)
  exact fun destroyed registry _ => ⟨_, rfl, yields_destroy destroyed _⟩

theorem does_unregisterOwner (s : Session S T) (owner : ExternalId) :
    (unregisterOwnerInPlace owner).Does s
      ((fun after => ((), after)) <$> s.unregisterOwner owner) := by
  unfold unregisterOwnerInPlace Session.unregisterOwner
  refine .read ?_
  cases s.registry.proxyOf? owner with
  | none => exact .refuse _ s
  | some id => exact does_unregister s id

theorem does_setTetherStiffness (s : Session S T) (id : ProxyId) (stiffness : S) :
    (setTetherStiffnessInPlace id stiffness).Does s
      ((fun after => ((), after)) <$> s.setTetherStiffness id stiffness) := by
  unfold setTetherStiffnessInPlace Session.setTetherStiffness
  refine .read (does_bind_onRegistry
    (Registry.does_ofKindForWrite s.registry id .cluster s.producerTimestamp) ?_)
  exact fun proxy registry _ => ⟨_, rfl, .change _ _⟩

end

namespace Intact

variable {s : Session S T} {since : ProxyId → Timestamp}

omit [Scalar T] [Timeline S T]

theorem does_register (h : s.Intact since) (owner : ExternalId) (blueprint : Blueprint S) :
    (registerInPlace owner blueprint).Does s (s.register owner blueprint) := by
  have hpools := h.1.agreed.registry
  have hregister := Registry.does_register hpools.proxyPool hpools.particlePool
    hpools.constraintPool owner blueprint s.producerTimestamp s.config.tether.stiffness
  have hrequest := does_bind_onRegistry
    (f := fun (id, creation) => do change (·.send id (.create creation)); return id)
    (p := fun ((id, creation), registry) =>
      .ok (id, Session.send { s with registry } id (.create creation)))
    (k := fun result => result) hregister
    fun _ _ _ => ⟨_, rfl, .bind (.change _ _) (.pure _ _)⟩
  unfold registerInPlace Session.register
  refine .read ?_
  cases hok : s.registry.register owner blueprint s.producerTimestamp s.config.tether.stiffness with
  | error e =>
    rw [hok] at hrequest
    exact hrequest
  | ok result =>
    rw [hok] at hrequest
    exact hrequest

/-- The entry of a view that is to be changed is there. -/
theorem does_writeParticle (h : s.Intact since) (id : ProxyId) (index : Nat)
    (command : ParticleHandle → Command S) {access : ProxyState S → Except Fault Unit}
    (haccess : ∀ v : ProxyState S, index < v.positions.size → index < v.velocities.size →
      access v = .ok ()) (view : ProxyState S → ProxyState S) :
    (writeParticleInPlace id index command access view).Does s
      ((fun after => ((), after)) <$> s.writeParticle id index command view) := by
  rcases h with ⟨_, heard, h⟩
  unfold writeParticleInPlace Session.writeParticle
  refine .read (does_bind_onRegistry (Registry.does_particleForWrite s.registry id index _) ?_)
  intro handle registry hok
  have hread : ((registry.get? id).forM fun p => demand (access p.state) :
      Attempt (Session S T) RegistrationError _).Yields { s with registry } ()
        { s with registry } := by
    rcases Registry.particleForWrite_ok hok with ⟨q, ⟨hq, _, howns⟩, _, rfl⟩
    have hlt := Registry.lt_of_particleForWrite_ok hok hq
    rcases h.views id q hq howns with ⟨hpositions, hvelocities⟩
    have hget : (s.registry.modify id (Registry.stamp s.producerTimestamp)).get? id =
        some (Registry.stamp s.producerTimestamp q) := by
      rw [Registry.get?_modify fun p => (Registry.stamp_keeps s.producerTimestamp p).1,
        if_pos rfl, hq, Option.map_some]
    rw [hget]
    exact .demand (haccess q.state (hpositions ▸ hlt) (hvelocities ▸ hlt)) _
  exact ⟨_, rfl, .bind (.read _) (.bind hread (.bind (.change _ _) (.change _ _)))⟩

/-- A joint or a suspension has a constraint, so it is never stamped in vain. -/
theorem does_writeConstraint (h : s.Intact since) (id : ProxyId) {kind : ProxyKind}
    (hkind : kind.ownsParticles = false) (command : ConstraintHandle → Command S) :
    (writeConstraintInPlace id kind command).Does s
      ((fun after => ((), after)) <$> s.writeConstraint id kind command) := by
  unfold writeConstraintInPlace Session.writeConstraint
  refine .read (does_bind_onRegistry (Registry.does_ofKindForWrite s.registry id kind _) ?_)
  intro proxy registry hok
  rcases Registry.ofKindForWrite_ok hok with ⟨q, hq, _, rfl, rfl, rfl⟩
  have hconstraint : ∃ handle, q.constraint = some handle := by
    rcases h.1.agreed.registry.held id q hq with ⟨x, hx, _⟩
    unfold Proxy.held at hx
    split at hx
    case h_1 hk _ _ =>
      rw [hk] at hkind
      cases hkind
    case h_2 hk _ =>
      rw [hk] at hkind
      cases hkind
    case h_3 handle _ _ _ hc _ => exact ⟨handle, hc⟩
    case h_4 handle _ _ hc _ => exact ⟨handle, hc⟩
    case h_5 => cases hx
  rcases hconstraint with ⟨handle, hc⟩
  have hstamped : (Registry.stamp s.producerTimestamp q).constraint = some handle := hc
  dsimp only
  rw [hstamped]
  exact ⟨_, rfl, .change _ _⟩

end Intact

/-! ## Answers and refusals -/

/-- The registrations and writes, and the choice of a configuration. -/
def Event.IsRefusable (event : Event S) : Prop :=
  event.IsRequest ∨ ∃ config, event = .setConfig config

/-- A call does what the session performs, or nothing. -/
def Settles (s : Session S T) (event : Event S) : Prop :=
  ∃ y, (attempt event).Does s y ∧ s.perform event = .ok (s.orSame (y.map (·.2)))

section

variable {s : Session S T} {since : ProxyId → Timestamp} {event : Event S}

/-- Requests that answer nothing. -/
theorem settles_of_does {x : Attempt (Session S T) RegistrationError Unit}
    {z : Except RegistrationError (Session S T)} (h : x.Does s ((fun after => ((), after)) <$> z))
    (hattempt : attempt event = x.translate .registration fun _ => .done)
    (hperform : s.perform event = .ok (s.orSame z)) : s.Settles event := by
  refine ⟨_, hattempt ▸ h.translate _ _, ?_⟩
  rw [hperform]
  cases z with
  | error e => rfl
  | ok after => rfl

/-- Requests do what the session performs, or nothing. -/
theorem Intact.settles (h : s.Intact since) (hevent : event.IsRequest) : s.Settles event := by
  cases event with
  | register owner blueprint =>
    have hregister := (h.does_register owner blueprint).translate (Refusal.registration (S := S))
      (Reply.registered (S := S) (T := T))
    refine ⟨_, hregister, ?_⟩
    show Except.ok (s.orSame ((s.register owner blueprint).map (·.2))) = _
    cases s.register owner blueprint with
    | error e => rfl
    | ok result => rfl
  | unregister id => exact settles_of_does (does_unregister s id) rfl rfl
  | unregisterOwner owner => exact settles_of_does (does_unregisterOwner s owner) rfl rfl
  | setPosition id index position =>
    exact settles_of_does (h.does_writeParticle id index _ (fun _ hp _ => accessPosition_eq hp) _)
      rfl rfl
  | setVelocity id index velocity =>
    exact settles_of_does (h.does_writeParticle id index _ (fun _ _ hv => accessVelocity_eq hv) _)
      rfl rfl
  | setKinematicTarget id index target =>
    exact settles_of_does (h.does_writeParticle id index _ (fun _ _ _ => rfl) _) rfl rfl
  | addForce id index force =>
    exact settles_of_does (h.does_writeParticle id index _ (fun _ _ _ => rfl) _) rfl rfl
  | setInverseMass id index inverseMass =>
    exact settles_of_does (h.does_writeParticle id index _ (fun _ _ _ => rfl) _) rfl rfl
  | setTetherStiffness id stiffness =>
    exact settles_of_does (does_setTetherStiffness s id stiffness) rfl rfl
  | setSuspensionTarget id target =>
    exact settles_of_does (h.does_writeConstraint id rfl _) rfl rfl
  | setJointRestLength id restLength =>
    exact settles_of_does (h.does_writeConstraint id rfl _) rfl rfl
  | setPaused _ | setConfig _ | installHook _ | takeJournal | waitForPending | advance _ | pull
  | tick | handOver _ | step => exact hevent.elim

/-- A configuration is looked at before anything is changed. -/
theorem run_setConfig (s : Session S T) (config : Config S) :
    (attempt (.setConfig config)).run s = (fun
      | .ok after => (.ok .done, after)
      | .error e => (.error (.config e), s)) <$> s.setConfig config := by
  unfold Session.setConfig
  show _ <$> (setConfigInPlace config).run s = _
  unfold setConfigInPlace
  cases config.check with
  | error e => rfl
  | ok _ =>
    show _ <$> Attempt.run (demand (waitForPending { s with config }) >>= fun s => change fun _ =>
      { s with engine := { s.engine with world := s.engine.world.setConfig config } })
      { s with config } = _
    rw [Attempt.run_bind]
    cases hwaited : waitForPending { s with config } with
    | error f => rfl
    | ok waited => rfl

/-- Step by step, every call leaves the session that is performed. -/
theorem Intact.run_attempt (h : s.Intact since) (event : Event S) :
    (·.2) <$> (attempt event).run s = s.perform event := by
  by_cases hevent : event.IsRequest
  · rcases h.settles hevent with ⟨y, hy, hperform⟩
    unfold Attempt.Does at hy
    rw [hy, hperform]
    cases y with
    | error e => rfl
    | ok result => rfl
  · cases event with
    | setConfig config =>
      rw [run_setConfig]
      show _ = s.orSame <$> s.setConfig config
      cases s.setConfig config with
      | error f => rfl
      | ok result =>
        cases result with
        | error e => rfl
        | ok after => rfl
    | setPaused paused => rfl
    | pull => rfl
    | installHook hook => exact (Attempt.state_whole _ _ s).trans (id_map' _)
    | takeJournal => exact Attempt.state_whole _ _ s
    | waitForPending => exact (Attempt.state_whole _ _ s).trans (id_map' _)
    | advance dt => exact Attempt.state_whole (fun s => s.advance dt) _ s
    | tick => exact (Attempt.state_whole _ _ s).trans (id_map' _)
    | handOver dt => exact Attempt.state_whole (fun s => s.handOver dt) _ s
    | step => exact (Attempt.state_whole _ _ s).trans (id_map' _)
    | register _ _ | unregister _ | unregisterOwner _ | setPosition _ _ _ | setVelocity _ _ _
    | setKinematicTarget _ _ _ | addForce _ _ _ | setInverseMass _ _ _ | setTetherStiffness _ _
    | setSuspensionTarget _ _ | setJointRestLength _ _ => exact absurd trivial hevent

/-- A call that is refused has done nothing. Requests meet no fault, and a configuration meets one
only where its wait for the background does. -/
theorem Intact.unchanged [LawfulZero S] (h : s.Intact since) (hevent : event.IsRefusable) :
    Ends ((attempt event).run s)
      (fun f => (∃ config, event = .setConfig config) ∧ Overfull s.registry f)
      fun (reply, after) => ∀ refusal, reply = .error refusal → after = s := by
  rcases hevent with hrequest | ⟨config, rfl⟩
  · rcases h.settles hrequest with ⟨y, hy, _⟩
    refine .of_eq_ok hy ?_
    cases y with
    | error e => exact fun _ _ => rfl
    | ok result => exact nofun
  · rw [run_setConfig]
    refine Ends.map ((h.1.setConfig config).mono (fun f hf => ⟨⟨config, rfl⟩, hf⟩) ?_)
    intro result _
    cases result with
    | error e => exact fun _ _ => rfl
    | ok after => exact nofun

/-! ## Runs -/

/-- The answers to calls in order, and the session after them. -/
def attemptAll (s : Session S T) :
    List (Event S) → Except Fault (List (Except (Refusal S) (Reply S T)) × Session S T)
  | [] => .ok ([], s)
  | event :: rest => do
    let (reply, s) ← (attempt event).run s
    let (replies, s) ← s.attemptAll rest
    return (reply :: replies, s)

/-- Calls leave an intact session, unless something is overflowing. -/
theorem Intact.attemptAll [LawfulZero S] (h : s.Intact since) (events : List (Event S)) :
    Ends (s.attemptAll events) Overflow fun (_, after) => ∃ since, after.Intact since := by
  induction events generalizing s since with
  | nil => exact .ok ⟨since, h⟩
  | cons event rest ih =>
    have hattempt : Ends ((attempt event).run s) Overflow fun (_, after) =>
        ∃ since, after.Intact since := by
      have hperform := h.perform event
      rw [← h.run_attempt event] at hperform
      exact (Ends.of_map hperform).weaken fun _ hafter => ⟨_, hafter⟩
    unfold Session.attemptAll
    refine hattempt.bind ?_
    rintro ⟨reply, after⟩ ⟨since, hafter⟩
    refine (ih hafter).bind ?_
    rintro ⟨replies, final⟩ hfinal
    exact .pure hfinal

end

/-- Whatever has happened to a session: a registration, a write or a configuration that is refused
leaves it exactly as it is, and all later calls answer as if there had been no such call.
Registrations and writes never meet a fault. A configuration meets one only if there have been more
particles at once than a word can count, in a step that it waits for. -/
theorem refusals_unobserved [LawfulZero S] (config : Config S) (events : List (Event S)) :
    Ends (attemptAll (start config : Session S T) events) Overflow fun (_, s) =>
      ∀ event : Event S, event.IsRefusable →
        Ends ((attempt event).run s)
          (fun f => (∃ config, event = .setConfig config) ∧ Overfull s.registry f)
          fun (reply, after) => ∀ refusal, reply = .error refusal →
            after = s ∧ ∀ later, s.attemptAll (event :: later) =
              (fun (replies, final) => (reply :: replies, final)) <$> s.attemptAll later := by
  refine ((intact_start config fun _ => .zero).attemptAll events).weaken ?_
  rintro ⟨replies, s⟩ ⟨since, h⟩ event hevent
  have hunchanged := h.unchanged hevent
  cases hrun : (attempt event).run s with
  | error f => exact hunchanged.fails_of_eq hrun
  | ok result =>
    rcases result with ⟨reply, after⟩
    intro refusal hrefusal
    cases hunchanged.holds_of_eq hrun refusal hrefusal
    refine ⟨rfl, fun later => ?_⟩
    rw [attemptAll, hrun, ok_bind]
    dsimp only
    cases s.attemptAll later with
    | error f => rfl
    | ok others => rfl

/-- The registration of an owner. -/
def again : Event Float32 := .register ⟨0⟩ (.particle (.kinematic 0))

/-- After a frame, an owner is registered a second time. -/
theorem again_unobserved : ∃ replies refusal, ∃ s : Session Float32 Float,
    attemptAll (start .standard) [.handOver 1, .step, again] = .ok (replies, s) ∧
    (attempt again).run s = .ok (.error refusal, s) ∧
    ∀ later, s.attemptAll (again :: later) =
      (fun (replies, final) => (.error refusal :: replies, final)) <$> s.attemptAll later := by
  have hrefused : Ends (do
      let (_, s) ← attemptAll (start .standard : Session Float32 Float) [.handOver 1, .step, again]
      let (reply, _) ← (attempt again).run s
      return reply) never fun reply => reply.isOk = false := by decide +kernel
  have hunobserved := refusals_unobserved (T := Float) (Config.standard (S := Float32))
    [.handOver 1, .step, again]
  rcases hrefused.exists_ok fun _ h => h with ⟨reply, hreply, hnot⟩
  rcases exists_of_bind_ok hreply with ⟨⟨replies, s⟩, hrun, hreply⟩
  rcases exists_of_bind_ok hreply with ⟨⟨reply', after⟩, hattempt, hreply⟩
  cases hreply
  cases reply with
  | ok answer => cases hnot
  | error refusal =>
    have hagain := (hunobserved.holds_of_eq hrun again (.inl trivial)).holds_of_eq hattempt
    rcases hagain refusal rfl with ⟨rfl, hlater⟩
    exact ⟨replies, refusal, after, hrun, hattempt, hlater⟩

end Session

end TetheredParticles
