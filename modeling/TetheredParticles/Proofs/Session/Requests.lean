import TetheredParticles.Proofs.Session.Mirror
/-!
# Requests

Registrations and writes are requests to the registry. What is granted is noted there and buffered;
the engine and everything else that belongs to steps is left alone.

* `Session.Event.IsRequest` — the registrations and writes.
* `Session.perform_request` — what a request may change.
-/

namespace TetheredParticles

variable {S T : Type} [Scalar S] [Scalar T] [Timeline S T]

namespace Session

/-- The registrations and writes of the producer. -/
def Event.IsRequest : Event S → Prop
  | .register .. | .unregister _ | .unregisterOwner _ => True
  | .setPosition .. | .setVelocity .. | .setKinematicTarget .. | .addForce .. => True
  | .setInverseMass .. | .setTetherStiffness .. => True
  | .setSuspensionTarget .. | .setJointRestLength .. => True
  | _ => False

/-- A request changed the registry and the buffered writes at most. -/
def Buffers (s after : Session S T) : Prop :=
  ∃ registry deltas, after = { s with registry, outbox := { s.outbox with deltas } }

namespace Buffers

variable {s : Session S T}

omit [Scalar S] [Scalar T] [Timeline S T]

theorem refl (s : Session S T) : s.Buffers s := ⟨s.registry, s.outbox.deltas, rfl⟩

theorem send (registry : Registry S) (id : ProxyId) (command : Command S) :
    s.Buffers (send { s with registry } id command) := ⟨registry, _, rfl⟩

theorem orSame {E : Type} {result : Except E (Session S T)}
    (h : ∀ after, result = .ok after → s.Buffers after) : s.Buffers (s.orSame result) := by
  cases result with
  | error e => exact refl s
  | ok after => exact h after rfl

end Buffers

variable {s after : Session S T}

omit [Scalar T] [Timeline S T]

theorem buffers_register {owner : ExternalId} {blueprint : Blueprint S} {id : ProxyId}
    (h : s.register owner blueprint = .ok (id, after)) : s.Buffers after := by
  unfold register at h
  rcases exists_of_bind_ok h with ⟨⟨id, creation, registry⟩, _, h⟩
  cases h
  exact .send registry id _

omit [Scalar S] in
theorem buffers_unregister {id : ProxyId} (h : s.unregister id = .ok after) : s.Buffers after := by
  unfold unregister at h
  rcases exists_of_bind_ok h with ⟨⟨gone, registry⟩, _, h⟩
  cases h
  rw [Consistent.foldl_send]
  exact ⟨registry, _, rfl⟩

omit [Scalar S] in
theorem buffers_unregisterOwner {owner : ExternalId} (h : s.unregisterOwner owner = .ok after) :
    s.Buffers after := by
  unfold unregisterOwner at h
  split at h
  case h_1 => exact buffers_unregister h
  case h_2 => cases h

omit [Scalar S] in
theorem buffers_writeParticle {id : ProxyId} {index : Nat} {command : ParticleHandle → Command S}
    {view : ProxyState S → ProxyState S} (h : s.writeParticle id index command view = .ok after) :
    s.Buffers after := by
  unfold writeParticle at h
  rcases exists_of_bind_ok h with ⟨⟨handle, registry⟩, _, h⟩
  cases h
  exact .send _ id _

omit [Scalar S] in
theorem buffers_setTetherStiffness {id : ProxyId} {stiffness : S}
    (h : s.setTetherStiffness id stiffness = .ok after) : s.Buffers after := by
  unfold setTetherStiffness at h
  rcases exists_of_bind_ok h with ⟨⟨_, registry⟩, _, h⟩
  cases h
  exact .send registry id _

omit [Scalar S] in
theorem buffers_writeConstraint {id : ProxyId} {kind : ProxyKind}
    {command : ConstraintHandle → Command S} (h : s.writeConstraint id kind command = .ok after) :
    s.Buffers after := by
  unfold writeConstraint at h
  rcases exists_of_bind_ok h with ⟨⟨proxy, registry⟩, _, h⟩
  dsimp only at h
  split at h
  case h_1 => cases h
  case h_2 =>
    cases h
    exact .send registry id _

/-- Requests do not fail, and change the registry and the buffered writes at most. -/
theorem perform_request [Scalar T] [Timeline S T] (s : Session S T) {event : Event S}
    (h : event.IsRequest) : ∃ after, s.perform event = .ok after ∧ s.Buffers after := by
  cases event with
  | register owner blueprint =>
    refine ⟨_, rfl, .orSame fun after hok => ?_⟩
    cases hr : s.register owner blueprint with
    | error e =>
      rw [hr] at hok
      cases hok
    | ok result =>
      rw [hr] at hok
      cases hok
      exact buffers_register hr
  | unregister id => exact ⟨_, rfl, .orSame fun _ => buffers_unregister⟩
  | unregisterOwner owner => exact ⟨_, rfl, .orSame fun _ => buffers_unregisterOwner⟩
  | setPosition id index position => exact ⟨_, rfl, .orSame fun _ => buffers_writeParticle⟩
  | setVelocity id index velocity => exact ⟨_, rfl, .orSame fun _ => buffers_writeParticle⟩
  | setKinematicTarget id index target => exact ⟨_, rfl, .orSame fun _ => buffers_writeParticle⟩
  | addForce id index force => exact ⟨_, rfl, .orSame fun _ => buffers_writeParticle⟩
  | setInverseMass id index inverseMass => exact ⟨_, rfl, .orSame fun _ => buffers_writeParticle⟩
  | setTetherStiffness id stiffness =>
    exact ⟨_, rfl, .orSame fun _ => buffers_setTetherStiffness⟩
  | setSuspensionTarget id target => exact ⟨_, rfl, .orSame fun _ => buffers_writeConstraint⟩
  | setJointRestLength id restLength => exact ⟨_, rfl, .orSame fun _ => buffers_writeConstraint⟩
  | setPaused _ | setConfig _ | installHook _ | takeJournal | waitForPending | advance _ | pull
  | tick | handOver _ | step => exact h.elim

end Session

end TetheredParticles
