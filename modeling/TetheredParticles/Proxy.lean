import TetheredParticles.Timestamp
import TetheredParticles.Handle
import TetheredParticles.Particle
import TetheredParticles.Graph
/-!
# Proxies

A proxy is the producer's side of a particle, a cluster, a joint or a suspension. It belongs to an
external owner, reserves the handles that the world knows it by, and keeps the producer's view of
its state.

* `ProxyKind`, `Proxy` — what a proxy is.
* `Blueprint` — what a proxy is registered with.
* `RegistrationError` — why a registration or a write is refused.
-/

namespace TetheredParticles

/-- An object outside that can own one proxy. -/
structure ExternalId where
  number : Nat
deriving DecidableEq, Repr

instance : Ord ExternalId := ⟨fun a b => compare a.number b.number⟩

/-- How an owner is written in messages. -/
def ExternalId.text (id : ExternalId) : String := "External(" ++ toString id.number ++ ")"

/-- What a proxy stands for. -/
inductive ProxyKind where
  | particle
  | cluster
  | joint
  | suspension
deriving DecidableEq, Repr

namespace ProxyKind

/-- Whether proxies of this kind own the particles they refer to. -/
def ownsParticles : ProxyKind → Bool
  | .particle | .cluster => true
  | .joint | .suspension => false

/-- Whether proxies of this kind act on particles of others. -/
def isConstraint (kind : ProxyKind) : Bool := !kind.ownsParticles

/-- The name of a kind. -/
def name : ProxyKind → String
  | .particle => "Particle"
  | .cluster => "Cluster"
  | .joint => "Joint"
  | .suspension => "Suspension"

end ProxyKind

/-- A particle, as the place it has in a proxy. -/
structure ParticleRef where
  proxy : ProxyId
  /-- Its place among the particles of the proxy. -/
  index : Nat
deriving DecidableEq, Repr

/-- What a proxy is registered with. Without a stiffness the configured one is used; without a rest
length the present distance is kept. -/
inductive Blueprint (S : Type) where
  | particle (particle : Particle S)
  | cluster (particles : List (Particle S)) (adjacency : Graph) (stiffness : Option S)
  | joint (first second : ParticleRef) (restLength : Option S) (compliance : S)
  | suspension (particle : ParticleRef) (target : Vec3 S) (restLength : Option S) (compliance : S)

/-- The kind of proxy that comes of it. -/
def Blueprint.kind {S : Type} : Blueprint S → ProxyKind
  | .particle .. => .particle
  | .cluster .. => .cluster
  | .joint .. => .joint
  | .suspension .. => .suspension

/-- The producer's view of a proxy: its particles, or the force of a constraint. -/
structure ProxyState (S : Type) where
  positions : Array (Vec3 S)
  velocities : Array (Vec3 S)
  force : Vec3 S
deriving Repr

/-- A registered proxy. -/
structure Proxy (S : Type) where
  id : ProxyId
  owner : ExternalId
  kind : ProxyKind
  /-- The particles it owns, or those a constraint acts on. -/
  particles : Array ParticleHandle
  constraint : Option ConstraintHandle
  /-- The proxies that own the particles of a constraint. -/
  attachedTo : List ProxyId
  state : ProxyState S
  /-- The snapshot that carries the latest write to it. -/
  syncTimestamp : Timestamp
  /-- The snapshot that destroys it, once it has been unregistered. -/
  pendingDestroy : Option Timestamp
deriving Repr

/-- Whether a proxy has been unregistered. -/
def Proxy.isPending {S : Type} (p : Proxy S) : Bool := p.pendingDestroy.isSome

/-- Why a registration or a write is refused. -/
inductive RegistrationError where
  | alreadyRegistered (owner : ExternalId) (proxy : ProxyId)
  | unknownProxy (proxy : ProxyId)
  | unknownOwner (owner : ExternalId)
  | pendingDestruction (proxy : ProxyId)
  | wrongKind (proxy : ProxyId) (actual : ProxyKind)
  | emptyCluster
  | invalidAdjacency (index length : Nat)
  | particleOutOfRange (proxy : ProxyId) (index : Nat)
  | selfAttachment
deriving DecidableEq, Repr

/-- The name of the kind of error. -/
def RegistrationError.name : RegistrationError → String
  | .alreadyRegistered .. => "AlreadyRegistered"
  | .unknownProxy _ => "UnknownProxy"
  | .unknownOwner _ => "UnknownOwner"
  | .pendingDestruction _ => "PendingDestruction"
  | .wrongKind .. => "WrongKind"
  | .emptyCluster => "EmptyCluster"
  | .invalidAdjacency .. => "InvalidAdjacency"
  | .particleOutOfRange .. => "ParticleOutOfRange"
  | .selfAttachment => "SelfAttachment"

/-- What is wrong, in words. -/
def RegistrationError.message : RegistrationError → String
  | .alreadyRegistered owner proxy => owner.text ++ " already owns " ++ proxy.text
  | .unknownProxy proxy => proxy.text ++ " does not exist"
  | .unknownOwner owner => owner.text ++ " owns no proxy"
  | .pendingDestruction proxy => proxy.text ++ " is pending destruction"
  | .wrongKind proxy actual => proxy.text ++ " is a " ++ actual.name ++ " proxy"
  | .emptyCluster => "a cluster needs at least one particle"
  | .invalidAdjacency index length =>
    "adjacency refers to particle " ++ toString index ++ " of a cluster with " ++
      toString length ++ " particles"
  | .particleOutOfRange proxy index => proxy.text ++ " has no particle " ++ toString index
  | .selfAttachment => "a joint cannot connect a particle to itself"

end TetheredParticles
