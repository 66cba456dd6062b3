import TetheredParticles.Proxy
import TetheredParticles.Handle.Pool
import TetheredParticles.Snapshot
/-!
# The registry

The registry holds every proxy of the producer and gives out all handles. A proxy that is
unregistered keeps its handles until the step that destroys it has been answered, so that no
snapshot on its way can refer to a handle in new hands.

* `register` — checks a blueprint, reserves handles and says what the world has to be told.
* `unregister` — marks a proxy and the constraints attached to it.
* `collectGarbage` — gives the handles of destroyed proxies back.
* `forWrite`, `ofKindForWrite`, `particleForWrite` — proxies that may be written to, stamped with
  the snapshot that will carry the write.
-/

namespace TetheredParticles

/-- All proxies of the producer. -/
structure Registry (S : Type) where
  /-- The proxies by slot. -/
  proxies : Array (Option (Proxy S))
  proxyPool : HandlePool .proxy
  particlePool : HandlePool .particle
  constraintPool : HandlePool .constraint
  owners : Std.TreeMap ExternalId ProxyId
  /-- The constraints attached to each proxy that owns particles. -/
  dependents : Std.TreeMap ProxyId (Std.TreeSet ProxyId)

/-- A blueprint that was found to be in order; no handle is reserved yet. -/
inductive Draft (S : Type) where
  | particle (particle : Particle S)
  | cluster (particles : List (Particle S)) (adjacency : Graph) (stiffness : S)
  | joint (first second : ParticleHandle) (owners : List ProxyId) (restLength compliance : S)
  | suspension (particle : ParticleHandle) (owner : ProxyId) (target : Vec3 S)
      (restLength compliance : S)

namespace Draft

variable {S : Type}

/-- The kind of proxy that comes of it. -/
def kind : Draft S → ProxyKind
  | .particle .. => .particle
  | .cluster .. => .cluster
  | .joint .. => .joint
  | .suspension .. => .suspension

/-- The proxies that the new one is attached to. -/
def attachedTo : Draft S → List ProxyId
  | .particle .. | .cluster .. => []
  | .joint _ _ owners .. => owners
  | .suspension _ owner .. => [owner]

/-- The producer's first view of the state. -/
def state [Scalar S] : Draft S → ProxyState S
  | .particle p => ⟨#[p.position], #[p.velocity], 0⟩
  | .cluster ps .. => ⟨(ps.map (·.position)).toArray, (ps.map (·.velocity)).toArray, 0⟩
  | .joint .. | .suspension .. => ⟨#[], #[], 0⟩

end Draft

namespace HandlePool

/-- Gives out several handles, one after the other. -/
def allocMany {kind : HandleKind} (pool : HandlePool kind) :
    Nat → List (Handle kind) × HandlePool kind
  | 0 => ([], pool)
  | count + 1 =>
    let (h, pool) := pool.alloc
    let (hs, pool) := pool.allocMany count
    (h :: hs, pool)

end HandlePool

namespace Registry

variable {S : Type}

/-- The registry without proxies. -/
def empty : Registry S := ⟨#[], .empty, .empty, .empty, ∅, ∅⟩

/-- How many proxies there are, unregistered ones included. -/
def size (r : Registry S) : Nat := r.proxyPool.size

/-- Whether there is no proxy. -/
def isEmpty (r : Registry S) : Bool := r.proxyPool.isEmpty

/-- How many handles of particles are reserved. -/
def particleHandleCount (r : Registry S) : Nat := r.particlePool.size

/-- The proxy of a current handle. -/
def get? (r : Registry S) (id : ProxyId) : Option (Proxy S) :=
  (r.proxies.getD id.index none).filter (·.id == id)

/-- The proxy of an owner. -/
def proxyOf? (r : Registry S) (owner : ExternalId) : Option ProxyId := r.owners[owner]?

/-- All proxies by slot. -/
def toList (r : Registry S) : List (Proxy S) := r.proxies.toList.filterMap id

/-- Changes a proxy, if its handle is current. -/
def modify (r : Registry S) (id : ProxyId) (change : Proxy S → Proxy S) : Registry S :=
  if (r.get? id).isSome then
    { r with proxies := r.proxies.modify id.index (·.map change) }
  else r

/-- The proxy of a handle, or the error that there is none. -/
def find (r : Registry S) (id : ProxyId) : Except RegistrationError (Proxy S) :=
  match r.get? id with
  | some proxy => .ok proxy
  | none => .error (.unknownProxy id)

/-- Refuses a proxy that has been unregistered. -/
def requireLive (proxy : Proxy S) : Except RegistrationError Unit :=
  if proxy.isPending then .error (.pendingDestruction proxy.id) else .ok ()

/-- Refuses a proxy that owns no particles. -/
def requireParticles (proxy : Proxy S) : Except RegistrationError Unit :=
  if proxy.kind.ownsParticles then .ok () else .error (.wrongKind proxy.id proxy.kind)

/-- An entry of a proxy's particles, or the error that it has fewer. -/
def entryOf {α : Type} (id : ProxyId) (entries : Array α) (index : Nat) :
    Except RegistrationError α :=
  match entries[index]? with
  | some entry => .ok entry
  | none => .error (.particleOutOfRange id index)

/-- The handle of a particle and the producer's view of its position. -/
def resolve (r : Registry S) (particle : ParticleRef) :
    Except RegistrationError (ParticleHandle × Vec3 S) := do
  let proxy ← r.find particle.proxy
  requireLive proxy
  requireParticles proxy
  let handle ← entryOf particle.proxy proxy.particles particle.index
  let position ← entryOf particle.proxy proxy.state.positions particle.index
  return (handle, position)

/-- The first index past the end that an adjacency refers to: each point is looked at before its
neighbors, in ascending order. -/
def outOfRange? (adjacency : Graph) (length : Nat) : Option Nat :=
  (adjacency.toList.flatMap fun (point, neighbors) => point :: neighbors.toList).find?
    (length ≤ ·)

/-- Checks a blueprint. -/
def draft [Scalar S] (r : Registry S) (defaultStiffness : S) :
    Blueprint S → Except RegistrationError (Draft S)
  | .particle particle => .ok (.particle particle)
  | .cluster particles adjacency stiffness => do
    if particles.isEmpty then throw .emptyCluster
    if let some index := outOfRange? adjacency particles.length then
      throw (.invalidAdjacency index particles.length)
    return .cluster particles adjacency
      (Scalar.clamp (stiffness.getD defaultStiffness) 0 1)
  | .joint first second restLength compliance => do
    let (a, positionA) ← r.resolve first
    let (b, positionB) ← r.resolve second
    if a = b then throw .selfAttachment
    return .joint a b [first.proxy, second.proxy] (restLength.getD (positionA.distance positionB))
      (Scalar.maxNum compliance 0)
  | .suspension particle target restLength compliance => do
    let (handle, position) ← r.resolve particle
    return .suspension handle particle.proxy target (restLength.getD (position.distance target))
      (Scalar.maxNum compliance 0)

/-- Reserves the handles of a draft: the particles and the constraint of the proxy, and what the
world has to be told. -/
def reserve (r : Registry S) :
    Draft S → List ParticleHandle × Option ConstraintHandle × Creation S × Registry S
  | .particle p =>
    let (handle, pool) := r.particlePool.alloc
    ([handle], none, .particle handle p, { r with particlePool := pool })
  | .cluster ps adjacency stiffness =>
    let (handles, pool) := r.particlePool.allocMany ps.length
    (handles, none, .cluster handles ps adjacency stiffness, { r with particlePool := pool })
  | .joint a b _ restLength compliance =>
    let (handle, pool) := r.constraintPool.alloc
    ([a, b], some handle, .joint handle a b restLength compliance,
      { r with constraintPool := pool })
  | .suspension p _ target restLength compliance =>
    let (handle, pool) := r.constraintPool.alloc
    ([p], some handle, .suspension handle p target restLength compliance,
      { r with constraintPool := pool })

/-- Lists a constraint with the proxies it is attached to. -/
def attach (r : Registry S) (id : ProxyId) (parents : List ProxyId) : Registry S :=
  { r with
    dependents := parents.foldl (fun d parent => d.insert parent ((d.getD parent ∅).insert id))
      r.dependents }

/-- Puts a proxy into its slot, behind empty ones if there are too few slots. -/
def place (r : Registry S) (proxy : Proxy S) : Registry S :=
  { r with
    proxies := (r.proxies ++ Array.replicate (proxy.id.index + 1 - r.proxies.size) none)
      |>.setIfInBounds proxy.id.index (some proxy)
    owners := r.owners.insert proxy.owner proxy.id }

/-- Makes a proxy of a draft. -/
def enter [Scalar S] (r : Registry S) (owner : ExternalId) (draft : Draft S)
    (timestamp : Timestamp) : ProxyId × Creation S × Registry S :=
  let (id, pool) := r.proxyPool.alloc
  let (particles, constraint, creation, r) := { r with proxyPool := pool }.reserve draft
  let r := (r.attach id draft.attachedTo).place {
    id, owner, constraint
    kind := draft.kind
    particles := particles.toArray
    attachedTo := draft.attachedTo
    state := draft.state
    syncTimestamp := timestamp
    pendingDestroy := none }
  (id, creation, r)

/-- Registers a proxy for an owner. The timestamp is that of the snapshot which will carry the
returned creation. -/
def register [Scalar S] (r : Registry S) (owner : ExternalId) (blueprint : Blueprint S)
    (timestamp : Timestamp) (defaultStiffness : S) :
    Except RegistrationError (ProxyId × Creation S × Registry S) := do
  if let some proxy := r.owners[owner]? then throw (.alreadyRegistered owner proxy)
  return r.enter owner (← r.draft defaultStiffness blueprint) timestamp

/-- Marks one proxy as destroyed: its owner is free, and nothing it is attached to lists it. -/
def mark (timestamp : Timestamp) (r : Registry S) (id : ProxyId) : Registry S :=
  match r.get? id with
  | none => r
  | some proxy =>
    let r := r.modify id ({ · with pendingDestroy := some timestamp })
    { r with
      owners := r.owners.erase proxy.owner
      dependents := proxy.attachedTo.foldl
        (fun d parent => d.modify parent (·.erase id)) r.dependents }

/-- Whether a proxy exists and has not been unregistered. -/
def isLive (r : Registry S) (id : ProxyId) : Bool :=
  match r.get? id with
  | some proxy => !proxy.isPending
  | none => false

/-- Unregisters a proxy and every constraint attached to it: what is to be destroyed, constraints
first. -/
def unregister (r : Registry S) (id : ProxyId) (timestamp : Timestamp) :
    Except RegistrationError (List ProxyId × Registry S) := do
  let proxy ← r.find id
  requireLive proxy
  let destroyed := (r.dependents.getD id ∅).toList.filter r.isLive ++ [id]
  let r := { r with dependents := r.dependents.erase id }
  return (destroyed, destroyed.foldl (mark timestamp) r)

/-- Gives back the handles of one proxy and empties its slot. -/
def release (r : Registry S) (proxy : Proxy S) : Registry S :=
  { proxies := r.proxies.setIfInBounds proxy.id.index none
    proxyPool := r.proxyPool.free proxy.id
    particlePool :=
      if proxy.kind.ownsParticles then proxy.particles.foldl (·.free ·) r.particlePool
      else r.particlePool
    constraintPool := proxy.constraint.elim r.constraintPool r.constraintPool.free
    owners := r.owners
    dependents := r.dependents.erase proxy.id }

/-- Whether a proxy was destroyed by a snapshot no newer than the given one. -/
def isGarbage (consumed : Timestamp) (proxy : Proxy S) : Bool :=
  match proxy.pendingDestroy with
  | some destroyed => destroyed ≤ consumed
  | none => false

/-- Gives back the handles of all proxies whose destruction has been answered, by slot. -/
def collectGarbage (r : Registry S) (consumed : Timestamp) : Registry S :=
  (r.toList.filter (isGarbage consumed)).foldl release r

/-- Remembers that a proxy is written to by the given snapshot. -/
def stamp (timestamp : Timestamp) (proxy : Proxy S) : Proxy S :=
  { proxy with syncTimestamp := proxy.syncTimestamp.latest timestamp }

/-- A proxy that may be written to, and the registry in which it is stamped. -/
def forWrite (r : Registry S) (id : ProxyId) (timestamp : Timestamp) :
    Except RegistrationError (Proxy S × Registry S) := do
  let proxy ← r.find id
  requireLive proxy
  return (stamp timestamp proxy, r.modify id (stamp timestamp))

/-- A proxy of one kind that may be written to. The kind is looked at first. -/
def ofKindForWrite (r : Registry S) (id : ProxyId) (kind : ProxyKind)
    (timestamp : Timestamp) : Except RegistrationError (Proxy S × Registry S) := do
  let proxy ← r.find id
  if proxy.kind ≠ kind then throw (.wrongKind id proxy.kind)
  r.forWrite id timestamp

/-- A particle that may be written to. That the proxy has such a particle is looked at first. -/
def particleForWrite (r : Registry S) (id : ProxyId) (index : Nat)
    (timestamp : Timestamp) : Except RegistrationError (ParticleHandle × Registry S) := do
  let proxy ← r.find id
  requireParticles proxy
  let handle ← entryOf id proxy.particles index
  let (_, r) ← r.forWrite id timestamp
  return (handle, r)

end Registry

end TetheredParticles
