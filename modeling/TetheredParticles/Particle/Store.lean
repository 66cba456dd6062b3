import TetheredParticles.Particle
import TetheredParticles.Handle
/-!
# The particle store

Particles live in the slots of their handles. A handle reaches its slot only while the slot is
alive and of the same generation, so a stale handle never reaches the next occupant. A dead slot
keeps the numbers of its last occupant, which nothing reads.

* `insert?`, `remove?` — occupy and vacate a slot.
* `write?` and the writes built from it — change a live particle and mark it dirty.
* `clearStepData` — forget what was meant for one step.
-/

namespace TetheredParticles

/-- The marks of a slot. -/
structure ParticleFlags where
  alive : Bool
  /-- Only its owner moves the particle. -/
  kinematic : Bool
  /-- The particle has been written to since the last step. -/
  dirty : Bool
deriving DecidableEq, Repr

namespace ParticleFlags

/-- The marks of a vacant slot. -/
def none : ParticleFlags := ⟨false, false, false⟩

/-- The marks as a number: occupied 1, kinematic 2, dirty 4. -/
def bits (f : ParticleFlags) : Nat := f.alive.toNat + 2 * f.kinematic.toNat + 4 * f.dirty.toNat

end ParticleFlags

/-- Everything the world knows about one slot. -/
structure ParticleSlot (S : Type) where
  position : Vec3 S
  /-- Where it would be at the end of the step. -/
  predicted : Vec3 S
  velocity : Vec3 S
  /-- Zero for a particle that nothing can move. -/
  inverseMass : S
  /-- The forces added for the next step. -/
  force : Vec3 S
  /-- Where its owner wants it after the next step. -/
  target : Option (Vec3 S)
  owner : Option ProxyId
  flags : ParticleFlags
  /-- The generation of the last occupant. -/
  generation : UInt32
deriving Repr

namespace ParticleSlot

variable {S : Type} [Scalar S]

/-- A slot that was never occupied. -/
def vacant : ParticleSlot S := ⟨0, 0, 0, 0, 0, none, none, .none, 0⟩

instance : Inhabited (ParticleSlot S) := ⟨vacant⟩

/-- The slot of a particle that has just been created. -/
def occupied (p : Particle S) (owner : ProxyId) (generation : UInt32) : ParticleSlot S :=
  let inverseMass := Scalar.maxNum p.inverseMass 0
  { position := p.position
    predicted := p.position
    velocity := p.velocity
    inverseMass := inverseMass
    force := 0
    target := none
    owner := some owner
    flags := ⟨true, inverseMass == 0, true⟩
    generation := generation }

/-- The slot after its particle has been removed. -/
def vacated (s : ParticleSlot S) : ParticleSlot S :=
  { s with flags := .none, owner := none, target := none, force := 0 }

/-- The slot with its particle marked as written to. -/
def touched (s : ParticleSlot S) : ParticleSlot S :=
  { s with flags := { s.flags with dirty := true } }

/-- The slot with another inverse mass, which also decides whether its particle is kinematic. A
negative one, or one that is no number, counts as zero. -/
def withInverseMass (s : ParticleSlot S) (inverseMass : S) : ParticleSlot S :=
  let inverseMass := Scalar.maxNum inverseMass 0
  { s with
    inverseMass := inverseMass
    flags := { s.flags with kinematic := inverseMass == 0 } }

/-- The slot after a step: forces and targets are used up, and a particle that was sent to a
target rests there. -/
def settled (s : ParticleSlot S) : ParticleSlot S :=
  { s with
    flags := { s.flags with dirty := false }
    force := 0
    velocity := if s.target.isSome then 0 else s.velocity
    target := none }

end ParticleSlot

/-- The particles of the world, by slot. -/
structure ParticleStore (S : Type) where
  /-- The slots, occupied or not. -/
  slots : Array (ParticleSlot S)
  aliveCount : Nat
deriving Repr

namespace ParticleStore

variable {S : Type} [Scalar S]

/-- The store without slots. -/
def empty : ParticleStore S := ⟨#[], 0⟩

/-- How many particles there are. -/
def size (store : ParticleStore S) : Nat := store.aliveCount

/-- How many slots there are. -/
def slotCount (store : ParticleStore S) : Nat := store.slots.size

/-- Everything known about a slot. -/
def slot (store : ParticleStore S) (index : Nat) : ParticleSlot S :=
  store.slots.getD index .vacant

/-- Whether a slot is occupied. -/
def isAlive (store : ParticleStore S) (index : Nat) : Bool := (store.slot index).flags.alive

/-- Whether a handle names a particle of the store. -/
def contains (store : ParticleStore S) (h : ParticleHandle) : Bool :=
  store.isAlive h.index && (store.slot h.index).generation == h.generation

/-- What the store knows about the particle of a handle. -/
def get? (store : ParticleStore S) (h : ParticleHandle) : Option (ParticleSlot S) :=
  if store.contains h then some (store.slot h.index) else none

/-- The proxy a particle belongs to. -/
def owner? (store : ParticleStore S) (h : ParticleHandle) : Option ProxyId :=
  (store.get? h).bind (·.owner)

/-- The handle of the particle in a slot. -/
def handleAt? (store : ParticleStore S) (index : Nat) : Option ParticleHandle :=
  if store.isAlive index then some ⟨index, (store.slot index).generation⟩ else none

/-- The occupied slots, ascending. -/
def aliveSlots (store : ParticleStore S) : List Nat :=
  (List.range store.slotCount).filter store.isAlive

/-- The slots with enough vacant ones added to hold `index`. -/
def grow (store : ParticleStore S) (index : Nat) : Array (ParticleSlot S) :=
  store.slots ++ Array.replicate (index + 1 - store.slots.size) .vacant

/-- Puts a particle into the slot of its handle. `none` if the slot is occupied. -/
def insert? (store : ParticleStore S) (h : ParticleHandle) (p : Particle S) (owner : ProxyId) :
    Option (ParticleStore S) :=
  if store.isAlive h.index then none
  else some {
    slots := (store.grow h.index).setIfInBounds h.index (.occupied p owner h.generation)
    aliveCount := store.aliveCount + 1 }

/-- Puts a particle into the slot of its handle, unless the slot is occupied. -/
def insert (store : ParticleStore S) (h : ParticleHandle) (p : Particle S) (owner : ProxyId) :
    ParticleStore S :=
  (store.insert? h p owner).getD store

/-- Removes the particle of a handle. `none` if there is none. -/
def remove? (store : ParticleStore S) (h : ParticleHandle) : Option (ParticleStore S) :=
  if store.contains h then some {
    slots := store.slots.modify h.index .vacated
    aliveCount := store.aliveCount - 1 }
  else none

/-- Removes the particle of a handle, if there is one. -/
def remove (store : ParticleStore S) (h : ParticleHandle) : ParticleStore S :=
  (store.remove? h).getD store

/-- Changes the particle of a handle and marks it dirty. `none` if there is no such particle. -/
def write? (store : ParticleStore S) (h : ParticleHandle)
    (change : ParticleSlot S → ParticleSlot S) : Option (ParticleStore S) :=
  if store.contains h then
    some { store with slots := store.slots.modify h.index fun s => (change s).touched }
  else none

/-- Moves a particle; its predicted position follows. -/
def setPosition? (store : ParticleStore S) (h : ParticleHandle) (position : Vec3 S) :=
  store.write? h fun s => { s with position := position, predicted := position }

/-- Changes the velocity of a particle. -/
def setVelocity? (store : ParticleStore S) (h : ParticleHandle) (velocity : Vec3 S) :=
  store.write? h fun s => { s with velocity := velocity }

/-- Asks for a particle to be at a place after the next step. -/
def setTarget? (store : ParticleStore S) (h : ParticleHandle) (target : Vec3 S) :=
  store.write? h fun s => { s with target := some target }

/-- Adds a force for the next step. -/
def addForce? (store : ParticleStore S) (h : ParticleHandle) (force : Vec3 S) :=
  store.write? h fun s => { s with force := s.force + force }

/-- Changes the inverse mass of a particle. -/
def setInverseMass? (store : ParticleStore S) (h : ParticleHandle) (inverseMass : S) :=
  store.write? h (·.withInverseMass inverseMass)

/-- Whether only its owner moves the particle of a handle. -/
def isKinematic (store : ParticleStore S) (h : ParticleHandle) : Bool :=
  (store.slot h.index).flags.kinematic

/-- Forgets everything that was meant for one step: marks, forces and targets. -/
def clearStepData (store : ParticleStore S) : ParticleStore S :=
  { store with slots := store.slots.map (·.settled) }

/-- Changes a slot, occupied or not, without marking it. -/
def modify (store : ParticleStore S) (index : Nat) (change : ParticleSlot S → ParticleSlot S) :
    ParticleStore S :=
  { store with slots := store.slots.modify index change }

end ParticleStore

end TetheredParticles
