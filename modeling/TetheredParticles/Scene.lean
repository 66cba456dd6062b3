import TetheredParticles.Session
/-!
# Scenes

A scene is a list of entities, some of which are particles. Frame by frame it registers particles
that have appeared, unregisters those that have gone, advances a session by the length of the
frame and puts the particles where the results say.

* `spawn`, `despawn`, `detach`, `attach`, `relocate` — what happens between frames.
* `frame` — one frame.
-/

namespace TetheredParticles

/-- An object of a scene. -/
structure Entity (S : Type) where
  /-- Where it is; `none` once it has been removed from the scene. -/
  position : Option (Vec3 S)
  /-- The inverse mass, if it is a particle. -/
  inverseMass : Option S
  proxy : Option ProxyId

/-- Entities and the session that moves them. -/
structure Scene (S T : Type) where
  entities : Array (Entity S)
  /-- The entities that have stopped being particles since the last frame, in order. -/
  departed : List Nat
  isFirstFrame : Bool
  session : Session S T

namespace Scene

variable {S T : Type} [Scalar S] [Scalar T] [Timeline S T]

/-- A scene without entities. A configuration that is out of order is replaced by the standard
one. -/
def start (config : Config S) : Scene S T where
  entities := #[]
  departed := []
  isFirstFrame := true
  session := match Session.create config with
    | .ok session => session
    | .error _ => Session.start .standard

/-- Adds an entity that is a particle. -/
def spawn (s : Scene S T) (position : Vec3 S) (inverseMass : S) : Scene S T :=
  { s with entities := s.entities.push ⟨some position, some inverseMass, none⟩ }

/-- Notes that an entity stops being a particle, if it is one. -/
def depart (s : Scene S T) (index : Nat) : Scene S T :=
  match s.entities[index]? with
  | some ⟨some _, some _, _⟩ => { s with departed := s.departed ++ [index] }
  | _ => s

/-- Removes an entity from the scene. -/
def despawn (s : Scene S T) (index : Nat) : Scene S T :=
  let s := s.depart index
  { s with entities := s.entities.modify index fun _ => ⟨none, none, none⟩ }

/-- Makes an entity stop being a particle. -/
def detach (s : Scene S T) (index : Nat) : Scene S T :=
  let s := s.depart index
  { s with entities := s.entities.modify index ({ · with inverseMass := none }) }

/-- Makes an entity of the scene a particle, or changes the inverse mass it would be registered
with. -/
def attach (s : Scene S T) (index : Nat) (inverseMass : S) : Scene S T :=
  { s with
    entities := s.entities.modify index fun e =>
      if e.position.isSome then { e with inverseMass := some inverseMass } else e }

/-- Puts an entity somewhere else. -/
def relocate (s : Scene S T) (index : Nat) (position : Vec3 S) : Scene S T :=
  { s with
    entities := s.entities.modify index fun e =>
      { e with position := e.position.map fun _ => position } }

/-- Pauses or resumes the session. -/
def setPaused (s : Scene S T) (paused : Bool) : Scene S T :=
  { s with session := s.session.setPaused paused }

/-! ## Frames -/

/-- No frame counts for longer than this, in nanoseconds. -/
def longestFrame : Nat := 250000000

/-- The length of a frame in seconds. The first frame has none. -/
def frameTime (s : Scene S T) (nanoseconds : Nat) : S :=
  if s.isFirstFrame then 0
  else
    let counted := min nanoseconds longestFrame
    Scalar.ofCount (UInt32.ofNat (counted / 1000000000)) +
      Scalar.ofCount (UInt32.ofNat (counted % 1000000000)) / Scalar.ofCount 1000000000

/-- The owner that an entity is registered as. -/
def ownerOf (index : Nat) : ExternalId := ⟨index⟩

/-- Unregisters an entity that has stopped being a particle, if it is registered. -/
def unregisterEntity (s : Scene S T) (index : Nat) : Scene S T :=
  { s with
    session := match s.session.unregisterOwner (ownerOf index) with
      | .ok session => session
      | .error _ => s.session
    entities := s.entities.modify index ({ · with proxy := none }) }

/-- Registers an entity that is a particle and not registered yet. Anything without a positive
inverse mass is kinematic. -/
def registerEntity (s : Scene S T) (index : Nat) : Scene S T :=
  match s.entities[index]? with
  | some ⟨some position, some inverseMass, none⟩ =>
    let particle := if 0 < inverseMass then Particle.dynamic position inverseMass
      else Particle.kinematic position
    match s.session.register (ownerOf index) (.particle particle) with
    | .ok (id, session) =>
      { s with session, entities := s.entities.modify index ({ · with proxy := some id }) }
    | .error _ => s
  | _ => s

/-- Puts an entity where the results have its particle. -/
def writeBack (reported : List (Proxy S)) (e : Entity S) : Entity S :=
  let position := do
    let id ← e.proxy
    let proxy ← reported.find? fun (p : Proxy S) => p.id == id && p.kind == ProxyKind.particle
    proxy.state.positions[0]?
  { e with position := e.position.map fun old => position.getD old }

/-- Runs one frame of the given length. -/
def frame (s : Scene S T) (nanoseconds : Nat) : Except Fault (Scene S T) := do
  let dt := s.frameTime nanoseconds
  let s := s.departed.foldl unregisterEntity { s with departed := [], isFirstFrame := false }
  let s := (List.range s.entities.size).foldl registerEntity s
  let (_, session) ← s.session.advance dt
  let (reported, session) := session.pull
  return { s with session, entities := s.entities.map (writeBack reported) }

end Scene

end TetheredParticles
