import TetheredParticles.Scalar
/-!
# Vectors in space

Three scalars with componentwise operations. Lengths are taken in one fixed order of
additions, because rounded addition is not associative.

* `dot`, `length`, `distance`, `distanceSquared`, `lerp`.
* `directionAndLength` — a vector split into direction and length; one without a usable length
  has neither.
-/

namespace TetheredParticles

/-- A vector in space. -/
structure Vec3 (S : Type) where
  x : S
  y : S
  z : S
deriving Repr

namespace Vec3

variable {S : Type} [Scalar S]

/-- The zero vector. -/
protected def zero : Vec3 S := ⟨0, 0, 0⟩

instance : Zero (Vec3 S) := ⟨Vec3.zero⟩
instance : Inhabited (Vec3 S) := ⟨0⟩
instance : Add (Vec3 S) := ⟨fun a b => ⟨a.x + b.x, a.y + b.y, a.z + b.z⟩⟩
instance : Sub (Vec3 S) := ⟨fun a b => ⟨a.x - b.x, a.y - b.y, a.z - b.z⟩⟩
instance : HMul (Vec3 S) S (Vec3 S) := ⟨fun v s => ⟨v.x * s, v.y * s, v.z * s⟩⟩
instance : HDiv (Vec3 S) S (Vec3 S) := ⟨fun v s => ⟨v.x / s, v.y / s, v.z / s⟩⟩

/-- Vectors are equal when their components are, as scalars compare. -/
instance : BEq (Vec3 S) := ⟨fun a b => a.x == b.x && a.y == b.y && a.z == b.z⟩

/-- The inner product. -/
def dot (a b : Vec3 S) : S := a.x * b.x + a.y * b.y + a.z * b.z

/-- The Euclidean length. -/
def length (v : Vec3 S) : S := Scalar.sqrt (v.dot v)

/-- The length of the difference. -/
def distance (a b : Vec3 S) : S := (a - b).length

/-- The squared length of the difference. -/
def distanceSquared (a b : Vec3 S) : S := (a - b).dot (a - b)

/-- The point a fraction `s` of the way from `a` to `b`. -/
def lerp (a b : Vec3 S) (s : S) : Vec3 S := a * (1 - s) + b * s

/-- The direction and the length of a vector. If the length does not exceed
`Scalar.epsilon` or is not finite, both are zero. -/
def directionAndLength (v : Vec3 S) : Vec3 S × S :=
  if Scalar.epsilon < v.length ∧ Scalar.isFinite v.length then (v / v.length, v.length)
  else (0, 0)

end Vec3

end TetheredParticles
