import TetheredParticles.Integration
import TetheredParticles.Proofs.Scalar
/-!
# The same number

Zeros of both signs are one number, and what is no number is the same as itself. Vectors are the
same when their components are.

* `Scalar.Same`, `Vec3.Same` — the same number, component by component.
* `Scalar.Coincide`, `Vec3.Coincide` — one value or two zeros, which needs no law of `==`.
* `LawfulDirections` — a direction in which nothing pulls does not show.
* `LawfulRest` — what has moved has a velocity.
-/

namespace TetheredParticles

variable {S : Type} [Scalar S]

/-- The same number, whatever the sign of a zero. What is no number is the same as itself. -/
def Scalar.Same (a b : S) : Prop := a = b ∨ (a == b) = true

namespace Vec3

/-- The same numbers in all components. -/
def Same (v w : Vec3 S) : Prop :=
  Scalar.Same v.x w.x ∧ Scalar.Same v.y w.y ∧ Scalar.Same v.z w.z

theorem Same.refl (v : Vec3 S) : v.Same v := ⟨.inl rfl, .inl rfl, .inl rfl⟩

end Vec3

/-- One value, or zeros of whatever sign. -/
def Scalar.Coincide (a b : S) : Prop := a = b ∨ (a == 0) = true ∧ (b == 0) = true

theorem Scalar.Coincide.trans {a b c : S} (h : Scalar.Coincide a b) (k : Scalar.Coincide b c) :
    Scalar.Coincide a c := by
  rcases h with rfl | ⟨ha, hb⟩
  · exact k
  · rcases k with rfl | ⟨_, hc⟩
    · exact .inr ⟨ha, hb⟩
    · exact .inr ⟨ha, hc⟩

namespace Vec3

/-- One place, up to the signs of zeros. -/
def Coincide (v w : Vec3 S) : Prop :=
  Scalar.Coincide v.x w.x ∧ Scalar.Coincide v.y w.y ∧ Scalar.Coincide v.z w.z

theorem Coincide.refl (v : Vec3 S) : v.Coincide v := ⟨.inl rfl, .inl rfl, .inl rfl⟩

theorem Coincide.trans {u v w : Vec3 S} (h : u.Coincide v) (k : v.Coincide w) : u.Coincide w :=
  ⟨h.1.trans k.1, h.2.1.trans k.2.1, h.2.2.trans k.2.2⟩

end Vec3

/-- A multiplier of zero pulls in no direction: the direction of a vector then gives the same force
as no direction at all. -/
class LawfulDirections (S : Type) [Scalar S] : Prop where
  /-- Components of a direction, multiplied with the quotient of zero by a square. -/
  still : ∀ (v : Vec3 S) (dt : S),
    (v.directionAndLength.1 * (0 / (dt * dt))).Same ((0 : Vec3 S) * (0 / (dt * dt)))

/-- Who has moved has a velocity: if the velocity between two places is zero, they are one. Rounding
may break this, where a quotient is too small to be told from zero. -/
class LawfulRest (S : Type) [Scalar S] : Prop where
  rest : ∀ (before after : Vec3 S) (dt : S), 0 < dt →
    (Integration.meanVelocity before after dt == 0) = true → before.Coincide after

end TetheredParticles
