/-!
# Scalar arithmetic

Everything in this library computes with an abstract scalar: positions, masses, stiffnesses and
frame times. `Scalar` lists the operations that are needed and no laws, so that rounded
arithmetic is an instance as well as exact arithmetic. `Timeline` adds the finer numbers in
which points in time are kept.

* `maxNum`, `minNum`, `clamp` — selections that say what happens to a value which is not a
  number.
* `isNumber`, `isFinite` — recognised by arithmetic alone.
* `Timeline.widen`, `Timeline.narrow` — between scalars and points in time.
-/

namespace TetheredParticles

/-- The arithmetic of positions, masses and frame times.

No law is required: `==` may fail to be reflexive and addition may round. -/
class Scalar (S : Type) extends
    Zero S, One S, Add S, Sub S, Mul S, Div S, Neg S, LT S, LE S, BEq S where
  decLt : DecidableLT S
  decLe : DecidableLE S
  sqrt : S → S
  /-- The remainder of a division that truncates; it has the sign of the dividend. -/
  remainder : S → S → S
  /-- The scalar nearest to a count. -/
  ofCount : UInt32 → S
  /-- The largest count not above a scalar: 0 below zero and for what is no number, and the
  largest count for everything beyond it. -/
  floorCount : S → UInt32
  /-- The smallest count not below a scalar, clamped as `floorCount` is. -/
  ceilCount : S → UInt32

namespace Scalar

variable {S : Type} [Scalar S]

instance : DecidableLT S := decLt
instance : DecidableLE S := decLe

/-- Whether a scalar is a number at all: what is no number differs from itself. -/
def isNumber (a : S) : Bool := a == a

/-- Whether a scalar is a number and not infinite: only then its difference with itself is
zero. -/
def isFinite (a : S) : Bool := a - a == 0

/-- The larger of two scalars. An operand that is no number loses, and of two equal ones the
second is taken. -/
def maxNum (a b : S) : S := if b < a then a else if isNumber b then b else a

/-- The smaller of two scalars, with the same preferences as `maxNum`. -/
def minNum (a b : S) : S := if a < b then a else if isNumber b then b else a

/-- The scalar moved into `[lo, hi]`. A value inside, or one that is no number, is kept as it
is. -/
def clamp (a lo hi : S) : S := if a < lo then lo else if hi < a then hi else a

/-- The reciprocal, or zero for zero. -/
def recipOrZero (a : S) : S := if a == 0 then 0 else 1 / a

/-- The distance between one and the next larger scalar of single precision. Vectors that are
not longer than this have no direction. -/
def epsilon : S := 1 / ofCount 8388608

/-- A zero that is neutral for every addend, the negative zero included: sums start at it. -/
def emptySum : S := -(0 : S)

end Scalar

/-- Points in time are kept in numbers `T` of their own, finer than the scalars `S` that steps
are measured in. -/
class Timeline (S T : Type) [Scalar S] [Scalar T] where
  widen : S → T
  /-- A time rounded to a scalar. -/
  narrow : T → S

end TetheredParticles
