import TetheredParticles.Scalar
/-!
# Binary floating point

Single precision numbers are the scalars that programs run with, double precision numbers their
points in time. Every operation is rounded once, to the nearest number with ties to even;
conversions between the two formats and remainders are defined on the unpacked numbers, so that
nothing here depends on more than the bits.

* `Binary.convert` — a number in another format, rounded once.
* `Binary.remainder` — the remainder of a truncating division, which is always exact.
-/

namespace TetheredParticles.Binary

open Float.Model

/-- The number in the given format, rounded to nearest with ties to even. Signs of zero and of
infinity stay. -/
def convert (format : Format) : UnpackedFloat → UnpackedFloat
  | .finite sign mantissa exponent _ => .round format sign mantissa exponent
  | other => other

/-- The remainder of a truncating division. It has the sign of the dividend and, being a
multiple of the smaller unit below the divisor, needs no rounding. Dividing by zero or dividing
an infinity gives no number; dividing by an infinity changes nothing. -/
def remainder (format : Format) : UnpackedFloat → UnpackedFloat → UnpackedFloat
  | .notANumber, _ => .notANumber
  | _, .notANumber => .notANumber
  | .infinity _, _ => .notANumber
  | _, .zero _ => .notANumber
  | a, .infinity _ => a
  | .zero sign, .finite .. => .zero sign
  | .finite sign m₁ e₁ _, .finite _ m₂ e₂ _ =>
    let e := min e₁ e₂
    let rest := (m₁ <<< (e₁ - e).toNat) % (m₂ <<< (e₂ - e).toNat)
    if rest = 0 then .zero sign else .round format sign rest e

end Binary

namespace Single

open Float.Model

/-- The parts of a single precision number. -/
def unpack (a : Float32) : UnpackedFloat := .unpack .binary32 a.toBits.toBitVec

/-- The single precision number with the given parts. -/
def pack (u : UnpackedFloat) : Float32 := .ofBits ⟨UnpackedFloat.pack .binary32 u⟩

/-- The smallest count not below a number. -/
def ceilCount (a : Float32) : UInt32 :=
  let below := a.toUInt32
  if below.toFloat32 < a ∧ below ≠ UInt32.ofNat (UInt32.size - 1) then below + 1 else below

end Single

namespace Double

open Float.Model

/-- The parts of a double precision number. -/
def unpack (a : Float) : UnpackedFloat := .unpack .binary64 a.toBits.toBitVec

/-- The double precision number with the given parts. -/
def pack (u : UnpackedFloat) : Float := .ofBits ⟨UnpackedFloat.pack .binary64 u⟩

/-- The smallest count not below a number. -/
def ceilCount (a : Float) : UInt32 :=
  let below := a.toUInt32
  if below.toFloat < a ∧ below ≠ UInt32.ofNat (UInt32.size - 1) then below + 1 else below

end Double

instance : Scalar Float32 where
  zero := 0.0
  one := 1.0
  decLt := fun a b => inferInstanceAs (Decidable (a < b))
  decLe := fun a b => inferInstanceAs (Decidable (a ≤ b))
  sqrt := Float32.sqrt
  remainder := fun a b =>
    Single.pack (Binary.remainder .binary32 (Single.unpack a) (Single.unpack b))
  ofCount := UInt32.toFloat32
  -- truncation and rounding down agree where the result is not clamped to zero
  floorCount := Float32.toUInt32
  ceilCount := Single.ceilCount

instance : Scalar Float where
  zero := 0.0
  one := 1.0
  decLt := fun a b => inferInstanceAs (Decidable (a < b))
  decLe := fun a b => inferInstanceAs (Decidable (a ≤ b))
  sqrt := Float.sqrt
  remainder := fun a b =>
    Double.pack (Binary.remainder .binary64 (Double.unpack a) (Double.unpack b))
  ofCount := UInt32.toFloat
  floorCount := Float.toUInt32
  ceilCount := Double.ceilCount

instance : Timeline Float32 Float where
  widen := fun a => Double.pack (Binary.convert .binary64 (Single.unpack a))
  narrow := fun a => Single.pack (Binary.convert .binary32 (Double.unpack a))

end TetheredParticles
