import TetheredParticles.Scalar.Binary
/-!
# Shortest decimal text

A number is written with the fewest digits that read back to the same number; of two candidates
with as many digits the nearer one is taken, and of two equally near ones the larger. The digits
stand in positional notation, never with an exponent.

* `Decimal.Bounds` — a positive number and the interval of values that round to it.
* `Decimal.shortest` — the shortest digits in that interval.
* `Decimal.positional` — digits and a power of ten as text.
-/

namespace TetheredParticles.Decimal

/-- A positive value and the interval that rounds to it, all in units of `2 ^ exponent`. -/
structure Bounds where
  low : Nat
  value : Nat
  high : Nat
  /-- The ends belong to the interval. -/
  closed : Bool
  /-- The unit is this power of two. -/
  exponent : Int
deriving Repr

/-- The interval of the number `mantissa * 2 ^ exponent` whose mantissa has `digits` bits and
whose exponent is at least `least`. Below a power of two numbers lie twice as dense. -/
def Bounds.ofBinary (digits : Nat) (least : Int) (mantissa : Nat) (exponent : Int) : Bounds where
  low := if mantissa = Nat.pow 2 (digits - 1) ∧ least < exponent then 4 * mantissa - 1
    else 4 * mantissa - 2
  value := 4 * mantissa
  high := 4 * mantissa + 2
  closed := mantissa % 2 == 0
  exponent := exponent - 2

/-- `n * 2 ^ two / 10 ^ ten` as a numerator and a denominator. -/
def ratio (n : Nat) (two ten : Int) : Nat × Nat :=
  (n * Nat.pow 2 two.toNat * Nat.pow 10 (-ten).toNat, Nat.pow 2 (-two).toNat * Nat.pow 10 ten.toNat)

/-- Whether `candidate * 10 ^ ten` lies in the interval. -/
def Bounds.contains (b : Bounds) (candidate : Nat) (ten : Int) : Bool :=
  let (low, den) := ratio b.low b.exponent ten
  let (high, _) := ratio b.high b.exponent ten
  if b.closed then low ≤ candidate * den ∧ candidate * den ≤ high
  else low < candidate * den ∧ candidate * den < high

/-- The multiple of `10 ^ ten` next to the value that lies in the interval, if there is one. Of
two, the nearer, and of two equally near, the larger. -/
def Bounds.onGrid (b : Bounds) (ten : Int) : Option Nat :=
  let (num, den) := ratio b.value b.exponent ten
  let below := num / den
  match b.contains below ten, b.contains (below + 1) ten with
  | true, true => some (if 2 * (num % den) < den then below else below + 1)
  | true, false => some below
  | false, true => some (below + 1)
  | false, false => none

/-- The coarsest grid of powers of ten, from `10 ^ ten` downwards, that meets the interval: the
multiple found there, and the exponent of the grid. -/
def Bounds.search (b : Bounds) (ten : Int) : Nat → Nat × Int
  | 0 => ((b.onGrid ten).getD 0, ten)
  | grids + 1 =>
    match b.onGrid ten with
    | some digits => (digits, ten)
    | none => b.search (ten - 1) grids

/-- The fewest digits for a value, as an integer and a power of ten. The search starts at a power
of ten above the value, since ten cubed lies below two to the tenth; twenty digits are enough for
single and for double precision. -/
def Bounds.shortest (b : Bounds) : Nat × Int :=
  b.search ((b.value.log2 + b.exponent + 1) * 3 / 10 + 2) 40

/-- `digits * 10 ^ ten` in positional notation. -/
def positional (digits : Nat) (ten : Int) : String :=
  let text := toString digits
  if 0 ≤ ten then text ++ String.ofList (List.replicate ten.toNat '0')
  else
    let places := (-ten).toNat
    let padded := String.ofList (List.replicate (places + 1 - text.length) '0') ++ text
    let whole := padded.toList.take (padded.length - places)
    let rest := padded.toList.drop (padded.length - places)
    String.ofList (whole ++ '.' :: rest)

open Float.Model in
/-- The text of a single precision number. -/
def ofSingle (a : Float32) : String :=
  let mark : UnpackedFloat.Sign → String
    | .negative => "-"
    | .positive => ""
  match Single.unpack a with
  | .notANumber => "NaN"
  | .infinity sign => mark sign ++ "inf"
  | .zero sign => mark sign ++ "0"
  | .finite sign mantissa exponent _ =>
    let (digits, ten) := (Bounds.ofBinary 24 (-149) mantissa exponent).shortest
    mark sign ++ positional digits ten

end TetheredParticles.Decimal
