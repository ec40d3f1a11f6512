import ShapeRules.Value.Binary

/-!
# Shortest decimal digits

A finite binary number stands for every real number that rounds to it. Among the decimal numbers in
that interval the text shows one with the fewest digits, and of those the nearest; an exact tie goes
up. The text is positional, whatever the magnitude.

The neighbours of a number `m * 2 ^ q` lie one unit apart, except that below a power of two the gap
is half as wide. Counted in quarters of a unit the interval goes from `4 * m - 2`, or `4 * m - 1`
there, to `4 * m + 2`; its ends belong to it if the mantissa is even.

## Main definitions

* `BinaryFormat.shortest`: the digits and their decimal exponent
* `BinaryFormat.text`: the text of a number
-/

namespace ShapeRules.Value

/-- The number of digits of a positive number, and none for zero. -/
def digitCount (n : Nat) : Nat :=
  if n = 0 then 0 else (Nat.toDigits 10 n).length

/-- The least power of ten that exceeds the positive fraction `n / d`. -/
def decimalMagnitude (n d : Nat) : Int :=
  if d ≤ n then digitCount (n / d) else 1 - digitCount ((d + n - 1) / n - 1)

/-- An interval of reals around a value, all three over one denominator. -/
structure Interval where
  low : Nat
  value : Nat
  high : Nat
  denominator : Nat
  /-- Whether the two ends belong to the interval. -/
  closed : Bool

namespace Interval

/-- An interval divided by a power of ten. -/
def scaleDown (i : Interval) (exponent : Int) : Interval :=
  let up := tenTo (-exponent).toNat
  { i with
    low := i.low * up
    value := i.value * up
    high := i.high * up
    denominator := i.denominator * tenTo exponent.toNat }

/-- Whether an integer lies in an interval. -/
def contains (i : Interval) (n : Nat) : Bool :=
  let x := n * i.denominator
  if i.closed then i.low ≤ x && x ≤ i.high else i.low < x && x < i.high

/-- The integer in an interval that is nearest to its value, among the two next to the value. -/
def nearest? (i : Interval) : Option Nat :=
  let down := i.value / i.denominator
  let up := down + 1
  match i.contains down, i.contains up with
  | true, true => some (if 2 * (i.value % i.denominator) < i.denominator then down else up)
  | true, false => some down
  | false, true => some up
  | false, false => none

/-- The shortest decimal in an interval below `10 ^ magnitude`, as digits and a decimal exponent.
The grids of `count` digits and more are tried, as many as `tries` allows. -/
def shortestFrom (i : Interval) (magnitude : Int) (count : Nat) : Nat → Nat × Int
  | 0 => (0, 0)
  | tries + 1 =>
    let exponent := magnitude - count
    match (i.scaleDown exponent).nearest? with
    | some digits => (digits, exponent)
    | none => i.shortestFrom magnitude (count + 1) tries

end Interval

namespace BinaryFormat

/-- The reals that round to `mantissa * 2 ^ exponent`. -/
def interval (f : BinaryFormat) (mantissa : Nat) (exponent : Int) : Interval :=
  let up := twoTo (exponent - 2).toNat
  { low := (4 * mantissa - if mantissa = twoTo (f.precision - 1) then 1 else 2) * up
    value := 4 * mantissa * up
    high := (4 * mantissa + 2) * up
    denominator := twoTo (2 - exponent).toNat
    closed := mantissa % 2 = 0 }

/-- **The shortest digits** of a positive number and their decimal exponent. No number of the
formats needs more than seventeen digits. -/
def shortest (f : BinaryFormat) (mantissa : Nat) (exponent : Int) : Nat × Int :=
  let i := f.interval mantissa exponent
  i.shortestFrom (decimalMagnitude i.value i.denominator) 1 17

/-- **The text of a number,** positional if it is finite. -/
def text (f : BinaryFormat) : Binary → List Char
  | .nan => ['N', 'a', 'N']
  | .infinite false => ['I', 'N', 'F']
  | .infinite true => ['-', 'I', 'N', 'F']
  | .finite negative mantissa exponent =>
    if mantissa = 0 then positional negative 0 0
    else
      let (digits, e) := f.shortest mantissa exponent
      positional negative (-e).toNat (digits * tenTo e.toNat)

end BinaryFormat

end ShapeRules.Value
