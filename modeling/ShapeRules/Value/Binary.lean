import ShapeRules.Value.Numeral

/-!
# Binary floating point

A finite binary number is a sign, a mantissa and a power of two. A format fixes the width of the
mantissa and the range of exponents; a real number is rounded to the nearest number of the format,
a half to the even mantissa, and becomes infinite beyond the largest one.

## Main definitions

* `BinaryFormat`, `BinaryFormat.single`, `BinaryFormat.double`: the formats
* `Binary`: the numbers of a format
* `BinaryFormat.round`: rounding of a positive fraction
* `BinaryFormat.ofChars?`: the number of a numeral
-/

namespace ShapeRules.Value

/-- **A binary floating point format.** -/
structure BinaryFormat where
  /-- The number of bits of a mantissa. -/
  precision : Nat
  /-- The smallest exponent of the last bit of a mantissa. -/
  minExponent : Int
  /-- The largest exponent of the last bit of a mantissa. -/
  maxExponent : Int

namespace BinaryFormat

/-- The 32-bit format. -/
def single : BinaryFormat := ⟨24, -149, 104⟩

/-- The 64-bit format. -/
def double : BinaryFormat := ⟨53, -1074, 971⟩

end BinaryFormat

/-- **A binary number:** the finite ones are `± mantissa * 2 ^ exponent`. -/
inductive Binary where
  | nan
  | infinite (negative : Bool)
  | finite (negative : Bool) (mantissa : Nat) (exponent : Int)
  deriving DecidableEq, Repr

/-- The quotient rounded to the nearest integer, a half to the even one. -/
def divideToEven (n d : Nat) : Nat :=
  let q := n / d
  let twice := 2 * (n % d)
  if twice < d then q else if d < twice then q + 1 else q + q % 2

/-- The fraction `n / d` divided by a power of a base, as a fraction. -/
def scaleDown (base : Nat) (exponent : Int) (n d : Nat) : Nat × Nat :=
  (n * Nat.pow base (-exponent).toNat, d * Nat.pow base exponent.toNat)

/-- The integral part of the binary logarithm of a positive fraction. -/
def binaryLog (n d : Nat) : Int :=
  let guess : Int := n.log2 - d.log2
  let (n', d') := scaleDown 2 guess n d
  if d' ≤ n' then guess else guess - 1

namespace BinaryFormat

/-- **Rounding.** The number of a format nearest to the positive fraction `n / d`. -/
def round (f : BinaryFormat) (negative : Bool) (n d : Nat) : Binary :=
  let exponent := max (binaryLog n d + 1 - f.precision) f.minExponent
  let (n', d') := scaleDown 2 exponent n d
  let mantissa := divideToEven n' d'
  let (mantissa, exponent) :=
    if mantissa = twoTo f.precision then (twoTo (f.precision - 1), exponent + 1)
    else (mantissa, exponent)
  if f.maxExponent < exponent then .infinite negative else .finite negative mantissa exponent

/-- A decimal magnitude beyond that of every number of the formats, in both directions. -/
def decimalReach : Int := 400

/-- The number of a format nearest to `digits * 10 ^ exponent`. Magnitudes out of reach are settled
without computing the power. -/
def ofScientific (f : BinaryFormat) (negative : Bool) (digits : Nat) (exponent : Int) : Binary :=
  let magnitude := exponent + (Nat.toDigits 10 digits).length
  if digits = 0 ∨ magnitude < -decimalReach then .finite negative 0 f.minExponent
  else if decimalReach < magnitude then .infinite negative
  else
    let (n, d) := scaleDown 10 (-exponent) digits 1
    f.round negative n d

/-- The exponent at the end of a numeral: nothing, or the mark `e`, an optional sign and digits. -/
def exponent? : List Char → Option Int
  | [] => some 0
  | c :: cs =>
    if c = 'e' ∨ c = 'E' then
      let (negative, digits) := splitSign cs
      (natural? digits).map (signed negative)
    else none

/-- The number of an unsigned numeral: digits with an optional point among them, then an optional
exponent. -/
def ofUnsigned? (f : BinaryFormat) (negative : Bool) (cs : List Char) : Option Binary :=
  let (whole, rest) := splitDigits cs
  let (fraction, rest) :=
    match rest with
    | '.' :: rest => splitDigits rest
    | rest => ([], rest)
  if whole.isEmpty && fraction.isEmpty then none
  else
    (exponent? rest).map fun e =>
      f.ofScientific negative (natOfDigits (whole ++ fraction)) (e - fraction.length)

/-- **The number of a numeral.** Infinity and the missing number are spelled in any case. -/
def ofChars? (f : BinaryFormat) (cs : List Char) : Option Binary :=
  let (negative, rest) := splitSign cs
  let word := String.ofList (rest.map Char.toLower)
  if word = "inf" ∨ word = "infinity" then some (.infinite negative)
  else if word = "nan" then some .nan
  else f.ofUnsigned? negative rest

end BinaryFormat

end ShapeRules.Value
