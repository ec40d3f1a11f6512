import ShapeRules.Value.Numeral

/-!
# Exact numbers

Integers are read within a signed 64-bit word, and decimals as counts of `10 ^ -18` within a signed
128-bit word. A numeral outside the word, or with more than eighteen decimal places, denotes no
value.

## Main definitions

* `integer?`: the integer of a numeral
* `Decimal`, `Decimal.ofChars?`, `Decimal.text`: decimals
-/

namespace ShapeRules.Value

/-- Whether a number fits a signed word of the given width. -/
def fitsWord (width : Nat) (z : Int) : Bool :=
  -(twoTo (width - 1)) ≤ z && z < twoTo (width - 1)

/-- The integer of a numeral: an optional sign and digits, within a signed 64-bit word. -/
def integer? (cs : List Char) : Option Int :=
  let (negative, digits) := splitSign cs
  ((natural? digits).map (signed negative)).filter (fitsWord 64)

/-- The number of decimal places of a decimal. -/
def decimalPlaces : Nat := 18

/-- **A decimal,** as a count of `10 ^ -18`. -/
structure Decimal where
  units : Int
  deriving DecidableEq, Repr

namespace Decimal

/-- The decimal with a count of units, if the count fits its word. -/
def ofUnits? (units : Int) : Option Decimal :=
  if fitsWord 128 units then some ⟨units⟩ else none

/-- The units of an unsigned numeral: digits, a point and digits, where one of the two runs may be
empty, and the point may be missing. -/
def unitsOfChars? (cs : List Char) : Option Nat :=
  match splitDigits cs with
  | ([], []) => none
  | (whole, []) => some (natOfDigits whole * tenTo decimalPlaces)
  | (whole, '.' :: ds) =>
    if ds.all Char.isDigit && !(whole.isEmpty && ds.isEmpty) then
      (fraction? decimalPlaces ds).map (natOfDigits whole * tenTo decimalPlaces + ·)
    else none
  | _ => none

/-- **The decimal of a numeral.** -/
def ofChars? (cs : List Char) : Option Decimal :=
  let (negative, rest) := splitSign cs
  (unitsOfChars? rest).bind fun n => ofUnits? (signed negative n)

/-- The text of a decimal: no useless sign, zero or point. -/
def text (d : Decimal) : List Char :=
  positional (d.units < 0) decimalPlaces d.units.natAbs

end Decimal

end ShapeRules.Value
