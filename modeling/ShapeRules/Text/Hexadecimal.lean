/-!
# Hexadecimal code points

Escapes name a character by its code point in base sixteen: four capital digits in quoted
constants and literals, and as many small digits as needed in diagnostics.

## Main definitions

* `hexDigit`: the capital digit of a number below sixteen
* `hexFour`: the last four digits of a number, in capitals
-/

namespace ShapeRules.Text

/-- The capital hexadecimal digit of a number below sixteen. -/
def hexDigit (n : Nat) : Char :=
  if n < 10 then Char.ofNat (48 + n) else Char.ofNat (55 + n)

/-- The last four hexadecimal digits of a number, in capitals. -/
def hexFour (n : Nat) : List Char :=
  [hexDigit (n / 4096 % 16), hexDigit (n / 256 % 16), hexDigit (n / 16 % 16), hexDigit (n % 16)]

/-- The escape `\uXXXX` of a character. -/
def unicodeEscape (c : Char) : List Char :=
  '\\' :: 'u' :: hexFour c.toNat

end ShapeRules.Text
