import ShapeRules.Text.Combining

/-!
# Text inside diagnostics

A diagnostic that complains about a text shows it between double quotes with everything escaped
that a reader could not see: the usual five escapes, the null character as `\0`, and characters
that are not printable or that combine with their neighbour by their code point.

## Main definitions

* `diagnosticChar`: one character
* `diagnostic`: the whole text
-/

namespace ShapeRules.Text

/-- One character of a text shown in a diagnostic. -/
def diagnosticChar (c : Char) : List Char :=
  if c = '\x00' then ['\\', '0']
  else if c = '\t' then ['\\', 't']
  else if c = '\r' then ['\\', 'r']
  else if c = '\n' then ['\\', 'n']
  else if c = '"' then ['\\', '"']
  else if c = '\\' then ['\\', '\\']
  else if isPrintable c && !isCombining c then [c]
  else ['\\', 'u', '\x7b'] ++ Nat.toDigits 16 c.toNat ++ ['\x7d']

/-- A text between double quotes, as shown in a diagnostic. -/
def diagnostic (s : String) : String :=
  String.ofList ('"' :: (s.toList.flatMap diagnosticChar ++ ['"']))

end ShapeRules.Text
