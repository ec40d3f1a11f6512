import ShapeRules.Text.Hexadecimal

/-!
# Quoted Datalog strings

A string constant stands between double quotes. The quote, the backslash and the control
characters are escaped, so a quoted string never spans lines and ends at its first bare quote.

## Main definitions

* `isControl`: the control characters, in both blocks
* `escapeChar`: one character inside a quoted string
* `quote`: the quoted string
-/

namespace ShapeRules.Text

/-- Whether a character is a control: below the space, or from delete up to U+009F. -/
def isControl (c : Char) : Bool :=
  c.toNat < 0x20 || (0x7F ≤ c.toNat && c.toNat ≤ 0x9F)

/-- One character inside a quoted string. -/
def escapeChar (c : Char) : List Char :=
  if c = '\\' then ['\\', '\\']
  else if c = '"' then ['\\', '"']
  else if c = '\n' then ['\\', 'n']
  else if c = '\r' then ['\\', 'r']
  else if c = '\t' then ['\\', 't']
  else if isControl c then unicodeEscape c
  else [c]

/-- The characters of a quoted string. -/
def quoteChars (cs : List Char) : List Char :=
  '"' :: (cs.flatMap escapeChar ++ ['"'])

/-- **Quoted text.** A string between double quotes, with its quotes, backslashes and control
characters escaped. -/
def quote (s : String) : String :=
  String.ofList (quoteChars s.toList)

@[simp]
theorem toList_quote (s : String) : (quote s).toList = quoteChars s.toList := by
  simp [quote]

end ShapeRules.Text
