import ShapeRules.Text.Printable

/-!
# Blank characters

The blanks are the spaces of all widths, the line and paragraph separators, and the controls that
move to another place or line.

## Main definitions

* `blankRanges`, `isBlank`: the blanks
* `trim`: a text without the blanks around it
-/

namespace ShapeRules.Text

/-- Inclusive ranges of the code points of the blanks, in increasing order. -/
def blankRanges : List (Nat × Nat) :=
  [(0x9, 0xd), (0x20, 0x20), (0x85, 0x85), (0xa0, 0xa0), (0x1680, 0x1680), (0x2000, 0x200a),
    (0x2028, 0x2029), (0x202f, 0x202f), (0x205f, 0x205f), (0x3000, 0x3000)]

/-- Whether a character is a blank. -/
def isBlank (c : Char) : Bool :=
  inRanges blankRanges c.toNat

/-- A text without the blanks around it. -/
def trim (cs : List Char) : List Char :=
  ((cs.dropWhile isBlank).reverse.dropWhile isBlank).reverse

end ShapeRules.Text
