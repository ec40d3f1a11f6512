import ShapeRules.Rdf.Reference

/-!
# The words of documents

The text formats write a document in words: IRIs in brackets, labels of blank nodes, quoted texts,
language tags, plain words and dots. Between them stand blanks and comments, which run from a hash
sign to the end of the line.

## Main definitions

* `Token`: the words
* `scanToken`: the first word of a text
* `tokens?`: all words of a text
-/

namespace ShapeRules.Rdf

/-- **The words of a document.** -/
inductive Token where
  | iri (reference : String)
  | blank (label : String)
  | quoted (text : String)
  | language (tag : String)
  | datatypeMark
  | word (text : String)
  | dot
  deriving DecidableEq, Repr

/-- The number of a hexadecimal digit. -/
def hexValue? (c : Char) : Option Nat :=
  if c.isDigit then some (c.toNat - 48)
  else if 'a' ≤ c ∧ c ≤ 'f' then some (c.toNat - 87)
  else if 'A' ≤ c ∧ c ≤ 'F' then some (c.toNat - 55)
  else none

/-- The character with a code point in hexadecimal digits. -/
def codePoint? (digits : List Char) : Option Char := do
  let values ← digits.mapM hexValue?
  let n := values.foldl (fun n d => 16 * n + d) 0
  if n.isValidChar then some (Char.ofNat n) else none

/-- Puts a character in front of what was scanned. -/
def consScanned (c : Char) (scanned : Option (List Char × List Char)) :
    Option (List Char × List Char) :=
  scanned.map fun (text, rest) => (c :: text, rest)

/-- The printable characters that cannot stand in an IRI. -/
def iriExcluded : List Char := ['<', '>', '"', '\x7b', '\x7d', '|', '^', '\x60', '\\']

/-- Whether a character can stand in an IRI. -/
def isIriChar (c : Char) : Bool :=
  0x20 < c.toNat && c ∉ iriExcluded

/-- The IRI up to its closing bracket, and what follows. -/
def scanIri : List Char → Option (List Char × List Char)
  | [] => none
  | '>' :: cs => some ([], cs)
  | '\\' :: 'u' :: a :: b :: c :: d :: cs =>
    (codePoint? [a, b, c, d]).bind (consScanned · (scanIri cs))
  | '\\' :: 'U' :: a :: b :: c :: d :: e :: f :: g :: h :: cs =>
    (codePoint? [a, b, c, d, e, f, g, h]).bind (consScanned · (scanIri cs))
  | c :: cs => if isIriChar c then consScanned c (scanIri cs) else none

/-- The character that a one-letter escape stands for. -/
def shortEscape? (c : Char) : Option Char :=
  [('t', '\t'), ('b', '\x08'), ('n', '\n'), ('r', '\r'), ('f', '\x0c'), ('"', '"'), ('\'', '\''),
    ('\\', '\\')].lookup c

/-- The quoted text up to its closing quote, and what follows. -/
def scanQuoted : List Char → Option (List Char × List Char)
  | [] => none
  | '"' :: cs => some ([], cs)
  | '\\' :: 'u' :: a :: b :: c :: d :: cs =>
    (codePoint? [a, b, c, d]).bind (consScanned · (scanQuoted cs))
  | '\\' :: 'U' :: a :: b :: c :: d :: e :: f :: g :: h :: cs =>
    (codePoint? [a, b, c, d, e, f, g, h]).bind (consScanned · (scanQuoted cs))
  | '\\' :: c :: cs => (shortEscape? c).bind (consScanned · (scanQuoted cs))
  | c :: cs => if c = '\n' ∨ c = '\r' then none else consScanned c (scanQuoted cs)

/-- Inclusive ranges of the code points beyond ASCII that can start the label of a blank node. -/
def labelStartRanges : List (Nat × Nat) :=
  [(0xc0, 0xd6), (0xd8, 0xf6), (0xf8, 0x2ff), (0x370, 0x37d), (0x37f, 0x1fff), (0x200c, 0x200d),
    (0x2070, 0x218f), (0x2c00, 0x2fef), (0x3001, 0xd7ff), (0xf900, 0xfdcf), (0xfdf0, 0xfffd),
    (0x10000, 0xeffff)]

/-- Inclusive ranges of the code points beyond ASCII that can only continue a label. -/
def labelMarkRanges : List (Nat × Nat) :=
  [(0xb7, 0xb7), (0x300, 0x36f), (0x203f, 0x2040)]

/-- Whether a character can start the label of a blank node. -/
def isLabelStart (c : Char) : Bool :=
  c.isAlphanum || c = '_' || Text.inRanges labelStartRanges c.toNat

/-- Whether a character can stand in the label of a blank node. -/
def isLabelChar (c : Char) : Bool :=
  isLabelStart c || c = '-' || c = '.' || Text.inRanges labelMarkRanges c.toNat

/-- The label of a blank node, without dots at its end, and what follows. -/
def scanLabel? (cs : List Char) : Option (List Char × List Char) :=
  let label := ((cs.takeWhile isLabelChar).reverse.dropWhile (· = '.')).reverse
  if label.head?.any isLabelStart then some (label, cs.drop label.length) else none

/-- Whether a text is a language tag: letters, then parts of letters and digits after hyphens, each
of at most eight characters. -/
def isLanguageTag (cs : List Char) : Bool :=
  match cs.splitOn '-' with
  | [] => false
  | first :: parts =>
    first.all Char.isAlpha &&
      (first :: parts).all fun part =>
        !part.isEmpty && part.length ≤ 8 && part.all Char.isAlphanum

/-- The first word of a text that does not start with a blank, and what follows it. -/
def scanToken : List Char → Option (Token × List Char)
  | '.' :: cs => some (.dot, cs)
  | '<' :: cs => (scanIri cs).map fun (text, rest) => (.iri (String.ofList text), rest)
  | '"' :: cs => (scanQuoted cs).map fun (text, rest) => (.quoted (String.ofList text), rest)
  | '^' :: '^' :: cs => some (.datatypeMark, cs)
  | '_' :: ':' :: cs =>
    (scanLabel? cs).map fun (label, rest) => (.blank (String.ofList label), rest)
  | '@' :: cs =>
    let tag := cs.takeWhile fun c => c.isAlphanum || c = '-'
    if isLanguageTag tag then
      some (.language (lower (String.ofList tag)), cs.drop tag.length)
    else none
  | cs =>
    let text := cs.takeWhile Char.isAlphanum
    if text.isEmpty then none else some (.word (String.ofList text), cs.drop text.length)

/-- A text without the blanks and comments at its start. A comment ends with its line. -/
def skipBlanks (inComment : Bool) : List Char → List Char
  | [] => []
  | c :: cs =>
    if inComment then skipBlanks (c != '\n' && c != '\r') cs
    else if c = '#' then skipBlanks true cs
    else if c = ' ' ∨ c = '\t' ∨ c = '\n' ∨ c = '\r' then skipBlanks false cs
    else c :: cs

/-- **The words of a text,** if it falls into words. -/
def tokens? (cs : List Char) : Option (List Token) :=
  match skipBlanks false cs with
  | [] => some []
  | text =>
    match scanToken text with
    | none => none
    | some (token, rest) =>
      if _h : rest.length < cs.length then (tokens? rest).map (token :: ·) else none
termination_by cs.length

end ShapeRules.Rdf
