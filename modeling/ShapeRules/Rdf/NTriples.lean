import ShapeRules.Rdf.Term
import ShapeRules.Text.Hexadecimal

/-!
# The line form of terms

The line form writes a term on one line: IRIs in angle brackets, blank nodes after `_:`, literals in
double quotes with their tag or datatype, triple terms between `<<(` and `)>>`. It is how messages
name a term, and sorting by it orders the values of a property.

## Main definitions

* `Node.text`, `Literal.text`, `Term.text`: the line form
* `Triple.line`: a statement as a line
-/

namespace ShapeRules.Rdf

/-- The line form of a node. -/
def Node.text : Node → String
  | .iri s => "<" ++ s ++ ">"
  | .blank s => "_:" ++ s

/-- One character of a lexical form between quotes. -/
def lexicalChar (c : Char) : List Char :=
  if c = '\x08' then ['\\', 'b']
  else if c = '\t' then ['\\', 't']
  else if c = '\n' then ['\\', 'n']
  else if c = '\x0c' then ['\\', 'f']
  else if c = '\r' then ['\\', 'r']
  else if c = '"' then ['\\', '"']
  else if c = '\\' then ['\\', '\\']
  else if c.toNat < 0x20 || c.toNat = 0x7F || c.toNat = 0xFFFE || c.toNat = 0xFFFF then
    Text.unicodeEscape c
  else [c]

/-- A lexical form between quotes. -/
def lexicalText (s : String) : String :=
  String.ofList ('"' :: (s.toList.flatMap lexicalChar ++ ['"']))

/-- The mark of a direction after a language tag. -/
def Direction.text : Direction → String
  | .leftToRight => "ltr"
  | .rightToLeft => "rtl"

/-- The line form of a literal; the datatype of plain strings is left out. -/
def Literal.text : Literal → String
  | .typed s d => if d = xsdString then lexicalText s else lexicalText s ++ "^^<" ++ d ++ ">"
  | .tagged s l => lexicalText s ++ "@" ++ l
  | .directed s l d => lexicalText s ++ "@" ++ l ++ "--" ++ d.text

/-- **The line form of a term.** -/
def Term.text : Term → String
  | .node n => n.text
  | .literal l => l.text
  | .triple s p o => "<<( " ++ s.text ++ " <" ++ p ++ "> " ++ o.text ++ " )>>"

/-- A statement as a line. -/
def Triple.line (t : Triple) : String :=
  t.subject.text ++ " <" ++ t.predicate ++ "> " ++ t.object.text ++ " .\n"

end ShapeRules.Rdf
