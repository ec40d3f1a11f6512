import ShapeRules.Rdf.NTriples
import ShapeRules.Text.Quoted
import ShapeRules.Value.Basic

/-!
# Terms as Datalog constants

IRIs and strings are quoted, blank nodes become identifiers, and typed literals are written by the
value they denote, so that equal numbers in different spellings become one constant. A triple term
has no constant.

## Main definitions

* `Value.constant`: the constant of a value
* `Rdf.Term.constant?`: the constant of a term
-/

namespace ShapeRules

namespace Value

/-- A text with underscores in place of its hyphens, which constants cannot hold. -/
def dashless (cs : List Char) : String :=
  String.ofList (cs.map fun c => if c = '-' then '_' else c)

/-- The constant of a binary number: infinities and the missing number are strings. -/
def binaryConstant (f : BinaryFormat) (x : Binary) : String :=
  match x with
  | .finite .. => String.ofList (f.text x)
  | _ => Text.quote (String.ofList (f.text x))

/-- **The constant of a value.** -/
def constant : Value → String
  | .boolean b => if b then "true" else "false"
  | .integer n => toString n
  | .decimal d => String.ofList d.text
  | .float x => binaryConstant .single x
  | .double x => binaryConstant .double x
  | .date day zone => dashless (day.text ++ zoneText zone)
  | .dateTime day clock zone => dashless (momentText day clock zone)
  | .time clock zone => dashless (clock.text ++ zoneText zone)
  | .string s => Text.quote s

end Value

namespace Rdf

/-- What the identifiers of blank nodes start with. -/
def blankMark : String := "blank_node"

/-- The constant of a node. -/
def Node.constant : Node → String
  | .iri s => Text.quote s
  | .blank s => blankMark ++ s

/-- A term that has no constant. -/
structure UnsupportedTerm where
  term : Term
  deriving DecidableEq, Repr

/-- The wording of a refusal to write a term. -/
def UnsupportedTerm.message (e : UnsupportedTerm) : String :=
  "Term " ++ e.term.text ++ " cannot be written as a Datalog constant"

/-- **The constant of a term.** -/
def Term.constant? : Term → Except UnsupportedTerm String
  | .node n => .ok n.constant
  | .literal l => .ok (Value.ofLiteral l).constant
  | t@(.triple ..) => .error ⟨t⟩

end Rdf

end ShapeRules
