import ShapeRules.Rdf.Term
import ShapeRules.Value.Calendar
import ShapeRules.Value.Shortest

/-!
# The values of literals

A literal of a known datatype whose lexical form is in order denotes a value: a truth value, a
number, or a place in time. Every other literal, ill-typed ones included, denotes its lexical form.

## Main definitions

* `Value`: the values
* `Value.ofLiteral`: the value of a literal
-/

namespace ShapeRules

/-- **The value of a literal.** -/
inductive Value where
  | boolean (b : Bool)
  | integer (n : Int)
  | decimal (d : Value.Decimal)
  | float (x : Value.Binary)
  | double (x : Value.Binary)
  | date (day : Value.Day) (zone : Option Value.Zone)
  | dateTime (day : Value.Day) (clock : Value.Clock) (zone : Option Value.Zone)
  | time (clock : Value.Clock) (zone : Option Value.Zone)
  | string (s : String)
  deriving DecidableEq, Repr

namespace Value

/-- The datatypes of the schema vocabulary. -/
def xsd (name : String) : String := "http://www.w3.org/2001/XMLSchema#" ++ name

/-- The datatypes whose values are integers. -/
def integerTypes : List String :=
  ["integer", "int", "long", "short", "byte", "nonNegativeInteger", "positiveInteger",
    "nonPositiveInteger", "negativeInteger", "unsignedLong", "unsignedInt", "unsignedShort",
    "unsignedByte"].map xsd

/-- The truth value of a lexical form. -/
def boolean? (s : String) : Option Bool :=
  if s = "true" ∨ s = "1" then some true
  else if s = "false" ∨ s = "0" then some false
  else none

/-- The date of a lexical form. -/
def date? (cs : List Char) : Option Value := do
  let (day, cs) ← Day.read? cs
  let zone ← Zone.read? cs
  if onTimeLine day .midnight zone then some (.date day zone) else none

/-- The moment of a lexical form; midnight at the end of a day is the start of the next day. -/
def dateTime? (cs : List Char) : Option Value := do
  let (day, cs) ← Day.read? cs
  let (clock, cs) ← Clock.read? (← expect? 'T' cs)
  let zone ← Zone.read? cs
  let (day, clock) := if clock.hour = 24 then (day.next, Clock.midnight) else (day, clock)
  if onTimeLine day clock zone then some (.dateTime day clock zone) else none

/-- The time of day of a lexical form; midnight at the end of a day is that at its start. -/
def time? (cs : List Char) : Option Value := do
  let (clock, cs) ← Clock.read? cs
  let zone ← Zone.read? cs
  some (.time (if clock.hour = 24 then .midnight else clock) zone)

/-- The value of a lexical form under a datatype that has a reading for it. -/
def read? (datatype lexical : String) : Option Value :=
  let cs := lexical.toList
  if datatype = xsd "boolean" then (boolean? lexical).map .boolean
  else if datatype ∈ integerTypes then (integer? cs).map .integer
  else if datatype = xsd "decimal" then (Decimal.ofChars? cs).map .decimal
  else if datatype = xsd "float" then (BinaryFormat.single.ofChars? cs).map .float
  else if datatype = xsd "double" then (BinaryFormat.double.ofChars? cs).map .double
  else if datatype = xsd "date" then date? cs
  else if datatype = xsd "dateTime" ∨ datatype = xsd "dateTimeStamp" then dateTime? cs
  else if datatype = xsd "time" then time? cs
  else none

/-- **The value of a literal:** the reading of its lexical form under its datatype, and otherwise
the lexical form itself. -/
def ofLiteral (l : Rdf.Literal) : Value :=
  (read? l.datatype l.lexical).getD (.string l.lexical)

end Value

end ShapeRules
