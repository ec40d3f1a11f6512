import ShapeRules.Rdf.Collection
import ShapeRules.Shacl.Vocabulary

/-!
# Faults of shapes graphs

The reasons for which the shapes of a graph cannot be read.

## Main definitions

* `Fault`: the reasons
* `Fault.message`: their wording
* `reference`: the node that a term refers to, if it can identify a shape
-/

namespace ShapeRules.Shacl

open Rdf

/-- What a property should have had for a value. -/
inductive Expected where
  | iri
  | count
  deriving DecidableEq, Repr

/-- The wording of an expectation. -/
def Expected.text : Expected → String
  | .iri => "an IRI"
  | .count => "a non-negative integer"

/-- **Why the shapes of a graph cannot be read.** -/
inductive Fault where
  /-- A term that cannot identify a shape is used as one. -/
  | invalidReference (term : Term)
  /-- A property of a shape has a value of the wrong kind. -/
  | invalidValue (shape : Node) (parameter : Vocab) (expected : Expected) (actual : Term)
  /-- A list that belongs to a shape is broken. -/
  | invalidList (shape : Node) (fault : ListFault)
  deriving DecidableEq, Repr

/-- The wording of a fault. -/
def Fault.message : Fault → String
  | .invalidReference term =>
    "Invalid shape definition for " ++ term.text ++
      ": Shape reference must be an IRI or blank node"
  | .invalidValue shape parameter expected actual =>
    "Invalid value for property <" ++ parameter.iri ++ "> in shape " ++ shape.text ++
      ": expected " ++ expected.text ++ ", got " ++ actual.text
  | .invalidList shape fault =>
    "Invalid RDF list in shape " ++ shape.text ++ ": " ++ fault.message

/-- The node that a term refers to: only IRIs and blank nodes can identify a shape. -/
def reference : Term → Except Fault Node
  | .node n => .ok n
  | t => .error (.invalidReference t)

/-- The members of a list that belongs to a shape. -/
def listOf (g : Graph) (owner : Node) (head : Term) : Except Fault (List Term) :=
  (g.members head).mapError (.invalidList owner)

/-- The nodes that the members of a list refer to. -/
def referenceList (g : Graph) (owner : Node) (head : Term) : Except Fault (List Node) := do
  let members ← listOf g owner head
  members.mapM reference

end ShapeRules.Shacl
