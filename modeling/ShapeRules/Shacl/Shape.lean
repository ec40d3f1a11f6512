import ShapeRules.Rdf.NTriples
import ShapeRules.Shacl.Vocabulary

/-!
# Shapes

A shape is identified by a node. It has metadata, targets that select the nodes it applies to, and
constraints on them. Values of constraints are kept as RDF terms.

## Main definitions

* `Severity`, `Target`, `Constraint`: the parts of a shape
* `Shape`: a node or property shape
* `Constraint.parameter`: the vocabulary term that names a constraint
-/

namespace ShapeRules.Shacl

open Rdf

/-- **The severity of a shape.** -/
inductive Severity where
  | violation
  | warning
  | info
  | custom (iri : String)
  deriving DecidableEq, Repr

namespace Severity

/-- The IRI of a severity. -/
def iri : Severity → String
  | violation => Vocab.violation.iri
  | warning => Vocab.warning.iri
  | info => Vocab.info.iri
  | custom iri => iri

/-- The severity of an IRI. -/
def ofIri (iri : String) : Severity :=
  if iri = Vocab.violation.iri then violation
  else if iri = Vocab.warning.iri then warning
  else if iri = Vocab.info.iri then info
  else custom iri

end Severity

/-- **A declaration of the nodes that a shape applies to.** -/
inductive Target where
  /-- One node. -/
  | node (term : Term)
  /-- The instances of a class. -/
  | ofClass (term : Term)
  /-- The instances of the shape itself, which is also a class. -/
  | implicitClass (iri : String)
  /-- The objects of a property. -/
  | objectsOf (term : Term)
  /-- The subjects of a property. -/
  | subjectsOf (term : Term)
  deriving DecidableEq, Repr

/-- The number of values, or of characters, that a constraint allows. -/
abbrev Count := UInt64

/-- **A constraint of a shape.** -/
inductive Constraint where
  | minCount (count : Count)
  | maxCount (count : Count)
  | not (shapes : List Node)
  | and (shapes : List Node)
  | or (shapes : List Node)
  | xone (shapes : List Node)
  | equals (properties : List String)
  | disjoint (properties : List String)
  | lessThan (properties : List String)
  | lessThanOrEquals (properties : List String)
  | property (shapes : List Node)
  | node (shapes : List Node)
  | qualifiedValueShape (shapes : List Node) (min max : Option Count) (disjoint : Bool)
  | minLength (length : Term)
  | maxLength (length : Term)
  | pattern (pattern : Term) (flags : Option Term)
  | languageIn (languages : List Term)
  | uniqueLang
  | ofClass (classes : List Term)
  | datatype (iri : String)
  | nodeKind (iri : String)
  | minExclusive (bounds : List Term)
  | minInclusive (bounds : List Term)
  | maxExclusive (bounds : List Term)
  | maxInclusive (bounds : List Term)
  | closed (ignored : List String)
  | hasValue (values : List Term)
  | oneOf (values : List Term)
  deriving DecidableEq, Repr

/-- The vocabulary term that names a constraint. -/
def Constraint.parameter : Constraint → Vocab
  | .minCount _ => .minCount
  | .maxCount _ => .maxCount
  | .not _ => .not
  | .and _ => .and
  | .or _ => .or
  | .xone _ => .xone
  | .equals _ => .equals
  | .disjoint _ => .disjoint
  | .lessThan _ => .lessThan
  | .lessThanOrEquals _ => .lessThanOrEquals
  | .property _ => .property
  | .node _ => .node
  | .qualifiedValueShape .. => .qualifiedValueShape
  | .minLength _ => .minLength
  | .maxLength _ => .maxLength
  | .pattern .. => .pattern
  | .languageIn _ => .languageIn
  | .uniqueLang => .uniqueLang
  | .ofClass _ => .ofClass
  | .datatype _ => .datatype
  | .nodeKind _ => .nodeKind
  | .minExclusive _ => .minExclusive
  | .minInclusive _ => .minInclusive
  | .maxExclusive _ => .maxExclusive
  | .maxInclusive _ => .maxInclusive
  | .closed _ => .closed
  | .hasValue _ => .hasValue
  | .oneOf _ => .oneOf

/-- **A node or property shape.** -/
structure Shape where
  /-- The node that identifies the shape. -/
  id : Node
  /-- The names of the shape; the first is the preferred one. -/
  names : List String := []
  /-- Whether the shape constrains the values of a path. -/
  isProperty : Bool := false
  severity : Severity := .violation
  descriptions : List Term := []
  messages : List Term := []
  deactivated : Bool := false
  targets : List Target := []
  /-- The constraints, in order of declaration. -/
  constraints : List Constraint := []
  deriving DecidableEq, Repr

/-- The name that a shape would like to be known by. -/
def Shape.preferredName (s : Shape) : Option String := s.names.head?

end ShapeRules.Shacl
