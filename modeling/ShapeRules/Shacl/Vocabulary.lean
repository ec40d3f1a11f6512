/-!
# The SHACL vocabulary

The classes, properties and severities of the shapes vocabulary that a shapes graph is read with.

## Main definitions

* `Vocab`: the terms of the vocabulary
* `Vocab.localName`, `Vocab.iri`: how they are written

## Main results

* `Vocab.iri_injective`: different terms have different IRIs
-/

namespace ShapeRules.Shacl

/-- **The terms of the vocabulary:** classes of shapes, targets, metadata, severities, and the
parameters of constraints. -/
inductive Vocab where
  | nodeShape
  | propertyShape
  | targetClass
  | targetNode
  | targetObjectsOf
  | targetSubjectsOf
  | deactivated
  | description
  | message
  | name
  | path
  | severity
  | info
  | violation
  | warning
  | and
  | ofClass
  | closed
  | datatype
  | disjoint
  | equals
  | flags
  | hasValue
  | ignoredProperties
  | oneOf
  | languageIn
  | lessThan
  | lessThanOrEquals
  | maxCount
  | maxExclusive
  | maxInclusive
  | maxLength
  | minCount
  | minExclusive
  | minInclusive
  | minLength
  | node
  | nodeKind
  | not
  | or
  | pattern
  | property
  | qualifiedMaxCount
  | qualifiedMinCount
  | qualifiedValueShape
  | qualifiedValueShapesDisjoint
  | uniqueLang
  | xone
  deriving DecidableEq, Repr

namespace Vocab

/-- The name of a term within the vocabulary. -/
def localName : Vocab → String
  | .nodeShape => "NodeShape"
  | .propertyShape => "PropertyShape"
  | .targetClass => "targetClass"
  | .targetNode => "targetNode"
  | .targetObjectsOf => "targetObjectsOf"
  | .targetSubjectsOf => "targetSubjectsOf"
  | .deactivated => "deactivated"
  | .description => "description"
  | .message => "message"
  | .name => "name"
  | .path => "path"
  | .severity => "severity"
  | .info => "Info"
  | .violation => "Violation"
  | .warning => "Warning"
  | .and => "and"
  | .ofClass => "class"
  | .closed => "closed"
  | .datatype => "datatype"
  | .disjoint => "disjoint"
  | .equals => "equals"
  | .flags => "flags"
  | .hasValue => "hasValue"
  | .ignoredProperties => "ignoredProperties"
  | .oneOf => "in"
  | .languageIn => "languageIn"
  | .lessThan => "lessThan"
  | .lessThanOrEquals => "lessThanOrEquals"
  | .maxCount => "maxCount"
  | .maxExclusive => "maxExclusive"
  | .maxInclusive => "maxInclusive"
  | .maxLength => "maxLength"
  | .minCount => "minCount"
  | .minExclusive => "minExclusive"
  | .minInclusive => "minInclusive"
  | .minLength => "minLength"
  | .node => "node"
  | .nodeKind => "nodeKind"
  | .not => "not"
  | .or => "or"
  | .pattern => "pattern"
  | .property => "property"
  | .qualifiedMaxCount => "qualifiedMaxCount"
  | .qualifiedMinCount => "qualifiedMinCount"
  | .qualifiedValueShape => "qualifiedValueShape"
  | .qualifiedValueShapesDisjoint => "qualifiedValueShapesDisjoint"
  | .uniqueLang => "uniqueLang"
  | .xone => "xone"

/-- What the IRIs of the vocabulary start with. -/
def base : String := "http://www.w3.org/ns/shacl#"

/-- The IRI of a term. -/
def iri (v : Vocab) : String := base ++ v.localName

/-- Every term of the vocabulary. -/
def all : List Vocab :=
  [.nodeShape, .propertyShape, .targetClass, .targetNode, .targetObjectsOf, .targetSubjectsOf,
    .deactivated, .description, .message, .name, .path, .severity, .info, .violation, .warning,
    .and, .ofClass, .closed, .datatype, .disjoint, .equals, .flags, .hasValue, .ignoredProperties,
    .oneOf, .languageIn, .lessThan, .lessThanOrEquals, .maxCount, .maxExclusive, .maxInclusive,
    .maxLength, .minCount, .minExclusive, .minInclusive, .minLength, .node, .nodeKind, .not, .or,
    .pattern, .property, .qualifiedMaxCount, .qualifiedMinCount, .qualifiedValueShape,
    .qualifiedValueShapesDisjoint, .uniqueLang, .xone]

theorem mem_all (v : Vocab) : v ∈ all := by
  cases v <;> decide

theorem localName_injective {v w : Vocab} (h : v.localName = w.localName) : v = w := by
  have key : ∀ u ∈ all, all.find? (·.localName == u.localName) = some u := by decide +kernel
  have hw := key w (mem_all w)
  rw [← h, key v (mem_all v)] at hw
  exact Option.some.inj hw

/-- Different terms have different IRIs. -/
theorem iri_injective {v w : Vocab} (h : v.iri = w.iri) : v = w := by
  have h' : (base ++ v.localName).toList = (base ++ w.localName).toList := congrArg _ h
  rw [String.toList_append, String.toList_append] at h'
  exact localName_injective (String.toList_inj.1 (List.append_cancel_left h'))

end Vocab

end ShapeRules.Shacl
