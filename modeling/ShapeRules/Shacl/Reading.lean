import ShapeRules.Shacl.Fault
import ShapeRules.Shacl.Shape
import ShapeRules.Value.Numeral

/-!
# Reading a shape

A shape is read off the values of its properties, each in the order of the line forms. Where one
value is wanted the smallest is taken. The constraints come in a fixed order, kind by kind.

## Main definitions

* `count?`: the count of a lexical form
* `ConstraintReader`, `constraintReaders`: one reader for each kind of constraint, in order
* `readShape`: the shape of an identifier
-/

namespace ShapeRules.Shacl

open Rdf

/-- The count of a lexical form: digits with an optional plus sign in front, below `2 ^ 64`. -/
def count? (s : String) : Option Count :=
  let digits :=
    match s.toList with
    | '+' :: cs => cs
    | cs => cs
  (Value.natural? digits).bind fun n => if n < UInt64.size then some (UInt64.ofNat n) else none

/-! ## Values of properties -/

section Values

variable (g : Graph) (id : Node) (v : Vocab)

/-- The values of a property of the vocabulary, in order. -/
def terms : List Term := g.values id v.iri

/-- The smallest value of a property of the vocabulary. -/
def term? : Option Term := g.value? id v.iri

/-- The values of a property that has only IRIs. -/
def iris : Except Fault (List String) :=
  (terms g id v).mapM fun
    | .iri s => .ok s
    | t => .error (.invalidValue id v .iri t)

/-- The shapes that a property refers to. -/
def references : Except Fault (List Node) :=
  (terms g id v).mapM reference

/-- The count of a property, from its smallest value. -/
def countOf : Except Fault (Option Count) :=
  match term? g id v with
  | none => .ok none
  | some (.literal l) =>
    match count? l.lexical with
    | some n => .ok (some n)
    | none => .error (.invalidValue id v .count (.literal l))
  | some t => .error (.invalidValue id v .count t)

/-- Whether the smallest value of a property is a literal for truth. -/
def isTrue : Bool :=
  match term? g id v with
  | some (.literal l) => l.lexical = "true" || l.lexical = "1"
  | _ => false

end Values

/-! ## Readers of constraints -/

/-- A reader of one kind of constraint: it finds the constraints of that kind of a shape. -/
abbrev ConstraintReader := Graph → Node → Except Fault (List Constraint)

/-- The constraint of a nonempty list of values. -/
def unlessEmpty {α : Type} (make : List α → Constraint) (l : List α) : List Constraint :=
  if l.isEmpty then [] else [make l]

namespace ConstraintReader

variable (v : Vocab)

/-- A count. -/
def count (make : Count → Constraint) : ConstraintReader := fun g id => do
  let n ← countOf g id v
  pure (n.map make).toList

/-- All shapes that a property refers to. -/
def nested (make : List Node → Constraint) : ConstraintReader := fun g id => do
  let shapes ← references g id v
  pure (unlessEmpty make shapes)

/-- The shapes of the smallest list. -/
def logical (make : List Node → Constraint) : ConstraintReader := fun g id =>
  match term? g id v with
  | none => pure []
  | some head => do
    let shapes ← referenceList g id head
    pure [make shapes]

/-- All IRIs of a property. -/
def properties (make : List String → Constraint) : ConstraintReader := fun g id => do
  let properties ← iris g id v
  pure (unlessEmpty make properties)

/-- The first IRI of a property that has only IRIs. -/
def firstIri (make : String → Constraint) : ConstraintReader := fun g id => do
  let values ← iris g id v
  pure (values.head?.map make).toList

/-- The smallest value of a property. -/
def value (make : Term → Constraint) : ConstraintReader := fun g id =>
  pure ((term? g id v).map make).toList

/-- All values of a property. -/
def values (make : List Term → Constraint) : ConstraintReader := fun g id =>
  pure (unlessEmpty make (terms g id v))

/-- The members of the smallest list. -/
def listed (make : List Term → Constraint) : ConstraintReader := fun g id =>
  match term? g id v with
  | none => pure []
  | some head => do
    let members ← listOf g id head
    pure [make members]

/-- The qualified constraint; the counts are read only if it nests a shape. -/
def qualified : ConstraintReader := fun g id => do
  let shapes ← references g id .qualifiedValueShape
  if shapes.isEmpty then pure []
  else
    let min ← countOf g id .qualifiedMinCount
    let max ← countOf g id .qualifiedMaxCount
    pure [.qualifiedValueShape shapes min max (isTrue g id .qualifiedValueShapesDisjoint)]

/-- The pattern and its flags. -/
def pattern : ConstraintReader :=
  fun g id => value .pattern (fun t => .pattern t (term? g id .flags)) g id

/-- The constraint on language tags. -/
def uniqueLang : ConstraintReader := fun g id =>
  pure (if isTrue g id .uniqueLang then [.uniqueLang] else [])

/-- The closed constraint; of the ignored properties only the IRIs are kept. -/
def closed : ConstraintReader := fun g id =>
  if isTrue g id .closed then
    match term? g id .ignoredProperties with
    | none => pure [.closed []]
    | some head => do
      let members ← listOf g id head
      pure [.closed (members.filterMap fun
        | .iri s => some s
        | _ => none)]
  else pure []

end ConstraintReader

open ConstraintReader in
/-- **The readers of all kinds of constraints,** in the order in which constraints are listed. -/
def constraintReaders : List ConstraintReader :=
  [count .minCount .minCount, count .maxCount .maxCount,
    nested .not .not, logical .and .and, logical .or .or, logical .xone .xone,
    properties .equals .equals, properties .disjoint .disjoint,
    properties .lessThan .lessThan, properties .lessThanOrEquals .lessThanOrEquals,
    nested .property .property, nested .node .node, qualified,
    value .minLength .minLength, value .maxLength .maxLength, pattern,
    listed .languageIn .languageIn, uniqueLang,
    values .ofClass .ofClass, firstIri .datatype .datatype, firstIri .nodeKind .nodeKind,
    values .minExclusive .minExclusive, values .minInclusive .minInclusive,
    values .maxExclusive .maxExclusive, values .maxInclusive .maxInclusive,
    closed, values .hasValue .hasValue, listed .oneOf .oneOf]

/-- The constraints of a shape. -/
def readConstraints (g : Graph) (id : Node) : Except Fault (List Constraint) := do
  let parts ← constraintReaders.mapM (· g id)
  pure parts.flatten

/-! ## Metadata and targets -/

/-- The severity of a shape; it is a violation unless stated otherwise. -/
def readSeverity (g : Graph) (id : Node) : Except Fault Severity :=
  match term? g id .severity with
  | none => .ok .violation
  | some (.iri s) => .ok (.ofIri s)
  | some t => .error (.invalidValue id .severity .iri t)

/-- The names of a shape: the lexical forms of its name literals. -/
def readNames (g : Graph) (id : Node) : List String :=
  (terms g id .name).filterMap fun
    | .literal l => some l.lexical
    | _ => none

/-- The target of a shape that is also a class. -/
def implicitTarget (g : Graph) : Node → List Target
  | .iri s => if .iri rdfsClass ∈ g.values (.iri s) rdfType then [.implicitClass s] else []
  | .blank _ => []

/-- The targets of a shape. -/
def readTargets (g : Graph) (id : Node) : List Target :=
  (terms g id .targetNode).map .node ++ (terms g id .targetClass).map .ofClass ++
    implicitTarget g id ++ (terms g id .targetObjectsOf).map .objectsOf ++
    (terms g id .targetSubjectsOf).map .subjectsOf

/-- **The shape of an identifier.** -/
def readShape (g : Graph) (id : Node) : Except Fault Shape := do
  let severity ← readSeverity g id
  let constraints ← readConstraints g id
  pure {
    id
    names := readNames g id
    isProperty := (term? g id .path).isSome
    severity
    descriptions := terms g id .description
    messages := terms g id .message
    deactivated := isTrue g id .deactivated
    targets := readTargets g id
    constraints }

end ShapeRules.Shacl
