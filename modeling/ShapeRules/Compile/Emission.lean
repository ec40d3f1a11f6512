import ShapeRules.Compile.Refusal
import ShapeRules.Compile.Traced
import ShapeRules.Datalog.Constant
import ShapeRules.Datalog.Program
import ShapeRules.Shacl.Shape

/-!
# The rules of one shape

What a shape that already has a name says for itself, apart from the shapes nested in it: facts for
its metadata, facts and rules for its targets, and facts for its constraints.

## Main definitions

* `Options`: how a run is configured
* `metadataRules`, `targetRules`: metadata and targets
* `constraintRules`: the constraints that nest no shape
* `qualifiedRules`: what a qualified constraint says besides its nested shapes
-/

namespace ShapeRules.Compile

open Rdf Shacl Datalog

/-- **How a run is configured.** -/
structure Options where
  /-- The path of the library in the include directive. -/
  library : String := defaultLibrary
  /-- Whether a constraint without a counterpart ends the run. -/
  strict : Bool := true
  deriving DecidableEq, Repr

/-- The variable of the nodes that a target selects. -/
def focusVariable : String := "X"

/-- The variable that stands for anything. -/
def anonymousVariable : String := "_"

/-- The constant of a value of a parameter. -/
def constant (name : String) (parameter : Vocab) (term : Term) : Except Refusal String :=
  term.constant?.mapError fun e => .unsupportedTerm name parameter e.term

/-- A fact about a named shape. -/
def about (predicate : Predicate) (name : String) (args : List String) : Rule :=
  .fact ⟨predicate, name :: args⟩

/-- One fact for each value of a parameter. -/
def eachRule (name : String) (parameter : Vocab) (predicate : Predicate) (terms : List Term) :
    Except Refusal (List Rule) :=
  terms.mapM fun t => do
    let c ← constant name parameter t
    pure (about predicate name [c])

/-- The facts for the metadata of a shape. The fact for its kind bears the identifier as a
comment. -/
def metadataRules (name : String) (s : Shape) : Except Refusal (List Rule) := do
  let descriptions ← eachRule name .description .description s.descriptions
  let messages ← eachRule name .message .message s.messages
  let kind : Predicate := if s.isProperty then .propertyShape else .nodeShape
  pure (descriptions ++ messages ++
    (if s.deactivated then [about .deactivated name []] else []) ++
    [about .severity name [Text.quote s.severity.iri],
      (about kind name []).withComment s.id.text])

/-- The rule that selects the nodes of which an atom holds. -/
def selectRule (name : String) (body : Atom) : Rule :=
  .derive ⟨.target, [name, focusVariable]⟩ [body]

/-- The fact or rule of a target. -/
def targetRule (name : String) : Target → Except Refusal Rule
  | .node t => do
    let c ← constant name .targetNode t
    pure (about .target name [c])
  | .ofClass t => do
    let c ← constant name .targetClass t
    pure (selectRule name ⟨.instanceOf, [c, focusVariable]⟩)
  | .implicitClass iri => do
    let c ← constant name .targetClass (.iri iri)
    pure (selectRule name ⟨.instanceOf, [c, focusVariable]⟩)
  | .objectsOf t => do
    let c ← constant name .targetObjectsOf t
    pure (selectRule name ⟨.path, [anonymousVariable, c, focusVariable]⟩)
  | .subjectsOf t => do
    let c ← constant name .targetSubjectsOf t
    pure (selectRule name ⟨.path, [focusVariable, c, anonymousVariable]⟩)

/-- The facts and rules of the targets of a shape. -/
def targetRules (name : String) (s : Shape) : Except Refusal (List Rule) :=
  s.targets.mapM (targetRule name)

/-- The mark of a logical constraint, then one fact for each of its members. -/
def logicalRules (name : String) (parameter : Vocab) (mark member : Predicate)
    (shapes : List Node) : Except Refusal (List Rule) := do
  let members ← eachRule name parameter member (shapes.map .node)
  pure (about mark name [] :: members)

/-- What a qualified constraint says besides its nested shapes. -/
def qualifiedRules (name : String) (min max : Option Count) (disjoint : Bool) : List Rule :=
  (min.map fun n => about .qualifiedMinCount name [toString n]).toList ++
    (max.map fun n => about .qualifiedMaxCount name [toString n]).toList ++
    (if disjoint then [about .qualifiedValueDisjoint name []] else [])

/-- The facts of a constraint that nests no shape and has a counterpart; the others give none. -/
def factsOf (name : String) (c : Constraint) : Except Refusal (List Rule) :=
  match c with
  | .minCount n => pure (if n = 0 then [] else [about .minCountConstr name [toString n]])
  | .maxCount n => pure [about .maxCountConstr name [toString n]]
  | .not shapes => eachRule name .not .notConstr (shapes.map .node)
  | .and shapes => logicalRules name .and .andConstr .andShape shapes
  | .or shapes => logicalRules name .or .orConstr .orShape shapes
  | .xone shapes => logicalRules name .xone .xoneConstr .xoneShape shapes
  | .equals iris => eachRule name .equals .equalsConstr (iris.map .iri)
  | .disjoint iris => eachRule name .disjoint .disjointConstr (iris.map .iri)
  | .lessThan iris => eachRule name .lessThan .lessThanConstr (iris.map .iri)
  | .lessThanOrEquals iris =>
    eachRule name .lessThanOrEquals .lessThanOrEqConstr (iris.map .iri)
  | .minLength t => eachRule name .minLength .minLengthConstr [t]
  | .maxLength t => eachRule name .maxLength .maxLengthConstr [t]
  | .pattern t _ => eachRule name .pattern .patternConstr [t]
  | .languageIn ts => do
    let tags ← eachRule name .languageIn .constrLanguageTag ts
    pure (tags ++ [about .languageInConstr name []])
  | .uniqueLang => pure [about .uniqueLangConstr name []]
  | .ofClass ts => eachRule name .ofClass .classConstr ts
  | .datatype iri => eachRule name .datatype .datatypeConstr [.iri iri]
  | .nodeKind iri => eachRule name .nodeKind .nodeKindConstr [.iri iri]
  | .minExclusive ts => eachRule name .minExclusive .minExclusiveConstr ts
  | .minInclusive ts => eachRule name .minInclusive .minInclusiveConstr ts
  | .maxExclusive ts => eachRule name .maxExclusive .maxExclusiveConstr ts
  | .maxInclusive ts => eachRule name .maxInclusive .maxInclusiveConstr ts
  | .property _ | .node _ | .qualifiedValueShape .. => pure []
  | .closed _ | .hasValue _ | .oneOf _ => pure []

/-- Whether a constraint has no counterpart in the library. -/
def isUnsupported : Constraint → Bool
  | .closed _ | .hasValue _ | .oneOf _ => true
  | _ => false

/-- **The rules of a constraint that nests no shape.** A constraint without a counterpart is
refused, or reported and left out. Flags of a regular expression are reported and left out, never
refused. -/
def constraintRules (options : Options) (name : String) (c : Constraint) :
    Traced Refusal (List Rule) := do
  if isUnsupported c then
    if options.strict then .refuse (.unsupportedConstraint name c.parameter)
    else .report (.constraintSkipped name c.parameter)
  if let .pattern _ (some flags) := c then .report (.flagsIgnored name flags)
  .ofExcept (factsOf name c)

end ShapeRules.Compile
