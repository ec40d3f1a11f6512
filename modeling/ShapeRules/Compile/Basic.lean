import ShapeRules.Compile.Emission
import ShapeRules.Datalog.Namespace
import ShapeRules.Shacl.Table

/-!
# Shapes to rules

Each shape of a source is given a fresh name and written out as rules. A shape nested in another
one, through `sh:property`, `sh:node` or `sh:qualifiedValueShape`, is resolved, named and written
out at each place that refers to it, and a link joins the two names. A reference back to a shape
that is still being written out is refused, so the nesting is never deeper than there are known
shapes.

## Main definitions

* `fragment`: the program of a named shape and of the shapes nested in it
* `compileShape`: one shape under a given name
* `compile`: all shapes of a source
-/

namespace ShapeRules.Compile

open Rdf Shacl Datalog

/-- The known shapes that are not among some identifiers. -/
def unvisited (src : ShapeSource) (ids : List Node) : List Shape :=
  src.known.filter (·.id ∉ ids)

theorem length_unvisited_cons {src : ShapeSource} {ids : List Node} {id : Node} {s : Shape}
    (hs : src.resolve id = some s) (hid : id ∉ ids) :
    (unvisited src (s.id :: ids)).length < (unvisited src ids).length := by
  have h : unvisited src (s.id :: ids) = (unvisited src ids).filter (·.id ≠ s.id) := by
    simp [unvisited, List.filter_filter]
  rw [h]
  refine List.length_filter_lt_length_iff_exists.2 ⟨s, ?_, by simp⟩
  simp [unvisited, ShapeSource.mem_of_resolve hs, ShapeSource.id_of_resolve hs, hid]

/-- Adds the rules of a constraint to a program, given how a reference is followed. -/
def constraintStep (options : Options) (name : String)
    (follow : Predicate → Program × Namespace → Node → Traced Refusal (Program × Namespace))
    (state : Program × Namespace) (c : Constraint) : Traced Refusal (Program × Namespace) :=
  match c with
  | .property shapes => shapes.foldlM (follow .propertyConstr) state
  | .node shapes => shapes.foldlM (follow .nodeConstr) state
  | .qualifiedValueShape shapes min max disjoint => do
    let state ← shapes.foldlM (follow .qualifiedValueConstr) state
    pure (state.1.pushAll (qualifiedRules name min max disjoint), state.2)
  | c => do
    let rules ← constraintRules options name c
    pure (state.1.pushAll rules, state.2)

/-- **The program of a named shape** and of the shapes nested in it, with the names taken on the
way. `ancestors` are the identifiers of the shapes around it, which it must not refer to. A nested
shape has a program of its own, which is added to that of the shape before the link is. -/
def fragment (src : ShapeSource) (options : Options) (ancestors : List Node) (name : String)
    (shape : Shape) (ns : Namespace) : Traced Refusal (Program × Namespace) := do
  .report (.shapeStarted shape.id name)
  let metadata ← .ofExcept (metadataRules name shape)
  let targets ← .ofExcept (targetRules name shape)
  let follow := fun predicate (state : Program × Namespace) reference =>
    if _hr : reference ∈ shape.id :: ancestors then .refuse (.cyclicReference name reference)
    else
      match _hs : src.resolve reference with
      | none => .refuse (.unknownShape name reference)
      | some child => do
        let (childName, ns) := state.2.allocate child.preferredName
        let (inner, ns) ← fragment src options (shape.id :: ancestors) childName child ns
        pure ((state.1.extend inner).push (about predicate name [childName]), ns)
  shape.constraints.foldlM (constraintStep options name follow)
    (.ofRules options.library (metadata ++ targets), ns)
termination_by (unvisited src (shape.id :: ancestors)).length
decreasing_by exact length_unvisited_cons _hs _hr

/-- **One shape under a given name,** which must be an identifier. -/
def compileShape (src : ShapeSource) (options : Options) (name : String) (shape : Shape)
    (ns : Namespace) : Traced Refusal (Program × Namespace) := do
  if !isIdentifier name then .refuse (.malformedName name)
  fragment src options [] name shape ns

/-- Adds one more shape to a program, under a fresh name. -/
def compileNext (src : ShapeSource) (options : Options) (state : Program × Namespace)
    (shape : Shape) : Traced Refusal (Program × Namespace) := do
  let (name, ns) := state.2.allocate shape.preferredName
  let (inner, ns) ← fragment src options [] name shape ns
  pure (state.1.extend inner, ns)

/-- **All shapes of a source,** as one program. -/
def compile (src : ShapeSource) (options : Options) : Traced Refusal Program := do
  let (program, _) ← src.shapes.foldlM (compileNext src options)
    ({ library := options.library }, .initial)
  .report (.finished program.size)
  pure program

end ShapeRules.Compile
