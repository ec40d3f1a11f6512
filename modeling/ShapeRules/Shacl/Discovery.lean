import ShapeRules.Shacl.Fault

/-!
# Discovery of shapes

The shapes of a graph are the nodes declared to be shapes, the subjects of target declarations and
paths, the values of properties that nest shapes, and the members of the lists of logical
constraints. They are listed in order, IRIs before blank nodes, each by its text.

## Main definitions

* `discover`: the identifiers of the shapes of a graph
-/

namespace ShapeRules.Shacl

open Rdf

/-- The subjects declared to be of one of the classes of shapes. -/
def declaredShapes (g : Graph) : List Node :=
  [Vocab.nodeShape, .propertyShape].flatMap fun c =>
    ((g.withPredicate rdfType).filter (·.object = .iri c.iri)).map Triple.subject

/-- The subjects of targets and paths. -/
def targetedShapes (g : Graph) : List Node :=
  [Vocab.targetNode, .targetClass, .targetObjectsOf, .targetSubjectsOf, .path].flatMap fun v =>
    (g.withPredicate v.iri).map Triple.subject

/-- The properties whose values are shapes. -/
def nestingProperties : List Vocab := [.property, .node, .not, .qualifiedValueShape]

/-- The properties whose values are lists of shapes. -/
def logicalProperties : List Vocab := [.and, .or, .xone]

/-- The nodes that the values of a property refer to. -/
def nestedShapes (g : Graph) (v : Vocab) : Except Fault (List Node) :=
  (g.withPredicate v.iri).mapM (reference ·.object)

/-- The nodes that the lists of a property refer to. -/
def listedShapes (g : Graph) (v : Vocab) : Except Fault (List Node) := do
  let lists ← (g.withPredicate v.iri).mapM fun t => referenceList g t.subject t.object
  pure lists.flatten

/-- **The identifiers of the shapes of a graph.** -/
def discover (g : Graph) : Except Fault (OrderedSet Node) := do
  let nested ← nestingProperties.mapM (nestedShapes g)
  let listed ← logicalProperties.mapM (listedShapes g)
  pure (.ofList (declaredShapes g ++ targetedShapes g ++ nested.flatten ++ listed.flatten))

end ShapeRules.Shacl
