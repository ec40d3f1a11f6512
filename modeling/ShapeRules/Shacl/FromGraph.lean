import ShapeRules.Rdf.Canonical
import ShapeRules.Shacl.Discovery
import ShapeRules.Shacl.Reading
import ShapeRules.Shacl.Table

/-!
# The shapes of a graph

The blank nodes of a graph are relabelled first, so that the identifiers and the order of the shapes
do not depend on the labels; then the shapes are discovered and read one by one.

## Main definitions

* `ShapeTable.ofLabelled`: the shapes of a graph whose labels are settled
* `ShapeTable.ofGraph`: the shapes of a graph
-/

namespace ShapeRules.Shacl

open Rdf

/-- The shapes of a graph whose labels are settled, in the order of their identifiers. -/
def ShapeTable.ofLabelled (g : Graph) : Except Fault ShapeTable := do
  let ids ← discover g
  let shapes ← ids.toList.mapM (readShape g)
  pure (.ofList shapes)

/-- **The shapes of a graph,** in the order of their identifiers. -/
def ShapeTable.ofGraph (g : Graph) : Except Fault ShapeTable :=
  ofLabelled g.canonical

end ShapeRules.Shacl
