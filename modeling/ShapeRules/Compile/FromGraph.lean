import ShapeRules.Compile.Basic
import ShapeRules.Shacl.FromGraph

/-!
# Graphs to rules

The shapes of a graph are read, and written out as one program.

## Main definitions

* `GraphRefusal`: a fault of the graph or a refusal of one of its shapes
* `compileGraph`: the program of a graph
-/

namespace ShapeRules.Compile

open Rdf Shacl Datalog

/-- **Why a graph has no program.** -/
inductive GraphRefusal where
  | fault (fault : Fault)
  | refusal (refusal : Refusal)
  deriving DecidableEq, Repr

/-- The wording of a refusal. -/
def GraphRefusal.message : GraphRefusal → String
  | .fault f => f.message
  | .refusal r => r.message

/-- **The program of a graph.** -/
def compileGraph (g : Graph) (options : Options) : Traced GraphRefusal Program := do
  let table ← Traced.ofExcept ((ShapeTable.ofGraph g).mapError .fault)
  .report (.shapesRead table.size)
  (compile table.source options).mapError .refusal

end ShapeRules.Compile
