import ShapeRules.Rdf.Graph

/-!
# Lists in a graph

A list is a chain of cells that ends in the node `rdf:nil`. Each cell has a member, its smallest
`rdf:first` value, and a next cell, its smallest `rdf:rest` value. A chain that lacks one of them is
broken, and a chain that comes back to a cell never ends.

## Main definitions

* `ListFault`: what is wrong with a chain of cells
* `Graph.members`: the members of a list
-/

namespace ShapeRules.Rdf

/-- The property from a cell to its member. -/
def rdfFirst : String := "http://www.w3.org/1999/02/22-rdf-syntax-ns#first"

/-- The property from a cell to the next cell. -/
def rdfRest : String := "http://www.w3.org/1999/02/22-rdf-syntax-ns#rest"

/-- The end of every list. -/
def rdfNil : String := "http://www.w3.org/1999/02/22-rdf-syntax-ns#nil"

/-- The property from an instance to its class. -/
def rdfType : String := "http://www.w3.org/1999/02/22-rdf-syntax-ns#type"

/-- The class of classes. -/
def rdfsClass : String := "http://www.w3.org/2000/01/rdf-schema#Class"

/-- What is wrong with a chain of cells. -/
inductive ListFault where
  | loops
  | missingFirst
  | missingRest
  deriving DecidableEq, Repr

/-- The wording of a fault. -/
def ListFault.message : ListFault → String
  | .loops => "The list loops on itself"
  | .missingFirst => "Missing rdf:first"
  | .missingRest => "Missing rdf:rest"

namespace Graph

/-- The subjects of a graph that are not among some nodes. -/
def subjectsOutside (g : Graph) (nodes : List Node) : List Node :=
  g.subjects.filter (· ∉ nodes)

theorem length_subjectsOutside_cons {g : Graph} {nodes : List Node} {n : Node}
    (hn : n ∉ nodes) (hg : n ∈ g.subjects) :
    (g.subjectsOutside (n :: nodes)).length < (g.subjectsOutside nodes).length := by
  have h : g.subjectsOutside (n :: nodes) = (g.subjectsOutside nodes).filter (· ≠ n) := by
    simp [subjectsOutside, List.filter_filter]
  rw [h]
  refine List.length_filter_lt_length_iff_exists.2 ⟨n, ?_, by simp⟩
  simp [subjectsOutside, hg, hn]

theorem mem_subjects_of_value? {g : Graph} {s : Node} {p : String} {o : Term}
    (h : g.value? s p = some o) : s ∈ g.subjects :=
  mem_subjects.2 ⟨_, mem_of_value? h, rfl⟩

/-- The members of the chain that starts at a term, where some cells were passed before. Each step
passes one more subject of the graph, so the walk ends. -/
def membersFrom (g : Graph) (passed : List Node) (cell : Term) : Except ListFault (List Term) :=
  if cell = .iri rdfNil then .ok []
  else
    match cell with
    | .node n =>
      if _hn : n ∈ passed then .error .loops
      else
        match _hf : g.value? n rdfFirst with
        | none => .error .missingFirst
        | some first =>
          match g.value? n rdfRest with
          | none => .error .missingRest
          | some rest => (g.membersFrom (n :: passed) rest).map (first :: ·)
    | _ => .error .missingFirst
termination_by (g.subjectsOutside passed).length
decreasing_by exact length_subjectsOutside_cons _hn (mem_subjects_of_value? _hf)

/-- **The members of a list,** in order. -/
def members (g : Graph) (head : Term) : Except ListFault (List Term) :=
  g.membersFrom [] head

end Graph

end ShapeRules.Rdf
