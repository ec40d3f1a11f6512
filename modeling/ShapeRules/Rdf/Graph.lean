import ShapeRules.OrderedSet
import ShapeRules.Rdf.NTriples

/-!
# Graphs

A graph is a finite set of triples, which are scanned in some order. The operations keep them in
increasing order, but nothing is read off that order: the values of a property of a node are listed
in the order of their line forms, and the smallest of them is the value where one is wanted.

## Main definitions

* `Graph`: a set of triples with the order in which they are scanned
* `Graph.ofSet`, `Graph.toSet`: the graph of a set, and the set of a graph
* `Graph.values`: the values of a property of a node, in order
* `Graph.value?`: the smallest of them

## Main results

* `Graph.mem_values`: a term is among the values of a property of a node exactly if the triple is
  in the graph
-/

namespace ShapeRules.Rdf

/-- **A finite set of triples,** with the order in which they are scanned. -/
structure Graph where
  /-- The triples, in the order of a scan. -/
  triples : List Triple
  /-- Each triple is scanned once. -/
  nodup : triples.Nodup
  deriving DecidableEq

namespace Graph

/-- The graph of a set of triples, scanned in increasing order. -/
def ofSet (s : OrderedSet Triple) : Graph := ⟨s.toList, s.nodup⟩

/-- The set of the triples of a graph. -/
def toSet (g : Graph) : OrderedSet Triple := .ofList g.triples

/-- The graph of a list of triples. -/
def ofList (l : List Triple) : Graph := ofSet (.ofList l)

/-- The graph without triples. -/
def empty : Graph := ofSet ∅

/-- Adds a triple. -/
def insert (g : Graph) (t : Triple) : Graph := ofSet (g.toSet.insert t)

/-- Removes a triple. -/
def erase (g : Graph) (t : Triple) : Graph := ofSet (g.toSet.erase t)

/-- The number of triples. -/
def size (g : Graph) : Nat := g.triples.length

instance : Membership Triple Graph := ⟨fun g t => t ∈ g.triples⟩

theorem mem_def {g : Graph} {t : Triple} : t ∈ g ↔ t ∈ g.triples := Iff.rfl

@[simp]
theorem mem_ofSet {t : Triple} {s : OrderedSet Triple} : t ∈ ofSet s ↔ t ∈ s := Iff.rfl

@[simp]
theorem mem_toSet {g : Graph} {t : Triple} : t ∈ g.toSet ↔ t ∈ g :=
  OrderedSet.mem_ofList

@[simp]
theorem mem_ofList {t : Triple} {l : List Triple} : t ∈ ofList l ↔ t ∈ l :=
  OrderedSet.mem_ofList

theorem toSet_ofList (l : List Triple) : (ofList l).toSet = .ofList l :=
  OrderedSet.ext fun _ => by simp

@[simp]
theorem mem_insert {g : Graph} {t u : Triple} : u ∈ g.insert t ↔ u = t ∨ u ∈ g := by
  simp [insert]

@[simp]
theorem mem_erase {g : Graph} {t u : Triple} : u ∈ g.erase t ↔ u ≠ t ∧ u ∈ g := by
  simp [erase]

/-- Puts a term before the first one whose line form is not smaller. -/
def insertByText (t : Term) : List Term → List Term
  | [] => [t]
  | u :: l => if (compare t.text u.text).isLE then t :: u :: l else u :: insertByText t l

/-- The terms of a list in the order of their line forms. -/
def sortByText (l : List Term) : List Term :=
  l.foldr insertByText []

@[simp]
theorem mem_insertByText {t x : Term} {l : List Term} :
    x ∈ insertByText t l ↔ x = t ∨ x ∈ l := by
  induction l with
  | nil => simp [insertByText]
  | cons u l ih =>
    simp only [insertByText]
    split
    · simp
    · simp only [List.mem_cons, ih]
      exact or_left_comm

@[simp]
theorem mem_sortByText {x : Term} {l : List Term} : x ∈ sortByText l ↔ x ∈ l := by
  induction l with
  | nil => simp [sortByText]
  | cons t l ih => simpa [sortByText] using or_congr_right ih

/-- The triples with a given predicate, in the order of a scan. -/
def withPredicate (g : Graph) (p : String) : List Triple :=
  g.triples.filter (·.predicate = p)

/-- **The values of a property of a node,** in the order of their line forms. -/
def values (g : Graph) (s : Node) (p : String) : List Term :=
  sortByText ((g.triples.filter fun t => t.subject = s ∧ t.predicate = p).map Triple.object)

/-- The smallest value of a property of a node. -/
def value? (g : Graph) (s : Node) (p : String) : Option Term :=
  (g.values s p).head?

@[simp]
theorem mem_withPredicate {g : Graph} {p : String} {t : Triple} :
    t ∈ g.withPredicate p ↔ t ∈ g ∧ t.predicate = p := by
  simp [withPredicate, mem_def]

theorem mem_values {g : Graph} {s : Node} {p : String} {o : Term} :
    o ∈ g.values s p ↔ (⟨s, p, o⟩ : Triple) ∈ g := by
  simp only [values, mem_sortByText, List.mem_map, List.mem_filter, decide_eq_true_eq, mem_def]
  constructor
  · rintro ⟨⟨s', p', o'⟩, ⟨ht, rfl, rfl⟩, rfl⟩
    exact ht
  · intro h
    exact ⟨_, ⟨h, rfl, rfl⟩, rfl⟩

theorem mem_of_value? {g : Graph} {s : Node} {p : String} {o : Term} (h : g.value? s p = some o) :
    (⟨s, p, o⟩ : Triple) ∈ g :=
  mem_values.1 (List.mem_of_mem_head? h)

/-- The subjects of the triples, in the order of a scan and with repetition. -/
def subjects (g : Graph) : List Node :=
  g.triples.map Triple.subject

theorem mem_subjects {g : Graph} {s : Node} : s ∈ g.subjects ↔ ∃ t ∈ g, t.subject = s := by
  simp [subjects, mem_def]

end Graph

end ShapeRules.Rdf
