import ShapeRules.Rdf.Graph
import ShapeRules.Text.Digest

/-!
# Canonical labels of blank nodes

Blank nodes are relabelled so that graphs that differ only in their labels become the same graph.
A blank node is told apart by the statements it occurs in, with itself and all other blank nodes
masked. Nodes that no other node looks like get their labels first, in the order of their digests.
The rest are told apart by walking through their neighbours: the walk issues provisional labels,
tries every order of neighbours that look alike, and keeps the smallest trace.

## Main definitions

* `Term.mapBlanks`, `Triple.mapBlanks`: relabelling
* `Issuer`: labels given out in turn
* `Labelling.neighbourDigest`: the walk through the neighbours of a node
* `Graph.canonical`: the graph with canonical labels

## Main results

* `Graph.canonical_eq_self`: the graph of a list without blank nodes stays as it is
-/

namespace ShapeRules.Rdf

/-! ## Blank nodes of terms and triples -/

/-- The label of a blank node. -/
def Node.blanks : Node → List String
  | .iri _ => []
  | .blank b => [b]

/-- The labels of the blank nodes in a term. -/
def Term.blanks : Term → List String
  | .node n => n.blanks
  | .literal _ => []
  | .triple s _ o => s.blanks ++ o.blanks

/-- The labels of the blank nodes in a triple. -/
def Triple.blanks (t : Triple) : List String :=
  t.subject.blanks ++ t.object.blanks

/-- A node relabelled. -/
def Node.mapBlanks (f : String → String) : Node → Node
  | .iri s => .iri s
  | .blank b => .blank (f b)

/-- A term with its blank nodes relabelled. -/
def Term.mapBlanks (f : String → String) : Term → Term
  | .node n => .node (n.mapBlanks f)
  | .literal l => .literal l
  | .triple s p o => .triple (s.mapBlanks f) p (o.mapBlanks f)

/-- A triple with its blank nodes relabelled. -/
def Triple.mapBlanks (f : String → String) (t : Triple) : Triple :=
  ⟨t.subject.mapBlanks f, t.predicate, t.object.mapBlanks f⟩

theorem Node.mapBlanks_eq_self {f : String → String} {n : Node} (h : n.blanks = []) :
    n.mapBlanks f = n := by
  cases n <;> simp_all [Node.blanks, Node.mapBlanks]

theorem Term.mapBlanks_eq_self {f : String → String} {t : Term} (h : t.blanks = []) :
    t.mapBlanks f = t := by
  induction t with
  | node n => simpa [Term.mapBlanks] using Node.mapBlanks_eq_self h
  | literal l => rfl
  | triple s p o ih =>
    simp only [Term.blanks, List.append_eq_nil_iff] at h
    simp [Term.mapBlanks, Node.mapBlanks_eq_self h.1, ih h.2]

theorem Triple.mapBlanks_eq_self {f : String → String} {t : Triple} (h : t.blanks = []) :
    t.mapBlanks f = t := by
  simp only [Triple.blanks, List.append_eq_nil_iff] at h
  simp [Triple.mapBlanks, Node.mapBlanks_eq_self h.1, Term.mapBlanks_eq_self h.2]

/-! ## Issuers of labels -/

/-- **Labels given out in turn:** a stem followed by the position of the node. -/
structure Issuer where
  stem : String
  /-- The nodes that have a label, in the order in which they got it. -/
  issued : List String := []

namespace Issuer

/-- The label of a node, if it has one. -/
def label? (i : Issuer) (node : String) : Option String :=
  (i.issued.idxOf? node).map fun k => i.stem ++ toString k

/-- Gives a node the next label unless it has one. -/
def issue (i : Issuer) (node : String) : Issuer :=
  if node ∈ i.issued then i else { i with issued := i.issued ++ [node] }

/-- The label of a node, which is empty if it has none. -/
def label (i : Issuer) (node : String) : String :=
  (i.label? node).getD ""

end Issuer

/-- The elements of a list without repetition. -/
def distinct (l : List String) : List String :=
  (OrderedSet.ofList l).toList

/-- An element put at every place of a list. -/
def insertions {α : Type} (a : α) : List α → List (List α)
  | [] => [[a]]
  | b :: l => (a :: b :: l) :: (insertions a l).map (b :: ·)

/-- The orders of a list. -/
def orders {α : Type} : List α → List (List α)
  | [] => [[]]
  | a :: l => (orders l).flatMap (insertions a)

/-- Values gathered by key, in the order of the keys, each value once for a key. -/
def gather (l : List (String × String)) : List (String × List String) :=
  (distinct (l.map Prod.fst)).map fun key =>
    (key, distinct ((l.filter (·.1 = key)).map Prod.snd))

/-! ## The labelling of a graph -/

/-- **A labelling under way:** the triples, the first digest of each blank node, and the labels
settled so far. -/
structure Labelling where
  triples : List Triple
  digests : List (String × String)
  settled : Issuer

namespace Labelling

/-- The triples in which a blank node occurs. -/
def occurrences (triples : List Triple) (node : String) : List Triple :=
  triples.filter (node ∈ ·.blanks)

/-- The first digest of a blank node: its statements, where it is marked and the others are masked,
in the order of their lines. -/
def firstDigest (triples : List Triple) (node : String) : String :=
  let mask := fun b => if b = node then "a" else "z"
  let lines := (occurrences triples node).map fun t => (t.mapBlanks mask).line
  Text.digest (String.join (lines.mergeSort fun a b => (compare a b).isLE))

/-- The blank nodes next to a node in a triple, each with its position. -/
def neighbours (t : Triple) : List (String × String) :=
  let at' := fun position (n : Node) => n.blanks.map (position, ·)
  let object :=
    match t.object with
    | .node n => at' "o" n
    | .literal _ => []
    | .triple s _ o =>
      at' "os" s ++
        match o with
        | .node n => at' "oo" n
        | _ => []
  at' "s" t.subject ++ object

variable (l : Labelling)

/-- How a neighbour looks: by its settled label, by its provisional label, or by its digest. -/
def look (issuer : Issuer) (node : String) : String :=
  match l.settled.label? node, issuer.label? node with
  | some label, _ => "_:" ++ label
  | none, some label => "_:" ++ label
  | none, none => (l.digests.lookup node).getD ""

/-- The neighbours of a node, gathered by how they are related to it and how they look. -/
def related (issuer : Issuer) (node : String) : List (String × List String) :=
  gather ((occurrences l.triples node).flatMap fun t =>
    ((neighbours t).filter (·.2 ≠ node)).map fun (position, r) =>
      (Text.digest (position ++ "<" ++ t.predicate ++ ">" ++ l.look issuer r), r))

/-- A walk under way: the provisional labels and the trace. -/
structure Walk where
  issuer : Issuer
  path : String := ""

/-- Passes the neighbours in the given order; the nodes that get a label here are returned to be
walked through next. -/
def pass (issuer : Issuer) (order : List String) : Walk × List String :=
  order.foldl (fun (walk, fresh) r =>
    match l.settled.label? r with
    | some label => ({ walk with path := walk.path ++ "_:" ++ label }, fresh)
    | none =>
      let next := walk.issuer.issue r
      (⟨next, walk.path ++ "_:" ++ next.label r⟩,
        if r ∈ walk.issuer.issued then fresh else fresh ++ [r])) (⟨issuer, ""⟩, [])

/-- The walk along one order of neighbours, given how to walk on from a node. -/
def along (walkOn : Issuer → String → Issuer × String) (issuer : Issuer) (order : List String) :
    Walk :=
  let (walk, fresh) := l.pass issuer order
  fresh.foldl (fun walk r =>
    let (issuer, digest) := walkOn walk.issuer r
    ⟨issuer, walk.path ++ "_:" ++ walk.issuer.label r ++ "<" ++ digest ++ ">"⟩) walk

/-- The walk with the smallest trace; the first walk is given apart. -/
def smallest (first : Walk) (rest : List Walk) : Walk :=
  rest.foldl (fun best walk => if compare walk.path best.path = .lt then walk else best) first

/-- **The walk through the neighbours of a node.** It ends with the provisional labels and a digest
of the traces. Each step inwards labels a node that had no label, so as many steps as there are
blank nodes are enough. -/
def neighbourDigest : Nat → Issuer → String → Issuer × String
  | 0, issuer, _ => (issuer, "")
  | depth + 1, issuer, node =>
    let walk := (l.related issuer node).foldl (fun (walk : Walk) (key, nodes) =>
      let walks := (orders nodes).map (l.along (neighbourDigest depth) walk.issuer)
      let best := smallest (walks.headD ⟨walk.issuer, ""⟩) walks.tail
      ⟨best.issuer, walk.path ++ key ++ best.path⟩) (⟨issuer, ""⟩ : Walk)
    (walk.issuer, Text.digest walk.path)

/-- Settles the labels of the nodes of an issuer, in the order in which they were issued. -/
def settle (nodes : List String) : Labelling :=
  { l with settled := nodes.foldl Issuer.issue l.settled }

/-- Settles the labels of a group of nodes with the same digest. -/
def settleGroup (group : List String) : Labelling :=
  let depth := l.digests.length + 1
  let results := (group.filter (· ∉ l.settled.issued)).map fun node =>
    l.neighbourDigest depth (Issuer.issue ⟨"b", []⟩ node) node
  let ordered := results.mergeSort fun a b => (compare a.2 b.2).isLE
  ordered.foldl (fun l r => l.settle r.1.issued) l

/-- The labelling of the blank nodes of some triples, before any label is settled. -/
def start (triples : List Triple) : Labelling :=
  let nodes := distinct (triples.flatMap Triple.blanks)
  ⟨triples, nodes.map fun b => (b, firstDigest triples b), ⟨"c14n", []⟩⟩

/-- The groups of blank nodes with the same digest, in the order of the digests. -/
def groups : List (List String) :=
  (gather (l.digests.map fun (b, d) => (d, b))).map Prod.snd

/-- The complete labelling: nodes alone in their group first, then the other groups. -/
def complete : Labelling :=
  let alone := l.groups.filter (·.length = 1)
  let others := l.groups.filter (·.length ≠ 1)
  others.foldl settleGroup (l.settle alone.flatten)

end Labelling

/-- **The graph with canonical labels.** -/
def Graph.canonical (g : Graph) : Graph :=
  let labels := (Labelling.start g.toSet.toList).complete.settled
  ofSet (g.toSet.map (Triple.mapBlanks labels.label))

/-- A graph without blank nodes keeps its triples. -/
theorem Graph.canonical_eq_ofSet {g : Graph} (h : ∀ t ∈ g, t.blanks = []) :
    g.canonical = ofSet g.toSet := by
  have key : ∀ f, g.toSet.map (Triple.mapBlanks f) = g.toSet := by
    intro f
    refine OrderedSet.ext fun t => ?_
    rw [OrderedSet.mem_map]
    constructor
    · rintro ⟨u, hu, rfl⟩
      rwa [Triple.mapBlanks_eq_self (h u (mem_toSet.1 hu))]
    · intro ht
      exact ⟨t, ht, Triple.mapBlanks_eq_self (h t (mem_toSet.1 ht))⟩
  simp [Graph.canonical, key]

/-- The graph of a list without blank nodes stays as it is. -/
theorem Graph.canonical_eq_self {l : List Triple} (h : ∀ t ∈ ofList l, t.blanks = []) :
    (ofList l).canonical = ofList l := by
  rw [canonical_eq_ofSet h, toSet_ofList, ofList]

end ShapeRules.Rdf
