import ShapeRules.Proofs.Chains

/-!
# Which terms are shapes

A graph designates a term as a shape in one of four ways, each of which can be seen at one triple,
or at one triple and the list that it leads to. The shapes of a graph are exactly the terms that it
designates. They come in the order of their identifiers, IRIs before blank nodes, which is strict
since the order tells different identifiers apart.

## Main definitions

* `Rdf.Node.Before`: the order of identifiers
* `Shacl.Designates`: the four ways to designate a shape

## Main results

* `Rdf.Node.compare_eq_lt_iff`: the order of nodes is that of identifiers
* `Shacl.mem_discover_iff_designates`: what is discovered is what is designated
* `Shacl.ShapeTable.map_id_ofLabelled`: the identifiers of the shapes of a graph, in order
* `shapes_are_designated`: the shapes of a graph are the terms that it designates, in order
-/

namespace ShapeRules

open Rdf Shacl

namespace Rdf

/-- **The order of identifiers:** IRIs before blank nodes, and each kind by its text, code point by
code point. -/
def Node.Before : Node → Node → Prop
  | .iri a, .iri b => a < b
  | .iri _, .blank _ => True
  | .blank _, .iri _ => False
  | .blank a, .blank b => a < b

theorem Node.compare_eq_lt_iff {m n : Node} : compare m n = .lt ↔ m.Before n := by
  have htext : ∀ kind a b : String, compare [kind, a] [kind, b] = .lt ↔ a < b := by
    intro kind a b
    simp only [List.compare_eq_compareLex, List.compareLex_cons_cons, Std.ReflCmp.compare_self,
      Ordering.then_eq, Ordering.eq_then]
    exact compareOfLessAndEq_eq_lt
  -- the kind comes first in the key, so it decides where the kinds differ
  have hkind : ∀ a b, compare (Node.iri a) (.blank b) = .lt := by
    intro a b
    have h : compare "0" "1" = .lt := by decide
    show compare ["0", a] ["1", b] = .lt
    simp [h]
  cases m with
  | iri a =>
    cases n with
    | iri b => exact htext "0" a b
    | blank b => exact iff_of_true (hkind a b) trivial
  | blank a =>
    cases n with
    | iri b =>
      refine iff_of_false (fun h => ?_) id
      cases h.symm.trans (Std.OrientedCmp.gt_iff_lt.2 (hkind b a))
    | blank b => exact htext "1" a b

/-! ## A single blank node -/

section Single

variable {triples : List Triple} {b : String}

theorem Labelling.groups_start_of_single (h : distinct (triples.flatMap Triple.blanks) = [b]) :
    (start triples).groups = [[b]] := by
  have hsingle : ∀ x, distinct [x] = [x] := fun _ => rfl
  simp [start, groups, h, gather, hsingle]

/-- The only blank node of some triples gets the first label, whatever its digest. -/
theorem Labelling.label_of_single (h : distinct (triples.flatMap Triple.blanks) = [b]) :
    (start triples).complete.settled.label b = "c14n0" := by
  have hsettled : (start triples).complete.settled = ⟨"c14n", [b]⟩ := by
    rw [complete, groups_start_of_single h]
    rfl
  rw [hsettled, Issuer.label, Issuer.label?, List.idxOf?_cons, if_pos (beq_self_eq_true b)]
  rfl

end Single

end Rdf

namespace Shacl

variable {g : Graph} {ids : OrderedSet Node} {t : ShapeTable}

/-- **The ways in which a graph designates a term as a shape.** -/
inductive Designates (g : Graph) : Term → Prop
  /-- It is declared to be of a class of shapes. -/
  | declared {n : Node} {c : Vocab} (hc : c ∈ [Vocab.nodeShape, .propertyShape])
      (h : (⟨n, rdfType, .iri c.iri⟩ : Triple) ∈ g) : Designates g (.node n)
  /-- It has a target or a path. -/
  | subject {n : Node} {v : Vocab} {o : Term}
      (hv : v ∈ [Vocab.targetNode, .targetClass, .targetObjectsOf, .targetSubjectsOf, .path])
      (h : (⟨n, v.iri, o⟩ : Triple) ∈ g) : Designates g (.node n)
  /-- It is the value of a property that nests shapes. -/
  | value {s : Node} {v : Vocab} {x : Term}
      (hv : v ∈ [Vocab.property, .node, .not, .qualifiedValueShape])
      (h : (⟨s, v.iri, x⟩ : Triple) ∈ g) : Designates g x
  /-- It is a member of a list that is the value of a logical property. -/
  | member {s : Node} {v : Vocab} {head x : Term} {path : List (Node × Term)}
      (hv : v ∈ [Vocab.and, .or, .xone]) (h : (⟨s, v.iri, head⟩ : Triple) ∈ g)
      (hpath : g.Leads head path (.iri rdfNil)) (hx : x ∈ path.map Prod.snd) : Designates g x

/-- Where shapes can be discovered, only nodes are designated. -/
theorem Designates.exists_node (h : discover g = .ok ids) {x : Term} (hx : Designates g x) :
    ∃ n, x = .node n := by
  obtain ⟨hnested, hlisted⟩ := exists_discover_eq_ok_iff.1 ⟨ids, h⟩
  cases hx with
  | declared hc ht => exact ⟨_, rfl⟩
  | subject hv ht => exact ⟨_, rfl⟩
  | value hv ht => exact hnested _ hv _ ht rfl
  | member hv ht hpath hx =>
    obtain ⟨nodes, hnodes⟩ := hlisted _ hv _ ht rfl
    have hmembers := Graph.members_eq_ok_iff.2 ⟨_, hpath, rfl⟩
    rw [Except.ok.inj (hmembers.symm.trans hnodes)] at hx
    obtain ⟨n, -, rfl⟩ := List.mem_map.1 hx
    exact ⟨n, rfl⟩

/-- **What is discovered is what is designated.** -/
theorem mem_discover_iff_designates (h : discover g = .ok ids) {n : Node} :
    n ∈ ids ↔ Designates g (.node n) := by
  rw [mem_discover_iff h]
  constructor
  · rintro (⟨c, hc, ht⟩ | ⟨v, hv, o, ht⟩ | ⟨v, hv, s, ht⟩ | ⟨v, hv, s, o, members, ht, hm, hn⟩)
    · exact .declared hc ht
    · exact .subject hv ht
    · exact .value hv ht
    · obtain ⟨path, hpath, rfl⟩ := Graph.members_eq_ok_iff.1 hm
      exact .member hv ht hpath hn
  · intro hx
    cases hx with
    | declared hc ht => exact .inl ⟨_, hc, ht⟩
    | subject hv ht => exact .inr (.inl ⟨_, hv, _, ht⟩)
    | value hv ht => exact .inr (.inr (.inl ⟨_, hv, _, ht⟩))
    | member hv ht hpath hx =>
      exact .inr (.inr (.inr ⟨_, hv, _, _, _, ht, Graph.members_eq_ok_iff.2 ⟨_, hpath, rfl⟩, hx⟩))

/-- Shapes that are read for identifiers have these identifiers. -/
theorem map_id_of_forall₂ {ids : List Node} {shapes : List Shape}
    (h : List.Forall₂ (fun id s => readShape g id = .ok s) ids shapes) :
    shapes.map Shape.id = ids := by
  induction h with
  | nil => rfl
  | cons hs _ ih => rw [List.map_cons, ih, (readShape_eq_ok hs).1]

/-- **The identifiers of the shapes of a graph** are those that are discovered, in order. -/
theorem ShapeTable.map_id_ofLabelled (h : ofLabelled g = .ok t) :
    ∃ ids, discover g = .ok ids ∧ t.shapes.map Shape.id = ids.toList := by
  obtain ⟨ids, hids, h⟩ := Except.bind_eq_ok_iff.1 h
  obtain ⟨shapes, hshapes, h⟩ := Except.bind_eq_ok_iff.1 h
  obtain rfl := Except.ok.inj h
  refine ⟨ids, hids, ?_⟩
  have hmap := map_id_of_forall₂ (Except.mapM_eq_ok_iff.1 hshapes)
  -- what is discovered has no repetition, so the table keeps all that is read
  rw [shapes_ofList (hmap ▸ ids.nodup), hmap]

end Shacl

/-- **The shapes of a graph are the terms that it designates,** after its blank nodes were
relabelled. They come in the order of their identifiers, IRIs before blank nodes and then by text,
each of them once, and the size of the table is their number. -/
theorem shapes_are_designated {g : Graph} {t : ShapeTable} (h : ShapeTable.ofGraph g = .ok t) :
    (∀ x : Term, (∃ s ∈ t.shapes, .node s.id = x) ↔ Designates g.canonical x) ∧
    (t.shapes.map Shape.id).Pairwise Node.Before ∧ (t.shapes.map Shape.id).Nodup ∧
    ∃ ids : Finset Term, (∀ x, x ∈ ids ↔ Designates g.canonical x) ∧ t.size = ids.card := by
  obtain ⟨ids, hids, hmap⟩ := ShapeTable.map_id_ofLabelled h
  have hmem : ∀ x : Term, (∃ s ∈ t.shapes, .node s.id = x) ↔ Designates g.canonical x := by
    intro x
    constructor
    · rintro ⟨s, hs, rfl⟩
      rw [← mem_discover_iff_designates hids, OrderedSet.mem_def, ← hmap]
      exact List.mem_map_of_mem hs
    · intro hx
      obtain ⟨n, rfl⟩ := hx.exists_node hids
      rw [← mem_discover_iff_designates hids, OrderedSet.mem_def, ← hmap] at hx
      obtain ⟨s, hs, rfl⟩ := List.mem_map.1 hx
      exact ⟨s, hs, rfl⟩
  have hnodup : (t.shapes.map Shape.id).Nodup := hmap ▸ ids.nodup
  refine ⟨hmem, ?_, hnodup, (t.shapes.map (Term.node ∘ Shape.id)).toFinset, ?_, ?_⟩
  · rw [hmap]
    exact ids.increasing.imp Node.compare_eq_lt_iff.1
  · intro x
    rw [← hmem, List.mem_toFinset, List.mem_map]
    rfl
  · have hterms : (t.shapes.map (Term.node ∘ Shape.id)).Nodup := by
      rw [← List.map_map]
      exact hnodup.map fun _ _ => Term.node.inj
    rw [List.toFinset_card_of_nodup hterms, List.length_map, t.size_eq]

/-- A shape that is declared, one with a path, one in a list, and a nested blank node; the node that
refers to them is not designated itself. -/
def designating : Graph := .ofList
  [⟨.iri "Z", rdfType, .iri Vocab.nodeShape.iri⟩, ⟨.iri "a", Vocab.path.iri, .iri "p"⟩,
    ⟨.iri "l", rdfFirst, .iri "m"⟩, ⟨.iri "l", rdfRest, .iri rdfNil⟩,
    ⟨.iri "s", Vocab.or.iri, .iri "l"⟩, ⟨.iri "s", Vocab.property.iri, .blank "x"⟩]

/-- Its table. -/
def designatingTable : ShapeTable := .ofList
  [{ id := .iri "Z" }, { id := .iri "a", isProperty := true }, { id := .iri "m" },
    { id := .blank "c14n0" }]

theorem ofGraph_designating : ShapeTable.ofGraph designating = .ok designatingTable := by
  have hset : designating.toSet.toList =
      [⟨.iri "l", rdfFirst, .iri "m"⟩, ⟨.iri "l", rdfRest, .iri rdfNil⟩,
        ⟨.iri "Z", rdfType, .iri Vocab.nodeShape.iri⟩, ⟨.iri "s", Vocab.or.iri, .iri "l"⟩,
        ⟨.iri "a", Vocab.path.iri, .iri "p"⟩, ⟨.iri "s", Vocab.property.iri, .blank "x"⟩] := by
    decide +kernel
  -- the digest of the blank node is never evaluated
  have hlabel := Labelling.label_of_single
    (by rw [hset]; rfl : distinct (designating.toSet.toList.flatMap Triple.blanks) = ["x"])
  have hcanonical : designating.canonical = .ofList
      (designating.toSet.toList.map (Triple.mapBlanks fun _ => "c14n0")) := by
    show Graph.ofSet (.ofList (designating.toSet.toList.map _)) = _
    rw [hset] at hlabel ⊢
    simp only [List.map, Triple.mapBlanks, Node.mapBlanks, Term.mapBlanks, hlabel]
    rfl
  rw [ShapeTable.ofGraph, hcanonical, hset]
  decide +kernel

theorem shapes_are_designated_designating :
    ShapeTable.ofGraph designating = .ok designatingTable ∧
    Designates designating.canonical (.iri "m") ∧
    Designates designating.canonical (.blank "c14n0") ∧
    ¬ Designates designating.canonical (.iri "s") ∧
    [Node.iri "Z", .iri "a", .iri "m", .blank "c14n0"].Pairwise Node.Before ∧
    ∃ ids : Finset Term, (∀ x, x ∈ ids ↔ Designates designating.canonical x) ∧ ids.card = 4 := by
  obtain ⟨hmem, hordered, -, ids, hids, hsize⟩ := shapes_are_designated ofGraph_designating
  refine ⟨ofGraph_designating, (hmem _).1 (by decide), (hmem _).1 (by decide), ?_, hordered, ids,
    hids, hsize.symm⟩
  intro h
  exact absurd ((hmem _).2 h) (by decide)

end ShapeRules
