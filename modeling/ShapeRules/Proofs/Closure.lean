import ShapeRules.Compile.FromGraph
import ShapeRules.Proofs.Reading
import ShapeRules.Proofs.Refusals

/-!
# The shapes of a graph refer to each other only

Discovery looks at the triples of a whole graph, one property after the other, and reading looks at
the properties of one node. They agree: whatever a shape that is read off a graph mentions has been
discovered and is a shape of the same graph. A graph whose shapes can be read is therefore never
refused for an unknown shape.

## Main results

* `Shacl.mem_discover_iff`: which nodes are discovered
* `Shacl.ShapeTable.exists_of_mem_discover`: what is discovered becomes a shape
* `Shacl.mem_discover_of_mem_shapes`: what a constraint mentions is discovered
* `graph_references_closed`: the shapes of a graph refer to each other only
-/

namespace ShapeRules

namespace Shacl

open Rdf

variable {g : Graph} {ids : OrderedSet Node} {n : Node}

/-! ## What is discovered -/

theorem mem_declaredShapes :
    n ∈ declaredShapes g ↔
      ∃ c ∈ [Vocab.nodeShape, .propertyShape], (⟨n, rdfType, .iri c.iri⟩ : Triple) ∈ g := by
  simp only [declaredShapes, List.mem_flatMap, List.mem_map, List.mem_filter,
    Graph.mem_withPredicate, decide_eq_true_eq]
  constructor
  · rintro ⟨c, hc, ⟨s, p, o⟩, ⟨⟨ht, rfl⟩, rfl⟩, rfl⟩
    exact ⟨c, hc, ht⟩
  · rintro ⟨c, hc, ht⟩
    exact ⟨c, hc, _, ⟨⟨ht, rfl⟩, rfl⟩, rfl⟩

theorem mem_targetedShapes :
    n ∈ targetedShapes g ↔
      ∃ v ∈ [Vocab.targetNode, .targetClass, .targetObjectsOf, .targetSubjectsOf, .path],
        ∃ o, (⟨n, v.iri, o⟩ : Triple) ∈ g := by
  simp only [targetedShapes, List.mem_flatMap, List.mem_map, Graph.mem_withPredicate]
  constructor
  · rintro ⟨v, hv, ⟨s, p, o⟩, ⟨ht, rfl⟩, rfl⟩
    exact ⟨v, hv, o, ht⟩
  · rintro ⟨v, hv, o, ht⟩
    exact ⟨v, hv, _, ⟨ht, rfl⟩, rfl⟩

theorem mem_of_nestedShapes {v : Vocab} {nodes : List Node} (h : nestedShapes g v = .ok nodes) :
    n ∈ nodes ↔ ∃ s, (⟨s, v.iri, .node n⟩ : Triple) ∈ g := by
  constructor
  · intro hn
    obtain ⟨⟨s, p, o⟩, ht, ho⟩ := Except.exists_part_of_mem h hn
    obtain ⟨ht, rfl⟩ := Graph.mem_withPredicate.1 ht
    obtain rfl := reference_eq_ok_iff.1 ho
    exact ⟨s, ht⟩
  · rintro ⟨s, ht⟩
    obtain ⟨n', hn', ho⟩ := Except.exists_result_of_mem h (Graph.mem_withPredicate.2 ⟨ht, rfl⟩)
    obtain rfl := Except.ok.inj ho
    exact hn'

theorem mem_of_listedShapes {v : Vocab} {nodes : List Node} (h : listedShapes g v = .ok nodes) :
    n ∈ nodes ↔ ∃ s o members, (⟨s, v.iri, o⟩ : Triple) ∈ g ∧ g.members o = .ok members ∧
      .node n ∈ members := by
  obtain ⟨lists, hlists, h⟩ := Except.bind_eq_ok_iff.1 h
  obtain rfl := Except.ok.inj h
  rw [Except.mem_flatten_iff hlists]
  simp only [referenceList_eq_ok_iff, Graph.mem_withPredicate]
  constructor
  · rintro ⟨⟨s, p, o⟩, ⟨ht, rfl⟩, nodes, hmembers, hn⟩
    exact ⟨s, o, _, ht, hmembers, List.mem_map_of_mem hn⟩
  · rintro ⟨s, o, members, ht, hmembers, hn⟩
    -- every member of the list could be referred to, since discovery has succeeded
    obtain ⟨nodes, -, hnodes⟩ :=
      Except.exists_result_of_mem hlists (Graph.mem_withPredicate.2 ⟨ht, rfl⟩)
    rw [referenceList_eq_ok_iff] at hnodes
    obtain rfl := Except.ok.inj (hmembers.symm.trans hnodes)
    refine ⟨_, ⟨ht, rfl⟩, nodes, hmembers, ?_⟩
    simpa using hn

/-- **Which nodes are discovered:** those declared to be shapes, the subjects of targets and paths,
the values of properties that nest shapes, and the members of the lists of logical constraints. -/
theorem mem_discover_iff (h : discover g = .ok ids) :
    n ∈ ids ↔
      (∃ c ∈ [Vocab.nodeShape, .propertyShape], (⟨n, rdfType, .iri c.iri⟩ : Triple) ∈ g) ∨
      (∃ v ∈ [Vocab.targetNode, .targetClass, .targetObjectsOf, .targetSubjectsOf, .path],
        ∃ o, (⟨n, v.iri, o⟩ : Triple) ∈ g) ∨
      (∃ v ∈ nestingProperties, ∃ s, (⟨s, v.iri, .node n⟩ : Triple) ∈ g) ∨
      ∃ v ∈ logicalProperties, ∃ s o members, (⟨s, v.iri, o⟩ : Triple) ∈ g ∧
        g.members o = .ok members ∧ .node n ∈ members := by
  obtain ⟨nested, hnested, h⟩ := Except.bind_eq_ok_iff.1 h
  obtain ⟨listed, hlisted, h⟩ := Except.bind_eq_ok_iff.1 h
  obtain rfl := Except.ok.inj h
  have hn : n ∈ nested.flatten ↔
      ∃ v ∈ nestingProperties, ∃ s, (⟨s, v.iri, .node n⟩ : Triple) ∈ g := by
    rw [Except.mem_flatten_iff hnested]
    refine exists_congr fun v => and_congr_right fun hv => ?_
    obtain ⟨nodes, -, hnodes⟩ := Except.exists_result_of_mem hnested hv
    rw [← mem_of_nestedShapes hnodes, hnodes]
    simp
  have hl : n ∈ listed.flatten ↔ ∃ v ∈ logicalProperties, ∃ s o members,
      (⟨s, v.iri, o⟩ : Triple) ∈ g ∧ g.members o = .ok members ∧ .node n ∈ members := by
    rw [Except.mem_flatten_iff hlisted]
    refine exists_congr fun v => and_congr_right fun hv => ?_
    obtain ⟨nodes, -, hnodes⟩ := Except.exists_result_of_mem hlisted hv
    rw [← mem_of_listedShapes hnodes, hnodes]
    simp
  rw [OrderedSet.mem_ofList, List.mem_append, List.mem_append, List.mem_append, or_assoc, or_assoc,
    mem_declaredShapes, mem_targetedShapes, hn, hl]

/-- What is discovered in a graph becomes a shape. -/
theorem ShapeTable.exists_of_mem_discover {t : ShapeTable} (h : ofGraph g = .ok t)
    (hids : discover g.canonical = .ok ids) (hn : n ∈ ids) :
    ∃ s, t.get? n = some s ∧ s.id = n := by
  obtain ⟨ids', hids', h⟩ := Except.bind_eq_ok_iff.1 h
  obtain rfl := Except.ok.inj (hids.symm.trans hids')
  obtain ⟨shapes, hshapes, h⟩ := Except.bind_eq_ok_iff.1 h
  obtain rfl := Except.ok.inj h
  obtain ⟨s, hs, hread⟩ := Except.exists_result_of_mem hshapes hn
  obtain ⟨rfl, -⟩ := readShape_eq_ok hread
  -- a later shape with the same identifier would take its place, but not its identifier
  have hmem : s.id ∈ (ofList shapes).shapes.map Shape.id :=
    mem_map_id_ofList.2 (List.mem_map_of_mem hs)
  obtain ⟨s', hs', hid⟩ := List.mem_map.1 hmem
  exact ⟨s', get?_eq_some_iff.2 ⟨hs', hid⟩, hid⟩

/-! ## What constraints mention -/

theorem Constraint.parameter_mem_of_mem_shapes {c : Constraint} (hn : n ∈ c.shapes) :
    c.parameter ∈ nestingProperties ∨ c.parameter ∈ logicalProperties := by
  cases c with
  | not shapes => exact .inl (by simp [parameter, nestingProperties])
  | property shapes => exact .inl (by simp [parameter, nestingProperties])
  | node shapes => exact .inl (by simp [parameter, nestingProperties])
  | qualifiedValueShape shapes min max disjoint =>
    exact .inl (by simp [parameter, nestingProperties])
  | and shapes => exact .inr (by simp [parameter, logicalProperties])
  | or shapes => exact .inr (by simp [parameter, logicalProperties])
  | xone shapes => exact .inr (by simp [parameter, logicalProperties])
  | _ => cases hn

/-- **What a constraint mentions is discovered,** whichever shape the constraint is read for. -/
theorem mem_discover_of_mem_shapes (h : discover g = .ok ids) {id : Node} {cs : List Constraint}
    (hcs : readConstraints g id = .ok cs) {c : Constraint} (hc : c ∈ cs) (hn : n ∈ c.shapes) :
    n ∈ ids := by
  have hfilter : c ∈ cs.filter (·.parameter = c.parameter) :=
    List.mem_filter.2 ⟨hc, decide_eq_true rfl⟩
  rw [mem_discover_iff h]
  rcases c.parameter_mem_of_mem_shapes hn with hv | hv
  · -- the values that reading lists are the objects that discovery lists
    rcases nesting_constraints hcs hv with ⟨-, hnil⟩ | ⟨c', hc', hvalues⟩
    · rw [hnil] at hfilter
      cases hfilter
    · rw [hc', List.mem_singleton] at hfilter
      rw [← hfilter] at hvalues
      have hvalue : Term.node n ∈ g.values id c.parameter.iri :=
        hvalues ▸ List.mem_map_of_mem hn
      exact .inr (.inr (.inl ⟨_, hv, id, Graph.mem_values.1 hvalue⟩))
  · -- the list that reading takes is one of the lists that discovery walks
    rcases logical_constraints hcs hv with ⟨-, hnil⟩ | ⟨c', head, hhead, hc', hmembers⟩
    · rw [hnil] at hfilter
      cases hfilter
    · rw [hc', List.mem_singleton] at hfilter
      rw [← hfilter] at hmembers
      exact .inr (.inr (.inr ⟨_, hv, id, head, _, Graph.mem_of_value? hhead, hmembers,
        List.mem_map_of_mem hn⟩))

theorem Constraint.shapes_of_mem_references {c : Constraint} (hn : n ∈ c.references) :
    n ∈ c.shapes := by
  cases c with
  | property shapes => exact hn
  | node shapes => exact hn
  | qualifiedValueShape shapes min max disjoint => exact hn
  | _ => cases hn

end Shacl

/-! ## Graphs without unknown shapes -/

open Rdf Shacl Compile

/-- The outcome of a graph is that of its table, if it has one. -/
theorem Compile.result_compileGraph (g : Graph) (options : Options) :
    (compileGraph g options).result =
      match ShapeTable.ofGraph g with
      | .error f => .error (.fault f)
      | .ok t => (compile t.source options).result.mapError .refusal := by
  rw [compileGraph, Traced.result_bind]
  cases ShapeTable.ofGraph g with
  | error f => rfl
  | ok t => rfl

/-- A graph is refused when one of the shapes of its table is. -/
theorem Compile.compileGraph_eq_refusal {g : Graph} {options : Options} {e : Refusal}
    (h : (compileGraph g options).result = .error (.refusal e)) :
    ∃ t, ShapeTable.ofGraph g = .ok t ∧ (compile t.source options).result = .error e := by
  rw [result_compileGraph] at h
  cases ht : ShapeTable.ofGraph g with
  | error f =>
    rw [ht] at h
    cases h
  | ok t =>
    rw [ht] at h
    obtain ⟨e', hcompile, he⟩ := Except.mapError_eq_error_iff.1 h
    cases he
    exact ⟨t, rfl, hcompile⟩

/-- **The shapes of a graph refer to each other only.** Each shape that a constraint of one of them
mentions is one of them, so the graph is never refused for an unknown shape; nor is it ever refused
for a name. -/
theorem graph_references_closed (g : Graph) :
    (∀ t, ShapeTable.ofGraph g = .ok t →
      ∀ s ∈ t.shapes, ∀ c ∈ s.constraints, ∀ n ∈ c.shapes, ∃ s', t.get? n = some s' ∧ s'.id = n) ∧
    ∀ options e, (compileGraph g options).result = .error (.refusal e) →
      (∀ name r, e ≠ .unknownShape name r) ∧ ∀ name, e ≠ .malformedName name := by
  have hclosed : ∀ t, ShapeTable.ofGraph g = .ok t →
      ∀ s ∈ t.shapes, ∀ c ∈ s.constraints, ∀ n ∈ c.shapes,
        ∃ s', t.get? n = some s' ∧ s'.id = n := by
    intro t ht s hs c hc n hn
    obtain ⟨ids, hids, hread⟩ := ShapeTable.of_mem_ofGraph ht
    have hcs := (readShape_eq_ok (hread s hs).2).2
    exact ShapeTable.exists_of_mem_discover ht hids (mem_discover_of_mem_shapes hids hcs hc hn)
  refine ⟨hclosed, ?_⟩
  intro options e h
  obtain ⟨t, ht, hcompile⟩ := compileGraph_eq_refusal h
  obtain ⟨c, hmade, hfault⟩ := exists_made_atFault hcompile
  refine ⟨?_, ?_⟩
  · rintro name r rfl
    cases hfault with
    | unknown hr hunresolved =>
      -- the call is for a shape of the table, and so is what it refers to
      have hshape : c.shape ∈ t.shapes := hmade.shape_mem.elim id ShapeTable.mem_known_source.1
      obtain ⟨k, hk, hrk⟩ := List.mem_flatMap.1 hr
      obtain ⟨s', hs', -⟩ :=
        hclosed t ht c.shape hshape k hk r (Constraint.shapes_of_mem_references hrk)
      rw [ShapeTable.resolve_source, hs'] at hunresolved
      cases hunresolved
  · rintro name rfl
    cases hfault

/-- A shape that mentions shapes which nothing declares, and that nests itself. -/
def undeclared : Graph := .ofList
  [⟨.iri "l", rdfFirst, .iri "b"⟩, ⟨.iri "l", rdfRest, .iri rdfNil⟩,
    ⟨.iri "s", Vocab.not.iri, .iri "a"⟩, ⟨.iri "s", Vocab.or.iri, .iri "l"⟩,
    ⟨.iri "s", Vocab.property.iri, .iri "s"⟩]

/-- Its table. -/
def undeclaredTable : ShapeTable := .ofList
  [{ id := .iri "a" }, { id := .iri "b" },
    { id := .iri "s"
      constraints := [.not [.iri "a"], .or [.iri "b"], .property [.iri "s"]] }]

theorem ofGraph_undeclared : ShapeTable.ofGraph undeclared = .ok undeclaredTable := by
  decide +kernel

theorem graph_references_closed_undeclared :
    (ShapeTable.ofGraph undeclared = .ok undeclaredTable ∧
      ∃ s ∈ undeclaredTable.shapes, .or [.iri "b"] ∈ s.constraints ∧
        ∃ s', undeclaredTable.get? (.iri "b") = some s' ∧ s'.id = .iri "b") ∧
    ∃ e, (compileGraph undeclared {}).result = .error (.refusal e) ∧
      (∀ name r, e ≠ .unknownShape name r) ∧ ∀ name, e ≠ .malformedName name := by
  obtain ⟨hclosed, hrefusal⟩ := graph_references_closed undeclared
  have he : (compileGraph undeclared {}).result =
      .error (.refusal (.cyclicReference "shape1" (.iri "s"))) := by
    rw [result_compileGraph, ofGraph_undeclared]
    decide +kernel
  refine ⟨⟨ofGraph_undeclared, undeclaredTable.shapes[2], by decide, by decide, ?_⟩, _, he, ?_⟩
  · exact hclosed _ ofGraph_undeclared undeclaredTable.shapes[2] (by decide) (.or [.iri "b"])
      (by decide) (.iri "b") (by decide)
  · exact hrefusal _ _ he

end ShapeRules
