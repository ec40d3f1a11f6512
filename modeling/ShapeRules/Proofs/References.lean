import ShapeRules.Proofs.Reading

/-!
# Which references of a graph are kept

A shape keeps every value of the properties whose values are shapes. Of the properties whose values
are lists of shapes it keeps one list only, the smallest one, although every list is looked at when
the shapes are discovered. A list is therefore kept exactly if it has the same members as the
smallest one.

## Main results

* `shape_references_kept`: what becomes of each reference of a shape
* `second_list_lost`: a shape with two lists loses one of them
-/

namespace ShapeRules

open Rdf Shacl

/-- **What becomes of the references of a shape.** Each property whose values are shapes has one
constraint, with all its values. Each property whose values are lists of shapes has one constraint,
with the members of the smallest list, and another list of the property has a constraint of its
members exactly if they are the same. -/
theorem shape_references_kept {g : Graph} {t : ShapeTable} (h : ShapeTable.ofGraph g = .ok t)
    {s : Shape} (hs : s ∈ t.shapes) :
    (∀ v ∈ nestingProperties, ∀ o : Term, (⟨s.id, v.iri, o⟩ : Triple) ∈ g.canonical →
      ∃ c, s.constraints.filter (·.parameter = v) = [c] ∧ o ∈ c.shapes.map Term.node ∧
        c.shapes.map .node = g.canonical.values s.id v.iri) ∧
    ∀ v ∈ logicalProperties, ∀ o : Term, (⟨s.id, v.iri, o⟩ : Triple) ∈ g.canonical →
      ∃ c head, ∃ nodes : List Node, s.constraints.filter (·.parameter = v) = [c] ∧
        g.canonical.value? s.id v.iri = some head ∧
        g.canonical.members head = .ok (c.shapes.map .node) ∧
        g.canonical.members o = .ok (nodes.map .node) ∧
        ((∃ c ∈ s.constraints, c.parameter = v ∧
            g.canonical.members o = .ok (c.shapes.map .node)) ↔
          g.canonical.members o = g.canonical.members head) := by
  obtain ⟨ids, hids, hread⟩ := ShapeTable.of_mem_ofGraph h
  have hcs := (readShape_eq_ok (hread s hs).2).2
  constructor
  · intro v hv o ho
    have hvalue : o ∈ g.canonical.values s.id v.iri := Graph.mem_values.2 ho
    obtain ⟨c, hc, hshapes⟩ := exists_nesting_constraint hcs hv (List.ne_nil_of_mem hvalue)
    exact ⟨c, hc, hshapes ▸ hvalue, hshapes⟩
  · intro v hv o ho
    have hvalue : o ∈ g.canonical.values s.id v.iri := Graph.mem_values.2 ho
    obtain ⟨nodes, hnodes⟩ := exists_members_of_discover hids hv ho
    -- there is a smallest list, since there is the list `o`
    cases hhead : g.canonical.value? s.id v.iri with
    | none =>
      rw [Graph.value?, List.head?_eq_none_iff] at hhead
      exact absurd hhead (List.ne_nil_of_mem hvalue)
    | some head =>
      obtain ⟨c, hc, hmembers⟩ := exists_logical_constraint hcs hv hhead
      refine ⟨c, head, nodes, hc, rfl, hmembers, hnodes, ?_⟩
      constructor
      · rintro ⟨c', hc', hparameter, ho'⟩
        -- there is no other constraint of this kind
        have hmem : c' ∈ s.constraints.filter (·.parameter = v) :=
          List.mem_filter.2 ⟨hc', decide_eq_true hparameter⟩
        rw [hc] at hmem
        obtain rfl := List.mem_singleton.1 hmem
        rw [ho', hmembers]
      · intro he
        have hmem : c ∈ s.constraints.filter (·.parameter = v) := by
          rw [hc]
          exact List.mem_singleton_self c
        obtain ⟨hc', hparameter⟩ := List.mem_filter.1 hmem
        exact ⟨c, hc', of_decide_eq_true hparameter, by rw [he, hmembers]⟩

/-- A shape with two values of `sh:property` and two lists of `sh:and`. -/
def twoLists : Graph := .ofList
  [⟨.iri "l", rdfFirst, .iri "a"⟩, ⟨.iri "m", rdfFirst, .iri "b"⟩,
    ⟨.iri "l", rdfRest, .iri rdfNil⟩, ⟨.iri "m", rdfRest, .iri rdfNil⟩,
    ⟨.iri "s", rdfType, .iri Vocab.nodeShape.iri⟩,
    ⟨.iri "s", Vocab.and.iri, .iri "l"⟩, ⟨.iri "s", Vocab.and.iri, .iri "m"⟩,
    ⟨.iri "s", Vocab.property.iri, .iri "a"⟩, ⟨.iri "s", Vocab.property.iri, .iri "b"⟩]

/-- The shape, which has the members of the first list only. -/
def twoListsShape : Shape where
  id := .iri "s"
  constraints := [.and [.iri "a"], .property [.iri "a", .iri "b"]]

theorem canonical_twoLists : twoLists.canonical = twoLists := by
  refine Graph.canonical_eq_self fun t ht => ?_
  rw [Graph.mem_ofList] at ht
  revert t
  decide

theorem ofGraph_twoLists : ShapeTable.ofGraph twoLists =
    .ok (.ofList [{ id := .iri "a" }, { id := .iri "b" }, twoListsShape]) := by
  decide +kernel

theorem shape_references_kept_twoLists :
    (∃ c, twoListsShape.constraints.filter (·.parameter = .property) = [c] ∧
      .iri "b" ∈ c.shapes.map Term.node ∧
      c.shapes.map .node = twoLists.canonical.values (.iri "s") Vocab.property.iri) ∧
    ∃ c head, ∃ nodes : List Node, twoListsShape.constraints.filter (·.parameter = .and) = [c] ∧
      twoLists.canonical.value? (.iri "s") Vocab.and.iri = some head ∧
      twoLists.canonical.members head = .ok (c.shapes.map .node) ∧
      twoLists.canonical.members (.iri "m") = .ok (nodes.map .node) ∧
      ((∃ c ∈ twoListsShape.constraints, c.parameter = .and ∧
          twoLists.canonical.members (.iri "m") = .ok (c.shapes.map .node)) ↔
        twoLists.canonical.members (.iri "m") = twoLists.canonical.members head) := by
  obtain ⟨hnesting, hlogical⟩ :=
    shape_references_kept ofGraph_twoLists (s := twoListsShape) (by decide)
  refine ⟨hnesting .property (by decide) (.iri "b") ?_, hlogical .and (by decide) (.iri "m") ?_⟩
  · rw [canonical_twoLists]
    simp [twoLists, twoListsShape]
  · rw [canonical_twoLists]
    simp [twoLists, twoListsShape]

/-- **Not every list is kept:** there are graphs with a list of a shape for which the shape has no
constraint. -/
theorem second_list_lost :
    ¬ ∀ (g : Graph) (t : ShapeTable) (s : Shape) (o : Term), ShapeTable.ofGraph g = .ok t →
      s ∈ t.shapes → (⟨s.id, Vocab.and.iri, o⟩ : Triple) ∈ g.canonical →
      ∃ c ∈ s.constraints, c.parameter = .and ∧
        g.canonical.members o = .ok (c.shapes.map .node) := by
  intro h
  have hlist : (⟨.iri "s", Vocab.and.iri, .iri "m"⟩ : Triple) ∈ twoLists.canonical := by
    rw [canonical_twoLists]
    simp [twoLists]
  obtain ⟨c, hc, hand, hmembers⟩ :=
    h twoLists _ twoListsShape (.iri "m") ofGraph_twoLists (by decide) hlist
  -- The only constraint of the kind has the member of the other list.
  have hm : twoLists.members (.iri "m") = .ok [.iri "b"] := by decide +kernel
  rw [canonical_twoLists, hm] at hmembers
  rcases List.mem_cons.1 hc with rfl | hc
  · exact absurd hmembers (by decide)
  · obtain rfl := List.mem_singleton.1 hc
    cases hand

end ShapeRules
