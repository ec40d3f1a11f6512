import ShapeRules.Proofs.Tables
import ShapeRules.Proofs.Traversal
import ShapeRules.Shacl.FromGraph

/-!
# What is read off a graph

Each reader of constraints finds constraints of one kind, and no two readers find the same kind. The
constraints of one kind of a shape are therefore what one reader finds, and tell the values of one
property.

## Main definitions

* `Shacl.Constraint.shapes`: the shapes that a constraint mentions
* `Shacl.ConstraintReader.Reads`: a reader finds only constraints of one kind
* `Shacl.constraintKinds`: the kinds of the readers, in order

## Main results

* `Shacl.reader_eq_ok`: the constraints of one kind are what its reader finds
* `Shacl.nesting_constraints`: the constraint of a property whose values are shapes
* `Shacl.logical_constraints`: the constraint of a property whose values are lists of shapes
* `Shacl.ShapeTable.of_mem_ofGraph`: the shapes of a graph are read off it
-/

namespace ShapeRules.Shacl

open Rdf

/-- The shapes that a constraint mentions. -/
def Constraint.shapes : Constraint → List Node
  | .not shapes => shapes
  | .and shapes => shapes
  | .or shapes => shapes
  | .xone shapes => shapes
  | .property shapes => shapes
  | .node shapes => shapes
  | .qualifiedValueShape shapes _ _ _ => shapes
  | _ => []

section References

variable {g : Graph} {id : Node} {v : Vocab}

theorem reference_eq_ok_iff {t : Term} {n : Node} : reference t = .ok n ↔ t = .node n := by
  cases t with
  | node m => simp [reference]
  | literal l => simp [reference]
  | triple s p o => simp [reference]

theorem mapM_reference_eq_ok_iff {terms : List Term} {nodes : List Node} :
    terms.mapM reference = .ok nodes ↔ terms = nodes.map .node := by
  rw [Except.mapM_eq_ok_iff]
  simp only [reference_eq_ok_iff]
  constructor
  · intro h
    induction h with
    | nil => rfl
    | cons hab _ ih => rw [hab, ih, List.map_cons]
  · rintro rfl
    induction nodes with
    | nil => exact .nil
    | cons n nodes ih => exact .cons rfl ih

/-- The shapes that a property refers to are its values. -/
theorem references_eq_ok_iff {nodes : List Node} :
    references g id v = .ok nodes ↔ g.values id v.iri = nodes.map .node :=
  mapM_reference_eq_ok_iff

/-- A property with a value refers to a shape. -/
theorem isEmpty_of_references {nodes : List Node} (h : references g id v = .ok nodes) {x : Term}
    (hx : (⟨id, v.iri, x⟩ : Triple) ∈ g) : nodes.isEmpty = false := by
  rw [List.isEmpty_eq_false_iff]
  rintro rfl
  rw [← Graph.mem_values, references_eq_ok_iff.1 h] at hx
  cases hx

/-- The shapes that a list refers to are its members. -/
theorem referenceList_eq_ok_iff {head : Term} {nodes : List Node} :
    referenceList g id head = .ok nodes ↔ g.members head = .ok (nodes.map .node) := by
  rw [referenceList, Except.bind_eq_ok_iff]
  simp only [mapM_reference_eq_ok_iff, listOf, Except.mapError_eq_ok_iff]
  constructor
  · rintro ⟨_, h, rfl⟩
    exact h
  · intro h
    exact ⟨_, h, rfl⟩

end References

/-! ## Readers -/

namespace ConstraintReader

/-- **A reader finds only constraints of one kind.** -/
def Reads (r : ConstraintReader) (v : Vocab) : Prop :=
  ∀ g id cs, r g id = .ok cs → ∀ c ∈ cs, c.parameter = v

section Reads

variable {v : Vocab}

theorem parameter_of_mem_unlessEmpty {α : Type} {make : List α → Constraint} {l : List α}
    {c : Constraint} (hmake : ∀ l, (make l).parameter = v) (h : c ∈ unlessEmpty make l) :
    c.parameter = v := by
  unfold unlessEmpty at h
  split at h
  · cases h
  · obtain rfl := List.mem_singleton.1 h
    exact hmake l

theorem parameter_of_mem_toList {α : Type} {make : α → Constraint} {o : Option α} {c : Constraint}
    (hmake : ∀ a, (make a).parameter = v) (h : c ∈ (o.map make).toList) : c.parameter = v := by
  obtain ⟨a, -, rfl⟩ := Option.map_eq_some_iff.1 (Option.mem_toList.1 h)
  exact hmake a

theorem reads_count {make : Count → Constraint} (hmake : ∀ n, (make n).parameter = v) :
    (count v make).Reads v := by
  intro g id cs h c hc
  obtain ⟨n, -, h⟩ := Except.bind_eq_ok_iff.1 h
  obtain rfl := Except.ok.inj h
  exact parameter_of_mem_toList hmake hc

theorem reads_nested {make : List Node → Constraint} (hmake : ∀ l, (make l).parameter = v) :
    (nested v make).Reads v := by
  intro g id cs h c hc
  obtain ⟨shapes, -, h⟩ := Except.bind_eq_ok_iff.1 h
  obtain rfl := Except.ok.inj h
  exact parameter_of_mem_unlessEmpty hmake hc

theorem reads_logical {make : List Node → Constraint} (hmake : ∀ l, (make l).parameter = v) :
    (logical v make).Reads v := by
  intro g id cs h c hc
  unfold logical at h
  split at h
  · obtain rfl := Except.ok.inj h
    cases hc
  · obtain ⟨shapes, -, h⟩ := Except.bind_eq_ok_iff.1 h
    obtain rfl := Except.ok.inj h
    obtain rfl := List.mem_singleton.1 hc
    exact hmake shapes

theorem reads_properties {make : List String → Constraint} (hmake : ∀ l, (make l).parameter = v) :
    (properties v make).Reads v := by
  intro g id cs h c hc
  obtain ⟨iris, -, h⟩ := Except.bind_eq_ok_iff.1 h
  obtain rfl := Except.ok.inj h
  exact parameter_of_mem_unlessEmpty hmake hc

theorem reads_firstIri {make : String → Constraint} (hmake : ∀ s, (make s).parameter = v) :
    (firstIri v make).Reads v := by
  intro g id cs h c hc
  obtain ⟨iris, -, h⟩ := Except.bind_eq_ok_iff.1 h
  obtain rfl := Except.ok.inj h
  exact parameter_of_mem_toList hmake hc

theorem reads_value {make : Term → Constraint} (hmake : ∀ t, (make t).parameter = v) :
    (value v make).Reads v := by
  intro g id cs h c hc
  obtain rfl := Except.ok.inj h
  exact parameter_of_mem_toList hmake hc

theorem reads_values {make : List Term → Constraint} (hmake : ∀ l, (make l).parameter = v) :
    (values v make).Reads v := by
  intro g id cs h c hc
  obtain rfl := Except.ok.inj h
  exact parameter_of_mem_unlessEmpty hmake hc

theorem reads_listed {make : List Term → Constraint} (hmake : ∀ l, (make l).parameter = v) :
    (listed v make).Reads v := by
  intro g id cs h c hc
  unfold listed at h
  split at h
  · obtain rfl := Except.ok.inj h
    cases hc
  · obtain ⟨members, -, h⟩ := Except.bind_eq_ok_iff.1 h
    obtain rfl := Except.ok.inj h
    obtain rfl := List.mem_singleton.1 hc
    exact hmake members

theorem reads_qualified : qualified.Reads .qualifiedValueShape := by
  intro g id cs h c hc
  obtain ⟨shapes, -, h⟩ := Except.bind_eq_ok_iff.1 h
  split at h
  · obtain rfl := Except.ok.inj h
    cases hc
  · obtain ⟨min, -, h⟩ := Except.bind_eq_ok_iff.1 h
    obtain ⟨max, -, h⟩ := Except.bind_eq_ok_iff.1 h
    obtain rfl := Except.ok.inj h
    obtain rfl := List.mem_singleton.1 hc
    rfl

theorem reads_pattern : pattern.Reads .pattern := by
  intro g id
  have h : (value .pattern fun t => .pattern t (term? g id .flags)).Reads .pattern :=
    reads_value fun _ => rfl
  exact h g id

theorem reads_uniqueLang : uniqueLang.Reads .uniqueLang := by
  intro g id cs h c hc
  obtain rfl := Except.ok.inj h
  split at hc
  · obtain rfl := List.mem_singleton.1 hc
    rfl
  · cases hc

theorem reads_closed : closed.Reads .closed := by
  intro g id cs h c hc
  unfold closed at h
  split at h
  · split at h
    · obtain rfl := Except.ok.inj h
      obtain rfl := List.mem_singleton.1 hc
      rfl
    · obtain ⟨members, -, h⟩ := Except.bind_eq_ok_iff.1 h
      obtain rfl := Except.ok.inj h
      obtain rfl := List.mem_singleton.1 hc
      rfl
  · obtain rfl := Except.ok.inj h
    cases hc

end Reads

end ConstraintReader

/-- The kinds of the readers, in order. -/
def constraintKinds : List Vocab :=
  [.minCount, .maxCount, .not, .and, .or, .xone, .equals, .disjoint, .lessThan, .lessThanOrEquals,
    .property, .node, .qualifiedValueShape, .minLength, .maxLength, .pattern, .languageIn,
    .uniqueLang, .ofClass, .datatype, .nodeKind, .minExclusive, .minInclusive, .maxExclusive,
    .maxInclusive, .closed, .hasValue, .oneOf]

open ConstraintReader in
/-- Every reader finds only constraints of its kind. -/
theorem forall₂_reads : List.Forall₂ Reads constraintReaders constraintKinds :=
  .cons (reads_count fun _ => rfl) <| .cons (reads_count fun _ => rfl) <|
  .cons (reads_nested fun _ => rfl) <| .cons (reads_logical fun _ => rfl) <|
  .cons (reads_logical fun _ => rfl) <| .cons (reads_logical fun _ => rfl) <|
  .cons (reads_properties fun _ => rfl) <| .cons (reads_properties fun _ => rfl) <|
  .cons (reads_properties fun _ => rfl) <| .cons (reads_properties fun _ => rfl) <|
  .cons (reads_nested fun _ => rfl) <| .cons (reads_nested fun _ => rfl) <|
  .cons reads_qualified <| .cons (reads_value fun _ => rfl) <| .cons (reads_value fun _ => rfl) <|
  .cons reads_pattern <| .cons (reads_listed fun _ => rfl) <| .cons reads_uniqueLang <|
  .cons (reads_values fun _ => rfl) <| .cons (reads_firstIri fun _ => rfl) <|
  .cons (reads_firstIri fun _ => rfl) <| .cons (reads_values fun _ => rfl) <|
  .cons (reads_values fun _ => rfl) <| .cons (reads_values fun _ => rfl) <|
  .cons (reads_values fun _ => rfl) <| .cons reads_closed <| .cons (reads_values fun _ => rfl) <|
  .cons (reads_listed fun _ => rfl) .nil

section Kinds

variable {g : Graph} {id : Node} {readers : List ConstraintReader} {kinds : List Vocab}
  {parts : List (List Constraint)}

theorem parameter_mem_of_mem_flatten (hreads : List.Forall₂ ConstraintReader.Reads readers kinds)
    (h : List.Forall₂ (fun r part => r g id = .ok part) readers parts) {c : Constraint}
    (hc : c ∈ parts.flatten) : c.parameter ∈ kinds := by
  induction hreads generalizing parts with
  | nil =>
    cases h
    cases hc
  | cons hread _ ih =>
    obtain _ | ⟨hpart, hparts⟩ := h
    rcases List.mem_append.1 hc with hc | hc
    · exact List.mem_cons.2 (.inl (hread _ _ _ hpart c hc))
    · exact List.mem_cons_of_mem _ (ih hparts hc)

/-- If no two readers find the same kind, the constraints of a kind are what its reader finds. -/
theorem reader_eq_ok_of_nodup (hreads : List.Forall₂ ConstraintReader.Reads readers kinds)
    (hkinds : kinds.Nodup) (h : List.Forall₂ (fun r part => r g id = .ok part) readers parts)
    {r : ConstraintReader} {v : Vocab} (hr : (r, v) ∈ readers.zip kinds) :
    r g id = .ok (parts.flatten.filter (·.parameter = v)) := by
  induction hreads generalizing parts with
  | nil => cases hr
  | @cons r₀ v₀ readers kinds hread hreads ih =>
    obtain ⟨hv₀, hkinds⟩ := List.nodup_cons.1 hkinds
    obtain _ | ⟨hpart, hparts⟩ := h
    rw [List.flatten_cons, List.filter_append]
    rcases List.mem_cons.1 hr with hr | hr
    · obtain ⟨rfl, rfl⟩ := Prod.mk.inj hr
      -- the other readers find other kinds
      rw [List.filter_eq_self.2 fun c hc => decide_eq_true (hread _ _ _ hpart c hc),
        List.filter_eq_nil_iff.2, List.append_nil, hpart]
      intro c hc he
      exact hv₀ (of_decide_eq_true he ▸ parameter_mem_of_mem_flatten hreads hparts hc)
    · -- the first reader finds a kind that is not among the others
      rw [List.filter_eq_nil_iff.2, List.nil_append, ih hkinds hparts hr]
      intro c hc he
      have hv : c.parameter = v₀ := hread _ _ _ hpart c hc
      rw [hv, decide_eq_true_eq] at he
      exact hv₀ (he ▸ (List.of_mem_zip hr).2)

/-- **The constraints of one kind of a shape are what the reader of that kind finds.** -/
theorem reader_eq_ok {cs : List Constraint} (h : readConstraints g id = .ok cs)
    {r : ConstraintReader} {v : Vocab} (hr : (r, v) ∈ constraintReaders.zip constraintKinds) :
    r g id = .ok (cs.filter (·.parameter = v)) := by
  obtain ⟨parts, hparts, h⟩ := Except.bind_eq_ok_iff.1 h
  obtain rfl := Except.ok.inj h
  exact reader_eq_ok_of_nodup forall₂_reads (by decide) (Except.mapM_eq_ok_iff.1 hparts) hr

end Kinds

/-! ## Constraints with shapes -/

section Shapes

variable {g : Graph} {id : Node} {cs : List Constraint} {v : Vocab}

theorem nested_eq_ok {make : List Node → Constraint} (hmake : ∀ l, (make l).shapes = l)
    (h : ConstraintReader.nested v make g id = .ok cs) :
    g.values id v.iri = [] ∧ cs = [] ∨
      ∃ c, cs = [c] ∧ c.shapes.map .node = g.values id v.iri := by
  obtain ⟨shapes, hshapes, h⟩ := Except.bind_eq_ok_iff.1 h
  obtain rfl := Except.ok.inj h
  rw [references_eq_ok_iff] at hshapes
  cases shapes with
  | nil => exact .inl ⟨hshapes, rfl⟩
  | cons n shapes => exact .inr ⟨_, rfl, by rw [hmake, hshapes]⟩

theorem qualified_eq_ok (h : ConstraintReader.qualified g id = .ok cs) :
    g.values id Vocab.qualifiedValueShape.iri = [] ∧ cs = [] ∨
      ∃ c, cs = [c] ∧ c.shapes.map .node = g.values id Vocab.qualifiedValueShape.iri := by
  obtain ⟨shapes, hshapes, h⟩ := Except.bind_eq_ok_iff.1 h
  rw [references_eq_ok_iff] at hshapes
  split at h
  next hempty =>
    obtain rfl := Except.ok.inj h
    rw [List.isEmpty_iff.1 hempty] at hshapes
    exact .inl ⟨hshapes, rfl⟩
  next =>
    obtain ⟨min, -, h⟩ := Except.bind_eq_ok_iff.1 h
    obtain ⟨max, -, h⟩ := Except.bind_eq_ok_iff.1 h
    obtain rfl := Except.ok.inj h
    exact .inr ⟨_, rfl, hshapes.symm⟩

/-- The qualified constraint of a shape that has a qualified value shape. -/
theorem exists_of_qualified_eq_ok {x : Term}
    (hx : (⟨id, Vocab.qualifiedValueShape.iri, x⟩ : Triple) ∈ g)
    (h : ConstraintReader.qualified g id = .ok cs) :
    ∃ shapes min max disjoint, cs = [.qualifiedValueShape shapes min max disjoint] ∧
      countOf g id .qualifiedMinCount = .ok min ∧ countOf g id .qualifiedMaxCount = .ok max := by
  obtain ⟨shapes, hshapes, h⟩ := Except.bind_eq_ok_iff.1 h
  rw [isEmpty_of_references hshapes hx, if_neg Bool.false_ne_true] at h
  obtain ⟨min, hmin, h⟩ := Except.bind_eq_ok_iff.1 h
  obtain ⟨max, hmax, h⟩ := Except.bind_eq_ok_iff.1 h
  exact ⟨shapes, min, max, _, (Except.ok.inj h).symm, hmin, hmax⟩

theorem logical_eq_ok {make : List Node → Constraint} (hmake : ∀ l, (make l).shapes = l)
    (h : ConstraintReader.logical v make g id = .ok cs) :
    g.value? id v.iri = none ∧ cs = [] ∨
      ∃ c head, g.value? id v.iri = some head ∧ cs = [c] ∧
        g.members head = .ok (c.shapes.map .node) := by
  rw [ConstraintReader.logical, term?] at h
  cases hhead : g.value? id v.iri with
  | none =>
    rw [hhead] at h
    exact .inl ⟨rfl, (Except.ok.inj h).symm⟩
  | some head =>
    rw [hhead] at h
    obtain ⟨shapes, hshapes, h⟩ := Except.bind_eq_ok_iff.1 h
    obtain rfl := Except.ok.inj h
    exact .inr ⟨_, head, rfl, rfl, by rw [hmake, referenceList_eq_ok_iff.1 hshapes]⟩

open ConstraintReader in
/-- **A property whose values are shapes** has no constraint if it has no values, and otherwise one
that lists all of them. -/
theorem nesting_constraints (h : readConstraints g id = .ok cs) (hv : v ∈ nestingProperties) :
    g.values id v.iri = [] ∧ cs.filter (·.parameter = v) = [] ∨
      ∃ c, cs.filter (·.parameter = v) = [c] ∧ c.shapes.map .node = g.values id v.iri := by
  simp only [nestingProperties, List.mem_cons, List.not_mem_nil, or_false] at hv
  rcases hv with rfl | rfl | rfl | rfl
  · have hr : (nested .property .property, Vocab.property) ∈
        constraintReaders.zip constraintKinds := by simp [constraintReaders, constraintKinds]
    exact nested_eq_ok (fun _ => rfl) (reader_eq_ok h hr)
  · have hr : (nested .node .node, Vocab.node) ∈
        constraintReaders.zip constraintKinds := by simp [constraintReaders, constraintKinds]
    exact nested_eq_ok (fun _ => rfl) (reader_eq_ok h hr)
  · have hr : (nested .not .not, Vocab.not) ∈
        constraintReaders.zip constraintKinds := by simp [constraintReaders, constraintKinds]
    exact nested_eq_ok (fun _ => rfl) (reader_eq_ok h hr)
  · have hr : (qualified, Vocab.qualifiedValueShape) ∈
        constraintReaders.zip constraintKinds := by simp [constraintReaders, constraintKinds]
    exact qualified_eq_ok (reader_eq_ok h hr)

open ConstraintReader in
/-- **A property whose values are lists of shapes** has no constraint if it has no values, and
otherwise one, of its smallest list. -/
theorem logical_constraints (h : readConstraints g id = .ok cs) (hv : v ∈ logicalProperties) :
    g.value? id v.iri = none ∧ cs.filter (·.parameter = v) = [] ∨
      ∃ c head, g.value? id v.iri = some head ∧ cs.filter (·.parameter = v) = [c] ∧
        g.members head = .ok (c.shapes.map .node) := by
  simp only [logicalProperties, List.mem_cons, List.not_mem_nil, or_false] at hv
  rcases hv with rfl | rfl | rfl
  · have hr : (logical .and .and, Vocab.and) ∈
        constraintReaders.zip constraintKinds := by simp [constraintReaders, constraintKinds]
    exact logical_eq_ok (fun _ => rfl) (reader_eq_ok h hr)
  · have hr : (logical .or .or, Vocab.or) ∈
        constraintReaders.zip constraintKinds := by simp [constraintReaders, constraintKinds]
    exact logical_eq_ok (fun _ => rfl) (reader_eq_ok h hr)
  · have hr : (logical .xone .xone, Vocab.xone) ∈
        constraintReaders.zip constraintKinds := by simp [constraintReaders, constraintKinds]
    exact logical_eq_ok (fun _ => rfl) (reader_eq_ok h hr)

theorem exists_nesting_constraint (h : readConstraints g id = .ok cs) (hv : v ∈ nestingProperties)
    (hne : g.values id v.iri ≠ []) :
    ∃ c, cs.filter (·.parameter = v) = [c] ∧ c.shapes.map .node = g.values id v.iri :=
  (nesting_constraints h hv).resolve_left fun hempty => hne hempty.1

theorem exists_logical_constraint (h : readConstraints g id = .ok cs) (hv : v ∈ logicalProperties)
    {head : Term} (hhead : g.value? id v.iri = some head) :
    ∃ c, cs.filter (·.parameter = v) = [c] ∧ g.members head = .ok (c.shapes.map .node) := by
  rcases logical_constraints h hv with ⟨hnone, -⟩ | ⟨c, head', hsome, hc, hmembers⟩
  · cases hhead.symm.trans hnone
  · obtain rfl := Option.some.inj (hhead.symm.trans hsome)
    exact ⟨c, hc, hmembers⟩

end Shapes

/-! ## Shapes of a graph -/

theorem readShape_eq_ok {g : Graph} {id : Node} {s : Shape} (h : readShape g id = .ok s) :
    s.id = id ∧ readConstraints g id = .ok s.constraints := by
  obtain ⟨severity, -, h⟩ := Except.bind_eq_ok_iff.1 h
  obtain ⟨constraints, hcs, h⟩ := Except.bind_eq_ok_iff.1 h
  obtain rfl := Except.ok.inj h
  exact ⟨rfl, hcs⟩

/-- **The shapes of a graph** were discovered in it and are read off it. -/
theorem ShapeTable.of_mem_ofGraph {g : Graph} {t : ShapeTable} (h : ofGraph g = .ok t) :
    ∃ ids, discover g.canonical = .ok ids ∧
      ∀ s ∈ t.shapes, s.id ∈ ids ∧ readShape g.canonical s.id = .ok s := by
  obtain ⟨ids, hids, h⟩ := Except.bind_eq_ok_iff.1 h
  obtain ⟨shapes, hshapes, h⟩ := Except.bind_eq_ok_iff.1 h
  obtain rfl := Except.ok.inj h
  refine ⟨ids, hids, ?_⟩
  intro s hs
  obtain ⟨id, hid, hread⟩ := Except.exists_part_of_mem hshapes (mem_of_mem_ofList hs)
  obtain ⟨rfl, -⟩ := readShape_eq_ok hread
  exact ⟨hid, hread⟩

/-- The lists of shapes in a graph whose shapes are discovered are whole. -/
theorem exists_members_of_discover {g : Graph} {ids : OrderedSet Node} (h : discover g = .ok ids)
    {v : Vocab} (hv : v ∈ logicalProperties) {s : Node} {o : Term}
    (ho : (⟨s, v.iri, o⟩ : Triple) ∈ g) :
    ∃ nodes : List Node, g.members o = .ok (nodes.map .node) := by
  -- Discovery walks the lists of every triple with one of the properties.
  obtain ⟨nested, -, h⟩ := Except.bind_eq_ok_iff.1 h
  obtain ⟨listed, hlisted, -⟩ := Except.bind_eq_ok_iff.1 h
  obtain ⟨shapes, -, hshapes⟩ := Except.exists_result_of_mem hlisted hv
  obtain ⟨lists, hlists, -⟩ := Except.bind_eq_ok_iff.1 hshapes
  obtain ⟨nodes, -, hnodes⟩ :=
    Except.exists_result_of_mem hlists (Graph.mem_withPredicate.2 ⟨ho, rfl⟩)
  exact ⟨nodes, referenceList_eq_ok_iff.1 hnodes⟩

end ShapeRules.Shacl
