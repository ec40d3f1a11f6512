import Mathlib.Data.Finset.Card
import Mathlib.Data.List.Induction
import Mathlib.Data.List.Nodup
import ShapeRules.Shacl.Table

/-!
# Tables by their history

A table keeps its identifiers twice, as a list and as the keys of a map. Since the two agree, every
listed identifier has its shape, and the shapes are neither lost nor repeated when they are listed.
Whatever is added, a table holds for each identifier the shape that was added last, and lists them
in the order in which the identifiers were added first.

## Main definitions

* `lastAdded`: the last shape of a history with a given identifier

## Main results

* `ShapeTable.map_id_shapes`, `ShapeTable.get?_eq_some_iff`: the shapes of a table, listed and found
* `ShapeTable.shapes_add`: adding a shape replaces one shape or puts it last
* `ShapeTable.order_ofList`, `ShapeTable.get?_ofList`: a table after any history
* `ShapeTable.resolve_source_iff`: what a reference stands for
* `table_of_history`: a table is determined by its history
-/

namespace ShapeRules.Shacl

open Rdf

namespace ShapeTable

/-! ## The shapes of a table -/

/-- **Each listed identifier has its shape,** so none is left out. -/
theorem map_some_shapes (t : ShapeTable) : t.shapes.map some = t.order.map t.get? := by
  have hsome : ∀ id ∈ t.order, (t.get? id).isSome := fun id hid => (t.mem_order id).1 hid
  rw [shapes]
  generalize t.order = order at hsome
  induction order with
  | nil => rfl
  | cons id order ih =>
    obtain ⟨s, hs⟩ := Option.isSome_iff_exists.1 (hsome id List.mem_cons_self)
    rw [List.filterMap_cons_some hs, List.map_cons, List.map_cons, hs,
      ih fun a ha => hsome a (List.mem_cons_of_mem id ha)]

theorem mem_shapes_iff {t : ShapeTable} {s : Shape} : s ∈ t.shapes ↔ t.get? s.id = some s := by
  rw [shapes, List.mem_filterMap]
  constructor
  · rintro ⟨id, -, h⟩
    rwa [t.id_of_get? h]
  · intro h
    refine ⟨s.id, (t.mem_order s.id).2 ?_, h⟩
    exact Option.isSome_of_eq_some h

/-- The shape that is found is the one that is listed. -/
theorem get?_eq_some_iff {t : ShapeTable} {id : Node} {s : Shape} :
    t.get? id = some s ↔ s ∈ t.shapes ∧ s.id = id := by
  rw [mem_shapes_iff]
  constructor
  · intro h
    obtain rfl := t.id_of_get? h
    exact ⟨h, rfl⟩
  · rintro ⟨h, rfl⟩
    exact h

/-- The listed shapes have the listed identifiers. -/
theorem map_id_shapes (t : ShapeTable) : t.shapes.map Shape.id = t.order := by
  have hsome : (t.shapes.map some).map (Option.map Shape.id) = t.order.map some := by
    rw [map_some_shapes, List.map_map]
    apply List.map_congr_left
    intro id hid
    obtain ⟨s, hs⟩ := Option.isSome_iff_exists.1 ((t.mem_order id).1 hid)
    show (t.byId.get? id).map Shape.id = some id
    rw [hs, Option.map_some, t.id_of_get? hs]
  rw [List.map_map] at hsome
  apply List.map_injective_iff.2 (Option.some_injective Node)
  rw [← hsome, List.map_map]
  rfl

theorem nodup_shapes (t : ShapeTable) : (t.shapes.map Shape.id).Nodup :=
  t.map_id_shapes ▸ t.nodup_order

/-- The map has as many entries as there are shapes in the list. -/
theorem size_eq (t : ShapeTable) : t.size = t.shapes.length := by
  have hperm : t.byId.keys.Perm t.order := by
    refine (List.perm_ext_iff_of_nodup t.byId.nodup t.nodup_order).2 fun id => ?_
    rw [t.mem_order]
    exact FiniteMap.mem_keys_iff
  have hlength := hperm.length_eq
  rwa [← map_id_shapes, List.length_map, FiniteMap.keys, List.length_map] at hlength

/-- References are resolved from the shapes that are listed. -/
theorem mem_known_source {t : ShapeTable} {s : Shape} : s ∈ t.source.known ↔ s ∈ t.shapes := by
  rw [source, FiniteMap.mem_values_iff, mem_shapes_iff]
  constructor
  · rintro ⟨id, h⟩
    rwa [t.id_of_get? h]
  · intro h
    exact ⟨s.id, h⟩

/-- A reference stands for the shape of the table with that identifier. -/
theorem resolve_source_iff {t : ShapeTable} {id : Node} {s : Shape} :
    t.source.resolve id = some s ↔ s ∈ t.shapes ∧ s.id = id := by
  constructor
  · intro h
    exact ⟨mem_known_source.1 (ShapeSource.mem_of_resolve h), ShapeSource.id_of_resolve h⟩
  · rintro ⟨hs, rfl⟩
    cases hr : t.source.resolve s.id with
    | none =>
      have := List.find?_eq_none.1 hr s (mem_known_source.2 hs)
      simp at this
    | some s' =>
      have hs' : s' ∈ t.shapes := mem_known_source.1 (ShapeSource.mem_of_resolve hr)
      rw [List.inj_on_of_nodup_map t.nodup_shapes hs' hs (ShapeSource.id_of_resolve hr)]

theorem resolve_source (t : ShapeTable) (id : Node) : t.source.resolve id = t.get? id := by
  apply Option.ext
  intro s
  rw [resolve_source_iff, get?_eq_some_iff]

/-! ## One more shape -/

theorem order_add (t : ShapeTable) (s : Shape) : (t.add s).order = t.orderWith s := rfl

theorem get?_add (t : ShapeTable) (s : Shape) (id : Node) :
    (t.add s).get? id = if id = s.id then some s else t.get? id :=
  FiniteMap.get?_insert ..

/-- A shape with a new identifier comes last. -/
theorem shapes_add {t : ShapeTable} {s : Shape} (hs : t.get? s.id = none) :
    (t.add s).shapes = t.shapes ++ [s] := by
  have hnew : t.contains s.id = false := by
    rw [contains, FiniteMap.contains, ← get?, hs]
    rfl
  have horder : (t.add s).order = t.order ++ [s.id] := by
    rw [order_add, orderWith, hnew]
    rfl
  -- the identifiers that were there are others, and what is found under them stays
  have hold : ∀ id ∈ t.order, (t.add s).get? id = t.get? id := by
    intro id hid
    rw [get?_add, if_neg]
    rintro rfl
    rw [t.mem_order, ← contains, hnew] at hid
    cases hid
  rw [shapes, horder, List.filterMap_append, List.filterMap_congr hold, ← shapes,
    List.filterMap_cons_some (by rw [get?_add, if_pos rfl]), List.filterMap_nil]

/-! ## A table after any history -/

/-- The last shape of a history with a given identifier. -/
def lastAdded (history : List Shape) (id : Node) : Option Shape :=
  (history.filter (·.id = id)).getLast?

theorem ofList_concat (history : List Shape) (s : Shape) :
    ofList (history ++ [s]) = (ofList history).add s :=
  List.foldl_concat ..

/-- **What is found was added last.** -/
theorem get?_ofList (history : List Shape) (id : Node) :
    (ofList history).get? id = lastAdded history id := by
  -- Induction on the history from its end, since the last addition decides.
  induction history using List.reverseRecOn with
  | nil => rfl
  | append_singleton history s ih =>
    rw [ofList_concat, get?_add, ih, lastAdded, lastAdded, List.filter_append]
    by_cases hid : id = s.id
    · rw [if_pos hid, List.filter_cons_of_pos (by simpa using hid.symm), List.filter_nil,
        List.getLast?_concat]
    · rw [if_neg hid, List.filter_cons_of_neg (by simpa using Ne.symm hid), List.filter_nil,
        List.append_nil]

/-- Of a list with one more element, the element stays if it is not there. -/
theorem eraseDups_concat (l : List Node) (a : Node) :
    (l ++ [a]).eraseDups = if a ∈ l then l.eraseDups else l.eraseDups ++ [a] := by
  rw [List.eraseDups_append, List.removeAll]
  by_cases h : a ∈ l
  · rw [if_pos h, List.filter_cons_of_neg (by simpa using h), List.filter_nil, List.eraseDups_nil,
      List.append_nil]
  · rw [if_neg h, List.filter_cons_of_pos (by simpa using h), List.filter_nil]
    rfl

/-- **The identifiers are listed** in the order in which they were added first. -/
theorem order_ofList (history : List Shape) :
    (ofList history).order = (history.map Shape.id).eraseDups := by
  induction history using List.reverseRecOn with
  | nil => rfl
  | append_singleton history s ih =>
    -- an identifier is in use exactly if it was added before
    have hused : (ofList history).contains s.id ↔ s.id ∈ history.map Shape.id := by
      rw [contains, ← mem_order, ih, List.mem_eraseDups]
    rw [ofList_concat, order_add, orderWith, ih, List.map_append, List.map_singleton,
      eraseDups_concat]
    simp only [hused]

theorem mem_map_id_ofList {l : List Shape} {id : Node} :
    id ∈ (ofList l).shapes.map Shape.id ↔ id ∈ l.map Shape.id := by
  rw [map_id_shapes, order_ofList, List.mem_eraseDups]

/-- A table holds only shapes that were added. -/
theorem mem_of_mem_ofList {l : List Shape} {u : Shape} (h : u ∈ (ofList l).shapes) : u ∈ l := by
  rw [mem_shapes_iff, get?_ofList] at h
  exact (List.mem_filter.1 (List.mem_of_getLast? h)).1

/-- Shapes with different identifiers are kept as they were added. -/
theorem shapes_ofList {l : List Shape} (h : (l.map Shape.id).Nodup) : (ofList l).shapes = l := by
  induction l using List.reverseRecOn with
  | nil => rfl
  | append_singleton l s ih =>
    rw [List.map_append, List.nodup_append] at h
    -- the identifier of the last shape is not in use
    have hnew : (ofList l).get? s.id = none := by
      rw [get?_ofList, lastAdded, List.getLast?_eq_none_iff, List.filter_eq_nil_iff]
      intro u hu hid
      exact h.2.2 _ (List.mem_map_of_mem hu) s.id (by simp) (of_decide_eq_true hid)
    rw [ofList_concat, shapes_add hnew, ih h.1]

end ShapeTable

/-- **A table is determined by its history.** Its identifiers are listed once each, they are the
keys of its map, and each shape is under its own identifier. The list holds, for each identifier in
the order of first additions, the shape that was added last; this is also the shape that is found,
and nothing is found under another identifier. The size is the number of identifiers that were
added, and that of the shapes in the list. -/
theorem table_of_history (history : List Shape) :
    let t := ShapeTable.ofList history
    (t.order.Nodup ∧ (∀ id, id ∈ t.order ↔ id ∈ t.byId.keys) ∧
      ∀ id s, t.byId.get? id = some s → s.id = id) ∧
    t.order = (history.map Shape.id).eraseDups ∧
    t.shapes.map some = t.order.map (ShapeTable.lastAdded history) ∧
    t.size = (history.map Shape.id).toFinset.card ∧ t.size = t.shapes.length ∧
    ∀ id, t.get? id = ShapeTable.lastAdded history id := by
  intro t
  have hget : ∀ id, t.get? id = ShapeTable.lastAdded history id := ShapeTable.get?_ofList history
  have hkeys : ∀ id, id ∈ t.order ↔ id ∈ t.byId.keys := by
    intro id
    rw [t.mem_order, FiniteMap.mem_keys_iff]
  have hsize : t.size = (history.map Shape.id).toFinset.card := by
    have hids : t.order.toFinset = (history.map Shape.id).toFinset := by
      apply Finset.ext
      intro id
      rw [List.mem_toFinset, List.mem_toFinset, ShapeTable.order_ofList, List.mem_eraseDups]
    rw [t.size_eq, ← hids, List.toFinset_card_of_nodup t.nodup_order, ← t.map_id_shapes,
      List.length_map]
  refine ⟨⟨t.nodup_order, hkeys, fun id s => t.id_of_get?⟩, ShapeTable.order_ofList history, ?_,
    hsize, t.size_eq, hget⟩
  rw [t.map_some_shapes]
  exact List.map_congr_left fun id _ => hget id

/-- A history whose first shape is replaced by the third. -/
def replacingHistory : List Shape :=
  [{ id := .iri "b" }, { id := .blank "a" }, { id := .iri "b", isProperty := true }]

theorem table_of_history_replacing :
    (ShapeTable.ofList replacingHistory).byId.get? (.iri "b") =
        some { id := .iri "b", isProperty := true } ∧
      ({ id := .iri "b", isProperty := true } : Shape).id = .iri "b" ∧
      (ShapeTable.ofList replacingHistory).order = [.iri "b", .blank "a"] :=
  have hget : (ShapeTable.ofList replacingHistory).byId.get? (.iri "b") =
      some { id := .iri "b", isProperty := true } := by decide +kernel
  ⟨hget, (table_of_history replacingHistory).1.2.2 _ _ hget, by decide +kernel⟩

end ShapeRules.Shacl
