import ShapeRules.FiniteMap
import ShapeRules.Shacl.Shape

/-!
# Tables and sources of shapes

A table holds shapes in the order in which their identifiers first came; a shape whose identifier is
there replaces the old one at the old place. A source says which shapes to write out, in order, and
from which shapes references are resolved; a table is a source for itself.

## Main definitions

* `ShapeTable`, `ShapeTable.add`, `ShapeTable.get?`, `ShapeTable.shapes`
* `ShapeSource`, `ShapeSource.resolve`
-/

namespace ShapeRules.Shacl

open Rdf

/-- **Shapes by identifier,** in the order in which the identifiers first came. The identifiers are
kept twice, in that order and as the keys of a map to the shapes. -/
structure ShapeTable where
  /-- The identifiers, in order of first addition. -/
  order : List Node
  /-- The shapes. -/
  byId : FiniteMap Node Shape
  /-- No identifier is listed twice. -/
  nodup_order : order.Nodup
  /-- The listed identifiers are the keys. -/
  mem_order : ∀ id, id ∈ order ↔ byId.contains id
  /-- A shape is under its own identifier. -/
  id_of_get? : ∀ {id s}, byId.get? id = some s → s.id = id
  deriving DecidableEq, Repr

namespace ShapeTable

/-- The table without shapes. -/
def empty : ShapeTable where
  order := []
  byId := ∅
  nodup_order := .nil
  mem_order := by simp [FiniteMap.contains]
  id_of_get? := by simp

/-- Whether an identifier is in use. -/
def contains (t : ShapeTable) (id : Node) : Bool :=
  t.byId.contains id

/-- The identifiers with that of one more shape, which comes last unless it is there. -/
def orderWith (t : ShapeTable) (s : Shape) : List Node :=
  if t.contains s.id then t.order else t.order ++ [s.id]

theorem nodup_orderWith (t : ShapeTable) (s : Shape) : (t.orderWith s).Nodup := by
  rw [orderWith]
  split
  · exact t.nodup_order
  next h =>
    refine List.nodup_append.2 ⟨t.nodup_order, by simp, ?_⟩
    intro a ha b hb hab
    rw [hab, List.mem_singleton.1 hb, t.mem_order] at ha
    exact h ha

theorem mem_orderWith {t : ShapeTable} {s : Shape} {id : Node} :
    id ∈ t.orderWith s ↔ id = s.id ∨ id ∈ t.order := by
  rw [orderWith]
  split
  next h =>
    rw [contains, ← t.mem_order] at h
    exact ⟨.inr, fun hid => hid.elim (fun hid => hid ▸ h) fun hid => hid⟩
  · rw [List.mem_append, List.mem_singleton, or_comm]

/-- **Adds a shape,** in place of the one with the same identifier if there is one. -/
def add (t : ShapeTable) (s : Shape) : ShapeTable where
  order := t.orderWith s
  byId := t.byId.insert s.id s
  nodup_order := t.nodup_orderWith s
  mem_order id := by
    rw [mem_orderWith, t.mem_order, FiniteMap.contains, FiniteMap.contains, FiniteMap.get?_insert]
    by_cases h : id = s.id
    · simp [h]
    · simp [h]
  id_of_get? {id u} h := by
    rw [FiniteMap.get?_insert] at h
    split at h
    next hid => exact Option.some.inj h ▸ hid.symm
    · exact t.id_of_get? h

/-- The table of the shapes of a list, added one by one. -/
def ofList (l : List Shape) : ShapeTable :=
  l.foldl add empty

/-- The shape of an identifier. -/
def get? (t : ShapeTable) (id : Node) : Option Shape :=
  t.byId.get? id

/-- **The shapes,** in the order in which their identifiers first came. -/
def shapes (t : ShapeTable) : List Shape :=
  t.order.filterMap t.get?

/-- The number of shapes. -/
def size (t : ShapeTable) : Nat := t.byId.size

end ShapeTable

/-- **Where shapes come from:** the shapes to write out, in order, and the shapes that references
are resolved from. These are finitely many, and a reference stands for a shape with the identifier
that it names. What is shown of every source is shown of the look-ups of this kind, not of one that
answers with a shape of another identifier, or without end. -/
structure ShapeSource where
  shapes : List Shape
  known : List Shape
  deriving DecidableEq, Repr

namespace ShapeSource

/-- The shape that a reference stands for: the first of the known shapes with that
identifier. -/
def resolve (src : ShapeSource) (id : Node) : Option Shape :=
  src.known.find? (·.id = id)

theorem id_of_resolve {src : ShapeSource} {id : Node} {s : Shape} (h : src.resolve id = some s) :
    s.id = id := by
  simpa using List.find?_some h

theorem mem_of_resolve {src : ShapeSource} {id : Node} {s : Shape} (h : src.resolve id = some s) :
    s ∈ src.known :=
  List.mem_of_find?_eq_some h

end ShapeSource

/-- A table as a source for itself. -/
def ShapeTable.source (t : ShapeTable) : ShapeSource := ⟨t.shapes, t.byId.values⟩

end ShapeRules.Shacl
