import Mathlib.Logic.Relation
import ShapeRules.Proofs.Fragment
import ShapeRules.Proofs.Tables

/-!
# When all shapes are written out

The shapes of a table are all written out exactly if every reference is known, no shape reaches
itself through references, no triple term has to be written, and a strict run meets no constraint
without a counterpart.

The compiler only compares a reference with the shapes around it. Every cycle is found in this way,
since a walk along a cycle comes back to its start with the start still around it; and a reference
to a shape around it always closes a cycle, since the shapes around a shape are a walk to it.

## Main definitions

* `ShapeTable.Refers t`: one shape of a table refers to another

## Main results

* `compile_table_ok_iff`: the exact condition for success
-/

namespace ShapeRules

open Rdf Shacl Datalog Compile

/-! ## References within a table -/

namespace Shacl.ShapeTable

/-- **One shape of a table refers to another.** -/
def Refers (t : ShapeTable) (a b : Shape) : Prop :=
  a ∈ t.shapes ∧ b ∈ t.shapes ∧ b.id ∈ a.references

end Shacl.ShapeTable

/-! ## Walks along references -/

namespace Nests

variable {src : ShapeSource} {options : Options} {around : List Node}

/-- Each of the references is new, known and unfolds in turn. -/
theorem of_mem {l : List Node} {f : Forest Shape} (hf : Nests src options around l f) {r : Node}
    (hr : r ∈ l) :
    r ∉ around ∧ ∃ s nested, src.resolve r = some s ∧
      Nests src options (s.id :: around) s.references nested := by
  induction hf with
  | nil => cases hr
  | cons fresh resolved _ inner _ _ ih =>
    rcases List.mem_cons.1 hr with rfl | hr
    · exact ⟨fresh, _, _, resolved, inner⟩
    · exact ih hr

/-- References that are new, known, writable and unfold in turn have a forest. -/
theorem exists_of_forall {l : List Node}
    (h : ∀ r ∈ l, r ∉ around ∧ ∃ s nested, src.resolve r = some s ∧ s.Writable options ∧
      Nests src options (s.id :: around) s.references nested) :
    ∃ f, Nests src options around l f := by
  induction l with
  | nil => exact ⟨.nil, .nil⟩
  | cons r l ih =>
    obtain ⟨⟨fresh, s, nested, resolved, hw, hn⟩, hl⟩ := List.forall_mem_cons.1 h
    obtain ⟨rest, hrest⟩ := ih hl
    exact ⟨.cons s nested rest, .cons fresh resolved hw hn hrest⟩

end Nests

namespace Grows

variable {src : ShapeSource} {options : Options} {shapes : List Shape}

theorem of_mem {f : Forest Shape} (hf : Grows src options shapes f) {s : Shape} (hs : s ∈ shapes) :
    s.Writable options ∧ ∃ nested, Nests src options [s.id] s.references nested := by
  induction hf with
  | nil => cases hs
  | cons writable inner _ ih =>
    rcases List.mem_cons.1 hs with rfl | hs
    · exact ⟨writable, _, inner⟩
    · exact ih hs

theorem exists_of_forall (h : ∀ s ∈ shapes, s.Writable options ∧
    ∃ nested, Nests src options [s.id] s.references nested) : ∃ f, Grows src options shapes f := by
  induction shapes with
  | nil => exact ⟨.nil, .nil⟩
  | cons s shapes ih =>
    obtain ⟨⟨hw, nested, hn⟩, hs⟩ := List.forall_mem_cons.1 h
    obtain ⟨rest, hrest⟩ := ih hs
    exact ⟨.cons s nested rest, .cons hw hn hrest⟩

end Grows

section Walks

variable {t : ShapeTable} {options : Options}

/-- Along a walk from a shape that unfolds, every shape unfolds with the start around it. -/
theorem nests_of_walk {a b : Shape} (hwalk : Relation.ReflTransGen t.Refers a b)
    {f : Forest Shape} (ha : Nests t.source options [a.id] a.references f) :
    ∃ around g, a.id ∈ around ∧ Nests t.source options around b.references g := by
  -- Induction on the walk: the start is around each shape on it.
  induction hwalk with
  | refl => exact ⟨_, f, List.mem_singleton_self _, ha⟩
  | tail _ step ih =>
    obtain ⟨around, g, hmem, hg⟩ := ih
    obtain ⟨-, hb, href⟩ := step
    obtain ⟨-, s, nested, hs, hn⟩ := hg.of_mem href
    obtain rfl := Option.some.inj (hs.symm.trans (ShapeTable.resolve_source_iff.2 ⟨hb, rfl⟩))
    exact ⟨_, nested, List.mem_cons_of_mem _ hmem, hn⟩

/-- **A shape that unfolds is on no cycle.** -/
theorem not_cycle_of_nests {s : Shape} {f : Forest Shape}
    (hs : Nests t.source options [s.id] s.references f) : ¬ Relation.TransGen t.Refers s s := by
  intro hcycle
  -- The last shape of the cycle refers back to the start, which is still around it.
  obtain ⟨b, hwalk, -, -, href⟩ := Relation.TransGen.tail'_iff.1 hcycle
  obtain ⟨around, g, hmem, hg⟩ := nests_of_walk hwalk hs
  have hfresh : s.id ∉ around := (hg.of_mem href).1
  exact hfresh hmem

/-- **Without cycles, unfolding is never refused,** as long as all references are known and all
shapes can be written. -/
theorem exists_nests
    (hknown : ∀ s ∈ t.shapes, ∀ r ∈ s.references, ∃ s' ∈ t.shapes, s'.id = r)
    (hacyclic : ∀ s, ¬ Relation.TransGen t.Refers s s)
    (hwritable : ∀ s ∈ t.shapes, s.Writable options) (ancestors : List Node) (s : Shape) :
    s ∈ t.shapes →
      (∀ a ∈ ancestors, ∃ s' ∈ t.shapes, s'.id = a ∧ Relation.TransGen t.Refers s' s) →
      ∃ f, Nests t.source options (s.id :: ancestors) s.references f := by
  -- Induction along the nesting; that a walk leads here from each shape around it is kept.
  induction ancestors, s using nesting_induction t.source with
  | step ancestors s ih =>
    intro hs hanc
    apply Nests.exists_of_forall
    intro r hr
    obtain ⟨child, hchild, rfl⟩ := hknown s hs r hr
    have hrefers : t.Refers s child := ⟨hs, hchild, hr⟩
    have hresolve : t.source.resolve child.id = some child :=
      ShapeTable.resolve_source_iff.2 ⟨hchild, rfl⟩
    -- the shapes around `child` are those from which a walk leads to it
    have hanc' : ∀ a ∈ s.id :: ancestors,
        ∃ s' ∈ t.shapes, s'.id = a ∧ Relation.TransGen t.Refers s' child := by
      intro a ha
      rcases List.mem_cons.1 ha with rfl | ha
      · exact ⟨s, hs, rfl, .single hrefers⟩
      · obtain ⟨s', hs', rfl, hwalk⟩ := hanc a ha
        exact ⟨s', hs', rfl, hwalk.tail hrefers⟩
    have hfresh : child.id ∉ s.id :: ancestors := by
      intro hmem
      -- the identifier of `child` is that of `child` only, so the walk is a cycle
      obtain ⟨s', hs', hid, hwalk⟩ := hanc' _ hmem
      obtain rfl := List.inj_on_of_nodup_map t.nodup_shapes hs' hchild hid
      exact hacyclic s' hwalk
    obtain ⟨nested, hnested⟩ := ih _ child hfresh hresolve hchild hanc'
    exact ⟨hfresh, child, nested, hresolve, hwritable child hchild, hnested⟩

end Walks

/-! ## The condition for success -/

/-- **The exact condition for success.** The shapes of a table, however it was built up, are all
written out exactly if

* every reference is the identifier of a shape of the table,
* no shape reaches itself through references,
* no term that has to be written is a triple term, and
* the run is not strict or no constraint lacks a counterpart. -/
theorem compile_table_ok_iff (history : List Shape) (options : Options) :
    (∃ program, (compile (ShapeTable.ofList history).source options).result = .ok program) ↔
      (∀ s ∈ (ShapeTable.ofList history).shapes, ∀ r ∈ s.references,
          ∃ s' ∈ (ShapeTable.ofList history).shapes, s'.id = r) ∧
        (∀ s, ¬ Relation.TransGen (ShapeTable.ofList history).Refers s s) ∧
        (∀ s ∈ (ShapeTable.ofList history).shapes, ∀ t ∈ s.terms, t.isTriple = false) ∧
        (options.strict → ∀ s ∈ (ShapeTable.ofList history).shapes, ∀ c ∈ s.constraints,
          c.parameter ∉ [Vocab.closed, .hasValue, .oneOf]) := by
  simp only [compile_eq_ok_iff]
  constructor
  · rintro ⟨_, f, hf, -⟩
    refine ⟨?_, ?_, ?_, ?_⟩
    · intro s hs r hr
      obtain ⟨-, nested, hn⟩ := hf.of_mem hs
      obtain ⟨-, s', -, hs', -⟩ := hn.of_mem hr
      exact ⟨s', ShapeTable.resolve_source_iff.1 hs'⟩
    · intro s hcycle
      obtain ⟨b, ⟨hs, -⟩, -⟩ := Relation.TransGen.head'_iff.1 hcycle
      obtain ⟨-, nested, hn⟩ := hf.of_mem hs
      exact not_cycle_of_nests hn hcycle
    · intro s hs
      exact (hf.of_mem hs).1.terms
    · intro strict s hs
      exact (hf.of_mem hs).1.supported strict
  · rintro ⟨hknown, hacyclic, hterms, hsupported⟩
    have hwritable : ∀ s ∈ (ShapeTable.ofList history).shapes, s.Writable options := by
      intro s hs
      exact ⟨hterms s hs, fun strict => hsupported strict s hs⟩
    have hgrows : ∃ f, Grows (ShapeTable.ofList history).source options
        (ShapeTable.ofList history).source.shapes f := by
      apply Grows.exists_of_forall
      intro s hs
      -- nothing is around a shape at the top level
      have hnone : ∀ a ∈ ([] : List Node), ∃ s' ∈ (ShapeTable.ofList history).shapes,
          s'.id = a ∧ Relation.TransGen (ShapeTable.ofList history).Refers s' s := by simp
      exact ⟨hwritable s hs, exists_nests hknown hacyclic hwritable [] s hs hnone⟩
    obtain ⟨f, hf⟩ := hgrows
    exact ⟨_, f, hf, rfl⟩

end ShapeRules
