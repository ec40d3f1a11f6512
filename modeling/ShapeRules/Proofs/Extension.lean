import ShapeRules.Proofs.Tables
import ShapeRules.Proofs.UniqueNames

/-!
# Adding a shape

A shape with a new identifier comes last in a table. A run that succeeds without it has looked up
known shapes only, and each of these is still found with the shape there, so the larger table
unfolds to the same forest with one tree more. The names of that tree are allocated after all
others and differ from them, so none of its rules has a clause that is already there: the program
of the larger table is the old one followed by the rules of the new shape.

## Main definitions

* `Shacl.ShapeSource.Extends`: a source in which the shapes of another one are found

## Main results

* `Forest.Unfolded.mono`: what a reference unfolds to stays
* `Compile.rules_of_extends`: the program of a larger source
* `program_kept_by_add`: the program of a larger table
-/

namespace ShapeRules

open Rdf Shacl Datalog Compile

/-! ## Larger sources -/

/-- **A source in which the shapes of another one are found:** it has more shapes to write out,
after the others, and each reference that the other one knows stands for the same shape. -/
structure Shacl.ShapeSource.Extends (src smaller : ShapeSource) (added : List Shape) : Prop where
  shapes : src.shapes = smaller.shapes ++ added
  resolve : ∀ {r : Node} {s : Shape}, smaller.resolve r = some s → src.resolve r = some s

namespace Shacl.ShapeTable

/-- A table to which a new identifier was added. -/
theorem extends_add {t : ShapeTable} {s : Shape} (hs : t.get? s.id = none) :
    (t.add s).source.Extends t.source [s] where
  shapes := shapes_add hs
  resolve {r u} hr := by
    rw [resolve_source] at hr ⊢
    rw [get?_add, if_neg, hr]
    rintro rfl
    cases hs.symm.trans hr

end Shacl.ShapeTable

/-- What references unfold to stays when more shapes are known. -/
theorem Forest.Unfolded.mono {src smaller : ShapeSource} {added : List Shape}
    (hsrc : src.Extends smaller added) {f : Forest Shape} (hf : f.Unfolded smaller) :
    f.Unfolded src := by
  induction f with
  | nil => trivial
  | cons s nested rest ih₁ ih₂ =>
    obtain ⟨hroots, hnested, hrest⟩ := hf
    exact ⟨Option.mapM_eq_some_mono hsrc.resolve hroots, ih₁ hnested, ih₂ hrest⟩

theorem Forest.rules_append (f g : Forest Occurrence) : (f ++ g).rules = f.rules ++ g.rules := by
  rw [rules, written_append, List.flatMap_append]
  rfl

theorem Grows.of_append {src : ShapeSource} {options : Options} {l m : List Shape}
    {h : Forest Shape} (hh : Grows src options (l ++ m) h) :
    ∃ f g, h = f ++ g ∧ Grows src options l f ∧ Grows src options m g := by
  induction l generalizing h with
  | nil => exact ⟨.nil, h, rfl, .nil, hh⟩
  | cons s l ih =>
    obtain _ | ⟨writable, inner, outer⟩ := hh
    obtain ⟨f, g, rfl, hf, hg⟩ := ih outer
    exact ⟨.cons s _ f, g, rfl, .cons writable inner hf, hg⟩

namespace Compile

/-- **The program of a larger source** is that of the smaller one, followed by the rules of the
shapes that were added. -/
theorem rules_of_extends {src smaller : ShapeSource} {added : List Shape}
    (hsrc : src.Extends smaller added) {options : Options} {program larger : Program}
    (h : (compile smaller options).result = .ok program)
    (h' : (compile src options).result = .ok larger) :
    ∃ f g, IsLayout smaller f ∧ IsLayout src (f ++ g) ∧ g.roots.map Occurrence.shape = added ∧
      larger.rules = program.rules ++ distinct g.rules := by
  obtain ⟨f, hf, rfl⟩ := compile_eq_ok_iff.1 h
  obtain ⟨f', hf', rfl⟩ := compile_eq_ok_iff.1 h'
  rw [hsrc.shapes] at hf'
  obtain ⟨e, g, rfl, he, hg⟩ := hf'.of_append
  -- the shapes that were there unfold as before
  obtain rfl : f = e :=
    (hf.unfolded.mono hsrc).unique he.unfolded (hf.roots_eq.trans he.roots_eq.symm)
  have hlayout : IsLayout src ((f ++ g).named .initial).1 := by
    refine .named ?_ hf'.unfolded
    rw [hf'.roots_eq, hsrc.shapes]
  rw [Forest.named_append] at hlayout ⊢
  refine ⟨_, _, .named hf.roots_eq hf.unfolded, hlayout, ?_, ?_⟩
  · rw [← Forest.roots_map, Forest.map_shape_named, hg.roots_eq]
  · -- the rules of the new trees are about names that are allocated after all others
    rw [Forest.rules_append, ← Program.pushAll_ofRules,
      ← Program.extend_ofRules _ options.library]
    have hbefore : ∀ r ∈ (Program.ofRules options.library (f.named .initial).1.rules).rules,
        ∃ name ∈ (f.named .initial).2.names, r.owner = some name := by
      intro r hr
      rw [Program.rules_ofRules] at hr
      obtain ⟨part, hp, hr⟩ := List.mem_flatMap.1 (distinct_subset _ hr)
      obtain ⟨name, -, hname, howner⟩ := Forest.exists_owner_named hp hr
      exact ⟨name, hname, howner⟩
    refine (rules_extend_of_owner hbefore ?_).trans ?_
    · intro r hr
      obtain ⟨part, hp, hr⟩ := List.mem_flatMap.1 hr
      obtain ⟨name, hname, -, howner⟩ := Forest.exists_owner_named hp hr
      exact ⟨name, hname, howner⟩
    · rw [Program.rules_ofRules options.library (g.named _).1.rules]

end Compile

/-- **The program of a larger table.** If a shape with a new identifier is added and the run still
succeeds, all rules stay in their order, with their names and comments, and the rules of the
occurrences that are new follow. -/
theorem program_kept_by_add {t : ShapeTable} {s : Shape} {options : Options}
    {program larger : Program} (hs : t.get? s.id = none)
    (h : (compile t.source options).result = .ok program)
    (h' : (compile (t.add s).source options).result = .ok larger) :
    program.rules <+: larger.rules ∧
      ∃ f g, IsLayout t.source f ∧ IsLayout (t.add s).source (f ++ g) ∧
        g.roots.map Occurrence.shape = [s] ∧
        larger.rules = program.rules ++ distinct g.rules := by
  obtain ⟨f, g, hf, hg, hroots, hrules⟩ := rules_of_extends (ShapeTable.extends_add hs) h h'
  exact ⟨⟨_, hrules.symm⟩, f, g, hf, hg, hroots, hrules⟩

/-- A table of a shape and one that it nests, which ask for the same name. -/
def nestedPair : ShapeTable := .ofList [
  { id := .iri "a", names := ["n"], constraints := [.property [.blank "b"]] },
  { id := .blank "b", names := ["n"], isProperty := true }]

/-- A shape that asks for that name too, and nests the others. -/
def nestingBoth : Shape where
  id := .iri "0"
  names := ["n"]
  constraints := [.node [.iri "a", .blank "b"], .maxCount 2]

theorem program_kept_by_add_nestingBoth :
    nestedPair.get? nestingBoth.id = none ∧
    ∃ program larger, (compile nestedPair.source {}).result = .ok program ∧
      (compile (nestedPair.add nestingBoth).source {}).result = .ok larger ∧
      program.size = 7 ∧ larger.size = 19 ∧ program.rules <+: larger.rules := by
  have hs : nestedPair.get? nestingBoth.id = none := by decide +kernel
  have h : (compile nestedPair.source {}).result =
      .ok ((compile nestedPair.source {}).result.toOption.getD {}) := by decide +kernel
  have h' : (compile (nestedPair.add nestingBoth).source {}).result =
      .ok ((compile (nestedPair.add nestingBoth).source {}).result.toOption.getD {}) := by
    decide +kernel
  exact ⟨hs, _, _, h, h', by decide +kernel, by decide +kernel, (program_kept_by_add hs h h').1⟩

end ShapeRules
