import ShapeRules.Proofs.Links

/-!
# A name that is given from outside

One shape can be written out under a name that the caller brings along. The shapes nested in it take
theirs from the namespace, which need not hold the given one: then a nested shape that asks for it
gets it, and the facts of two shapes run together. The namespace that comes back tells whether this
has happened, since it holds every name that was taken on the way.

## Main definitions

* `StandsForOne`: a name that no link leads to and that has one severity and one kind

## Main results

* `Compile.exists_tree`: one shape with what it nests, as a tree of named occurrences
* `linksTo_eq_false_iff`: when no link of a tree leads to a name
* `given_name_stands_for_one_iff`: when the given name stands for the given shape alone
-/

namespace ShapeRules

open Rdf Shacl Datalog Compile

/-- **A name stands for one shape,** which is nested in no other: no link leads to it, and it has
exactly one severity and one kind. -/
structure StandsForOne (name : String) (p : Program) : Prop where
  links : ∀ r ∈ p.rules, r.linksTo name = false
  severity : p.rules.countP (fun r => r.entry == some (.severity name)) = 1
  kind : p.rules.countP (fun r => r.entry == some (.kind name)) = 1

/-- **One shape with what it nests:** the rules are those of a tree of occurrences, of which those
below the root take new names. -/
theorem Compile.exists_tree {src : ShapeSource} {options : Options} {name : String} {shape : Shape}
    {ns ns' : Namespace} {program : Program}
    (h : (compileShape src options name shape ns).result = .ok (program, ns')) :
    ∃ nested : Forest Occurrence,
      ((Forest.cons ⟨name, shape⟩ nested .nil).map Occurrence.shape).Unfolded src ∧
      program.rules = distinct (Forest.cons ⟨name, shape⟩ nested .nil).rules ∧
      ns'.names = ns.names ++ nested.preorder.map Occurrence.name ∧
      (nested.preorder.map Occurrence.name).Nodup ∧ ∀ o ∈ nested.preorder, o.name ∉ ns.names := by
  obtain ⟨-, h⟩ := compileShape_eq_ok_iff.1 h
  obtain ⟨f, -, hf, he⟩ := (gives src options [] shape name ns _).1 h
  obtain ⟨rfl, rfl⟩ := Prod.mk.inj he
  obtain ⟨hnames, hnodup, hfresh, -⟩ := Forest.names_named ns f
  refine ⟨(f.named ns).1, ?_, ?_, hnames, hnodup, hfresh⟩
  · rw [Forest.map, Forest.map_shape_named]
    exact ⟨hf.mapM_resolve, hf.unfolded, trivial⟩
  · rw [Program.rules_ofRules, Forest.rules_tree]

section Tree

variable {src : ShapeSource} {o : Occurrence} {nested : Forest Occurrence} {name : String}

/-- **No link leads to a name** exactly if nothing below the root has it, even where occurrences
share their names and clauses are dropped. -/
theorem linksTo_eq_false_iff
    (hu : ((Forest.cons o nested .nil).map Occurrence.shape).Unfolded src) :
    (∀ r ∈ distinct (Forest.cons o nested .nil).rules, r.linksTo name = false) ↔
      name ∉ nested.preorder.map Occurrence.name := by
  have hpick : ∀ r s : Rule, sameClause r s →
      r.entry.bind Entry.child? = s.entry.bind Entry.child? :=
    fun r s h => congrArg (Option.bind · Entry.child?) (Rule.entry_congr h)
  have hchildren : name ∈ nested.preorder.map Occurrence.name ↔
      name ∈ (distinct (Forest.cons o nested .nil).rules).filterMap
        fun r => r.entry.bind Entry.child? := by
    rw [mem_filterMap_distinct hpick, filterMap_child_eq (Forest.filterMap_entry_rules hu),
      (Forest.filterMap_child_outline_none _).mem_iff, ← Forest.preorder_map]
    simp [Forest.map, Forest.inner]
  rw [hchildren, List.mem_filterMap]
  constructor
  · rintro hno ⟨r, hr, hchild⟩
    have := hno r hr
    rw [Rule.linksTo, hchild, beq_self_eq_true] at this
    cases this
  · intro hno r hr
    rw [Rule.linksTo, beq_eq_false_iff_ne]
    exact fun hchild => hno ⟨r, hr, hchild⟩

/-- A root whose name nothing below it has stands alone under that name. -/
theorem standsForOne_of_not_mem {p : Program}
    (hu : ((Forest.cons o nested .nil).map Occurrence.shape).Unfolded src)
    (hp : p.rules = distinct (Forest.cons o nested .nil).rules)
    (hn : (nested.preorder.map Occurrence.name).Nodup)
    (hname : o.name ∉ nested.preorder.map Occurrence.name) : StandsForOne o.name p := by
  have hnodup : ((Forest.cons o nested .nil).map Occurrence.name).preorder.Nodup := by
    rw [Forest.preorder_map, Forest.preorder, Forest.preorder, List.append_nil, List.map_cons]
    exact List.nodup_cons.2 ⟨hname, hn⟩
  -- no entry is repeated, so the outline of the tree is that of the program
  have houtline : p.rules.filterMap Rule.entry =
      ((Forest.cons o nested .nil).map Occurrence.name).outline none := by
    rw [hp, ← Forest.filterMap_entry_rules hu]
    apply filterMap_distinct fun r s => Rule.entry_congr
    rw [Forest.filterMap_entry_rules hu]
    exact Forest.nodup_outline hnodup
  refine ⟨?_, ?_, ?_⟩
  · rw [hp]
    exact (linksTo_eq_false_iff hu).2 hname
  · apply countP_entry_eq_one hnodup houtline
    exact List.mem_cons_self
  · apply countP_entry_eq_one hnodup houtline
    exact List.mem_cons_of_mem _ List.mem_cons_self

end Tree

/-- **When the given name stands for the given shape alone.** It does so, and no shape nested in it
is given the same name, exactly if the name was taken before or is free even afterwards. -/
theorem given_name_stands_for_one_iff {src : ShapeSource} {options : Options} {name : String}
    {shape : Shape} {ns ns' : Namespace} {program : Program}
    (h : (compileShape src options name shape ns).result = .ok (program, ns')) :
    ∃ nested : Forest Occurrence,
      ((Forest.cons ⟨name, shape⟩ nested .nil).map Occurrence.shape).Unfolded src ∧
      program.rules = distinct (Forest.cons ⟨name, shape⟩ nested .nil).rules ∧
      ns'.names = ns.names ++ nested.preorder.map Occurrence.name ∧
      ((∀ o ∈ nested.preorder, o.name ≠ name) ↔ name ∈ ns ∨ name ∉ ns') ∧
      (StandsForOne name program ↔ name ∈ ns ∨ name ∉ ns') := by
  obtain ⟨nested, hunfolded, hrules, hnames, hnodup, hfresh⟩ := exists_tree h
  have hfree : name ∉ nested.preorder.map Occurrence.name ↔ name ∈ ns ∨ name ∉ ns' := by
    have hmem : name ∈ ns' ↔ name ∈ ns ∨ name ∈ nested.preorder.map Occurrence.name := by
      show name ∈ ns'.names ↔ _
      rw [hnames]
      exact List.mem_append
    by_cases hns : name ∈ ns
    · -- the new names are not taken before, so they differ from one that is
      refine iff_of_true ?_ (.inl hns)
      intro hname
      obtain ⟨o, ho, rfl⟩ := List.mem_map.1 hname
      exact hfresh o ho hns
    · simp [hmem, hns]
  refine ⟨nested, hunfolded, hrules, hnames, ?_, ?_⟩
  · rw [← hfree, List.mem_map]
    constructor
    · rintro hne ⟨o, ho, he⟩
      exact hne o ho he
    · intro hno o ho he
      exact hno ⟨o, ho, he⟩
  · rw [← hfree]
    constructor
    · intro hone
      apply (linksTo_eq_false_iff hunfolded).1
      rw [← hrules]
      exact hone.links
    · exact standsForOne_of_not_mem hunfolded hrules hnodup

/-- A shape that asks for a name. -/
def claimant : Shape where
  id := .iri "http://example.org/T"
  names := ["S"]
  isProperty := true
  severity := .warning

/-- A shape that nests it. -/
def claimed : Shape where
  id := .iri "http://example.org/S"
  constraints := [.property [claimant.id]]

/-- The two shapes. -/
def claimSource : ShapeSource := ⟨[claimed, claimant], [claimed, claimant]⟩

/-- The name of the outer shape, taken after another one. -/
def claimTaken : Namespace := ⟨["T", "S"], by decide⟩

theorem given_name_stands_for_one_iff_reserved :
    ∃ program ns', (compileShape claimSource {} "S" claimed claimTaken).result =
        .ok (program, ns') ∧ ns'.names = ["T", "S", "S0"] ∧ StandsForOne "S" program := by
  have h : (compileShape claimSource {} "S" claimed claimTaken).result =
      .ok ((compileShape claimSource {} "S" claimed claimTaken).result.toOption.getD
        ({}, .initial)) := by decide +kernel
  obtain ⟨nested, -, -, -, -, hone⟩ := given_name_stands_for_one_iff h
  exact ⟨_, _, h, by decide +kernel, hone.2 (.inl (by decide))⟩

/-- **A nested shape is given the name of the shape around it:** the link leads from the name to
itself, which has two severities and two kinds. -/
theorem given_name_taken_by_nested :
    ∃ program ns', (compileShape claimSource {} "S" claimed .initial).result =
        .ok (program, ns') ∧
      program.rules = [
        about .severity "S" ["\"http://www.w3.org/ns/shacl#Violation\""],
        (about .nodeShape "S" []).withComment "<http://example.org/S>",
        about .severity "S" ["\"http://www.w3.org/ns/shacl#Warning\""],
        (about .propertyShape "S" []).withComment "<http://example.org/T>",
        about .propertyConstr "S" ["S"]] ∧
      isIdentifier "S" ∧ ¬ StandsForOne "S" program := by
  have h : (compileShape claimSource {} "S" claimed .initial).result =
      .ok ((compileShape claimSource {} "S" claimed .initial).result.toOption.getD
        ({}, .initial)) := by decide +kernel
  refine ⟨_, _, h, by decide +kernel, by decide, ?_⟩
  intro hone
  have hlink : about .propertyConstr "S" ["S"] ∈ ((compileShape claimSource {} "S" claimed
      .initial).result.toOption.getD ({}, .initial)).1.rules := by decide +kernel
  have hnot := hone.links _ hlink
  exact absurd hnot (by decide)

end ShapeRules
