import ShapeRules.Proofs.Defects
import ShapeRules.Proofs.Designation
import ShapeRules.Proofs.ExactNumbers
import ShapeRules.Proofs.Grammar
import ShapeRules.Proofs.UniqueNames

/-!
# Counts, from a graph to its program

Four parameters of a shape have counts for values. Each is read from the smallest value of its
property, and is carried through without a change: every occurrence of the shape has one fact with
the plain decimal text of the number, however the number was written in the graph. A minimum of zero
asks for nothing and gives no fact. A value that is no count ends the reading of the shapes, unless
it has ended before.

## Main definitions

* `Shacl.CountParameter`: the four parameters, with their constraints, readers and predicates
* `Shacl.IsDecimal`: the plain decimal text of a number
* `Shacl.MetEarlier`: the faults that are met before the value of a parameter is looked at

## Main results

* `Shacl.filterMap_count?`: the counts of a shape are those of its properties
* `Shacl.Constraint.filter_statements`: the facts of a constraint for its counts
* `OwnsRules.filter_count`: the facts of an occurrence for its counts
* `Shacl.exists_ofLabelled_eq_error`: a value that is no count ends the reading of the shapes
* `counts_carried_exactly`: counts, from a graph to its program
-/

namespace ShapeRules

open Rdf Shacl Datalog Compile

namespace Shacl

/-! ## The parameters with counts -/

/-- **The parameters that have counts for values.** -/
inductive CountParameter where
  | minCount
  | maxCount
  | qualifiedMinCount
  | qualifiedMaxCount
  deriving DecidableEq, Repr

namespace CountParameter

/-- The property of a parameter. -/
def vocab : CountParameter → Vocab
  | minCount => .minCount
  | maxCount => .maxCount
  | qualifiedMinCount => .qualifiedMinCount
  | qualifiedMaxCount => .qualifiedMaxCount

/-- The kind of the constraint that a parameter is a part of. -/
def kind : CountParameter → Vocab
  | minCount => .minCount
  | maxCount => .maxCount
  | qualifiedMinCount => .qualifiedValueShape
  | qualifiedMaxCount => .qualifiedValueShape

/-- The reader of that constraint. -/
def reader : CountParameter → ConstraintReader
  | minCount => .count .minCount .minCount
  | maxCount => .count .maxCount .maxCount
  | qualifiedMinCount => .qualified
  | qualifiedMaxCount => .qualified

/-- The predicate of the facts for a parameter. -/
def predicate : CountParameter → Predicate
  | minCount => .minCountConstr
  | maxCount => .maxCountConstr
  | qualifiedMinCount => .qualifiedMinCount
  | qualifiedMaxCount => .qualifiedMaxCount

/-- **When a parameter of a shape is looked at:** the qualified ones only if the shape has a
qualified value shape. -/
def IsRead (g : Graph) (id : Node) (k : CountParameter) : Prop :=
  k.kind = .qualifiedValueShape → ∃ x, (⟨id, Vocab.qualifiedValueShape.iri, x⟩ : Triple) ∈ g

/-- The facts about a named shape for a count: one, but none for a minimum of zero. -/
def facts (k : CountParameter) (name : String) (n : Nat) : List Rule :=
  if k = .minCount ∧ n = 0 then [] else [about k.predicate name [toString n]]

theorem predicate_mem (k : CountParameter) : k.predicate ∈ countPredicates := by
  cases k <;> decide

theorem reader_mem (k : CountParameter) : (k.reader, k.kind) ∈
    constraintReaders.zip constraintKinds := by
  cases k <;> simp [reader, kind, constraintReaders, constraintKinds]

end CountParameter

/-- The count of a constraint for a parameter, if it has one. -/
def Constraint.count? (k : CountParameter) : Constraint → Option Count
  | .minCount n => if k = .minCount then some n else none
  | .maxCount n => if k = .maxCount then some n else none
  | .qualifiedValueShape _ min max _ =>
    match k with
    | .qualifiedMinCount => min
    | .qualifiedMaxCount => max
    | _ => none
  | _ => none

/-! ## Decimal texts -/

/-- **The plain decimal text of a number:** digits without a sign, and no zero in front of the
others. -/
def IsDecimal (s : String) (n : Nat) : Prop :=
  Value.IsDigits s.toList ∧ Value.natOfDigits s.toList = n ∧ (s.toList.head? = some '0' → s = "0")

theorem eq_zero_of_head?_toDigits {n : Nat} (h : (Nat.toDigits 10 n).head? = some '0') : n = 0 := by
  -- Induction on the number without its last digit, which keeps the first one.
  induction n using Nat.strongRecOn with
  | ind n ih =>
    by_cases hn : n < 10
    · have hvalue := Value.natOfDigits_toDigits n
      rw [Nat.toDigits_of_lt_base hn] at h hvalue
      rw [Option.some.inj h] at hvalue
      exact hvalue.symm
    · rw [Nat.toDigits_of_base_le (by decide) (Nat.le_of_not_lt hn), List.head?_append_of_ne_nil _
        (Value.isDigits_toDigits _).1] at h
      have hzero := ih (n / 10) (by omega) h
      omega

theorem isDecimal_toString (n : Nat) : IsDecimal (toString n) n := by
  have hdigits : (toString n).toList = Nat.toDigits 10 n := Nat.toList_repr
  rw [IsDecimal, hdigits]
  refine ⟨Value.isDigits_toDigits n, Value.natOfDigits_toDigits n, ?_⟩
  intro h
  rw [eq_zero_of_head?_toDigits h]
  rfl

/-! ## Counts that are read -/

variable {g : Graph} {ids : OrderedSet Node} {id : Node} {k : CountParameter} {o : Term}
  {e : Fault} {cs : List Constraint}

/-- Which smallest values are accepted, and for which numbers. -/
theorem countOf_eq_some_iff {v : Vocab} (ho : g.value? id v.iri = some o) {n : Count} :
    countOf g id v = .ok (some n) ↔ ∃ l, o = .literal l ∧ IsNumeral l.lexical n.toNat := by
  rw [countOf, term?, ho]
  cases o with
  | node m => simp
  | triple s p x => simp
  | literal l =>
    simp only [← count?_eq_some_iff, Term.literal.injEq, exists_eq_left']
    cases count? l.lexical with
    | none => simp
    | some m => simp

/-- A constraint has a count only for a parameter of its own kind. -/
theorem Constraint.count?_eq_none {c : Constraint} (h : c.parameter ≠ k.kind) :
    c.count? k = none := by
  cases c with
  | minCount n =>
    refine if_neg ?_
    rintro rfl
    exact h rfl
  | maxCount n =>
    refine if_neg ?_
    rintro rfl
    exact h rfl
  | qualifiedValueShape shapes min max isDisjoint =>
    cases k with
    | qualifiedMinCount => exact absurd rfl h
    | qualifiedMaxCount => exact absurd rfl h
    | minCount => rfl
    | maxCount => rfl
  | _ => rfl

/-- The counts that the reader of a parameter finds. -/
theorem filterMap_count?_of_reader (hk : k.IsRead g id) (h : k.reader g id = .ok cs) :
    ∃ n, countOf g id k.vocab = .ok n ∧ cs.filterMap (Constraint.count? k) = n.toList := by
  cases k with
  | minCount =>
    obtain ⟨n, hn, h⟩ := Except.bind_eq_ok_iff.1 h
    obtain rfl := Except.ok.inj h
    exact ⟨n, hn, by cases n <;> rfl⟩
  | maxCount =>
    obtain ⟨n, hn, h⟩ := Except.bind_eq_ok_iff.1 h
    obtain rfl := Except.ok.inj h
    exact ⟨n, hn, by cases n <;> rfl⟩
  | qualifiedMinCount =>
    obtain ⟨x, hx⟩ := hk rfl
    obtain ⟨shapes, min, max, disjoint, rfl, hmin, -⟩ := exists_of_qualified_eq_ok hx h
    exact ⟨min, hmin, by cases min <;> rfl⟩
  | qualifiedMaxCount =>
    obtain ⟨x, hx⟩ := hk rfl
    obtain ⟨shapes, min, max, disjoint, rfl, -, hmax⟩ := exists_of_qualified_eq_ok hx h
    exact ⟨max, hmax, by cases max <;> rfl⟩

/-- **The counts of a shape are those of its properties.** -/
theorem filterMap_count? (hk : k.IsRead g id) (h : readConstraints g id = .ok cs) :
    ∃ n, countOf g id k.vocab = .ok n ∧ cs.filterMap (Constraint.count? k) = n.toList := by
  obtain ⟨n, hn, hcs⟩ := filterMap_count?_of_reader hk (reader_eq_ok h k.reader_mem)
  refine ⟨n, hn, ?_⟩
  rw [← hcs, List.filterMap_filter]
  refine List.filterMap_congr fun c _ => ?_
  by_cases hc : c.parameter = k.kind
  · simp [hc]
  · simp [hc, Constraint.count?_eq_none]

/-! ## Facts for counts -/

section Facts

variable {name : String} {rules : List Rule}

/-- Rules with other predicates are no facts for counts. -/
theorem CountParameter.filter_eq_nil (h : ∀ r ∈ rules, r.head.predicate ∉ countPredicates) :
    rules.filter (·.head.predicate = k.predicate) = [] := by
  refine List.filter_eq_nil_iff.2 fun r hr he => ?_
  exact h r hr (of_decide_eq_true he ▸ k.predicate_mem)

variable {p : Predicate} (hp : p ∉ countPredicates)

include hp

theorem notMem_of_mem_facts {terms : List Term} :
    ∀ r ∈ ShapeRules.facts p name terms, r.head.predicate ∉ countPredicates := by
  intro r hr
  obtain ⟨t, -, hr⟩ := List.mem_flatMap.1 hr
  obtain ⟨c, -, rfl⟩ := List.mem_map.1 hr
  exact hp

theorem notMem_of_mem_iriFacts {iris : List String} :
    ∀ r ∈ iriFacts p name iris, r.head.predicate ∉ countPredicates := by
  intro r hr
  obtain ⟨iri, -, rfl⟩ := List.mem_map.1 hr
  exact hp

theorem notMem_of_mem_nodes {nodes : List Node} :
    ∀ r ∈ nodes.map fun n => about p name [n.constant], r.head.predicate ∉ countPredicates := by
  intro r hr
  obtain ⟨n, -, rfl⟩ := List.mem_map.1 hr
  exact hp

theorem notMem_of_mem_memberFacts {mark : Predicate} (hmark : mark ∉ countPredicates)
    {shapes : List Node} :
    ∀ r ∈ memberFacts mark p name shapes, r.head.predicate ∉ countPredicates :=
  List.forall_mem_cons.2 ⟨hmark, notMem_of_mem_nodes hp⟩

omit hp

theorem notMem_of_mem_target {target : Target} :
    ∀ r ∈ target.statements name, r.head.predicate ∉ countPredicates := by
  have htarget : Predicate.target ∉ countPredicates := by decide
  intro r hr
  cases target with
  | implicitClass iri =>
    obtain rfl := List.mem_singleton.1 hr
    exact htarget
  | node t =>
    obtain ⟨c, -, rfl⟩ := List.mem_map.1 hr
    exact htarget
  | ofClass t =>
    obtain ⟨c, -, rfl⟩ := List.mem_map.1 hr
    exact htarget
  | objectsOf t =>
    obtain ⟨c, -, rfl⟩ := List.mem_map.1 hr
    exact htarget
  | subjectsOf t =>
    obtain ⟨c, -, rfl⟩ := List.mem_map.1 hr
    exact htarget

/-- A shape has no counts before its constraints. -/
theorem notMem_of_mem_preamble {occ : Occurrence} :
    ∀ r ∈ occ.preamble, r.head.predicate ∉ countPredicates := by
  intro r hr
  simp only [Occurrence.preamble, Shape.metadata, List.mem_append, or_assoc] at hr
  rcases hr with hr | hr | hr | hr | hr
  · exact notMem_of_mem_facts (by decide) r hr
  · exact notMem_of_mem_facts (by decide) r hr
  · split at hr
    · obtain rfl := List.mem_singleton.1 hr
      show Predicate.deactivated ∉ countPredicates
      decide
    · cases hr
  · simp only [List.mem_cons, List.not_mem_nil, or_false] at hr
    rcases hr with rfl | rfl
    · show Predicate.severity ∉ countPredicates
      decide
    · rw [Shape.kindFact]
      cases occ.shape.isProperty with
      | true =>
        show Predicate.propertyShape ∉ countPredicates
        decide
      | false =>
        show Predicate.nodeShape ∉ countPredicates
        decide
  · obtain ⟨target, -, hr⟩ := List.mem_flatMap.1 hr
    exact notMem_of_mem_target r hr

/-- **The facts of a constraint for its counts.** Constraints of other kinds have none. -/
theorem Constraint.filter_statements (c : Constraint) :
    (c.statements name).filter (·.head.predicate = k.predicate) =
      (c.count? k).toList.flatMap fun n => k.facts name n.toNat := by
  cases c with
  | minCount n =>
    by_cases hn : n = 0
    · subst hn
      cases k <;> rfl
    · have hnat : n.toNat ≠ 0 := fun h => hn (UInt64.toNat_inj.1 h)
      rw [statements, if_neg hn]
      cases k with
      | minCount =>
        have hfacts : CountParameter.minCount.facts name n.toNat =
            [about .minCountConstr name [toString n]] := if_neg fun h => hnat h.2
        show _ = CountParameter.minCount.facts name n.toNat ++ []
        rw [hfacts]
        rfl
      | maxCount => rfl
      | qualifiedMinCount => rfl
      | qualifiedMaxCount => rfl
  | maxCount n => cases k <;> rfl
  | qualifiedValueShape shapes min max isDisjoint =>
    -- each of the three parts is there or not
    cases k <;> cases min <;> cases max <;> cases isDisjoint <;> rfl
  | not shapes => exact CountParameter.filter_eq_nil (notMem_of_mem_nodes (by decide))
  | and shapes =>
    exact CountParameter.filter_eq_nil (notMem_of_mem_memberFacts (by decide) (by decide))
  | or shapes =>
    exact CountParameter.filter_eq_nil (notMem_of_mem_memberFacts (by decide) (by decide))
  | xone shapes =>
    exact CountParameter.filter_eq_nil (notMem_of_mem_memberFacts (by decide) (by decide))
  | equals iris => exact CountParameter.filter_eq_nil (notMem_of_mem_iriFacts (by decide))
  | disjoint iris => exact CountParameter.filter_eq_nil (notMem_of_mem_iriFacts (by decide))
  | lessThan iris => exact CountParameter.filter_eq_nil (notMem_of_mem_iriFacts (by decide))
  | lessThanOrEquals iris => exact CountParameter.filter_eq_nil (notMem_of_mem_iriFacts (by decide))
  | datatype iri => exact CountParameter.filter_eq_nil (notMem_of_mem_iriFacts (by decide))
  | nodeKind iri => exact CountParameter.filter_eq_nil (notMem_of_mem_iriFacts (by decide))
  | uniqueLang => cases k <;> rfl
  | languageIn ts =>
    rw [statements, List.filter_append,
      CountParameter.filter_eq_nil (notMem_of_mem_facts (by decide))]
    cases k <;> rfl
  | minLength t => exact CountParameter.filter_eq_nil (notMem_of_mem_facts (by decide))
  | maxLength t => exact CountParameter.filter_eq_nil (notMem_of_mem_facts (by decide))
  | pattern t flags => exact CountParameter.filter_eq_nil (notMem_of_mem_facts (by decide))
  | ofClass ts => exact CountParameter.filter_eq_nil (notMem_of_mem_facts (by decide))
  | minExclusive ts => exact CountParameter.filter_eq_nil (notMem_of_mem_facts (by decide))
  | minInclusive ts => exact CountParameter.filter_eq_nil (notMem_of_mem_facts (by decide))
  | maxExclusive ts => exact CountParameter.filter_eq_nil (notMem_of_mem_facts (by decide))
  | maxInclusive ts => exact CountParameter.filter_eq_nil (notMem_of_mem_facts (by decide))
  | _ => rfl

/-- The facts of constraints for their counts, without the rules of what they nest. -/
theorem filter_blocks_count (cs : List Constraint) {parts : List (String × List Rule)}
    (hparts : ∀ part ∈ parts, part.2 = []) :
    (blocks name cs parts).filter (·.head.predicate = k.predicate) =
      (cs.filterMap (Constraint.count? k)).flatMap fun n => k.facts name n.toNat := by
  induction cs generalizing parts with
  | nil => rfl
  | cons c cs ih =>
    have hlinked : (linked name c.link (parts.take c.references.length)).filter
        (·.head.predicate = k.predicate) = [] := by
      apply CountParameter.filter_eq_nil
      intro r hr
      -- only the links are left of what is nested
      obtain ⟨part, hpart, hr⟩ := List.mem_flatMap.1 hr
      rw [hparts part (List.mem_of_mem_take hpart), List.nil_append, List.mem_singleton] at hr
      have hdisjoint : ∀ p ∈ linkPredicates, p ∉ countPredicates := by decide
      rw [hr]
      exact hdisjoint c.link (link_mem_linkPredicates c)
    rw [blocks, List.filter_append, List.filter_append, hlinked, List.nil_append,
      c.filter_statements, ih fun part hpart => hparts part (List.mem_of_mem_drop hpart),
      List.filterMap_cons]
    cases c.count? k with
    | none => rfl
    | some n => simp

end Facts

end Shacl

/-! ## Facts of occurrences -/

/-- What an occurrence writes itself. -/
theorem Forest.exists_of_mem_ownRules {f : Forest Occurrence} {e : Occurrence × List Rule}
    (h : e ∈ f.ownRules) : ∃ parts : List (String × List Rule), (∀ part ∈ parts, part.2 = []) ∧
      e.2 = e.1.preamble ++ blocks e.1.name e.1.shape.constraints parts := by
  induction f with
  | nil => cases h
  | cons o nested rest ih₁ ih₂ =>
    rcases List.mem_cons.1 h with rfl | h
    · refine ⟨_, ?_, rfl⟩
      simp
    · exact (List.mem_append.1 h).elim ih₁ ih₂

/-- **The facts of an occurrence for its counts.** -/
theorem OwnsRules.filter_count {f : Forest Occurrence} {program : Program}
    (h : OwnsRules f program) {occ : Occurrence} (hocc : occ ∈ f.preorder) {k : CountParameter}
    {n : Count} (hn : occ.shape.constraints.filterMap (Constraint.count? k) = [n]) :
    program.rules.filter (fun r => r.head.predicate = k.predicate ∧ r.isAbout occ.name) =
      k.facts occ.name n.toNat := by
  rw [← Forest.map_fst_ownRules] at hocc
  obtain ⟨e, he, rfl⟩ := List.mem_map.1 hocc
  obtain ⟨parts, hparts, hown⟩ := Forest.exists_of_mem_ownRules he
  have hclause : ∀ r s : Rule, sameClause r s →
      decide (r.head.predicate = k.predicate) = decide (s.head.predicate = k.predicate) := by
    intro r s hrs
    have hsame : r.toClause = s.toClause := by simpa [sameClause] using hrs
    rw [hsame]
  have hdistinct : distinct (k.facts e.1.name n.toNat) = k.facts e.1.name n.toNat := by
    rw [CountParameter.facts]
    split <;> rfl
  calc program.rules.filter (fun r => r.head.predicate = k.predicate ∧ r.isAbout e.1.name)
      = (program.rules.filter (Rule.isAbout e.1.name)).filter
          (·.head.predicate = k.predicate) := by
        rw [List.filter_filter]
        simp
    _ = distinct (e.2.filter (·.head.predicate = k.predicate)) := by
        rw [h.own e he, filter_distinct hclause]
    _ = k.facts e.1.name n.toNat := by
        rw [hown, List.filter_append, CountParameter.filter_eq_nil notMem_of_mem_preamble,
          filter_blocks_count _ hparts, hn, List.nil_append, List.flatMap_singleton, hdistinct]

/-! ## Values that are no counts -/

namespace Shacl

variable {g : Graph} {ids : OrderedSet Node} {id : Node} {k : CountParameter} {o : Term}
  {e : Fault}

/-- **The faults that are met before the value of a parameter is looked at.** -/
inductive MetEarlier (g : Graph) (id : Node) (k : CountParameter) : Fault → Prop
  /-- Shapes are discovered before they are read. -/
  | discovery {e : Fault} (fault : discover g = .error e) : MetEarlier g id k e
  /-- Shapes are read in the order of their identifiers. -/
  | shape {other : Node} {e : Fault} (designated : Designates g (.node other))
      (before : other.Before id) (fault : readShape g other = .error e) : MetEarlier g id k e
  /-- The severity of a shape is read before its constraints. -/
  | severity {e : Fault} (fault : readSeverity g id = .error e) : MetEarlier g id k e
  /-- Constraints are read in the order of their readers. -/
  | constraint {r : ConstraintReader} {e : Fault}
      (before : [r, k.reader].Sublist constraintReaders) (fault : r g id = .error e) :
      MetEarlier g id k e
  /-- Of the qualified counts, the minimum is read before the maximum. -/
  | minimum {e : Fault} (maximum : k = .qualifiedMaxCount)
      (fault : countOf g id .qualifiedMinCount = .error e) : MetEarlier g id k e

/-- How the qualified constraint of a shape is read, where shapes can be discovered. -/
theorem exists_qualified_eq (hids : discover g = .ok ids)
    (hshape : ∃ x, (⟨id, Vocab.qualifiedValueShape.iri, x⟩ : Triple) ∈ g) :
    ∃ make : Option Count → Option Count → List Constraint,
      ConstraintReader.qualified g id = countOf g id .qualifiedMinCount >>= fun min =>
        countOf g id .qualifiedMaxCount >>= fun max => pure (make min max) := by
  obtain ⟨x, hx⟩ := hshape
  obtain ⟨shapes, hshapes⟩ : ∃ shapes, references g id .qualifiedValueShape = .ok shapes :=
    exists_references_eq_ok hids (by decide)
  have hne := isEmpty_of_references hshapes hx
  refine ⟨fun min max =>
    [.qualifiedValueShape shapes min max (isTrue g id .qualifiedValueShapesDisjoint)], ?_⟩
  rw [ConstraintReader.qualified, hshapes]
  simp [bind, Except.bind, hne]

/-- A value that is no count ends the reading of its constraint. -/
theorem exists_reader_eq_error (hids : discover g = .ok ids) (hk : k.IsRead g id)
    (ho : g.value? id k.vocab.iri = some o) (hcount : ¬ o.IsCount) :
    ∃ e, k.reader g id = .error e ∧
      (e = .invalidValue id k.vocab .count o ∨ MetEarlier g id k e) := by
  have hfault : countOf g id k.vocab = .error (.invalidValue id k.vocab .count o) :=
    countOf_eq_error_iff.2 ⟨o, ho, hcount, rfl⟩
  cases k with
  | minCount => exact ⟨_, Except.bind_eq_error_iff.2 (.inl hfault), .inl rfl⟩
  | maxCount => exact ⟨_, Except.bind_eq_error_iff.2 (.inl hfault), .inl rfl⟩
  | qualifiedMinCount =>
    obtain ⟨make, hmake⟩ := exists_qualified_eq hids (hk rfl)
    exact ⟨_, hmake.trans (Except.bind_eq_error_iff.2 (.inl hfault)), .inl rfl⟩
  | qualifiedMaxCount =>
    obtain ⟨make, hmake⟩ := exists_qualified_eq hids (hk rfl)
    cases hmin : countOf g id .qualifiedMinCount with
    | error e =>
      exact ⟨e, hmake.trans (Except.bind_eq_error_iff.2 (.inl hmin)), .inr (.minimum rfl hmin)⟩
    | ok min =>
      refine ⟨_, hmake.trans (Except.bind_eq_error_iff.2 (.inr ⟨min, hmin, ?_⟩)), .inl rfl⟩
      exact Except.bind_eq_error_iff.2 (.inl hfault)

/-- A value that is no count ends the reading of its shape. -/
theorem exists_readShape_eq_error (hids : discover g = .ok ids) (hk : k.IsRead g id)
    (ho : g.value? id k.vocab.iri = some o) (hcount : ¬ o.IsCount) :
    ∃ e, readShape g id = .error e ∧
      (e = .invalidValue id k.vocab .count o ∨ MetEarlier g id k e) := by
  cases hseverity : readSeverity g id with
  | error e =>
    exact ⟨e, Except.bind_eq_error_iff.2 (.inl hseverity), .inr (.severity hseverity)⟩
  | ok severity =>
    obtain ⟨e, hreader, he⟩ := exists_reader_eq_error hids hk ho hcount
    have hmem : k.reader ∈ constraintReaders := (List.of_mem_zip k.reader_mem).1
    obtain ⟨e', hall, he'⟩ :=
      Except.exists_mapM_eq_error_of_mem (f := fun r : ConstraintReader => r g id) hmem hreader
    have hconstraints : readConstraints g id = .error e' := Except.bind_eq_error_iff.2 (.inl hall)
    refine ⟨e', Except.bind_eq_error_iff.2 (.inr ⟨severity, hseverity, ?_⟩), ?_⟩
    · exact Except.bind_eq_error_iff.2 (.inl hconstraints)
    · rcases he' with rfl | ⟨r, hbefore, hr⟩
      · exact he
      · exact .inr (.constraint hbefore hr)

/-- **A value that is no count ends the reading of the shapes,** unless it has ended before. -/
theorem exists_ofLabelled_eq_error (hid : Designates g (.node id)) (hk : k.IsRead g id)
    (ho : g.value? id k.vocab.iri = some o) (hcount : ¬ o.IsCount) :
    ∃ e, ShapeTable.ofLabelled g = .error e ∧
      (e = .invalidValue id k.vocab .count o ∨ MetEarlier g id k e) := by
  cases hids : discover g with
  | error e => exact ⟨e, Except.bind_eq_error_iff.2 (.inl hids), .inr (.discovery hids)⟩
  | ok ids =>
    have hmem : id ∈ ids.toList := (mem_discover_iff_designates hids).2 hid
    obtain ⟨e, hread, he⟩ := exists_readShape_eq_error hids hk ho hcount
    obtain ⟨e', hall, he'⟩ := Except.exists_mapM_eq_error_of_mem hmem hread
    refine ⟨e', Except.bind_eq_error_iff.2 (.inr ⟨ids, hids, ?_⟩), ?_⟩
    · exact Except.bind_eq_error_iff.2 (.inl hall)
    · rcases he' with rfl | ⟨other, hsub, hother⟩
      · exact he
      · -- what is listed before the shape has a smaller identifier
        have hlt := List.pairwise_iff_forall_sublist.1 ids.increasing hsub
        have hdesignated : Designates g (.node other) :=
          (mem_discover_iff_designates hids).1 (hsub.subset List.mem_cons_self)
        exact .inr (.shape hdesignated (Node.compare_eq_lt_iff.1 hlt) hother)

/-! ## Values that are counts -/

theorem reference_eq_error {t : Term} (h : reference t = .error e) : e = .invalidReference t := by
  cases t with
  | node n => cases h
  | literal l => exact (Except.error.inj h).symm
  | triple s p x => exact (Except.error.inj h).symm

/-- Discovery never fails for the value of a parameter. -/
theorem discover_ne_invalidValue {v : Vocab} {expected : Expected} :
    discover g ≠ .error (.invalidValue id v expected o) := by
  intro h
  rcases Except.bind_eq_error_iff.1 h with h | ⟨nested, -, h⟩
  · obtain ⟨w, -, h⟩ := Except.exists_part_of_mapM_eq_error h
    obtain ⟨t, -, h⟩ := Except.exists_part_of_mapM_eq_error h
    cases reference_eq_error h
  · rcases Except.bind_eq_error_iff.1 h with h | ⟨listed, -, h⟩
    · obtain ⟨w, -, h⟩ := Except.exists_part_of_mapM_eq_error h
      obtain ⟨t, -, h⟩ := Except.exists_part_of_mapM_eq_error (Except.bind_pure_eq_error_iff.1 h)
      rcases Except.bind_eq_error_iff.1 h with h | ⟨members, -, h⟩
      · obtain ⟨f, -, he⟩ := listOf_eq_error_iff.1 h
        cases he
      · obtain ⟨x, -, h⟩ := Except.exists_part_of_mapM_eq_error h
        cases reference_eq_error h
    · cases h

/-- A value that is a count is never reported. -/
theorem ofLabelled_ne_invalidValue {v : Vocab} (ho : g.value? id v.iri = some o)
    (hcount : o.IsCount) (x : Term) :
    ShapeTable.ofLabelled g ≠ .error (.invalidValue id v .count x) := by
  intro h
  rcases Except.bind_eq_error_iff.1 h with h | ⟨ids, hids, h⟩
  · exact discover_ne_invalidValue h
  · obtain ⟨other, -, hread⟩ :=
      Except.exists_part_of_mapM_eq_error (Except.bind_pure_eq_error_iff.1 h)
    cases defect_of_readShape hids hread with
    | count hv hx hnot => exact hnot (Option.some.inj (ho.symm.trans hx) ▸ hcount)
    | qualifiedCount hv hshape hx hnot => exact hnot (Option.some.inj (ho.symm.trans hx) ▸ hcount)

end Shacl

/-! ## Programs of graphs -/

/-- The occurrences of the program of a graph: they tell its rules apart, and their shapes are read
off the graph. -/
theorem Compile.exists_layout_of_compileGraph {g : Graph} {options : Options} {program : Program}
    (h : (compileGraph g options).result = .ok program) :
    ∃ t f, ShapeTable.ofGraph g = .ok t ∧ IsLayout t.source f ∧ OwnsRules f program ∧
      ∀ occ ∈ f.preorder, readShape g.canonical occ.shape.id = .ok occ.shape := by
  rw [result_compileGraph] at h
  cases ht : ShapeTable.ofGraph g with
  | error e =>
    rw [ht] at h
    cases h
  | ok t =>
    rw [ht] at h
    obtain ⟨f, hf, rfl⟩ := compile_eq_ok_iff.1 (Except.mapError_eq_ok_iff.1 h)
    obtain ⟨-, hnodup, -, hident⟩ := Forest.names_named .initial f
    have hlayout : IsLayout t.source (f.named .initial).1 := .named hf.roots_eq hf.unfolded
    refine ⟨t, (f.named .initial).1, rfl, hlayout, .ofRules _ hlayout.unfolded hnodup hident, ?_⟩
    intro occ hocc
    have hshape : occ.shape ∈ f.preorder := by
      rw [← Forest.map_shape_named .initial f, Forest.preorder_map]
      exact List.mem_map_of_mem hocc
    have hmem : occ.shape ∈ t.shapes :=
      (List.mem_append.1 (hf.mem_shapes_or_known hshape)).elim id ShapeTable.mem_known_source.1
    obtain ⟨ids, -, hread⟩ := ShapeTable.of_mem_ofGraph ht
    exact (hread occ.shape hmem).2

/-- A designated shape of a graph has an occurrence. -/
theorem Shacl.ShapeTable.exists_occurrence {g : Graph} {t : ShapeTable} {f : Forest Occurrence}
    (ht : ofGraph g = .ok t) (hf : IsLayout t.source f) {id : Node}
    (hid : Designates g.canonical (.node id)) : ∃ occ ∈ f.preorder, occ.shape.id = id := by
  obtain ⟨ids, hids, -⟩ := of_mem_ofGraph ht
  obtain ⟨s, hs, rfl⟩ := exists_of_mem_discover ht hids ((mem_discover_iff_designates hids).2 hid)
  have hroot : s ∈ f.roots.map Occurrence.shape := by
    rw [hf.roots]
    exact (get?_eq_some_iff.1 hs).1
  obtain ⟨occ, hocc, rfl⟩ := List.mem_map.1 hroot
  exact ⟨occ, f.roots_subset_preorder hocc, rfl⟩

/-- A shape with two minimums, of which only the smallest is a count, and a maximum. It is nested in
another shape. -/
def counted (maximum : String) : Graph := .ofList
  [⟨.iri "p", Vocab.minCount.iri, .literal (.typed "+007" xsdString)⟩,
    ⟨.iri "p", Vocab.minCount.iri, .literal (.typed "x" xsdString)⟩,
    ⟨.iri "p", Vocab.maxCount.iri, .literal (.typed maximum xsdString)⟩,
    ⟨.iri "s", rdfType, .iri Vocab.nodeShape.iri⟩, ⟨.iri "s", Vocab.property.iri, .iri "p"⟩]

theorem canonical_counted (maximum : String) : (counted maximum).canonical = counted maximum := by
  refine Graph.canonical_eq_self fun t ht => ?_
  simp only [Graph.mem_ofList, List.mem_cons, List.not_mem_nil, or_false] at ht
  rcases ht with rfl | rfl | rfl | rfl | rfl <;> rfl

theorem designates_counted (maximum : String) :
    Designates (counted maximum).canonical (.iri "p") := by
  rw [canonical_counted]
  exact .value (s := .iri "s") (v := .property) (by decide) (Graph.mem_ofList.2 (by simp))

end ShapeRules
