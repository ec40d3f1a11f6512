import ShapeRules.Proofs.Chains

/-!
# What can be wrong with a shape

Discovery looks at every reference of a graph, so where it succeeds no reference of a shape can fail
when the shape is read. What is left are values of the wrong kind, and broken lists of anything but
shapes. Some parameters are checked at all their values, others at the smallest one, and a few only
if another parameter asks for it. A fault of reading is always one of these defects, and a shape
that has one of them is never read.

## Main definitions

* `Shacl.IsNumeral`: how a number is written
* `Shacl.Defect`: what can be wrong with a shape, and the fault that reports it

## Main results

* `Shacl.count?_eq_some_iff`: which texts are counts
* `Shacl.defect_of_readShape`: a fault of reading reports a defect
* `Shacl.not_defect_of_readShape`: a shape that is read has no defect
* `discovered_shape_faults`: the faults of the shapes of a graph
-/

namespace ShapeRules

open Rdf Shacl

namespace Shacl

/-! ## Counts -/

/-- **How a number is written:** by digits, with an optional plus sign in front. -/
def IsNumeral (s : String) (n : Nat) : Prop :=
  ∃ digits, (s.toList = digits ∨ s.toList = '+' :: digits) ∧ digits ≠ [] ∧
    (∀ c ∈ digits, c.isDigit) ∧ Value.natOfDigits digits = n

/-- **Which texts are counts:** those of the numbers that fit in 64 bits. -/
theorem count?_eq_some_iff {s : String} {n : Count} : count? s = some n ↔ IsNumeral s n.toNat := by
  have hdigits : ∀ digits : List Char,
      ((Value.natural? digits).bind fun k =>
        if k < UInt64.size then some (UInt64.ofNat k) else none) = some n ↔
      digits ≠ [] ∧ (∀ c ∈ digits, c.isDigit) ∧ Value.natOfDigits digits = n.toNat := by
    intro digits
    rw [Option.bind_eq_some_iff, ← Value.natural?_eq_some_iff]
    constructor
    · rintro ⟨k, hk, h⟩
      split at h
      next hfits =>
        obtain rfl := Option.some.inj h
        rw [hk, UInt64.toNat_ofNat_of_lt' hfits]
      next => cases h
    · intro hk
      refine ⟨n.toNat, hk, ?_⟩
      rw [if_pos n.toNat_lt_size, UInt64.ofNat_toNat]
  unfold count? IsNumeral
  split
  next cs hs =>
    rw [hdigits]
    constructor
    · intro h
      exact ⟨cs, .inr hs, h⟩
    · rintro ⟨digits, hsign | hsign, hne, hall, hn⟩
      · -- a plus sign is no digit
        rw [← hsign, hs] at hall
        exact absurd (hall '+' List.mem_cons_self) (by decide)
      · obtain rfl := (List.cons.inj (hs.symm.trans hsign)).2
        exact ⟨hne, hall, hn⟩
  next hs =>
    rw [hdigits]
    constructor
    · intro h
      exact ⟨_, .inl rfl, h⟩
    · rintro ⟨digits, rfl | hsign, h⟩
      · exact h
      · exact absurd hsign (hs digits)

end Shacl

namespace Rdf.Term

/-- A term that is an IRI. -/
def IsIri (t : Term) : Prop := ∃ s, t = .iri s

/-- A literal that reads as a number below `2 ^ 64`. -/
def IsCount (t : Term) : Prop :=
  ∃ l n, t = .literal l ∧ IsNumeral l.lexical n ∧ n < UInt64.size

theorem isCount_literal_iff {l : Literal} :
    (Term.literal l).IsCount ↔ ∃ n, count? l.lexical = some n := by
  simp only [count?_eq_some_iff]
  constructor
  · rintro ⟨_, n, he, hn, hfits⟩
    obtain rfl := Term.literal.inj he
    exact ⟨UInt64.ofNat n, by rwa [UInt64.toNat_ofNat_of_lt' hfits]⟩
  · rintro ⟨n, hn⟩
    exact ⟨l, n.toNat, rfl, hn, n.toNat_lt_size⟩

end Rdf.Term

namespace Shacl

variable {g : Graph} {ids : OrderedSet Node} {id : Node} {v : Vocab} {e : Fault}

/-! ## What can be wrong with the values of a property -/

theorem countOf_eq_error_iff : countOf g id v = .error e ↔
    ∃ o, g.value? id v.iri = some o ∧ ¬ o.IsCount ∧ e = .invalidValue id v .count o := by
  have hnot : ∀ {t : Term}, (∀ l, t ≠ .literal l) → ¬ t.IsCount := by
    rintro t ht ⟨l, n, rfl, -⟩
    exact ht l rfl
  rw [countOf, term?]
  cases g.value? id v.iri with
  | none => simp
  | some t =>
    cases t with
    | node n => simp [hnot, eq_comm]
    | triple s p o => simp [hnot, eq_comm]
    | literal l =>
      cases hcount : count? l.lexical with
      | none => simp [hcount, Term.isCount_literal_iff, eq_comm]
      | some n => simp [hcount, Term.isCount_literal_iff]

/-- A property that should have only IRIs has another value. -/
theorem exists_of_iris_eq_error (h : iris g id v = .error e) :
    ∃ o, (⟨id, v.iri, o⟩ : Triple) ∈ g ∧ ¬ o.IsIri ∧ e = .invalidValue id v .iri o := by
  obtain ⟨o, ho, he⟩ := Except.exists_part_of_mapM_eq_error h
  refine ⟨o, Graph.mem_values.1 ho, ?_⟩
  split at he
  next => cases he
  next hiri =>
    refine ⟨?_, (Except.error.inj he).symm⟩
    rintro ⟨s, rfl⟩
    exact hiri s rfl

theorem isIri_of_iris_eq_ok {l : List String} (h : iris g id v = .ok l) {o : Term}
    (ho : (⟨id, v.iri, o⟩ : Triple) ∈ g) : o.IsIri := by
  obtain ⟨s, -, hs⟩ := Except.exists_result_of_mem h (Graph.mem_values.2 ho)
  split at hs
  next s' => exact ⟨s', rfl⟩
  next => cases hs

theorem listOf_eq_error_iff {head : Term} : listOf g id head = .error e ↔
    ∃ f, g.members head = .error f ∧ e = .invalidList id f := by
  rw [listOf, Except.mapError_eq_error_iff]
  simp only [eq_comm]

theorem isTrue_iff : isTrue g id v ↔
    ∃ l, g.value? id v.iri = some (.literal l) ∧ (l.lexical = "true" ∨ l.lexical = "1") := by
  rw [isTrue, term?]
  cases g.value? id v.iri with
  | none => simp
  | some t =>
    cases t with
    | node n => simp
    | triple s p o => simp
    | literal l => simp

/-! ## References of a graph whose shapes are discovered -/

/-- What a property refers to can be read, since discovery has seen it. -/
theorem exists_references_eq_ok (h : discover g = .ok ids) (hv : v ∈ nestingProperties) :
    ∃ nodes, references g id v = .ok nodes := by
  rw [references, Except.exists_mapM_eq_ok_iff]
  intro o ho
  obtain ⟨n, hn⟩ :=
    (exists_discover_eq_ok_iff.1 ⟨ids, h⟩).1 v hv _ (Graph.mem_values.1 ho) rfl
  exact ⟨n, reference_eq_ok_iff.2 hn⟩

/-- A list of shapes can be read, since discovery has walked along it. -/
theorem exists_referenceList_eq_ok (h : discover g = .ok ids) (hv : v ∈ logicalProperties)
    {head : Term} (hhead : (⟨id, v.iri, head⟩ : Triple) ∈ g) :
    ∃ nodes, referenceList g id head = .ok nodes := by
  obtain ⟨nodes, hnodes⟩ := exists_members_of_discover h hv hhead
  exact ⟨nodes, referenceList_eq_ok_iff.2 hnodes⟩

/-! ## Defects -/

/-- The parameters that have only IRIs for values. -/
def iriParameters : List Vocab :=
  [.equals, .disjoint, .lessThan, .lessThanOrEquals, .datatype, .nodeKind]

/-- **What can be wrong with a shape,** and the fault that reports it. -/
inductive Defect (g : Graph) (id : Node) : Fault → Prop
  /-- The smallest severity is no IRI. -/
  | severity {o : Term} (ho : g.value? id Vocab.severity.iri = some o) (hiri : ¬ o.IsIri) :
    Defect g id (.invalidValue id .severity .iri o)
  /-- One of the values of a parameter that should have only IRIs is none. -/
  | iri {v : Vocab} {o : Term} (hv : v ∈ iriParameters) (ho : (⟨id, v.iri, o⟩ : Triple) ∈ g)
      (hiri : ¬ o.IsIri) :
    Defect g id (.invalidValue id v .iri o)
  /-- The smallest count is no count. -/
  | count {v : Vocab} {o : Term} (hv : v ∈ [Vocab.minCount, .maxCount])
      (ho : g.value? id v.iri = some o) (hcount : ¬ o.IsCount) :
    Defect g id (.invalidValue id v .count o)
  /-- The smallest qualified count is no count, and there is a qualified shape. -/
  | qualifiedCount {v : Vocab} {o : Term} (hv : v ∈ [Vocab.qualifiedMinCount, .qualifiedMaxCount])
      (hshape : ∃ x, (⟨id, Vocab.qualifiedValueShape.iri, x⟩ : Triple) ∈ g)
      (ho : g.value? id v.iri = some o) (hcount : ¬ o.IsCount) :
    Defect g id (.invalidValue id v .count o)
  /-- The smallest list of languages or of values is broken. -/
  | list {v : Vocab} {head : Term} {f : ListFault} (hv : v ∈ [Vocab.languageIn, .oneOf])
      (hhead : g.value? id v.iri = some head) (hf : g.members head = .error f) :
    Defect g id (.invalidList id f)
  /-- The smallest list of ignored properties is broken, and the shape is closed. -/
  | ignored {l : Literal} {head : Term} {f : ListFault}
      (hclosed : g.value? id Vocab.closed.iri = some (.literal l))
      (htrue : l.lexical = "true" ∨ l.lexical = "1")
      (hhead : g.value? id Vocab.ignoredProperties.iri = some head)
      (hf : g.members head = .error f) : Defect g id (.invalidList id f)

/-! ## Faults report defects -/

namespace ConstraintReader

/-- A reader whose faults report defects. -/
def Reports (r : ConstraintReader) (g : Graph) (id : Node) : Prop :=
  ∀ e, r g id = .error e → Defect g id e

theorem reports_count {make : Count → Constraint} (hv : v ∈ [Vocab.minCount, .maxCount]) :
    (count v make).Reports g id := by
  intro e h
  obtain ⟨o, ho, hcount, rfl⟩ := countOf_eq_error_iff.1 (Except.bind_pure_eq_error_iff.1 h)
  exact .count hv ho hcount

theorem reports_nested {make : List Node → Constraint} (hids : discover g = .ok ids)
    (hv : v ∈ nestingProperties) : (nested v make).Reports g id := by
  intro e h
  obtain ⟨nodes, hnodes⟩ := exists_references_eq_ok hids hv
  cases hnodes.symm.trans (Except.bind_pure_eq_error_iff.1 h)

theorem reports_logical {make : List Node → Constraint} (hids : discover g = .ok ids)
    (hv : v ∈ logicalProperties) : (logical v make).Reports g id := by
  intro e h
  unfold logical at h
  split at h
  next => cases h
  next head hhead =>
    obtain ⟨nodes, hnodes⟩ := exists_referenceList_eq_ok hids hv (Graph.mem_of_value? hhead)
    cases hnodes.symm.trans (Except.bind_pure_eq_error_iff.1 h)

/-- A reader of IRIs has the faults of the IRIs, whatever it makes of them. -/
theorem reports_iris {make : List String → List Constraint} (hv : v ∈ iriParameters) :
    Reports (fun g id => do pure (make (← iris g id v))) g id := by
  intro e h
  obtain ⟨o, ho, hiri, rfl⟩ := exists_of_iris_eq_error (Except.bind_pure_eq_error_iff.1 h)
  exact .iri hv ho hiri

/-- A reader that always succeeds has no faults. -/
theorem reports_of_eq_ok {r : ConstraintReader} {cs : List Constraint} (h : r g id = .ok cs) :
    r.Reports g id := by
  intro e he
  cases h.symm.trans he

theorem reports_listed {make : List Term → Constraint} (hv : v ∈ [Vocab.languageIn, .oneOf]) :
    (listed v make).Reports g id := by
  intro e h
  unfold listed at h
  split at h
  next => cases h
  next head hhead =>
    obtain ⟨f, hf, rfl⟩ := listOf_eq_error_iff.1 (Except.bind_pure_eq_error_iff.1 h)
    exact .list hv hhead hf

theorem reports_qualified (hids : discover g = .ok ids) : qualified.Reports g id := by
  have hv : Vocab.qualifiedValueShape ∈ nestingProperties := by decide
  intro e h
  obtain ⟨nodes, hnodes⟩ := exists_references_eq_ok hids hv
  rcases Except.bind_eq_error_iff.1 h with h | ⟨shapes, hshapes, h⟩
  · cases hnodes.symm.trans h
  split at h
  next => cases h
  next hne =>
    -- the counts are read since there is a shape
    have hshape : ∃ x, (⟨id, Vocab.qualifiedValueShape.iri, x⟩ : Triple) ∈ g := by
      obtain ⟨n, hn⟩ := List.exists_mem_of_ne_nil shapes fun hnil => hne (by simp [hnil])
      refine ⟨.node n, Graph.mem_values.1 ?_⟩
      rw [references_eq_ok_iff.1 hshapes]
      exact List.mem_map_of_mem hn
    rcases Except.bind_eq_error_iff.1 h with h | ⟨min, -, h⟩
    · obtain ⟨o, ho, hcount, rfl⟩ := countOf_eq_error_iff.1 h
      exact .qualifiedCount (by decide) hshape ho hcount
    · obtain ⟨o, ho, hcount, rfl⟩ := countOf_eq_error_iff.1 (Except.bind_pure_eq_error_iff.1 h)
      exact .qualifiedCount (by decide) hshape ho hcount

theorem reports_closed : closed.Reports g id := by
  intro e h
  unfold closed at h
  split at h
  next htrue =>
    obtain ⟨l, hclosed, htrue⟩ := isTrue_iff.1 htrue
    split at h
    next => cases h
    next head hhead =>
      obtain ⟨f, hf, rfl⟩ := listOf_eq_error_iff.1 (Except.bind_pure_eq_error_iff.1 h)
      exact .ignored hclosed htrue hhead hf
  next => cases h

end ConstraintReader

open ConstraintReader in
/-- The faults of every reader report defects. -/
theorem reports_of_mem (hids : discover g = .ok ids) :
    ∀ r ∈ constraintReaders, r.Reports g id := by
  simp only [constraintReaders, List.forall_mem_cons]
  exact ⟨reports_count (by decide), reports_count (by decide), reports_nested hids (by decide),
    reports_logical hids (by decide), reports_logical hids (by decide),
    reports_logical hids (by decide), reports_iris (by decide), reports_iris (by decide),
    reports_iris (by decide), reports_iris (by decide), reports_nested hids (by decide),
    reports_nested hids (by decide), reports_qualified hids, reports_of_eq_ok rfl,
    reports_of_eq_ok rfl, reports_of_eq_ok rfl, reports_listed (by decide), reports_of_eq_ok rfl,
    reports_of_eq_ok rfl, reports_iris (by decide), reports_iris (by decide),
    reports_of_eq_ok rfl, reports_of_eq_ok rfl, reports_of_eq_ok rfl, reports_of_eq_ok rfl,
    reports_closed, reports_of_eq_ok rfl, reports_listed (by decide), List.forall_mem_nil _⟩

theorem readSeverity_eq_error_iff : readSeverity g id = .error e ↔
    ∃ o, g.value? id Vocab.severity.iri = some o ∧ ¬ o.IsIri ∧
      e = .invalidValue id .severity .iri o := by
  rw [readSeverity, term?]
  cases g.value? id Vocab.severity.iri with
  | none => simp
  | some t =>
    cases t with
    | node n => cases n <;> simp [Term.IsIri, eq_comm]
    | literal l => simp [Term.IsIri, eq_comm]
    | triple s p o => simp [Term.IsIri, eq_comm]

/-- **A fault of reading reports a defect.** -/
theorem defect_of_readShape (hids : discover g = .ok ids) (h : readShape g id = .error e) :
    Defect g id e := by
  rcases Except.bind_eq_error_iff.1 h with h | ⟨severity, -, h⟩
  · obtain ⟨o, ho, hiri, rfl⟩ := readSeverity_eq_error_iff.1 h
    exact .severity ho hiri
  · have hconstraints := Except.bind_pure_eq_error_iff.1 (Except.bind_pure_eq_error_iff.1 h)
    obtain ⟨r, hr, hfault⟩ := Except.exists_part_of_mapM_eq_error hconstraints
    exact reports_of_mem hids r hr e hfault

/-! ## A shape that is read has no defects -/

section Readable

variable (h : ∀ r ∈ constraintReaders, ∃ cs, r g id = .ok cs)

include h

theorem exists_countOf_eq_ok (hv : v ∈ [Vocab.minCount, .maxCount]) :
    ∃ n, countOf g id v = .ok n := by
  have hcount := fun v make => h (ConstraintReader.count v make)
  simp only [List.mem_cons, List.not_mem_nil, or_false] at hv
  rcases hv with rfl | rfl
  · exact Except.exists_of_bind_eq_ok (hcount _ .minCount (by simp [constraintReaders]))
  · exact Except.exists_of_bind_eq_ok (hcount _ .maxCount (by simp [constraintReaders]))

theorem exists_iris_eq_ok (hv : v ∈ iriParameters) : ∃ l, iris g id v = .ok l := by
  have hall := fun v make => h (ConstraintReader.properties v make)
  have hfirst := fun v make => h (ConstraintReader.firstIri v make)
  simp only [iriParameters, List.mem_cons, List.not_mem_nil, or_false] at hv
  rcases hv with rfl | rfl | rfl | rfl | rfl | rfl
  · exact Except.exists_of_bind_eq_ok (hall _ .equals (by simp [constraintReaders]))
  · exact Except.exists_of_bind_eq_ok (hall _ .disjoint (by simp [constraintReaders]))
  · exact Except.exists_of_bind_eq_ok (hall _ .lessThan (by simp [constraintReaders]))
  · exact Except.exists_of_bind_eq_ok (hall _ .lessThanOrEquals (by simp [constraintReaders]))
  · exact Except.exists_of_bind_eq_ok (hfirst _ .datatype (by simp [constraintReaders]))
  · exact Except.exists_of_bind_eq_ok (hfirst _ .nodeKind (by simp [constraintReaders]))

theorem exists_qualifiedCount_eq_ok (hv : v ∈ [Vocab.qualifiedMinCount, .qualifiedMaxCount])
    {x : Term} (hx : (⟨id, Vocab.qualifiedValueShape.iri, x⟩ : Triple) ∈ g) :
    ∃ n, countOf g id v = .ok n := by
  obtain ⟨cs, hcs⟩ := h ConstraintReader.qualified (by simp [constraintReaders])
  obtain ⟨shapes, min, max, disjoint, -, hmin, hmax⟩ := exists_of_qualified_eq_ok hx hcs
  simp only [List.mem_cons, List.not_mem_nil, or_false] at hv
  rcases hv with rfl | rfl
  · exact ⟨min, hmin⟩
  · exact ⟨max, hmax⟩

theorem exists_listOf_eq_ok (hv : v ∈ [Vocab.languageIn, .oneOf]) {head : Term}
    (hhead : g.value? id v.iri = some head) : ∃ members, listOf g id head = .ok members := by
  have hlisted : ∀ v make, ConstraintReader.listed v make ∈ constraintReaders →
      g.value? id v.iri = some head → ∃ members, listOf g id head = .ok members := by
    intro v make hr hhead
    obtain ⟨cs, hcs⟩ := h _ hr
    rw [ConstraintReader.listed, term?, hhead] at hcs
    exact Except.exists_of_bind_eq_ok ⟨cs, hcs⟩
  simp only [List.mem_cons, List.not_mem_nil, or_false] at hv
  rcases hv with rfl | rfl
  · exact hlisted _ .languageIn (by simp [constraintReaders]) hhead
  · exact hlisted _ .oneOf (by simp [constraintReaders]) hhead

theorem exists_ignored_eq_ok (hclosed : isTrue g id .closed) {head : Term}
    (hhead : g.value? id Vocab.ignoredProperties.iri = some head) :
    ∃ members, listOf g id head = .ok members := by
  obtain ⟨cs, hcs⟩ := h ConstraintReader.closed (by simp [constraintReaders])
  rw [ConstraintReader.closed, if_pos hclosed, term?, hhead] at hcs
  exact Except.exists_of_bind_eq_ok ⟨cs, hcs⟩

end Readable

/-- **A shape that is read has no defect.** -/
theorem not_defect_of_readShape {s : Shape} (h : readShape g id = .ok s) (e : Fault) :
    ¬ Defect g id e := by
  obtain ⟨severity, hseverity, h⟩ := Except.bind_eq_ok_iff.1 h
  obtain ⟨constraints, hconstraints, -⟩ := Except.bind_eq_ok_iff.1 h
  obtain ⟨parts, hparts, -⟩ := Except.bind_eq_ok_iff.1 hconstraints
  have hreaders := Except.exists_mapM_eq_ok_iff.1 ⟨parts, hparts⟩
  have hcounts : ∀ {v o n}, countOf g id v = .ok n → g.value? id v.iri = some o → o.IsCount := by
    intro v o n hn ho
    by_contra hcount
    cases hn.symm.trans (countOf_eq_error_iff.2 ⟨o, ho, hcount, rfl⟩)
  have hlists : ∀ {head members f}, listOf g id head = .ok members →
      g.members head ≠ .error f := by
    intro head members f hmembers hf
    cases hmembers.symm.trans (listOf_eq_error_iff.2 ⟨f, hf, rfl⟩)
  -- each defect would have made the part fail that looks at it
  intro hd
  cases hd with
  | severity ho hiri =>
    cases hseverity.symm.trans (readSeverity_eq_error_iff.2 ⟨_, ho, hiri, rfl⟩)
  | iri hv ho hiri =>
    obtain ⟨l, hl⟩ := exists_iris_eq_ok hreaders hv
    exact hiri (isIri_of_iris_eq_ok hl ho)
  | count hv ho hcount =>
    obtain ⟨n, hn⟩ := exists_countOf_eq_ok hreaders hv
    exact hcount (hcounts hn ho)
  | qualifiedCount hv hshape ho hcount =>
    obtain ⟨x, hx⟩ := hshape
    obtain ⟨n, hn⟩ := exists_qualifiedCount_eq_ok hreaders hv hx
    exact hcount (hcounts hn ho)
  | list hv hhead hf =>
    obtain ⟨members, hmembers⟩ := exists_listOf_eq_ok hreaders hv hhead
    exact hlists hmembers hf
  | ignored hclosed htrue hhead hf =>
    obtain ⟨members, hmembers⟩ :=
      exists_ignored_eq_ok hreaders (isTrue_iff.2 ⟨_, hclosed, htrue⟩) hhead
    exact hlists hmembers hf

end Shacl

/-- **The faults of the shapes of a graph.** Where shapes can be discovered, reading a shape never
fails for a term that it refers to, nor for a list of shapes; a fault about a list is about one of
the other lists of the shape. Each fault reports a defect of the shape, and a shape with a defect
has a fault. -/
theorem discovered_shape_faults {g : Graph} {ids : OrderedSet Node} (h : discover g = .ok ids)
    (id : Node) :
    (∀ x, readShape g id ≠ .error (.invalidReference x)) ∧
    (∀ v ∈ [Vocab.and, .or, .xone], ∀ head, (⟨id, v.iri, head⟩ : Triple) ∈ g →
      ∃ nodes, referenceList g id head = .ok nodes) ∧
    (∀ owner f, readShape g id = .error (.invalidList owner f) → owner = id ∧
      ∃ v ∈ [Vocab.languageIn, .oneOf, .ignoredProperties], ∃ head,
        g.value? id v.iri = some head ∧ g.members head = .error f) ∧
    (∀ e, readShape g id = .error e → Defect g id e) ∧
    ∀ e, Defect g id e → ∃ e', readShape g id = .error e' := by
  refine ⟨?_, ?_, ?_, fun e => defect_of_readShape h, ?_⟩
  · intro x hx
    cases defect_of_readShape h hx
  · intro v hv head hhead
    exact exists_referenceList_eq_ok h hv hhead
  · intro owner f hf
    cases defect_of_readShape h hf with
    | list hv hhead hf =>
      have hsub : [Vocab.languageIn, .oneOf] ⊆ [Vocab.languageIn, .oneOf, .ignoredProperties] := by
        decide
      exact ⟨rfl, _, hsub hv, _, hhead, hf⟩
    | ignored hclosed htrue hhead hf => exact ⟨rfl, _, by decide, _, hhead, hf⟩
  · intro e hd
    cases hread : readShape g id with
    | error e' => exact ⟨e', rfl⟩
    | ok s => exact absurd hd (not_defect_of_readShape hread e)

/-- Two shapes. The list of values of `s` is broken. What is odd about `a` is no defect: its second
count, its qualified count without a shape, and its list of ignored properties, which is broken too,
without being closed. -/
def blemishedTriples : List Triple :=
  [⟨.iri "l", rdfFirst, .iri "a"⟩, ⟨.iri "l", rdfRest, .iri rdfNil⟩, ⟨.iri "m", rdfFirst, .iri "x"⟩,
    ⟨.iri "s", rdfType, .iri Vocab.nodeShape.iri⟩, ⟨.iri "s", Vocab.and.iri, .iri "l"⟩,
    ⟨.iri "s", Vocab.oneOf.iri, .iri "m"⟩,
    ⟨.iri "a", Vocab.minCount.iri, .literal (.typed "+01" xsdString)⟩,
    ⟨.iri "a", Vocab.minCount.iri, .literal (.typed "x" xsdString)⟩,
    ⟨.iri "a", Vocab.qualifiedMinCount.iri, .literal (.typed "x" xsdString)⟩,
    ⟨.iri "a", Vocab.closed.iri, .literal (.typed "false" xsdString)⟩,
    ⟨.iri "a", Vocab.ignoredProperties.iri, .iri "m"⟩]

/-- Their graph. -/
def blemished : Graph := .ofList blemishedTriples

/-- Its triples, scanned as they stand. -/
def blemishedScan : Graph := ⟨blemishedTriples, by decide +kernel⟩

theorem sameTriples_blemished : blemishedScan.SameTriples blemished := fun _ =>
  Graph.mem_ofList.symm

theorem sameValues_blemished : SameValues blemishedScan blemished :=
  sameValues_of_sameTriples sameTriples_blemished
    (by decide +kernel : ∀ t ∈ blemishedTriples, t.WellFormed)

theorem discovered_shape_faults_blemished :
    discover blemished = .ok (.ofList [.iri "a", .iri "s"]) ∧
    readShape blemished (.iri "a") = .ok { id := .iri "a", constraints := [.minCount 1] } ∧
    (∀ e, ¬ Defect blemished (.iri "a") e) ∧
    readShape blemished (.iri "s") = .error (.invalidList (.iri "s") .missingRest) ∧
    Defect blemished (.iri "s") (.invalidList (.iri "s") .missingRest) ∧
    ∃ nodes, referenceList blemished (.iri "s") (.iri "l") = .ok nodes := by
  -- what is read depends on the triples only, so it is evaluated without sorting them
  have hids : discover blemished = .ok (.ofList [.iri "a", .iri "s"]) := by
    refine discover_eq_ok sameTriples_blemished sameValues_blemished.members_eq ?_
    decide +kernel
  have hread : readShape blemished (.iri "a") =
      .ok { id := .iri "a", constraints := [.minCount 1] } := by
    rw [← readShape_eq sameValues_blemished]
    decide +kernel
  have hfault : readShape blemished (.iri "s") =
      .error (.invalidList (.iri "s") .missingRest) := by
    rw [← readShape_eq sameValues_blemished]
    decide +kernel
  obtain ⟨-, -, -, -, hcomplete⟩ := discovered_shape_faults hids (.iri "a")
  obtain ⟨-, hlists, -, hsound, -⟩ := discovered_shape_faults hids (.iri "s")
  refine ⟨hids, hread, ?_, hfault, hsound _ hfault, ?_⟩
  · intro e he
    obtain ⟨e', he'⟩ := hcomplete e he
    cases hread.symm.trans he'
  · exact hlists .and (by decide) (.iri "l") (Graph.mem_ofList.2 (by decide))

end ShapeRules
