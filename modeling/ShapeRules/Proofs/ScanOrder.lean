import Mathlib.Data.List.Perm.Basic
import ShapeRules.Proofs.Closure
import ShapeRules.Proofs.LineForm

/-!
# The order of a scan

Nothing says in which order the triples of a graph are scanned, and the shapes of a graph do not
depend on it. Each list of values goes through a sort, and its key tells the values apart, since the
line form is injective on terms in order. What is discovered is a set. So two scans of the same
triples fail together, though perhaps with different faults, and otherwise give the same shapes.

## Main definitions

* `Rdf.Graph.SameTriples`: graphs with the same triples, each scanned in its own order
* `Shacl.SameValues`: graphs that agree on all that is read of a node
* `Rdf.Graph.Relabels`: what is taken for granted of a labelling of blank nodes

## Main results

* `Rdf.Graph.values_eq`: the values of a property do not depend on the order of a scan
* `Shacl.readShape_eq`: a shape depends on such values only
* `Rdf.Graph.relabels_canonical`: the canonical labelling
* `shapes_independent_of_scan`: the shapes of a graph
-/

namespace ShapeRules

open Rdf Shacl

namespace Rdf.Graph

/-- **Graphs with the same triples,** each scanned in its own order. -/
def SameTriples (g h : Graph) : Prop := ∀ t, t ∈ g ↔ t ∈ h

/-- All triples of a graph are in order. -/
def WellFormed (g : Graph) : Prop := ∀ t ∈ g, t.WellFormed

variable {g h : Graph}

theorem SameTriples.symm (hgh : g.SameTriples h) : h.SameTriples g := fun t => (hgh t).symm

theorem SameTriples.wellFormed (hgh : g.SameTriples h) (hg : g.WellFormed) : h.WellFormed :=
  fun t ht => hg t ((hgh t).2 ht)

/-- Two scans of the same triples are permutations of each other. -/
theorem SameTriples.perm (hgh : g.SameTriples h) : g.triples.Perm h.triples :=
  (List.perm_ext_iff_of_nodup g.nodup h.nodup).2 hgh

/-! ## Sorting by line form -/

theorem perm_insertByText (t : Term) (l : List Term) : (insertByText t l).Perm (t :: l) := by
  induction l with
  | nil => rfl
  | cons u l ih =>
    rw [insertByText]
    split
    · rfl
    · exact (ih.cons u).trans (.swap t u l)

theorem perm_sortByText (l : List Term) : (sortByText l).Perm l := by
  induction l with
  | nil => rfl
  | cons t l ih => exact (perm_insertByText t (sortByText l)).trans (ih.cons t)

/-- One term is not after another one in the order of the line forms. -/
def TextLE (t u : Term) : Prop := (compare t.text u.text).isLE

theorem pairwise_insertByText (t : Term) {l : List Term} (hl : l.Pairwise TextLE) :
    (insertByText t l).Pairwise TextLE := by
  induction l with
  | nil => exact List.pairwise_singleton _ _
  | cons u l ih =>
    rw [List.pairwise_cons] at hl
    rw [insertByText]
    split
    next htu =>
      refine List.pairwise_cons.2 ⟨fun v hv => ?_, List.pairwise_cons.2 hl⟩
      rcases List.mem_cons.1 hv with rfl | hv
      · exact htu
      · exact Std.TransCmp.isLE_trans htu (hl.1 v hv)
    next htu =>
      refine List.pairwise_cons.2 ⟨fun v hv => ?_, ih hl.2⟩
      rcases mem_insertByText.1 hv with rfl | hv
      · have hgt : compare v.text u.text = .gt := by simpa using htu
        exact Std.OrientedCmp.isGE_iff_isLE.1 (by rw [hgt]; rfl)
      · exact hl.1 v hv

theorem pairwise_sortByText (l : List Term) : (sortByText l).Pairwise TextLE := by
  induction l with
  | nil => exact .nil
  | cons t l ih => exact pairwise_insertByText t ih

/-- **Sorting forgets the order** of terms that their line forms tell apart. -/
theorem sortByText_eq {l m : List Term} (hlm : l.Perm m) (hl : ∀ t ∈ l, t.WellFormed) :
    sortByText l = sortByText m := by
  have hperm : (sortByText l).Perm (sortByText m) :=
    (perm_sortByText l).trans (hlm.trans (perm_sortByText m).symm)
  refine hperm.eq_of_pairwise ?_ (pairwise_sortByText l) (pairwise_sortByText m)
  intro t u ht hu htu hut
  have htext : t.text = u.text :=
    Std.LawfulEqCmp.eq_of_compare (Std.OrientedCmp.isLE_antisymm htu hut)
  rw [mem_sortByText] at ht hu
  exact Term.text_inj (hl t ht) (hl u (hlm.mem_iff.2 hu)) htext

/-! ## Values and lists -/

/-- **The values of a property do not depend on the order of a scan.** -/
theorem values_eq (hgh : g.SameTriples h) (hg : g.WellFormed) (s : Node) (p : String) :
    g.values s p = h.values s p := by
  refine sortByText_eq ((hgh.perm.filter _).map _) fun o ho => ?_
  obtain ⟨t, ht, rfl⟩ := List.mem_map.1 ho
  exact (hg t (List.mem_filter.1 ht).1).object

/-- A walk goes on from a cell by the smallest values of two properties. -/
theorem membersFrom_node (g : Graph) (passed : List Node) {n : Node}
    (hnil : Term.node n ≠ .iri rdfNil) : g.membersFrom passed (.node n) =
      if n ∈ passed then .error .loops
      else (g.value? n rdfFirst).elim (.error .missingFirst) fun first =>
        (g.value? n rdfRest).elim (.error .missingRest) fun rest =>
          (g.membersFrom (n :: passed) rest).map (first :: ·) := by
  rw [membersFrom, if_neg hnil]
  by_cases hn : n ∈ passed
  · simp [hn]
  · simp only [hn, if_false, dite_false]
    split
    next hfirst => rw [hfirst, Option.elim_none]
    next first hfirst =>
      rw [hfirst, Option.elim_some]
      cases g.value? n rdfRest <;> rfl

/-- Walks agree in graphs with the same members and next cells. -/
theorem membersFrom_eq (hf : ∀ n, g.values n rdfFirst = h.values n rdfFirst)
    (hr : ∀ n, g.values n rdfRest = h.values n rdfRest) (passed : List Node) (cell : Term) :
    g.membersFrom passed cell = h.membersFrom passed cell := by
  have hmember : ∀ n, h.value? n rdfFirst = g.value? n rdfFirst := fun n => by
    rw [value?, value?, hf]
  have hnext : ∀ n, h.value? n rdfRest = g.value? n rdfRest := fun n => by
    rw [value?, value?, hr]
  -- Induction along the walk in one graph; the other one has the same next cell.
  fun_induction membersFrom g passed cell with
  | case1 => rw [membersFrom, if_pos rfl]
  | case2 passed n hpassed hnil => rw [membersFrom_node h passed hnil, if_pos hpassed]
  | case3 passed n hpassed hfirst hnil =>
    rw [membersFrom_node h passed hnil, if_neg hpassed, hmember, hfirst, Option.elim_none]
  | case4 passed n hpassed first hfirst hrest hnil =>
    rw [membersFrom_node h passed hnil, if_neg hpassed, hmember, hnext, hfirst, hrest]
    rfl
  | case5 passed n hpassed first hfirst rest hrest hnil ih =>
    rw [membersFrom_node h passed hnil, if_neg hpassed, hmember, hnext, hfirst, hrest, ih]
    rfl
  | case6 passed cell hnil hnode =>
    cases cell with
    | node n => exact absurd rfl (hnode n)
    | literal l => simp [membersFrom]
    | triple s p o => simp [membersFrom]

end Rdf.Graph

/-! ## Shapes -/

namespace Shacl

variable {g h : Graph}

/-- The terms of the vocabulary that are properties: all but the classes of shapes and the
severities. -/
def Vocab.isProperty (v : Vocab) : Bool :=
  v ∉ [Vocab.nodeShape, .propertyShape, .info, .violation, .warning]

/-- **Graphs that agree on all that is read of a node:** the properties of the vocabulary, the cells
of lists, and whether it is a class. -/
structure SameValues (g h : Graph) : Prop where
  property : ∀ n (v : Vocab), v.isProperty → g.values n v.iri = h.values n v.iri
  first : ∀ n, g.values n rdfFirst = h.values n rdfFirst
  rest : ∀ n, g.values n rdfRest = h.values n rdfRest
  isClass : ∀ n, Term.iri rdfsClass ∈ g.values n rdfType ↔ Term.iri rdfsClass ∈ h.values n rdfType

theorem SameValues.members_eq (hv : SameValues g h) (head : Term) :
    g.members head = h.members head :=
  Graph.membersFrom_eq hv.first hv.rest [] head

theorem sameValues_of_sameTriples (hgh : g.SameTriples h) (hg : g.WellFormed) :
    SameValues g h := by
  have hv := Graph.values_eq hgh hg
  exact ⟨fun n v _ => hv n v.iri, fun n => hv n rdfFirst, fun n => hv n rdfRest,
    fun n => by rw [hv]⟩

/-- **A shape depends on these values only.** -/
theorem readShape_eq (hv : SameValues g h) (id : Node) : readShape g id = readShape h id := by
  have hterms : ∀ v, v.isProperty → terms g id v = terms h id v := hv.property id
  have hterm : ∀ v, v.isProperty → term? g id v = term? h id v := fun v hp => by
    rw [term?, term?, Graph.value?, Graph.value?, hv.property id v hp]
  have htrue : ∀ v, v.isProperty → isTrue g id v = isTrue h id v := fun v hp => by
    rw [isTrue, isTrue, hterm v hp]
  have hlist : ∀ head, listOf g id head = listOf h id head := fun head => by
    rw [listOf, listOf, hv.members_eq]
  have hconstraints : readConstraints g id = readConstraints h id := by
    -- each reader is built from counts, references, IRIs, truth values and lists
    have hreaders : ∀ r ∈ constraintReaders, r g id = r h id := by
      simp [constraintReaders, ConstraintReader.count, ConstraintReader.nested,
        ConstraintReader.logical, ConstraintReader.properties, ConstraintReader.firstIri,
        ConstraintReader.value, ConstraintReader.values, ConstraintReader.listed,
        ConstraintReader.qualified, ConstraintReader.pattern, ConstraintReader.uniqueLang,
        ConstraintReader.closed, countOf, references, iris, referenceList, Vocab.isProperty, hterms,
        hterm, htrue, hlist]
    rw [readConstraints, readConstraints, Except.mapM_congr hreaders]
  have hseverity : readSeverity g id = readSeverity h id := by
    rw [readSeverity, readSeverity, hterm _ rfl]
  have hnames : readNames g id = readNames h id := by rw [readNames, readNames, hterms _ rfl]
  have htargets : readTargets g id = readTargets h id := by
    have himplicit : implicitTarget g id = implicitTarget h id := by
      cases id with
      | iri s => simp only [implicitTarget, hv.isClass]
      | blank b => rfl
    simp only [readTargets, himplicit, hterms .targetNode rfl, hterms .targetClass rfl,
      hterms .targetObjectsOf rfl, hterms .targetSubjectsOf rfl]
  simp only [readShape, hseverity, hconstraints, hnames, htargets, hterms .description rfl,
    hterms .message rfl, hterm .path rfl, htrue .deactivated rfl]

/-! ## Discovery -/

/-- When shapes can be discovered: what is nested and what is listed must be able to identify
shapes. -/
theorem exists_discover_eq_ok_iff : (∃ ids, discover g = .ok ids) ↔
    (∀ v ∈ nestingProperties, ∀ t ∈ g, t.predicate = v.iri → ∃ n, t.object = .node n) ∧
    ∀ v ∈ logicalProperties, ∀ t ∈ g, t.predicate = v.iri →
      ∃ nodes : List Node, g.members t.object = .ok (nodes.map .node) := by
  have hnested : (∃ nested, nestingProperties.mapM (nestedShapes g) = .ok nested) ↔
      ∀ v ∈ nestingProperties, ∀ t ∈ g, t.predicate = v.iri → ∃ n, t.object = .node n := by
    rw [Except.exists_mapM_eq_ok_iff]
    refine forall₂_congr fun v _ => ?_
    rw [nestedShapes, Except.exists_mapM_eq_ok_iff]
    simp only [Graph.mem_withPredicate, and_imp, reference_eq_ok_iff]
  have hlisted : (∃ listed, logicalProperties.mapM (listedShapes g) = .ok listed) ↔
      ∀ v ∈ logicalProperties, ∀ t ∈ g, t.predicate = v.iri →
        ∃ nodes : List Node, g.members t.object = .ok (nodes.map .node) := by
    rw [Except.exists_mapM_eq_ok_iff]
    refine forall₂_congr fun v _ => ?_
    have hlists : (∃ nodes, listedShapes g v = .ok nodes) ↔
        ∃ lists, ((g.withPredicate v.iri).mapM fun t => referenceList g t.subject t.object) =
          .ok lists := by
      simp only [listedShapes, Except.bind_eq_ok_iff]
      constructor
      · rintro ⟨nodes, lists, hlists, -⟩
        exact ⟨lists, hlists⟩
      · rintro ⟨lists, hlists⟩
        exact ⟨_, lists, hlists, rfl⟩
    rw [hlists, Except.exists_mapM_eq_ok_iff]
    simp only [Graph.mem_withPredicate, and_imp, referenceList_eq_ok_iff]
  rw [← hnested, ← hlisted]
  constructor
  · rintro ⟨ids, hids⟩
    obtain ⟨nested, hn, hids⟩ := Except.bind_eq_ok_iff.1 hids
    obtain ⟨listed, hl, -⟩ := Except.bind_eq_ok_iff.1 hids
    exact ⟨⟨nested, hn⟩, ⟨listed, hl⟩⟩
  · rintro ⟨⟨nested, hn⟩, ⟨listed, hl⟩⟩
    exact ⟨_, Except.bind_eq_ok_iff.2 ⟨nested, hn, Except.bind_eq_ok_iff.2 ⟨listed, hl, rfl⟩⟩⟩

/-- **What is discovered does not depend on the order of a scan.** -/
theorem discover_eq_ok (hgh : g.SameTriples h) (hm : ∀ o, g.members o = h.members o)
    {ids : OrderedSet Node} (hids : discover g = .ok ids) : discover h = .ok ids := by
  obtain ⟨ids', hids'⟩ : ∃ ids', discover h = .ok ids' := by
    have hok := exists_discover_eq_ok_iff.1 ⟨ids, hids⟩
    simp only [hgh _, hm] at hok
    exact exists_discover_eq_ok_iff.2 hok
  have hsame : ids' = ids := by
    refine OrderedSet.ext fun n => ?_
    rw [mem_discover_iff hids, mem_discover_iff hids']
    simp only [hgh _, hm]
  rw [hids', hsame]

/-- Shapes that are found in one scan are found in another one of the same triples. -/
theorem ofLabelled_eq_ok (hgh : g.SameTriples h) (hg : g.WellFormed) {t : ShapeTable}
    (ht : ShapeTable.ofLabelled g = .ok t) : ShapeTable.ofLabelled h = .ok t := by
  have hv := sameValues_of_sameTriples hgh hg
  obtain ⟨ids, hids, ht⟩ := Except.bind_eq_ok_iff.1 ht
  refine Except.bind_eq_ok_iff.2 ⟨ids, discover_eq_ok hgh hv.members_eq hids, ?_⟩
  rwa [Except.mapM_congr fun id _ => (readShape_eq hv id).symm]

/-- **Two readings that fail together,** or find the same shapes in the same order. -/
structure SameShapes (x y : Except Fault ShapeTable) : Prop where
  error_iff : (∃ e, x = .error e) ↔ ∃ e, y = .error e
  ok_iff : ∀ t, x = .ok t ↔ y = .ok t

theorem sameShapes_ofLabelled (hgh : g.SameTriples h) (hg : g.WellFormed) :
    SameShapes (ShapeTable.ofLabelled g) (ShapeTable.ofLabelled h) := by
  have hok : ∀ t, ShapeTable.ofLabelled g = .ok t ↔ ShapeTable.ofLabelled h = .ok t := fun t =>
    ⟨ofLabelled_eq_ok hgh hg, ofLabelled_eq_ok hgh.symm (hgh.wellFormed hg)⟩
  refine ⟨?_, hok⟩
  cases hx : ShapeTable.ofLabelled g with
  | ok t => simp [(hok t).1 hx]
  | error e =>
    cases hy : ShapeTable.ofLabelled h with
    | ok t => cases hx.symm.trans ((hok t).2 hy)
    | error e' => simp

end Shacl

/-! ## Labels of blank nodes -/

namespace Rdf

/-- A labelling keeps its stem. -/
theorem Issuer.stem_issue (i : Issuer) (node : String) : (i.issue node).stem = i.stem := by
  unfold issue
  split <;> rfl

namespace Labelling

theorem stem_settle (l : Labelling) (nodes : List String) :
    (l.settle nodes).settled.stem = l.settled.stem := by
  rw [settle]
  generalize l.settled = i
  induction nodes generalizing i with
  | nil => rfl
  | cons node nodes ih => rw [List.foldl_cons, ih, Issuer.stem_issue]

theorem stem_settleGroup (l : Labelling) (group : List String) :
    (l.settleGroup group).settled.stem = l.settled.stem := by
  rw [settleGroup]
  generalize (List.mergeSort _ _) = results
  induction results generalizing l with
  | nil => rfl
  | cons r results ih => rw [List.foldl_cons, ih, stem_settle]

theorem stem_complete (l : Labelling) : l.complete.settled.stem = l.settled.stem := by
  rw [complete, ← stem_settle l]
  generalize l.settle _ = l'
  generalize l.groups.filter _ = others
  induction others generalizing l' with
  | nil => rfl
  | cons group others ih => rw [List.foldl_cons, ih, stem_settleGroup]

end Labelling

/-- A label is empty or a number after the stem. -/
theorem Issuer.isLabelText_label {i : Issuer} (hi : IsLabelText i.stem) (node : String) :
    IsLabelText (i.label node) := by
  have hdigit : ∀ c : Char, c.isDigit → !Text.isBlank c := by
    intro c hc
    have hrange : 48 ≤ c.toNat ∧ c.toNat ≤ 57 := by
      simpa [Char.isDigit, UInt32.le_iff_toNat_le] using hc
    simp [Text.isBlank, Text.inRanges, Text.blankRanges]
    omega
  intro c hc
  rw [label, label?] at hc
  cases hk : i.issued.idxOf? node with
  | none => simp [hk] at hc
  | some k =>
    rw [hk, Option.map_some, Option.getD_some, String.toList_append, List.mem_append] at hc
    rcases hc with hc | hc
    · exact hi c hc
    · rw [Nat.toString_eq_repr, Nat.toList_repr] at hc
      exact hdigit c (Nat.isDigit_of_mem_toDigits (by decide) (by decide) hc)

theorem Node.WellFormed.mapBlanks {f : String → String} (hf : ∀ b, IsLabelText (f b)) {n : Node}
    (hn : n.WellFormed) : (n.mapBlanks f).WellFormed := by
  cases n with
  | iri s => exact hn
  | blank b => exact hf b

theorem Term.WellFormed.mapBlanks {f : String → String} (hf : ∀ b, IsLabelText (f b)) {t : Term}
    (ht : t.WellFormed) : (t.mapBlanks f).WellFormed := by
  induction t with
  | node n => exact Node.WellFormed.mapBlanks hf ht
  | literal l => exact ht
  | triple s p o ih => exact ⟨Node.WellFormed.mapBlanks hf ht.1, ht.2.1, ih ht.2.2⟩

namespace Graph

/-- **What is taken for granted of a labelling of blank nodes:** the triples that it gives depend on
the triples that it gets only, and they are in order if those are. In which order they are scanned
is left open. -/
structure Relabels (relabel : Graph → Graph) : Prop where
  sameTriples : ∀ {g h : Graph}, g.SameTriples h → (relabel g).SameTriples (relabel h)
  wellFormed : ∀ {g : Graph}, g.WellFormed → (relabel g).WellFormed

/-- The canonical labelling is one. -/
theorem relabels_canonical : Relabels canonical where
  sameTriples {g h} hgh := by
    have hset : g.toSet = h.toSet := OrderedSet.ext fun t => by simpa using hgh t
    have heq : g.canonical = h.canonical := by rw [canonical, canonical, hset]
    exact fun t => by rw [heq]
  wellFormed {g} hg t ht := by
    have hlabel : ∀ b, IsLabelText ((Labelling.start g.toSet.toList).complete.settled.label b) := by
      refine Issuer.isLabelText_label ?_
      rw [Labelling.stem_complete]
      exact (by decide +kernel : IsLabelText "c14n")
    obtain ⟨u, hu, rfl⟩ := OrderedSet.mem_map.1 (mem_ofSet.1 ht)
    have hwf := hg u (mem_toSet.1 hu)
    exact ⟨hwf.subject.mapBlanks hlabel, hwf.predicate, hwf.object.mapBlanks hlabel⟩

end Graph

end Rdf

/-! ## The shapes of a graph -/

/-- **The shapes of a graph do not depend on the order of its triples.** Two graphs that hold lists
with the same triples in order, however each is scanned, fail together or give the same shapes in
the same order. The same holds with any other labelling of blank nodes whose triples depend on the
triples that it gets. -/
theorem shapes_independent_of_scan {l m : List Triple} (hlm : ∀ t, t ∈ l ↔ t ∈ m)
    (hl : ∀ t ∈ l, t.WellFormed) {g h : Graph} (hg : ∀ t, t ∈ g ↔ t ∈ l)
    (hh : ∀ t, t ∈ h ↔ t ∈ m) :
    SameShapes (ShapeTable.ofGraph g) (ShapeTable.ofGraph h) ∧
    ∀ relabel : Graph → Graph, Graph.Relabels relabel →
      SameShapes (ShapeTable.ofLabelled (relabel g)) (ShapeTable.ofLabelled (relabel h)) := by
  have hgh : g.SameTriples h := fun t => (hg t).trans ((hlm t).trans (hh t).symm)
  have hwf : g.WellFormed := fun t ht => hl t ((hg t).1 ht)
  have hany : ∀ relabel : Graph → Graph, Graph.Relabels relabel →
      SameShapes (ShapeTable.ofLabelled (relabel g)) (ShapeTable.ofLabelled (relabel h)) :=
    fun relabel hr => sameShapes_ofLabelled (hr.sameTriples hgh) (hr.wellFormed hwf)
  exact ⟨hany Graph.canonical Graph.relabels_canonical, hany⟩

/-- A shape with two names and with two values that differ only in their tags. -/
def scattered : List Triple :=
  [⟨.iri "s", Vocab.name.iri, .literal (.typed "b" xsdString)⟩,
    ⟨.iri "s", Vocab.name.iri, .literal (.typed "a" xsdString)⟩,
    ⟨.iri "s", Vocab.hasValue.iri, .triple (.iri "s") "p" (.literal (.tagged "\"" "fr"))⟩,
    ⟨.iri "s", Vocab.hasValue.iri, .triple (.iri "s") "p" (.literal (.tagged "\"" "en"))⟩,
    ⟨.iri "s", Vocab.targetNode.iri, .iri "n"⟩]

/-- Its triples, scanned as they stand. -/
def scatteredScan : Graph := ⟨scattered, by decide +kernel⟩

/-- Its table, with the names and the values in the order of their line forms. -/
def scatteredTable : ShapeTable := .ofList
  [{
    id := .iri "s"
    names := ["a", "b"]
    targets := [.node (.iri "n")]
    constraints := [.hasValue [.triple (.iri "s") "p" (.literal (.tagged "\"" "en")),
      .triple (.iri "s") "p" (.literal (.tagged "\"" "fr"))]] }]

theorem shapes_independent_of_scan_scattered :
    (∀ t ∈ scattered, t.WellFormed) ∧ (∀ t, t ∈ scattered ++ scattered ↔ t ∈ scattered) ∧
    (Graph.ofList (scattered ++ scattered)).triples ≠ scatteredScan.triples ∧
    ShapeTable.ofGraph (.ofList (scattered ++ scattered)) = .ok scatteredTable ∧
    ShapeTable.ofGraph scatteredScan = .ok scatteredTable := by
  have hwf : ∀ t ∈ scattered, t.WellFormed := by decide +kernel
  have hsame : ∀ t, t ∈ scattered ++ scattered ↔ t ∈ scattered := by simp
  have hsorted : Graph.ofList (scattered ++ scattered) = Graph.ofList scattered :=
    congrArg Graph.ofSet (OrderedSet.ofList_eq_ofList_iff.2 hsame)
  have hblanks : ∀ t ∈ scattered, t.blanks = [] := by decide
  have hlist : ShapeTable.ofGraph (.ofList (scattered ++ scattered)) = .ok scatteredTable := by
    rw [hsorted, ShapeTable.ofGraph,
      Graph.canonical_eq_self fun t ht => hblanks t (Graph.mem_ofList.1 ht)]
    decide +kernel
  obtain ⟨hshapes, -⟩ := shapes_independent_of_scan hsame
    (fun t ht => hwf t ((hsame t).1 ht)) (fun _ => Graph.mem_ofList)
    (fun _ => Iff.rfl : ∀ t, t ∈ scatteredScan ↔ t ∈ scattered)
  refine ⟨hwf, hsame, ?_, hlist, (hshapes.ok_iff _).1 hlist⟩
  rw [hsorted]
  decide +kernel

end ShapeRules
