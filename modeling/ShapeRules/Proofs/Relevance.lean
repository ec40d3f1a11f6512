import ShapeRules.Compile.FromGraph
import ShapeRules.Proofs.ScanOrder

/-!
# Irrelevant triples

A graph of shapes may hold any data besides, about the same nodes and even about the cells of lists.
What is read are the properties of the vocabulary, the cells of lists, and three classes. The other
triples are irrelevant: without them the same shapes are discovered and read, or the same fault is
found. Blank nodes are left out, since their labels depend on all triples.

## Main definitions

* `Rdf.Triple.isRelevant`: the triples that are read
* `Rdf.Graph.relevant`: the part of a graph that is read

## Main results

* `Shacl.sameValues_relevant`, `Shacl.discover_relevant`: what is read in the part that is read
* `Shacl.ofGraph_eq_of_relevant`, `Compile.compileGraph_eq_of_relevant`: shapes and programs depend
  on the relevant triples only
* `irrelevant_triples_ignored`: irrelevant triples change neither the shapes nor the program
-/

namespace ShapeRules

open Rdf Shacl Datalog Compile

/-! ## Relevant triples -/

/-- **The triples that are read:** those of the properties of the vocabulary and of the cells of
lists, and those that declare a shape or a class. -/
def Rdf.Triple.isRelevant (t : Triple) : Bool :=
  t.predicate = rdfFirst ∨ t.predicate = rdfRest ∨
    (∃ v ∈ Vocab.all, v.isProperty ∧ t.predicate = v.iri) ∨
    t.predicate = rdfType ∧
      t.object ∈ [Term.iri Vocab.nodeShape.iri, .iri Vocab.propertyShape.iri, .iri rdfsClass]

theorem Rdf.Triple.isRelevant_of_property {t : Triple} {v : Vocab} (hv : v.isProperty)
    (ht : t.predicate = v.iri) : t.isRelevant :=
  decide_eq_true (.inr (.inr (.inl ⟨v, v.mem_all, hv, ht⟩)))

namespace Rdf.Graph

/-- **The part of a graph that is read.** -/
def relevant (g : Graph) : Graph :=
  ⟨g.triples.filter Triple.isRelevant, g.nodup.filter _⟩

variable {g : Graph}

@[simp]
theorem mem_relevant {t : Triple} : t ∈ g.relevant ↔ t ∈ g ∧ t.isRelevant :=
  List.mem_filter

/-- A search for relevant triples finds the same ones in the same order. -/
theorem filter_relevant {q : Triple → Bool} (hq : ∀ t, q t → t.isRelevant) :
    g.relevant.triples.filter q = g.triples.filter q := by
  rw [relevant, List.filter_filter]
  refine List.filter_congr fun t _ => ?_
  cases hqt : q t with
  | true => rw [hq t hqt, Bool.and_true]
  | false => rfl

theorem values_relevant {p : String} (hp : ∀ t : Triple, t.predicate = p → t.isRelevant)
    (n : Node) : g.relevant.values n p = g.values n p := by
  rw [values, values, filter_relevant fun t ht => hp t (of_decide_eq_true ht).2]

theorem withPredicate_relevant {v : Vocab} (hv : v.isProperty) :
    g.relevant.withPredicate v.iri = g.withPredicate v.iri :=
  filter_relevant fun _ ht => Triple.isRelevant_of_property hv (of_decide_eq_true ht)

/-- Without blank nodes, taking the relevant part and settling the labels commute. -/
theorem canonical_relevant (hg : ∀ t ∈ g, t.blanks = []) :
    g.relevant.canonical = g.canonical.relevant := by
  have hrelevant : ∀ t ∈ g.relevant, t.blanks = [] := fun t ht => hg t (mem_relevant.1 ht).1
  rw [canonical_eq_ofSet hg, canonical_eq_ofSet hrelevant]
  have htriples : g.relevant.toSet.toList = g.toSet.toList.filter Triple.isRelevant := by
    refine OrderedSet.eq_of_pairwise_of_mem_iff g.relevant.toSet.increasing
      (g.toSet.increasing.filter _) fun t => ?_
    rw [List.mem_filter, ← OrderedSet.mem_def, ← OrderedSet.mem_def, mem_toSet, mem_toSet,
      mem_relevant]
  simp only [ofSet, relevant] at htriples ⊢
  simp only [htriples]

end Rdf.Graph

/-! ## What is read in the relevant part -/

namespace Shacl

variable {g h : Graph}

/-- **The relevant part agrees with the graph** on all that is read of a node. -/
theorem sameValues_relevant : SameValues g.relevant g where
  property n _ hv := Graph.values_relevant (fun _ => Triple.isRelevant_of_property hv) n
  first n := Graph.values_relevant (fun _ ht => decide_eq_true (.inl ht)) n
  rest n := Graph.values_relevant (fun _ ht => decide_eq_true (.inr (.inl ht))) n
  isClass n := by
    have hclass : (⟨n, rdfType, .iri rdfsClass⟩ : Triple).isRelevant :=
      decide_eq_true (.inr (.inr (.inr ⟨rfl, by simp⟩)))
    rw [Graph.mem_values, Graph.mem_values, Graph.mem_relevant, and_iff_left hclass]

theorem declaredShapes_relevant : declaredShapes g.relevant = declaredShapes g := by
  have hclass : ∀ c ∈ [Vocab.nodeShape, .propertyShape],
      (g.relevant.withPredicate rdfType).filter (·.object = .iri c.iri) =
        (g.withPredicate rdfType).filter (·.object = .iri c.iri) := by
    intro c hc
    rw [Graph.withPredicate, Graph.withPredicate, List.filter_filter, List.filter_filter]
    refine Graph.filter_relevant fun t ht => decide_eq_true (.inr (.inr (.inr ?_)))
    obtain ⟨hobject, hpredicate⟩ := Bool.and_eq_true_iff.1 ht
    refine ⟨of_decide_eq_true hpredicate, ?_⟩
    rw [of_decide_eq_true hobject]
    simp only [List.mem_cons, List.not_mem_nil, or_false] at hc
    rcases hc with rfl | rfl <;> simp
  simp only [declaredShapes, List.flatMap_cons, List.flatMap_nil, hclass .nodeShape (by simp),
    hclass .propertyShape (by simp)]

theorem targetedShapes_relevant : targetedShapes g.relevant = targetedShapes g := by
  simp only [targetedShapes, List.flatMap_cons, List.flatMap_nil,
    Graph.withPredicate_relevant (v := .targetNode) rfl,
    Graph.withPredicate_relevant (v := .targetClass) rfl,
    Graph.withPredicate_relevant (v := .targetObjectsOf) rfl,
    Graph.withPredicate_relevant (v := .targetSubjectsOf) rfl,
    Graph.withPredicate_relevant (v := .path) rfl]

/-- **The same shapes are discovered** in the relevant part, or the same fault. -/
theorem discover_relevant : discover g.relevant = discover g := by
  have hnested : ∀ v ∈ nestingProperties, nestedShapes g.relevant v = nestedShapes g v := by
    intro v hv
    have hproperty : ∀ v ∈ nestingProperties, v.isProperty := by decide
    rw [nestedShapes, nestedShapes, Graph.withPredicate_relevant (hproperty v hv)]
  have hlisted : ∀ v ∈ logicalProperties, listedShapes g.relevant v = listedShapes g v := by
    intro v hv
    have hproperty : ∀ v ∈ logicalProperties, v.isProperty := by decide
    have hlist : ∀ owner head,
        referenceList g.relevant owner head = referenceList g owner head := by
      intro owner head
      rw [referenceList, referenceList, listOf, listOf, sameValues_relevant.members_eq]
    simp only [listedShapes, Graph.withPredicate_relevant (hproperty v hv), hlist]
  rw [discover, discover, Except.mapM_congr hnested, Except.mapM_congr hlisted,
    declaredShapes_relevant, targetedShapes_relevant]

theorem ofLabelled_relevant : ShapeTable.ofLabelled g.relevant = ShapeTable.ofLabelled g := by
  rw [ShapeTable.ofLabelled, ShapeTable.ofLabelled, discover_relevant,
    funext (readShape_eq sameValues_relevant)]

theorem ofGraph_relevant (hg : ∀ t ∈ g, t.blanks = []) :
    ShapeTable.ofGraph g.relevant = ShapeTable.ofGraph g := by
  rw [ShapeTable.ofGraph, Graph.canonical_relevant hg, ofLabelled_relevant, ShapeTable.ofGraph]

/-- **The shapes of a graph depend on its relevant triples only,** if there are no blank nodes. -/
theorem ofGraph_eq_of_relevant (hg : ∀ t ∈ g, t.blanks = []) (hh : ∀ t ∈ h, t.blanks = [])
    (hgh : ∀ t : Triple, t.isRelevant → (t ∈ g ↔ t ∈ h)) :
    ShapeTable.ofGraph g = ShapeTable.ofGraph h := by
  have hset : g.relevant.toSet = h.relevant.toSet := by
    refine OrderedSet.ext fun t => ?_
    rw [Graph.mem_toSet, Graph.mem_toSet, Graph.mem_relevant, Graph.mem_relevant]
    exact and_congr_left (hgh t)
  rw [← ofGraph_relevant hg, ← ofGraph_relevant hh, ShapeTable.ofGraph, ShapeTable.ofGraph,
    Graph.canonical, Graph.canonical, hset]

end Shacl

/-! ## Programs -/

/-- So does the program, with all that is reported. -/
theorem Compile.compileGraph_eq_of_relevant {g h : Graph} (hg : ∀ t ∈ g, t.blanks = [])
    (hh : ∀ t ∈ h, t.blanks = []) (hgh : ∀ t : Triple, t.isRelevant → (t ∈ g ↔ t ∈ h))
    (options : Options) : compileGraph g options = compileGraph h options := by
  rw [compileGraph, compileGraph, ofGraph_eq_of_relevant hg hh hgh]

/-- **Irrelevant triples are ignored.** A graph without blank nodes has the shapes of its relevant
part, or the same fault. Its program stays the same, with all that is reported, when an irrelevant
triple is removed, and when one without blank nodes is added. -/
theorem irrelevant_triples_ignored {g : Graph} (hg : ∀ t ∈ g, t.blanks = []) :
    ShapeTable.ofGraph g.relevant = ShapeTable.ofGraph g ∧
    ∀ t : Triple, ¬ t.isRelevant → ∀ options,
      (t.blanks = [] → compileGraph (g.insert t) options = compileGraph g options) ∧
      compileGraph (g.erase t) options = compileGraph g options := by
  refine ⟨ofGraph_relevant hg, fun t ht options => ?_⟩
  have hne : ∀ u : Triple, u.isRelevant → u ≠ t := fun u hu h => ht (h ▸ hu)
  refine ⟨fun hblanks => ?_, ?_⟩
  · refine compileGraph_eq_of_relevant (fun u hu => ?_) hg (fun u hu => ?_) options
    · rcases Graph.mem_insert.1 hu with rfl | hu
      · exact hblanks
      · exact hg u hu
    · rw [Graph.mem_insert, or_iff_right (hne u hu)]
  · refine compileGraph_eq_of_relevant (fun u hu => ?_) hg (fun u hu => ?_) options
    · exact hg u (Graph.mem_erase.1 hu).2
    · rw [Graph.mem_erase, and_iff_right (hne u hu)]

/-- A shape that is a class and has a list, with data about the shape and about the cell. -/
def mixedGraph : Graph := .ofList [
  ⟨.iri "s", rdfType, .iri Vocab.nodeShape.iri⟩, ⟨.iri "s", rdfType, .iri rdfsClass⟩,
  ⟨.iri "s", rdfType, .iri "c"⟩, ⟨.iri "s", "p", .iri "l"⟩,
  ⟨.iri "s", Vocab.or.iri, .iri "l"⟩, ⟨.iri "l", rdfFirst, .iri "t"⟩,
  ⟨.iri "l", rdfRest, .iri rdfNil⟩, ⟨.iri "l", "p", .triple (.iri "s") "p" (.iri "t")⟩]

/-- A triple about the cell whose predicate is no property, although it is in the vocabulary. -/
def cellData : Triple := ⟨.iri "l", Vocab.info.iri, .iri "s"⟩

theorem irrelevant_triples_ignored_mixedGraph :
    (∀ t ∈ mixedGraph, t.blanks = []) ∧ mixedGraph.size = 8 ∧ mixedGraph.relevant.size = 5 ∧
    ¬ cellData.isRelevant ∧ cellData.blanks = [] ∧
    ShapeTable.ofGraph mixedGraph.relevant = ShapeTable.ofGraph mixedGraph ∧
    compileGraph (mixedGraph.insert cellData) {} = compileGraph mixedGraph {} ∧
    ∃ program, (compileGraph mixedGraph {}).result = .ok program ∧ program.size = 7 := by
  have hg : ∀ t ∈ mixedGraph, t.blanks = [] := by
    intro t ht
    rw [mixedGraph, Graph.mem_ofList] at ht
    revert t
    simp [Triple.blanks, Term.blanks, Node.blanks]
  have hsizes : (mixedGraph.size, mixedGraph.relevant.size) = (8, 5) := by decide +kernel
  have ht : ¬ cellData.isRelevant := by decide +kernel
  have hsize : (compileGraph mixedGraph {}).result.toOption.map Program.size = some 7 := by
    decide +kernel
  obtain ⟨hshapes, hdata⟩ := irrelevant_triples_ignored hg
  obtain ⟨hall, hrelevant⟩ := Prod.mk.inj hsizes
  refine ⟨hg, hall, hrelevant, ht, rfl, hshapes, (hdata cellData ht {}).1 rfl, ?_⟩
  cases hresult : (compileGraph mixedGraph {}).result with
  | error e =>
    rw [hresult] at hsize
    cases hsize
  | ok program =>
    rw [hresult] at hsize
    exact ⟨program, rfl, Option.some.inj hsize⟩

end ShapeRules
