import ShapeRules.Proofs.Fragment

/-!
# The forms of rules

A rule that a named shape writes has one of a few forms. Most rules say something of the shape
alone: that it has a mark, a count or a value, or which nodes it selects. Apart from these each
shape has one fact for its severity and one for its kind, and a link for each shape that it nests.

## Main definitions

* `markPredicates`, `countPredicates`, `valuePredicates`, `kindPredicates`, `linkPredicates`: the
  predicates of the facts that are written, by form
* `Shacl.Shape.writtenTerms`: the terms of a shape that are written as constants
* `Plain`: the rules that say something of a shape alone
* `Form`: all rules about a shape

## Main results

* `plain_of_mem_statements`, `form_of_mem_preamble`: what a shape writes for itself
* `filterMap_blocks`: what is picked from the rules of constraints, by what is picked from each form
* `Forest.exists_form_of_mem_rules`: every rule of named occurrences has a form
-/

namespace ShapeRules

open Rdf Shacl Datalog Compile

/-! ## Predicates by form -/

/-- The predicates of facts that mark a shape. -/
def markPredicates : List Predicate :=
  [.deactivated, .andConstr, .orConstr, .xoneConstr, .qualifiedValueDisjoint, .languageInConstr,
    .uniqueLangConstr]

/-- The predicates of facts that give a shape a count. -/
def countPredicates : List Predicate :=
  [.minCountConstr, .maxCountConstr, .qualifiedMinCount, .qualifiedMaxCount]

/-- The predicates of facts that give a shape a value, apart from its severity. -/
def valuePredicates : List Predicate :=
  [.target, .description, .message, .notConstr, .andShape, .orShape, .xoneShape, .equalsConstr,
    .disjointConstr, .lessThanConstr, .lessThanOrEqConstr, .minLengthConstr, .maxLengthConstr,
    .patternConstr, .constrLanguageTag, .classConstr, .datatypeConstr, .nodeKindConstr,
    .minExclusiveConstr, .minInclusiveConstr, .maxExclusiveConstr, .maxInclusiveConstr]

/-- The predicates of facts for the kind of a shape. -/
def kindPredicates : List Predicate := [.nodeShape, .propertyShape]

/-- The predicates of facts that link a shape to one that it nests. -/
def linkPredicates : List Predicate := [.propertyConstr, .nodeConstr, .qualifiedValueConstr]

/-! ## The terms that are written -/

/-- The terms of a target that are written as constants. -/
def Shacl.Target.writtenTerms : Target → List Term
  | .implicitClass iri => [.iri iri]
  | target => target.terms

/-- The terms of a constraint that are written as constants. -/
def Shacl.Constraint.writtenTerms : Constraint → List Term
  | .not shapes => shapes.map .node
  | .and shapes => shapes.map .node
  | .or shapes => shapes.map .node
  | .xone shapes => shapes.map .node
  | .equals iris => iris.map .iri
  | .disjoint iris => iris.map .iri
  | .lessThan iris => iris.map .iri
  | .lessThanOrEquals iris => iris.map .iri
  | .datatype iri => [.iri iri]
  | .nodeKind iri => [.iri iri]
  | c => c.terms

/-- **The terms of a shape that are written as constants,** under whatever name it has. -/
def Shacl.Shape.writtenTerms (s : Shape) : List Term :=
  s.descriptions ++ s.messages ++ s.targets.flatMap Target.writtenTerms ++
    s.constraints.flatMap Constraint.writtenTerms

/-! ## Forms -/

/-- **The rules that say something of a shape alone.** The values are constants of `terms`, and a
rule that selects nodes has one atom in its body. -/
inductive Plain (terms : List Term) (name : String) : Rule → Prop
  | mark {p : Predicate} (mem : p ∈ markPredicates) : Plain terms name (about p name [])
  | count {p : Predicate} {n : Count} (mem : p ∈ countPredicates)
      (pos : p = .minCountConstr → n ≠ 0) : Plain terms name (about p name [toString n])
  | value {p : Predicate} {t : Term} {c : String} (mem : p ∈ valuePredicates)
      (constant : c ∈ t.written) (stated : t ∈ terms) : Plain terms name (about p name [c])
  | select {t : Term} {c : String} {atom : Atom} (constant : c ∈ t.written)
      (mem : atom ∈ [⟨.instanceOf, [c, focusVariable]⟩,
        ⟨.path, [anonymousVariable, c, focusVariable]⟩,
        ⟨.path, [focusVariable, c, anonymousVariable]⟩])
      (stated : t ∈ terms) : Plain terms name (selectRule name atom)

/-- **The rules about a shape,** where `terms` are those that it writes and `names` are the names of
the shapes that it nests. -/
inductive Form (terms : List Term) (names : List String) (name : String) : Rule → Prop
  | plain {r : Rule} (plain : Plain terms name r) : Form terms names name r
  | severity (iri : String) : Form terms names name (about .severity name [Text.quote iri])
  | kind {p : Predicate} (mem : p ∈ kindPredicates) (comment : String) :
      Form terms names name ((about p name []).withComment comment)
  | link {p : Predicate} {child : String} (mem : p ∈ linkPredicates) (nested : child ∈ names) :
      Form terms names name (about p name [child])

theorem Plain.mono {terms others : List Term} {name : String} {r : Rule} (h : Plain terms name r)
    (hsub : terms ⊆ others) : Plain others name r := by
  cases h with
  | mark mem => exact .mark mem
  | count mem pos => exact .count mem pos
  | value mem constant stated => exact .value mem constant (hsub stated)
  | select constant mem stated => exact .select constant mem (hsub stated)

theorem Form.mono {terms terms' : List Term} {names names' : List String} {name : String}
    {r : Rule} (h : Form terms names name r) (hterms : terms ⊆ terms') (hnames : names ⊆ names') :
    Form terms' names' name r := by
  cases h with
  | plain h => exact .plain (h.mono hterms)
  | severity iri => exact .severity iri
  | kind mem comment => exact .kind mem comment
  | link mem nested => exact .link mem (hnames nested)

/-! ## What a shape writes for itself -/

section Writes

variable {name : String} {r : Rule}

theorem plain_of_mem_facts {p : Predicate} {terms : List Term} (hp : p ∈ valuePredicates)
    (h : r ∈ facts p name terms) : Plain terms name r := by
  obtain ⟨t, ht, h⟩ := List.mem_flatMap.1 h
  obtain ⟨c, hc, rfl⟩ := List.mem_map.1 h
  exact .value hp hc ht

theorem plain_of_mem_iriFacts {p : Predicate} {iris : List String} (hp : p ∈ valuePredicates)
    (h : r ∈ iriFacts p name iris) : Plain (iris.map .iri) name r := by
  obtain ⟨iri, hiri, rfl⟩ := List.mem_map.1 h
  have hc : Text.quote iri ∈ (Term.iri iri).written := List.mem_singleton_self _
  exact .value hp hc (List.mem_map_of_mem hiri)

theorem plain_of_mem_nodes {p : Predicate} {nodes : List Node} (hp : p ∈ valuePredicates)
    (h : r ∈ nodes.map fun n => about p name [n.constant]) : Plain (nodes.map .node) name r := by
  obtain ⟨n, hn, rfl⟩ := List.mem_map.1 h
  have hc : n.constant ∈ (Term.node n).written := List.mem_singleton_self _
  exact .value hp hc (List.mem_map_of_mem hn)

theorem plain_of_mem_memberFacts {mark member : Predicate} {shapes : List Node}
    (hmark : mark ∈ markPredicates) (hmember : member ∈ valuePredicates)
    (h : r ∈ memberFacts mark member name shapes) : Plain (shapes.map .node) name r := by
  rcases List.mem_cons.1 h with rfl | h
  · exact .mark hmark
  · exact plain_of_mem_nodes hmember h

theorem plain_of_mem_target {target : Target} (h : r ∈ target.statements name) :
    Plain target.writtenTerms name r := by
  cases target with
  | node t =>
    obtain ⟨c, hc, rfl⟩ := List.mem_map.1 h
    exact .value (by decide) hc (List.mem_singleton_self t)
  | ofClass t =>
    obtain ⟨c, hc, rfl⟩ := List.mem_map.1 h
    exact .select hc (by simp [focusVariable]) (List.mem_singleton_self t)
  | implicitClass iri =>
    obtain rfl := List.mem_singleton.1 h
    have hc : Text.quote iri ∈ (Term.iri iri).written := List.mem_singleton_self _
    exact .select hc (by simp [focusVariable]) (List.mem_singleton_self _)
  | objectsOf t =>
    obtain ⟨c, hc, rfl⟩ := List.mem_map.1 h
    exact .select hc (by simp [focusVariable, anonymousVariable]) (List.mem_singleton_self t)
  | subjectsOf t =>
    obtain ⟨c, hc, rfl⟩ := List.mem_map.1 h
    exact .select hc (by simp [focusVariable, anonymousVariable]) (List.mem_singleton_self t)

/-- **What a constraint states** says something of the shape alone. -/
theorem plain_of_mem_statements {c : Constraint} (h : r ∈ c.statements name) :
    Plain c.writtenTerms name r := by
  cases c with
  | minCount n =>
    rw [Constraint.statements] at h
    split at h
    next => cases h
    next hn =>
      obtain rfl := List.mem_singleton.1 h
      exact .count (by decide) fun _ => hn
  | maxCount n =>
    obtain rfl := List.mem_singleton.1 h
    exact .count (by decide) fun he => absurd he (by decide)
  | uniqueLang =>
    obtain rfl := List.mem_singleton.1 h
    exact .mark (by decide)
  | not shapes => exact plain_of_mem_nodes (by decide) h
  | and shapes => exact plain_of_mem_memberFacts (by decide) (by decide) h
  | or shapes => exact plain_of_mem_memberFacts (by decide) (by decide) h
  | xone shapes => exact plain_of_mem_memberFacts (by decide) (by decide) h
  | equals iris => exact plain_of_mem_iriFacts (by decide) h
  | disjoint iris => exact plain_of_mem_iriFacts (by decide) h
  | lessThan iris => exact plain_of_mem_iriFacts (by decide) h
  | lessThanOrEquals iris => exact plain_of_mem_iriFacts (by decide) h
  | datatype iri => exact plain_of_mem_iriFacts (by decide) h
  | nodeKind iri => exact plain_of_mem_iriFacts (by decide) h
  | qualifiedValueShape shapes min max isDisjoint =>
    simp only [Constraint.statements, List.mem_append, List.mem_map] at h
    rcases h with (⟨n, -, rfl⟩ | ⟨n, -, rfl⟩) | h
    · exact .count (by decide) fun he => absurd he (by decide)
    · exact .count (by decide) fun he => absurd he (by decide)
    · split at h
      · obtain rfl := List.mem_singleton.1 h
        exact .mark (by decide)
      · cases h
  | languageIn ts =>
    rcases List.mem_append.1 h with h | h
    · exact plain_of_mem_facts (by decide) h
    · obtain rfl := List.mem_singleton.1 h
      exact .mark (by decide)
  | property shapes => cases h
  | node shapes => cases h
  | closed ignored => cases h
  | hasValue ts => cases h
  | oneOf ts => cases h
  | _ => exact plain_of_mem_facts (by decide) h

/-- The rules that a shape starts with are plain, apart from the facts for its severity and kind. -/
theorem preamble_eq (o : Occurrence) : ∃ before after : List Rule,
    o.preamble = before ++ [about .severity o.name [Text.quote o.shape.severity.iri],
      o.shape.kindFact o.name] ++ after ∧
      ∀ r ∈ before ++ after, Plain o.shape.writtenTerms o.name r := by
  refine ⟨_, _, rfl, ?_⟩
  intro r hr
  simp only [List.mem_append] at hr
  rcases hr with ((hr | hr) | hr) | hr
  · refine (plain_of_mem_facts (by decide) hr).mono fun t ht => ?_
    simp [Shape.writtenTerms, ht]
  · refine (plain_of_mem_facts (by decide) hr).mono fun t ht => ?_
    simp [Shape.writtenTerms, ht]
  · split at hr
    · obtain rfl := List.mem_singleton.1 hr
      exact .mark (by decide)
    · cases hr
  · obtain ⟨target, htarget, hr⟩ := List.mem_flatMap.1 hr
    refine (plain_of_mem_target hr).mono fun t ht => ?_
    exact List.mem_append_left _
      (List.mem_append_right _ (List.mem_flatMap.2 ⟨target, htarget, ht⟩))

/-- What is picked from the rules that a shape starts with, if nothing plain is. -/
theorem filterMap_preamble {β : Type} {pick : Rule → Option β} {o : Occurrence}
    (hplain : ∀ terms r, Plain terms o.name r → pick r = none) :
    o.preamble.filterMap pick = [about .severity o.name [Text.quote o.shape.severity.iri],
      o.shape.kindFact o.name].filterMap pick := by
  obtain ⟨before, after, he, h⟩ := preamble_eq o
  have hbefore : before.filterMap pick = [] :=
    List.filterMap_eq_nil_iff.2 fun r hr => hplain _ r (h r (List.mem_append_left _ hr))
  have hafter : after.filterMap pick = [] :=
    List.filterMap_eq_nil_iff.2 fun r hr => hplain _ r (h r (List.mem_append_right _ hr))
  rw [he, List.filterMap_append, List.filterMap_append, hbefore, hafter, List.nil_append,
    List.append_nil]

theorem form_kindFact (terms : List Term) (names : List String) (s : Shape) (name : String) :
    Form terms names name (s.kindFact name) := by
  rw [Shape.kindFact]
  split
  · exact .kind (p := .propertyShape) (by decide) s.id.text
  · exact .kind (p := .nodeShape) (by decide) s.id.text

/-- The rules that a shape starts with are about it. -/
theorem form_of_mem_preamble {names : List String} {o : Occurrence} (h : r ∈ o.preamble) :
    Form o.shape.writtenTerms names o.name r := by
  obtain ⟨before, after, he, hplain⟩ := preamble_eq o
  rw [he, List.mem_append, List.mem_append, List.mem_cons, List.mem_singleton] at h
  rcases h with (h | rfl | rfl) | h
  · exact .plain (hplain r (List.mem_append_left _ h))
  · exact .severity _
  · exact form_kindFact _ names o.shape o.name
  · exact .plain (hplain r (List.mem_append_right _ h))

theorem link_mem_linkPredicates (c : Constraint) : c.link ∈ linkPredicates := by
  unfold Constraint.link
  split <;> decide

end Writes

/-! ## The rules of a forest -/

theorem form_of_mem_linked {terms : List Term} {name : String} {c : Constraint}
    {parts : List (String × List Rule)} {r : Rule} (h : r ∈ linked name c.link parts) :
    Form terms (parts.map Prod.fst) name r ∨ ∃ part ∈ parts, r ∈ part.2 := by
  obtain ⟨part, hp, h⟩ := List.mem_flatMap.1 h
  rcases List.mem_append.1 h with h | h
  · exact .inr ⟨part, hp, h⟩
  · obtain rfl := List.mem_singleton.1 h
    exact .inl (.link (link_mem_linkPredicates c) (List.mem_map_of_mem hp))

/-- The rules of the constraints of a shape are about it or come from what it nests. -/
theorem form_of_mem_blocks {name : String} {cs : List Constraint}
    {parts : List (String × List Rule)} {r : Rule} (h : r ∈ blocks name cs parts) :
    Form (cs.flatMap Constraint.writtenTerms) (parts.map Prod.fst) name r ∨
      ∃ part ∈ parts, r ∈ part.2 := by
  induction cs generalizing parts with
  | nil => cases h
  | cons c cs ih =>
    rw [blocks, List.mem_append, List.mem_append] at h
    rcases h with (h | h) | h
    · rcases form_of_mem_linked h with h | ⟨part, hp, h⟩
      · exact .inl (h.mono (List.Subset.refl _) (List.map_subset _ (List.take_subset _ _)))
      · exact .inr ⟨part, List.mem_of_mem_take hp, h⟩
    · exact .inl (.plain ((plain_of_mem_statements h).mono (List.subset_append_left _ _)))
    · rcases ih h with h | ⟨part, hp, h⟩
      · exact .inl (h.mono (List.subset_append_right _ _)
          (List.map_subset _ (List.drop_subset _ _)))
      · exact .inr ⟨part, List.mem_of_mem_drop hp, h⟩

/-- **What is picked from the rules of constraints.** If nothing plain is picked and no part is left
over, it is what is picked from each part and from the link to it. -/
theorem filterMap_blocks {β : Type} {pick : Rule → Option β} (pickLink : String → Option β)
    {name : String} (hplain : ∀ terms r, Plain terms name r → pick r = none)
    (hlink : ∀ p ∈ linkPredicates, ∀ child, pick (about p name [child]) = pickLink child)
    {cs : List Constraint} {parts : List (String × List Rule)}
    (hlen : parts.length = (cs.flatMap Constraint.references).length) :
    (blocks name cs parts).filterMap pick =
      parts.flatMap fun part => part.2.filterMap pick ++ (pickLink part.1).toList := by
  induction cs generalizing parts with
  | nil =>
    obtain rfl := List.length_eq_zero_iff.1 hlen
    rfl
  | cons c cs ih =>
    have hstatements : (c.statements name).filterMap pick = [] :=
      List.filterMap_eq_nil_iff.2 fun r hr => hplain _ r (plain_of_mem_statements hr)
    have hlinked : (linked name c.link (parts.take c.references.length)).filterMap pick =
        (parts.take c.references.length).flatMap fun part =>
          part.2.filterMap pick ++ (pickLink part.1).toList := by
      rw [linked, List.filterMap_flatMap]
      refine List.flatMap_congr fun part _ => ?_
      rw [List.filterMap_append, List.filterMap_cons, hlink _ (link_mem_linkPredicates c)]
      cases pickLink part.1 <;> rfl
    -- the parts after those of `c` are as many as the other constraints refer to
    have hdrop : (parts.drop c.references.length).length =
        (cs.flatMap Constraint.references).length := by
      rw [List.flatMap_cons, List.length_append] at hlen
      rw [List.length_drop]
      omega
    rw [blocks, List.filterMap_append, List.filterMap_append, hlinked, hstatements,
      List.append_nil, ih hdrop, ← List.flatMap_append, List.take_append_drop]

namespace Forest

variable {f : Forest Occurrence}

/-- What is nested has a part for each reference. -/
theorem length_written {src : ShapeSource} {o : Occurrence}
    (h : o.shape.references.mapM src.resolve = some (f.map Occurrence.shape).roots) :
    f.written.length = o.shape.references.length := by
  have hwritten := congrArg List.length f.map_fst_written
  have hlen := Option.length_of_mapM_eq_some h
  rw [List.length_map, List.length_map] at hwritten
  rw [roots_map, List.length_map] at hlen
  rw [hwritten, hlen]

theorem roots_subset_preorder {α : Type} (f : Forest α) : f.roots ⊆ f.preorder := by
  induction f with
  | nil => exact List.nil_subset _
  | cons a nested rest _ ih =>
    exact List.cons_subset_cons a (List.Subset.trans ih (List.subset_append_right _ _))

/-- Every rule is about an occurrence, states its terms and links it to occurrences only. -/
theorem exists_form_of_mem_written {part : String × List Rule} {r : Rule} (hp : part ∈ f.written)
    (hr : r ∈ part.2) : ∃ o ∈ f.preorder,
      Form o.shape.writtenTerms (f.preorder.map Occurrence.name) o.name r := by
  induction f generalizing part with
  | nil => cases hp
  | cons o nested rest ih₁ ih₂ =>
    have hnested : nested.preorder ⊆ (cons o nested rest).preorder := fun x hx =>
      List.mem_cons_of_mem _ (List.mem_append_left _ hx)
    have hrest : rest.preorder ⊆ (cons o nested rest).preorder := fun x hx =>
      List.mem_cons_of_mem _ (List.mem_append_right _ hx)
    rcases List.mem_cons.1 hp with rfl | hp
    · rcases List.mem_append.1 hr with hr | hr
      · exact ⟨o, List.mem_cons_self, form_of_mem_preamble hr⟩
      · rcases form_of_mem_blocks hr with hr | ⟨part, hp, hr⟩
        · -- what the root is linked to are the roots below it
          rw [map_fst_written] at hr
          exact ⟨o, List.mem_cons_self, hr.mono (List.subset_append_right _ _)
            (List.map_subset _ (List.Subset.trans nested.roots_subset_preorder hnested))⟩
        · obtain ⟨o', ho', h⟩ := ih₁ hp hr
          exact ⟨o', hnested ho', h.mono (List.Subset.refl _) (List.map_subset _ hnested)⟩
    · obtain ⟨o', ho', h⟩ := ih₂ hp hr
      exact ⟨o', hrest ho', h.mono (List.Subset.refl _) (List.map_subset _ hrest)⟩

/-- **Every rule of named occurrences has a form.** -/
theorem exists_form_of_mem_rules {r : Rule} (h : r ∈ f.rules) :
    ∃ o ∈ f.preorder, Form o.shape.writtenTerms (f.preorder.map Occurrence.name) o.name r := by
  obtain ⟨part, hp, hr⟩ := List.mem_flatMap.1 h
  exact exists_form_of_mem_written hp hr

end Forest

end ShapeRules
