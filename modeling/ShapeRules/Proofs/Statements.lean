import ShapeRules.Compile.Emission
import ShapeRules.Proofs.Forest
import ShapeRules.Proofs.Traversal

/-!
# What a named shape states

The rules of a shape that already has a name, told without failure: each part of a shape is written
as a list of rules, in which a triple term leaves a gap. Writing a shape out succeeds exactly if it
has no such gap and no constraint that is refused, and then gives these rules.

## Main definitions

* `Occurrence.preamble`: the rules for metadata and targets
* `Shacl.Constraint.statements`: the rules of a constraint besides its nested shapes
* `Shacl.Shape.Writable`: the shapes that are written out without refusal

## Main results

* `Compile.metadataRules_eq_ok_iff`, `Compile.targetRules_eq_ok_iff`,
  `Compile.constraintRules_eq_ok_iff`: the parts of a shape, written out
-/

namespace ShapeRules

open Rdf Shacl Datalog Compile

/-! ## Constants -/

/-- Whether a term is a triple term. -/
def Rdf.Term.isTriple : Term → Bool
  | .triple .. => true
  | _ => false

/-- The constant of a term; a triple term has none. -/
def Rdf.Term.written : Term → List String
  | .node n => [n.constant]
  | .literal l => [(Value.ofLiteral l).constant]
  | .triple .. => []

/-- One fact about a named shape for each term. -/
def facts (predicate : Predicate) (name : String) (terms : List Term) : List Rule :=
  terms.flatMap fun t => t.written.map fun c => about predicate name [c]

/-! ## Metadata and targets -/

/-- The rule of a target: its head is about the focus variable unless it is a single node. -/
def Shacl.Target.statements (name : String) : Target → List Rule
  | .node t => t.written.map fun c => about .target name [c]
  | .ofClass t => t.written.map fun c => .derive ⟨.target, [name, "X"]⟩ [⟨.instanceOf, [c, "X"]⟩]
  | .implicitClass iri =>
    [.derive ⟨.target, [name, "X"]⟩ [⟨.instanceOf, [Text.quote iri, "X"]⟩]]
  | .objectsOf t => t.written.map fun c => .derive ⟨.target, [name, "X"]⟩ [⟨.path, ["_", c, "X"]⟩]
  | .subjectsOf t => t.written.map fun c => .derive ⟨.target, [name, "X"]⟩ [⟨.path, ["X", c, "_"]⟩]

/-- The fact for the kind of a shape, with the identifier of the shape as its comment. -/
def Shacl.Shape.kindFact (s : Shape) (name : String) : Rule :=
  { head := ⟨if s.isProperty then .propertyShape else .nodeShape, [name]⟩
    body := ∅
    comments := [s.id.text] }

/-- The facts for the metadata of a shape. -/
def Shacl.Shape.metadata (s : Shape) (name : String) : List Rule :=
  facts .description name s.descriptions ++ facts .message name s.messages ++
    (if s.deactivated then [about .deactivated name []] else []) ++
    [about .severity name [Text.quote s.severity.iri], s.kindFact name]

/-- **The rules that a named shape starts with:** metadata, then one rule for each target. -/
def Occurrence.preamble (o : Occurrence) : List Rule :=
  o.shape.metadata o.name ++ o.shape.targets.flatMap (Target.statements o.name)

/-! ## Constraints -/

/-- A mark, then one fact for each member. -/
def memberFacts (mark member : Predicate) (name : String) (shapes : List Node) : List Rule :=
  about mark name [] :: shapes.map fun s => about member name [s.constant]

/-- One fact for each IRI. -/
def iriFacts (predicate : Predicate) (name : String) (iris : List String) : List Rule :=
  iris.map fun iri => about predicate name [Text.quote iri]

/-- **The rules of a constraint** besides those of its nested shapes. -/
def Shacl.Constraint.statements (name : String) : Constraint → List Rule
  | .minCount n => if n = 0 then [] else [about .minCountConstr name [toString n]]
  | .maxCount n => [about .maxCountConstr name [toString n]]
  | .not shapes => shapes.map fun s => about .notConstr name [s.constant]
  | .and shapes => memberFacts .andConstr .andShape name shapes
  | .or shapes => memberFacts .orConstr .orShape name shapes
  | .xone shapes => memberFacts .xoneConstr .xoneShape name shapes
  | .equals iris => iriFacts .equalsConstr name iris
  | .disjoint iris => iriFacts .disjointConstr name iris
  | .lessThan iris => iriFacts .lessThanConstr name iris
  | .lessThanOrEquals iris => iriFacts .lessThanOrEqConstr name iris
  | .property _ => []
  | .node _ => []
  | .qualifiedValueShape _ min max isDisjoint =>
    (min.toList.map fun n => about .qualifiedMinCount name [toString n]) ++
      (max.toList.map fun n => about .qualifiedMaxCount name [toString n]) ++
      (if isDisjoint then [about .qualifiedValueDisjoint name []] else [])
  | .minLength t => facts .minLengthConstr name [t]
  | .maxLength t => facts .maxLengthConstr name [t]
  | .pattern t _ => facts .patternConstr name [t]
  | .languageIn ts => facts .constrLanguageTag name ts ++ [about .languageInConstr name []]
  | .uniqueLang => [about .uniqueLangConstr name []]
  | .ofClass ts => facts .classConstr name ts
  | .datatype iri => iriFacts .datatypeConstr name [iri]
  | .nodeKind iri => iriFacts .nodeKindConstr name [iri]
  | .minExclusive ts => facts .minExclusiveConstr name ts
  | .minInclusive ts => facts .minInclusiveConstr name ts
  | .maxExclusive ts => facts .maxExclusiveConstr name ts
  | .maxInclusive ts => facts .maxInclusiveConstr name ts
  | .closed _ => []
  | .hasValue _ => []
  | .oneOf _ => []

/-! ## The terms that are written, and what is refused -/

/-- The terms of a target that could be triple terms. -/
def Shacl.Target.terms : Target → List Term
  | .node t => [t]
  | .ofClass t => [t]
  | .implicitClass _ => []
  | .objectsOf t => [t]
  | .subjectsOf t => [t]

/-- The terms of a constraint that are written as constants and could be triple terms. -/
def Shacl.Constraint.terms : Constraint → List Term
  | .minLength t => [t]
  | .maxLength t => [t]
  | .pattern t _ => [t]
  | .languageIn ts => ts
  | .ofClass ts => ts
  | .minExclusive ts => ts
  | .minInclusive ts => ts
  | .maxExclusive ts => ts
  | .maxInclusive ts => ts
  | _ => []

/-- The terms of a shape that are written as constants and could be triple terms. -/
def Shacl.Shape.terms (s : Shape) : List Term :=
  s.descriptions ++ s.messages ++ s.targets.flatMap Target.terms ++
    s.constraints.flatMap Constraint.terms

/-- The constraints that are written out without refusal, apart from their nested shapes. -/
structure Shacl.Constraint.Writable (options : Options) (c : Constraint) : Prop where
  terms : ∀ t ∈ c.terms, t.isTriple = false
  supported : options.strict → c.parameter ∉ [Vocab.closed, .hasValue, .oneOf]

/-- **The shapes that are written out without refusal,** apart from their nested shapes. -/
structure Shacl.Shape.Writable (options : Options) (s : Shape) : Prop where
  terms : ∀ t ∈ s.terms, t.isTriple = false
  supported : options.strict → ∀ c ∈ s.constraints,
    c.parameter ∉ [Vocab.closed, .hasValue, .oneOf]

theorem Shacl.Constraint.writable_of_isNesting {options : Options} {c : Constraint}
    (hc : c.isNesting) : c.Writable options := by
  cases c with
  | property shapes => exact ⟨by simp [terms], fun _ h => by simp [parameter] at h⟩
  | node shapes => exact ⟨by simp [terms], fun _ h => by simp [parameter] at h⟩
  | qualifiedValueShape shapes min max disjoint =>
    exact ⟨by simp [terms], fun _ h => by simp [parameter] at h⟩
  | _ => cases hc

theorem Shacl.Shape.writable_iff {options : Options} {s : Shape} :
    s.Writable options ↔
      (∀ t ∈ s.descriptions ++ s.messages, t.isTriple = false) ∧
        (∀ target ∈ s.targets, ∀ t ∈ target.terms, t.isTriple = false) ∧
        ∀ c ∈ s.constraints, c.Writable options := by
  constructor
  · rintro ⟨ht, hs⟩
    refine ⟨?_, ?_, ?_⟩
    · intro t h
      apply ht
      exact List.mem_append_left _ (List.mem_append_left _ h)
    · intro target htarget t h
      apply ht
      exact List.mem_append_left _ (List.mem_append_right _ (List.mem_flatMap.2 ⟨_, htarget, h⟩))
    · intro c hc
      refine ⟨?_, fun strict => hs strict c hc⟩
      intro t h
      apply ht
      exact List.mem_append_right _ (List.mem_flatMap.2 ⟨_, hc, h⟩)
  · rintro ⟨hm, htarget, hc⟩
    refine ⟨?_, fun strict c h => (hc c h).supported strict⟩
    intro t h
    -- the terms come from the metadata, from a target or from a constraint
    rcases List.mem_append.1 h with h | h
    · rcases List.mem_append.1 h with h | h
      · exact hm t h
      · obtain ⟨target, htarget', h⟩ := List.mem_flatMap.1 h
        exact htarget target htarget' t h
    · obtain ⟨c, hc', h⟩ := List.mem_flatMap.1 h
      exact (hc c hc').terms t h

/-! ## Writing out the parts of a shape -/

namespace Compile

variable {name : String} {parameter : Vocab}

/-- A rule that is made from the constant of a term exists unless that is a triple term. -/
theorem constant_bind_eq_ok_iff {t : Term} {make : String → Rule} {r : Rule} :
    (do let c ← constant name parameter t; pure (make c)) = .ok r ↔ t.written.map make = [r] := by
  cases t with
  | node n => simp [constant, Term.constant?, Term.written, Except.mapError, bind, Except.bind,
      pure, Except.pure]
  | literal l => simp [constant, Term.constant?, Term.written, Except.mapError, bind, Except.bind,
      pure, Except.pure]
  | triple s p o => simp [constant, Term.constant?, Term.written, Except.mapError, bind,
      Except.bind]

theorem isTriple_eq_false_iff {t : Term} {make : String → Rule} :
    t.isTriple = false ↔ ∃ r, t.written.map make = [r] := by
  cases t with
  | node n => simp [Term.isTriple, Term.written]
  | literal l => simp [Term.isTriple, Term.written]
  | triple s p o => simp [Term.isTriple, Term.written]

/-- A list of values of a parameter, written out. -/
theorem eachRule_eq_ok_iff {predicate : Predicate} {terms : List Term} {rules : List Rule} :
    eachRule name parameter predicate terms = .ok rules ↔
      (∀ t ∈ terms, t.isTriple = false) ∧ rules = facts predicate name terms :=
  Except.mapM_eq_ok_iff_flatMap (fun _ _ => constant_bind_eq_ok_iff) fun _ => isTriple_eq_false_iff

/-- Values that are nodes are always written out. -/
theorem eachRule_nodes {α : Type} (predicate : Predicate) (node : α → Node) (l : List α) :
    eachRule name parameter predicate (l.map fun a => .node (node a)) =
      .ok (l.map fun a => about predicate name [(node a).constant]) := by
  refine eachRule_eq_ok_iff.2 ⟨?_, ?_⟩
  · intro t ht
    obtain ⟨a, -, rfl⟩ := List.mem_map.1 ht
    rfl
  · rw [facts, List.flatMap_map]
    exact List.map_eq_flatMap

/-- **The metadata of a shape, written out.** -/
theorem metadataRules_eq_ok_iff {s : Shape} {rules : List Rule} :
    metadataRules name s = .ok rules ↔
      (∀ t ∈ s.descriptions ++ s.messages, t.isTriple = false) ∧ rules = s.metadata name := by
  rw [metadataRules]
  -- descriptions and messages can fail, what follows them cannot
  simp only [Except.bind_eq_ok_iff, eachRule_eq_ok_iff, List.forall_mem_append]
  constructor
  · rintro ⟨_, ⟨hd, rfl⟩, _, ⟨hm, rfl⟩, h⟩
    refine ⟨⟨hd, hm⟩, (Except.ok.inj h).symm.trans ?_⟩
    rfl
  · rintro ⟨⟨hd, hm⟩, rfl⟩
    exact ⟨_, ⟨hd, rfl⟩, _, ⟨hm, rfl⟩, rfl⟩

/-- **The targets of a shape, written out.** -/
theorem targetRules_eq_ok_iff {s : Shape} {rules : List Rule} :
    targetRules name s = .ok rules ↔
      (∀ target ∈ s.targets, ∀ t ∈ target.terms, t.isTriple = false) ∧
        rules = s.targets.flatMap (Target.statements name) := by
  refine Except.mapM_eq_ok_iff_flatMap ?_ ?_
  · intro target r
    -- the class that a shape itself is has no term that could be refused
    cases target with
    | node t => exact constant_bind_eq_ok_iff
    | ofClass t => exact constant_bind_eq_ok_iff
    | implicitClass iri =>
      simp [targetRule, constant, Term.constant?, Target.statements, Except.mapError, bind,
        Except.bind, pure, Except.pure, selectRule, focusVariable, Node.constant]
    | objectsOf t => exact constant_bind_eq_ok_iff
    | subjectsOf t => exact constant_bind_eq_ok_iff
  · intro target
    cases target with
    | node t => exact List.forall_mem_singleton.trans isTriple_eq_false_iff
    | ofClass t => exact List.forall_mem_singleton.trans isTriple_eq_false_iff
    | implicitClass iri => simp [Target.terms, Target.statements]
    | objectsOf t => exact List.forall_mem_singleton.trans isTriple_eq_false_iff
    | subjectsOf t => exact List.forall_mem_singleton.trans isTriple_eq_false_iff

theorem logicalRules_eq (mark member : Predicate) (shapes : List Node) :
    logicalRules name parameter mark member shapes = .ok (memberFacts mark member name shapes) := by
  have h : eachRule name parameter member (shapes.map .node) = _ := eachRule_nodes member id shapes
  exact Except.bind_eq_ok_iff.2 ⟨_, h, rfl⟩

theorem eachRule_iris (predicate : Predicate) (iris : List String) :
    eachRule name parameter predicate (iris.map .iri) = .ok (iriFacts predicate name iris) :=
  eachRule_nodes predicate Node.iri iris

/-- The facts of a constraint that nests no shape, written out. -/
theorem factsOf_eq_ok_iff {c : Constraint} {rules : List Rule} (hc : c.isNesting = false) :
    factsOf name c = .ok rules ↔
      (∀ t ∈ c.terms, t.isTriple = false) ∧ rules = c.statements name := by
  -- a constraint without terms always has its facts
  have always : ∀ {x : Except Refusal (List Rule)} {l : List Rule}, x = .ok l →
      (x = .ok rules ↔ (∀ t ∈ ([] : List Term), t.isTriple = false) ∧ rules = l) := by
    rintro x l rfl
    rw [Except.ok.injEq]
    exact ⟨fun h => ⟨by simp, h.symm⟩, fun h => h.2.symm⟩
  cases c with
  | not shapes => exact always (eachRule_nodes .notConstr id shapes)
  | and shapes => exact always (logicalRules_eq .andConstr .andShape shapes)
  | or shapes => exact always (logicalRules_eq .orConstr .orShape shapes)
  | xone shapes => exact always (logicalRules_eq .xoneConstr .xoneShape shapes)
  | equals iris => exact always (eachRule_iris .equalsConstr iris)
  | disjoint iris => exact always (eachRule_iris .disjointConstr iris)
  | lessThan iris => exact always (eachRule_iris .lessThanConstr iris)
  | lessThanOrEquals iris => exact always (eachRule_iris .lessThanOrEqConstr iris)
  | datatype iri => exact always (eachRule_iris .datatypeConstr [iri])
  | nodeKind iri => exact always (eachRule_iris .nodeKindConstr [iri])
  | languageIn ts =>
    rw [factsOf, Except.bind_eq_ok_iff]
    simp only [eachRule_eq_ok_iff]
    constructor
    · rintro ⟨_, ⟨hts, rfl⟩, h⟩
      exact ⟨hts, (Except.ok.inj h).symm⟩
    · rintro ⟨hts, rfl⟩
      exact ⟨_, ⟨hts, rfl⟩, rfl⟩
  | property shapes => cases hc
  | node shapes => cases hc
  | qualifiedValueShape shapes min max disjoint => cases hc
  | minLength t => exact eachRule_eq_ok_iff
  | maxLength t => exact eachRule_eq_ok_iff
  | pattern t flags => exact eachRule_eq_ok_iff
  | ofClass ts => exact eachRule_eq_ok_iff
  | minExclusive ts => exact eachRule_eq_ok_iff
  | minInclusive ts => exact eachRule_eq_ok_iff
  | maxExclusive ts => exact eachRule_eq_ok_iff
  | maxInclusive ts => exact eachRule_eq_ok_iff
  | _ => exact always rfl

theorem isUnsupported_iff {c : Constraint} :
    isUnsupported c ↔ c.parameter ∈ [Vocab.closed, .hasValue, .oneOf] := by
  cases c <;> simp [isUnsupported, Constraint.parameter]

/-- The outcome of a constraint that nests no shape; that flags are reported does not change it. -/
theorem result_constraintRules (options : Options) (name : String) (c : Constraint) :
    (constraintRules options name c).result =
      if options.strict ∧ isUnsupported c then .error (.unsupportedConstraint name c.parameter)
      else factsOf name c := by
  -- Of the constraints without a counterpart only a strict run makes an error; reports are dropped.
  by_cases hu : isUnsupported c
  · by_cases hs : options.strict
    · rw [if_pos ⟨hs, hu⟩, constraintRules, if_pos hu, if_pos hs]
      rfl
    · rw [if_neg fun h => hs h.1, constraintRules, if_pos hu, if_neg hs]
      cases c with
      | closed ignored => rfl
      | hasValue ts => rfl
      | oneOf ts => rfl
      | _ => cases hu
  · rw [if_neg fun h => hu h.2, constraintRules, if_neg hu]
    cases c with
    | pattern t flags =>
      cases flags with
      | none => rfl
      | some flags => rfl
    | _ => rfl

/-- **A constraint that nests no shape, written out.** -/
theorem constraintRules_eq_ok_iff {options : Options} {c : Constraint} {rules : List Rule}
    (hc : c.isNesting = false) :
    (constraintRules options name c).result = .ok rules ↔
      c.Writable options ∧ rules = c.statements name := by
  rw [result_constraintRules]
  split
  next h =>
    constructor
    · intro hr
      cases hr
    · rintro ⟨hw, -⟩
      exact absurd (isUnsupported_iff.1 h.2) (hw.supported h.1)
  next h =>
    rw [factsOf_eq_ok_iff hc]
    constructor
    · rintro ⟨ht, hr⟩
      exact ⟨⟨ht, fun hs hu => h ⟨hs, isUnsupported_iff.2 hu⟩⟩, hr⟩
    · rintro ⟨hw, hr⟩
      exact ⟨hw.terms, hr⟩

end Compile

end ShapeRules
