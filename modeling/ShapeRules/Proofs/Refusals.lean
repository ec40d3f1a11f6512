import ShapeRules.Proofs.Calls

/-!
# What a run is refused for

A run that ends with a refusal has made a call whose shape is at fault: it has a triple term among
its values, a constraint without a counterpart, a reference back to a shape around it, or a
reference to a shape that is not known. The refusal names the call and what was found in its shape.

## Main definitions

* `Shacl.Shape.values`: the values of a shape that are written as constants, by parameter
* `Compile.Call.AtFault`: what a call is refused for

## Main results

* `Compile.metadataRules_eq_error`, `Compile.targetRules_eq_error`, `Compile.factsOf_eq_error`: the
  parts of a shape are refused for their triple terms only
* `Compile.exists_made_atFault`: a run that is refused has made a call that is at fault
-/

namespace ShapeRules

open Rdf Shacl Datalog Compile

/-! ## The values of a shape -/

/-- The value of a target, with its parameter. -/
def Shacl.Target.values : Target → List (Vocab × Term)
  | .node t => [(.targetNode, t)]
  | .ofClass t => [(.targetClass, t)]
  | .implicitClass _ => []
  | .objectsOf t => [(.targetObjectsOf, t)]
  | .subjectsOf t => [(.targetSubjectsOf, t)]

/-- **The values of a shape that are written as constants and could be triple terms,** each with its
parameter. -/
def Shacl.Shape.values (s : Shape) : List (Vocab × Term) :=
  s.descriptions.map (Vocab.description, ·) ++ s.messages.map (Vocab.message, ·) ++
    s.targets.flatMap Target.values ++
    s.constraints.flatMap fun c => c.terms.map (c.parameter, ·)

namespace Compile

/-! ## Refusals of the parts of a shape -/

section Parts

variable {name : String} {parameter : Vocab} {e : Refusal}

/-- A value that is refused is a triple term. -/
theorem constant_eq_error {t : Term} (h : constant name parameter t = .error e) :
    t.isTriple ∧ e = .unsupportedTerm name parameter t := by
  cases t with
  | node n => cases h
  | literal l => cases h
  | triple s p o =>
    cases h
    exact ⟨rfl, rfl⟩

theorem eachRule_eq_error {predicate : Predicate} {terms : List Term}
    (h : eachRule name parameter predicate terms = .error e) :
    ∃ t ∈ terms, t.isTriple ∧ e = .unsupportedTerm name parameter t := by
  obtain ⟨t, ht, h⟩ := Except.exists_part_of_mapM_eq_error h
  rcases Except.bind_eq_error_iff.1 h with h | ⟨c, -, h⟩
  · exact ⟨t, ht, constant_eq_error h⟩
  · cases h

/-- The metadata of a shape is refused for a triple term among its values. -/
theorem metadataRules_eq_error {s : Shape} (h : metadataRules name s = .error e) :
    ∃ v t, (v, t) ∈ s.values ∧ t.isTriple ∧ e = .unsupportedTerm name v t := by
  rw [metadataRules, Except.bind_eq_error_iff] at h
  rcases h with h | ⟨_, -, h⟩
  · obtain ⟨t, ht, htriple, rfl⟩ := eachRule_eq_error h
    refine ⟨.description, t, ?_, htriple, rfl⟩
    simp [Shape.values, ht]
  · rcases Except.bind_eq_error_iff.1 h with h | ⟨_, -, h⟩
    · obtain ⟨t, ht, htriple, rfl⟩ := eachRule_eq_error h
      refine ⟨.message, t, ?_, htriple, rfl⟩
      simp [Shape.values, ht]
    · cases h

theorem targetRule_eq_error {target : Target} (h : targetRule name target = .error e) :
    ∃ v t, (v, t) ∈ target.values ∧ t.isTriple ∧ e = .unsupportedTerm name v t := by
  -- the class that a shape itself is has a constant, every other target has one value
  cases target with
  | implicitClass iri => cases h
  | _ =>
    rcases Except.bind_eq_error_iff.1 h with h | ⟨c, -, h⟩
    · obtain ⟨htriple, rfl⟩ := constant_eq_error h
      exact ⟨_, _, List.mem_singleton_self _, htriple, rfl⟩
    · cases h

/-- The targets of a shape are refused for a triple term among its values. -/
theorem targetRules_eq_error {s : Shape} (h : targetRules name s = .error e) :
    ∃ v t, (v, t) ∈ s.values ∧ t.isTriple ∧ e = .unsupportedTerm name v t := by
  obtain ⟨target, htarget, h⟩ := Except.exists_part_of_mapM_eq_error h
  obtain ⟨v, t, ht, htriple, rfl⟩ := targetRule_eq_error h
  have hvalue : (v, t) ∈ s.targets.flatMap Target.values :=
    List.mem_flatMap.2 ⟨target, htarget, ht⟩
  exact ⟨v, t, List.mem_append_left _ (List.mem_append_right _ hvalue), htriple, rfl⟩

/-- The facts of a constraint that nests no shape are refused for a triple term among its terms. -/
theorem factsOf_eq_error {c : Constraint} (hc : c.isNesting = false)
    (h : factsOf name c = .error e) :
    ∃ t ∈ c.terms, t.isTriple ∧ e = .unsupportedTerm name c.parameter t := by
  -- constraints of nodes, IRIs and counts always have their facts
  have never : ∀ {x : Except Refusal (List Rule)} {l : List Rule}, x = .ok l → x = .error e →
      ∃ t ∈ c.terms, t.isTriple ∧ e = .unsupportedTerm name c.parameter t := by
    intro x l hok herror
    cases hok.symm.trans herror
  cases c with
  | not shapes => exact never (eachRule_nodes .notConstr id shapes) h
  | and shapes => exact never (logicalRules_eq .andConstr .andShape shapes) h
  | or shapes => exact never (logicalRules_eq .orConstr .orShape shapes) h
  | xone shapes => exact never (logicalRules_eq .xoneConstr .xoneShape shapes) h
  | equals iris => exact never (eachRule_iris .equalsConstr iris) h
  | disjoint iris => exact never (eachRule_iris .disjointConstr iris) h
  | lessThan iris => exact never (eachRule_iris .lessThanConstr iris) h
  | lessThanOrEquals iris => exact never (eachRule_iris .lessThanOrEqConstr iris) h
  | datatype iri => exact never (eachRule_iris .datatypeConstr [iri]) h
  | nodeKind iri => exact never (eachRule_iris .nodeKindConstr [iri]) h
  | languageIn ts =>
    rcases Except.bind_eq_error_iff.1 h with h | ⟨_, -, h⟩
    · exact eachRule_eq_error h
    · cases h
  | property shapes => cases hc
  | node shapes => cases hc
  | qualifiedValueShape shapes min max disjoint => cases hc
  | minLength t => exact eachRule_eq_error h
  | maxLength t => exact eachRule_eq_error h
  | pattern t flags => exact eachRule_eq_error h
  | ofClass ts => exact eachRule_eq_error h
  | minExclusive ts => exact eachRule_eq_error h
  | minInclusive ts => exact eachRule_eq_error h
  | maxExclusive ts => exact eachRule_eq_error h
  | maxInclusive ts => exact eachRule_eq_error h
  | _ => exact never rfl h

end Parts

/-! ## Calls at fault -/

/-- **What a call is refused for:** a triple term, a constraint without a counterpart, a reference
to a shape around it, or one to a shape that is not known. -/
inductive Call.AtFault (src : ShapeSource) (options : Options) (c : Call) : Refusal → Prop
  | term {v : Vocab} {t : Term} (value : (v, t) ∈ c.shape.values) (triple : t.isTriple) :
      AtFault src options c (.unsupportedTerm c.name v t)
  | constraint {k : Constraint} (strict : options.strict) (mem : k ∈ c.shape.constraints)
      (unsupported : isUnsupported k) :
      AtFault src options c (.unsupportedConstraint c.name k.parameter)
  | cycle {r : Node} (mem : r ∈ c.shape.references) (around : r ∈ c.around) :
      AtFault src options c (.cyclicReference c.name r)
  | unknown {r : Node} (mem : r ∈ c.shape.references) (unresolved : src.resolve r = none) :
      AtFault src options c (.unknownShape c.name r)

variable {src : ShapeSource} {options : Options} {e : Refusal}

/-- What a call comes to is one of its references. -/
theorem Call.Reaches.mem_references {c : Call} {state : Program × Namespace} {r : Node}
    (h : c.Reaches src options state r) : r ∈ c.shape.references := by
  obtain @⟨before, after, k, references, others, _, _, _, _, _, hcs, hk, -, -, -, -⟩ := h
  rw [Shape.references, hcs, List.flatMap_append, List.flatMap_cons, hk]
  simp

theorem Made.shape_mem {c : Call} (h : Made src options c) :
    c.shape ∈ src.shapes ∨ c.shape ∈ src.known := by
  cases h with
  | top shapes _ =>
    rw [shapes]
    exact .inl (List.mem_append_right _ List.mem_cons_self)
  | nested _ _ _ resolved => exact .inr (ShapeSource.mem_of_resolve resolved)

/-- A constraint that is refused has a reference that is refused when the ones before it have been
followed, or nests no shape and is refused itself. -/
theorem constraintStep_eq_error {name : String} {around : List Node} {s : Program × Namespace}
    {k : Constraint}
    (h : (constraintStep options name (follow src options name around) s k).result = .error e) :
    (∃ references r others u, k.references = references ++ r :: others ∧
      (references.foldlM (follow src options name around k.link) s).result = .ok u ∧
      (follow src options name around k.link u r).result = .error e) ∨
    (k.isNesting = false ∧ (constraintRules options name k).result = .error e) := by
  by_cases hk : k.isNesting
  · left
    cases k with
    | property shapes => exact Traced.exists_step_of_foldlM_eq_error h
    | node shapes => exact Traced.exists_step_of_foldlM_eq_error h
    | qualifiedValueShape shapes min max disjoint =>
      -- nothing is refused after the references
      rw [constraintStep, Traced.result_bind, Except.bind_eq_error_iff] at h
      rcases h with h | ⟨u, -, h⟩
      · exact Traced.exists_step_of_foldlM_eq_error h
      · cases h
    | _ => cases hk
  · right
    rw [Bool.not_eq_true] at hk
    rw [constraintStep_leaf hk, Traced.result_bind, Except.bind_eq_error_iff] at h
    rcases h with h | ⟨rules, -, h⟩
    · exact ⟨hk, h⟩
    · cases h

/-- A constraint that nests no shape puts the call that has it at fault. -/
theorem Call.atFault_of_constraintRules {c : Call} {k : Constraint} (hk : k ∈ c.shape.constraints)
    (hleaf : k.isNesting = false) (h : (constraintRules options c.name k).result = .error e) :
    c.AtFault src options e := by
  rw [result_constraintRules] at h
  split at h
  next hu =>
    cases h
    exact .constraint hu.1 hk hu.2
  next =>
    obtain ⟨t, ht, htriple, rfl⟩ := factsOf_eq_error hleaf h
    refine .term (List.mem_append_right _ ?_) htriple
    exact List.mem_flatMap.2 ⟨k, hk, List.mem_map_of_mem ht⟩

/-- A call that is refused is at fault, or a call that it makes is refused. What holds of a call and
is kept by the calls that it makes holds of the one at fault. -/
theorem exists_atFault_of_run {P : Call → Prop}
    (hnested : ∀ {c state r child}, P c → c.Reaches src options state r → r ∉ c.around →
      src.resolve r = some child → P (.fresh c.around child state.2))
    (ancestors : List Node) (shape : Shape) :
    ∀ name ns, P ⟨ancestors, name, shape, ns⟩ →
      (fragment src options ancestors name shape ns).result = .error e →
      ∃ c, P c ∧ c.AtFault src options e := by
  -- Induction along the nesting: a refusal comes from the shape itself or from one that it nests.
  induction ancestors, shape using nesting_induction src with
  | step ancestors shape ih =>
    intro name ns hcall h
    have hself : ∀ {v t}, (v, t) ∈ shape.values → t.isTriple → e = .unsupportedTerm name v t →
        ∃ c, P c ∧ c.AtFault src options e := by
      rintro v t hvalue htriple rfl
      exact ⟨_, hcall, .term hvalue htriple⟩
    rw [fragment_eq, Traced.result_bind, Traced.result_report, Except.bind_eq_error_iff] at h
    rcases h with h | ⟨-, -, h⟩
    · cases h
    rw [Traced.result_bind, Except.bind_eq_error_iff] at h
    rcases h with h | ⟨metadata, hm, h⟩
    · obtain ⟨v, t, hvalue, htriple, he⟩ := metadataRules_eq_error h
      exact hself hvalue htriple he
    rw [Traced.result_bind, Except.bind_eq_error_iff] at h
    rcases h with h | ⟨targets, ht, h⟩
    · obtain ⟨v, t, hvalue, htriple, he⟩ := targetRules_eq_error h
      exact hself hvalue htriple he
    -- metadata and targets are written, so one of the constraints is refused
    obtain ⟨before, k, after, middle, hcs, hbefore, h⟩ := Traced.exists_step_of_foldlM_eq_error h
    rcases constraintStep_eq_error h with ⟨references, r, others, state, hk, hrefs, h⟩ | ⟨hk, h⟩
    · have hreaches : Call.Reaches src options ⟨ancestors, name, shape, ns⟩ state r :=
        .intro hcs hk hm ht hbefore hrefs
      rw [follow] at h
      by_cases hr : r ∈ shape.id :: ancestors
      · rw [if_pos hr] at h
        cases h
        exact ⟨_, hcall, .cycle hreaches.mem_references hr⟩
      · rw [if_neg hr] at h
        cases hs : src.resolve r with
        | none =>
          rw [hs] at h
          cases h
          exact ⟨_, hcall, .unknown hreaches.mem_references hs⟩
        | some child =>
          rw [hs, Traced.result_bind, Except.bind_eq_error_iff] at h
          rcases h with h | ⟨u, -, h⟩
          · exact ih r child hr hs _ _ (hnested hcall hreaches hr hs) h
          · cases h
    · have hmem : k ∈ shape.constraints := by
        rw [hcs]
        exact List.mem_append_right _ List.mem_cons_self
      exact ⟨_, hcall, Call.atFault_of_constraintRules hmem hk h⟩

/-- **A run that is refused has made a call that is at fault.** -/
theorem exists_made_atFault (h : (compile src options).result = .error e) :
    ∃ c, Made src options c ∧ c.AtFault src options e := by
  rw [compile, Traced.result_bind, Except.bind_eq_error_iff] at h
  rcases h with h | ⟨state, -, h⟩
  · obtain ⟨before, shape, after, state, hshapes, hbefore, h⟩ :=
      Traced.exists_step_of_foldlM_eq_error h
    rw [compileNext, Traced.result_bind, Except.bind_eq_error_iff] at h
    rcases h with h | ⟨u, -, h⟩
    · exact exists_atFault_of_run .nested [] shape _ _ (.top hshapes hbefore) h
    · cases h
  · cases h

end Compile

end ShapeRules
