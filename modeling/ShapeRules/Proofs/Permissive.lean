import ShapeRules.Proofs.Fragment

/-!
# Permissive runs

A permissive run leaves out the constraints that a strict one refuses. It does so without a trace in
its outcome: a constraint that is left out takes no name, writes no rule and hides no refusal, at
whatever depth. A permissive run therefore ends as a strict run does on shapes from which these
constraints have been removed.

## Main definitions

* `Shacl.Shape.pruned`, `Shacl.ShapeSource.pruned`: shapes without the constraints that a strict run
  refuses

## Main results

* `Compile.result_fragment_pruned`: one shape with what it nests, permissive and pruned
* `permissive_eq_strict_pruned`: all shapes of a source
-/

namespace ShapeRules

open Rdf Shacl Datalog Compile

/-! ## Pruned shapes -/

namespace Shacl

/-- A shape without its closed, value and enumeration constraints. -/
def Shape.pruned (s : Shape) : Shape :=
  { s with constraints := s.constraints.filter (·.parameter ∉ [Vocab.closed, .hasValue, .oneOf]) }

@[simp]
theorem Shape.preferredName_pruned (s : Shape) : s.pruned.preferredName = s.preferredName := rfl

/-- A source with all its shapes pruned, those to write out and those that references stand for. -/
def ShapeSource.pruned (src : ShapeSource) : ShapeSource where
  shapes := src.shapes.map Shape.pruned
  known := src.known.map Shape.pruned

/-- A reference stands for the same shape, pruned. -/
theorem ShapeSource.resolve_pruned (src : ShapeSource) (r : Node) :
    src.pruned.resolve r = (src.resolve r).map Shape.pruned :=
  List.find?_map

end Shacl

/-! ## The two runs in step -/

namespace Compile

section Lockstep

variable {src : ShapeSource} {library name : String} {around : List Node}

/-- A permissive run passes over a constraint that a strict one refuses. -/
theorem result_constraintStep_skipped {c : Constraint}
    (hc : c.parameter ∈ [Vocab.closed, .hasValue, .oneOf]) (s : Program × Namespace) :
    (constraintStep ⟨library, false⟩ name (follow src ⟨library, false⟩ name around) s c).result =
      .ok s := by
  cases c with
  | closed ignored => rfl
  | hasValue ts => rfl
  | oneOf ts => rfl
  | _ => simp [Constraint.parameter] at hc

/-- References have the same outcome if the shapes that they stand for do. -/
theorem result_follow_pruned {link : Predicate} {r : Node} (s : Program × Namespace)
    (ih : ∀ child, r ∉ around → src.resolve r = some child → ∀ name ns,
      (fragment src ⟨library, false⟩ around name child ns).result =
        (fragment src.pruned ⟨library, true⟩ around name child.pruned ns).result) :
    (follow src ⟨library, false⟩ name around link s r).result =
      (follow src.pruned ⟨library, true⟩ name around link s r).result := by
  rw [follow, follow, ShapeSource.resolve_pruned]
  by_cases hr : r ∈ around
  · rw [if_pos hr, if_pos hr]
  · rw [if_neg hr, if_neg hr]
    cases hs : src.resolve r with
    | none => rfl
    | some child =>
      -- the pruned shape asks for the same name
      simp only [Option.map_some, Shape.preferredName_pruned, Traced.result_bind, ih child hr hs]

/-- A constraint that is not refused has the same outcome in both runs. -/
theorem result_constraintStep_pruned {c : Constraint}
    (hc : c.parameter ∉ [Vocab.closed, .hasValue, .oneOf]) (s : Program × Namespace)
    (ih : ∀ r child, r ∉ around → src.resolve r = some child → ∀ name ns,
      (fragment src ⟨library, false⟩ around name child ns).result =
        (fragment src.pruned ⟨library, true⟩ around name child.pruned ns).result) :
    (constraintStep ⟨library, false⟩ name (follow src ⟨library, false⟩ name around) s c).result =
      (constraintStep ⟨library, true⟩ name
        (follow src.pruned ⟨library, true⟩ name around) s c).result := by
  have hfollow : ∀ (link : Predicate) (references : List Node),
      (references.foldlM (follow src ⟨library, false⟩ name around link) s).result =
        (references.foldlM (follow src.pruned ⟨library, true⟩ name around link) s).result :=
    fun link references => Traced.result_foldlM_congr (fun s r _ => result_follow_pruned s (ih r)) s
  by_cases hn : c.isNesting
  · cases c with
    | property shapes => exact hfollow .propertyConstr shapes
    | node shapes => exact hfollow .nodeConstr shapes
    | qualifiedValueShape shapes min max disjoint =>
      rw [constraintStep, constraintStep, Traced.result_bind, Traced.result_bind, hfollow]
    | _ => cases hn
  · rw [Bool.not_eq_true] at hn
    -- strictness only matters to the constraints that are refused
    have hrules : (constraintRules ⟨library, false⟩ name c).result =
        (constraintRules ⟨library, true⟩ name c).result := by
      rw [result_constraintRules, result_constraintRules, if_neg, if_neg]
      · exact fun h => hc (isUnsupported_iff.1 h.2)
      · exact fun h => hc (isUnsupported_iff.1 h.2)
    rw [constraintStep_leaf hn, constraintStep_leaf hn, Traced.result_bind, Traced.result_bind,
      hrules]

end Lockstep

/-- **One shape with what it nests:** the permissive run ends as the strict one on pruned shapes. -/
theorem result_fragment_pruned (src : ShapeSource) (library : String) (ancestors : List Node)
    (shape : Shape) : ∀ name ns,
      (fragment src ⟨library, false⟩ ancestors name shape ns).result =
        (fragment src.pruned ⟨library, true⟩ ancestors name shape.pruned ns).result := by
  -- Induction along the nesting of the shapes as they are; pruning removes no reference.
  induction ancestors, shape using nesting_induction src with
  | step ancestors shape ih =>
    intro name ns
    have hmetadata : metadataRules name shape.pruned = metadataRules name shape := rfl
    have htargets : targetRules name shape.pruned = targetRules name shape := rfl
    rw [fragment_eq, fragment_eq, hmetadata, htargets]
    simp only [Traced.result_bind, Traced.result_report, Traced.result_ofExcept]
    refine bind_congr fun _ => bind_congr fun metadata => bind_congr fun targets => ?_
    -- the constraints that are refused are passed over, the others go on in step
    rw [Traced.result_foldlM_filter shape.constraints fun s c _ hc =>
      result_constraintStep_skipped (not_not.1 (of_decide_eq_false hc)) s]
    refine Traced.result_foldlM_congr (fun s c hc => ?_) _
    exact result_constraintStep_pruned (of_decide_eq_true (List.mem_filter.1 hc).2) s ih

end Compile

/-! ## All shapes of a source -/

/-- A shape that a strict run can write can be written by a permissive one. -/
theorem Shacl.Shape.Writable.permissive {library : String} {s : Shape}
    (h : s.Writable ⟨library, true⟩) : s.Writable ⟨library, false⟩ :=
  ⟨h.terms, fun hstrict => by cases hstrict⟩

theorem Nests.permissive {src : ShapeSource} {library : String} {around references : List Node}
    {f : Forest Shape} (h : Nests src ⟨library, true⟩ around references f) :
    Nests src ⟨library, false⟩ around references f := by
  induction h with
  | nil => exact .nil
  | cons fresh resolved writable _ _ ih₁ ih₂ =>
    exact .cons fresh resolved writable.permissive ih₁ ih₂

theorem Grows.permissive {src : ShapeSource} {library : String} {shapes : List Shape}
    {f : Forest Shape} (h : Grows src ⟨library, true⟩ shapes f) :
    Grows src ⟨library, false⟩ shapes f := by
  induction h with
  | nil => exact .nil
  | cons writable inner _ ih => exact .cons writable.permissive inner.permissive ih

/-- **A permissive run ends as a strict one on pruned shapes,** with the same program or the same
refusal. In particular it gives the program of a strict run that succeeds. -/
theorem permissive_eq_strict_pruned (src : ShapeSource) (library : String) :
    (compile src ⟨library, false⟩).result = (compile src.pruned ⟨library, true⟩).result ∧
    ∀ program, (compile src ⟨library, true⟩).result = .ok program →
      (compile src ⟨library, false⟩).result = .ok program := by
  constructor
  · rw [compile, compile, Traced.result_bind, Traced.result_bind]
    congr 1
    rw [ShapeSource.pruned, List.foldlM_map]
    refine Traced.result_foldlM_congr (fun s shape _ => ?_) _
    rw [compileNext, compileNext, Traced.result_bind, Traced.result_bind]
    congr 1
    exact result_fragment_pruned src library [] shape _ _
  · intro program h
    obtain ⟨f, hf, rfl⟩ := compile_eq_ok_iff.1 h
    exact compile_eq_ok_iff.2 ⟨f, hf.permissive, rfl⟩

/-- A shape with constraints that a strict run refuses, nested in another one that has some. -/
def enumerated : ShapeSource :=
  let inner : Shape := {
    id := .blank "b"
    isProperty := true
    constraints := [.hasValue [.iri "v"], .minCount 1, .oneOf [.iri "v", .iri "w"]] }
  let outer : Shape := {
    id := .iri "a"
    names := ["outer"]
    constraints := [.closed [], .property [.blank "b"], .closed ["p"], .node [.blank "b"]] }
  { shapes := [outer], known := [inner] }

theorem permissive_eq_strict_pruned_enumerated :
    (compile enumerated ⟨"a.dl", false⟩).result =
      (compile enumerated.pruned ⟨"a.dl", true⟩).result ∧
    enumerated.pruned ≠ enumerated ∧
    ∃ program, program.size = 10 ∧ (compile enumerated.pruned ⟨"a.dl", true⟩).result = .ok program ∧
      (compile enumerated.pruned ⟨"a.dl", false⟩).result = .ok program := by
  refine ⟨(permissive_eq_strict_pruned enumerated "a.dl").1, by decide, ?_⟩
  have h : (compile enumerated.pruned ⟨"a.dl", true⟩).result =
      .ok ((compile enumerated.pruned ⟨"a.dl", true⟩).result.toOption.getD {}) := by decide +kernel
  exact ⟨_, by decide +kernel, h, (permissive_eq_strict_pruned enumerated.pruned "a.dl").2 _ h⟩

end ShapeRules
