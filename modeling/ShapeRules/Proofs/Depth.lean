import Mathlib.Data.List.Nodup
import Mathlib.Data.List.Perm.Subperm
import ShapeRules.Proofs.Calls

/-!
# How deep a run nests

References lead from shape to shape through a look-up, so nothing in a shape bounds how deep it
nests. What bounds it is that a reference to a shape that is still being written out is refused: the
identifiers around a call are all different, and each of them but the outermost one was looked up.
With `m` identifiers to be found there are never more than `m + 1` calls inside each other, and a
run that gives up at any depth from there on never gives up, cyclic shapes included.

## Main definitions

* `Compile.Enclosing`: what the identifiers around a call are like
* `Compile.Call.Makes`: the calls that a call makes on its way
* `Compile.level`: one level of writing out, given how nested shapes are written out
* `Compile.fragmentWithin`: writing out with a bound on the depth

## Main results

* `Compile.Call.Makes.enclosing`: what one call keeps, every call keeps
* `Compile.fragmentWithin_eq`: a bound that is large enough is never met
* `nesting_bounded`: how deep a run nests
-/

namespace ShapeRules

open Rdf Shacl Datalog Compile

namespace Compile

variable {src : ShapeSource} {options : Options} {ids : List Node}

/-! ## The identifiers around a call -/

/-- **What the identifiers around a call are like,** innermost first: they are different, and all
but the outermost one are known. -/
structure Enclosing (src : ShapeSource) (around : List Node) : Prop where
  nodup : around.Nodup
  known : ∀ r ∈ around.dropLast, ∃ s, src.resolve r = some s

namespace Enclosing

variable {around : List Node}

theorem singleton (src : ShapeSource) (id : Node) : Enclosing src [id] where
  nodup := List.nodup_singleton id
  known := by simp

/-- A reference that is not refused keeps them so. -/
theorem cons (h : Enclosing src around) (hne : around ≠ []) {r : Node} {child : Shape}
    (hr : r ∉ around) (hs : src.resolve r = some child) : Enclosing src (child.id :: around) := by
  have hid : child.id = r := ShapeSource.id_of_resolve hs
  rw [hid]
  refine ⟨List.nodup_cons.2 ⟨hr, h.nodup⟩, ?_⟩
  rw [List.dropLast_cons_of_ne_nil hne]
  exact List.forall_mem_cons.2 ⟨⟨child, hs⟩, h.known⟩

/-- There is at most one more of them than there are known ones. -/
theorem length_le (h : Enclosing src around) (hids : ∀ r s, src.resolve r = some s → r ∈ ids) :
    around.length ≤ ids.length + 1 := by
  have hsub : around.dropLast ⊆ ids := by
    intro r hr
    obtain ⟨s, hs⟩ := h.known r hr
    exact hids r s hs
  have hnodup : around.dropLast.Nodup := h.nodup.sublist (List.dropLast_sublist around)
  have hle : around.dropLast.length ≤ ids.length := (List.subperm_of_subset hnodup hsub).length_le
  rw [List.length_dropLast] at hle
  omega

end Enclosing

/-! ## The calls that a call makes -/

/-- **The calls that a call makes on its way,** itself included. -/
inductive Call.Makes (src : ShapeSource) (options : Options) (root : Call) : Call → Prop
  | self : Makes src options root root
  | nested {c : Call} {state : Program × Namespace} {r : Node} {child : Shape}
      (outer : Makes src options root c) (reaches : c.Reaches src options state r)
      (allowed : r ∉ c.around) (resolved : src.resolve r = some child) :
      Makes src options root (.fresh c.around child state.2)

/-- Each call of a run is made by one at the top level. -/
theorem Made.exists_root {c : Call} (h : Made src options c) :
    ∃ root : Call, root.ancestors = [] ∧ root.Makes src options c := by
  induction h with
  | top shapes before_ok => exact ⟨_, rfl, .self⟩
  | nested _ reaches allowed resolved ih =>
    obtain ⟨root, hroot, hmakes⟩ := ih
    exact ⟨root, hroot, .nested hmakes reaches allowed resolved⟩

/-- **Around every call that is made from the top level** the identifiers are different, and all but
the outermost one are known. -/
theorem Call.Makes.enclosing {root c : Call} (hroot : root.ancestors = [])
    (h : root.Makes src options c) : Enclosing src c.around := by
  induction h with
  | self =>
    rw [Call.around, hroot]
    exact .singleton src root.shape.id
  | nested _ _ allowed resolved ih => exact ih.cons (List.cons_ne_nil _ _) allowed resolved

/-! ## Writing out with a bound on the depth -/

/-- A way to write out a shape: with the identifiers of the shapes around it, its name, and the
names that are taken. -/
abbrev Writer := List Node → String → Shape → Namespace → Traced Refusal (Program × Namespace)

/-- Follows a reference of a named shape, given how the shape that it stands for is written out. -/
def followWith (src : ShapeSource) (inner : Writer) (name : String) (around : List Node)
    (link : Predicate) (state : Program × Namespace) (r : Node) :
    Traced Refusal (Program × Namespace) :=
  if r ∈ around then .refuse (.cyclicReference name r)
  else
    match src.resolve r with
    | none => .refuse (.unknownShape name r)
    | some child => do
      let (childName, ns) := state.2.allocate child.preferredName
      let (fragment, ns) ← inner around childName child ns
      pure ((state.1.extend fragment).push (about link name [childName]), ns)

/-- **One level of writing out:** the program of a named shape, given how the shapes that it nests
are written out. -/
def level (src : ShapeSource) (options : Options) (inner : Writer) : Writer :=
  fun ancestors name shape ns => do
    .report (.shapeStarted shape.id name)
    let metadata ← .ofExcept (metadataRules name shape)
    let targets ← .ofExcept (targetRules name shape)
    shape.constraints.foldlM
      (constraintStep options name (followWith src inner name (shape.id :: ancestors)))
      (.ofRules options.library (metadata ++ targets), ns)

/-- **Writing out with a bound on the depth.** A call that would be nested deeper than the bound is
not made, and `tooDeep` is done in its place. -/
def fragmentWithin (src : ShapeSource) (options : Options) (tooDeep : Writer) : Nat → Writer
  | 0 => tooDeep
  | depth + 1 => level src options (fragmentWithin src options tooDeep depth)

/-- One shape under a given name, where `writer` writes it out. -/
def compileShapeWith (writer : Writer) (name : String) (shape : Shape) (ns : Namespace) :
    Traced Refusal (Program × Namespace) := do
  if !isIdentifier name then .refuse (.malformedName name)
  writer [] name shape ns

/-- All shapes of a source, where `writer` writes out each of them. -/
def compileWith (src : ShapeSource) (options : Options) (writer : Writer) :
    Traced Refusal Program := do
  let (program, _) ← src.shapes.foldlM (fun (state : Program × Namespace) shape => do
    let (name, ns) := state.2.allocate shape.preferredName
    let (inner, ns) ← writer [] name shape ns
    pure (state.1.extend inner, ns)) ({ library := options.library }, .initial)
  .report (.finished program.size)
  pure program

/-- Without a bound, each level is written out like the one around it. -/
theorem fragment_eq_level (ancestors : List Node) (name : String) (shape : Shape)
    (ns : Namespace) : fragment src options ancestors name shape ns =
      level src options (fragment src options) ancestors name shape ns :=
  fragment_eq ancestors name shape ns

/-- **A bound that is large enough is never met:** with the calls that are under way it comes to
more than can be nested. -/
theorem fragmentWithin_eq (tooDeep : Writer) (hids : ∀ r s, src.resolve r = some s → r ∈ ids)
    {depth : Nat} {ancestors : List Node} {shape : Shape}
    (h : Enclosing src (shape.id :: ancestors))
    (hdepth : ids.length + 1 < depth + (shape.id :: ancestors).length) (name : String)
    (ns : Namespace) : fragmentWithin src options tooDeep depth ancestors name shape ns =
      fragment src options ancestors name shape ns := by
  -- Each level takes one from the bound and adds one to the calls under way.
  induction depth generalizing ancestors shape name ns with
  | zero =>
    have hle := h.length_le hids
    omega
  | succ depth ih =>
    have hfollow : followWith src (fragmentWithin src options tooDeep depth) name
        (shape.id :: ancestors) =
        followWith src (fragment src options) name (shape.id :: ancestors) := by
      funext link state r
      by_cases hr : r ∈ shape.id :: ancestors
      · rw [followWith, followWith, if_pos hr, if_pos hr]
      · rw [followWith, followWith, if_neg hr, if_neg hr]
        cases hs : src.resolve r with
        | none => rfl
        | some child =>
          have hchild := h.cons (List.cons_ne_nil _ _) hr hs
          have hless : ids.length + 1 < depth + (child.id :: shape.id :: ancestors).length := by
            rw [List.length_cons]
            omega
          simp only [ih hchild hless]
    rw [fragment_eq_level, fragmentWithin, level, level, hfollow]

end Compile

/-- **How deep a run nests.** Suppose that all identifiers that can be found are among `m` ones. In
every call that is made for a source or for a single shape, the identifiers around the call are
different and all but the outermost one can be found, so at most `m + 1` calls are inside each
other. A run that does anything else at a depth of `m + 1` or more ends as one without a bound,
with the same events. -/
theorem nesting_bounded (src : ShapeSource) (options : Options) {ids : List Node}
    (hids : ∀ r s, src.resolve r = some s → r ∈ ids) :
    (∀ c, Made src options c →
      Enclosing src c.around ∧ c.around.length ≤ ids.length + 1) ∧
    (∀ name shape ns c, (Call.mk [] name shape ns).Makes src options c →
      Enclosing src c.around ∧ c.around.length ≤ ids.length + 1) ∧
    ∀ tooDeep depth, ids.length + 1 ≤ depth →
      compileWith src options (fragmentWithin src options tooDeep depth) =
        compile src options ∧
      ∀ name shape ns, compileShapeWith (fragmentWithin src options tooDeep depth) name shape ns =
        compileShape src options name shape ns := by
  refine ⟨fun c hc => ?_, fun name shape ns c hc => ?_, fun tooDeep depth hdepth => ?_⟩
  · obtain ⟨root, hroot, hmakes⟩ := hc.exists_root
    have henclosing := hmakes.enclosing hroot
    exact ⟨henclosing, henclosing.length_le hids⟩
  · have henclosing := hc.enclosing rfl
    exact ⟨henclosing, henclosing.length_le hids⟩
  · -- at the top level one call is under way
    have htop : ∀ name shape ns, fragmentWithin src options tooDeep depth [] name shape ns =
        fragment src options [] name shape ns := fun name shape ns =>
      fragmentWithin_eq tooDeep hids (.singleton src shape.id) (Nat.lt_succ_of_le hdepth) name ns
    refine ⟨?_, fun name shape ns => ?_⟩
    · simp only [compileWith, htop]
      rfl
    · rw [compileShapeWith, htop]
      rfl

/-- A shape that is not known itself, and a chain of three shapes below it whose last one refers
back to the first. -/
def deepCycle : ShapeSource :=
  let inner : Shape := { id := .blank "c", constraints := [.node [.iri "a"]] }
  let middle : Shape := { id := .blank "b", constraints := [.property [.blank "c"]] }
  let outer : Shape := { id := .iri "a", constraints := [.property [.blank "b"]] }
  { shapes := [{ id := .iri "w", constraints := [.node [.iri "a"]] }]
    known := [outer, middle, inner] }

/-- The bound is sharp: with one level less the run ends otherwise. -/
theorem nesting_bounded_deepCycle :
    (∀ r s, deepCycle.resolve r = some s → r ∈ [.iri "a", .blank "b", .blank "c"]) ∧
    (compile deepCycle {}).result = .error (.cyclicReference "shape2" (.iri "a")) ∧
    (compileWith deepCycle {} (fragmentWithin deepCycle {}
      (fun _ name _ _ => .refuse (.malformedName name)) 3)).result =
        .error (.malformedName "shape2") ∧
    (∀ tooDeep, compileWith deepCycle {} (fragmentWithin deepCycle {} tooDeep 4) =
      compile deepCycle {}) ∧
    ∀ c, Made deepCycle {} c → Enclosing deepCycle c.around ∧ c.around.length ≤ 4 := by
  have hids : ∀ r s, deepCycle.resolve r = some s → r ∈ [.iri "a", .blank "b", .blank "c"] := by
    intro r s hs
    have hmem : s.id ∈ deepCycle.known.map Shape.id :=
      List.mem_map_of_mem (ShapeSource.mem_of_resolve hs)
    rw [ShapeSource.id_of_resolve hs] at hmem
    exact hmem
  obtain ⟨hmade, -, hwithin⟩ := nesting_bounded deepCycle {} hids
  exact ⟨hids, by decide +kernel, by decide +kernel,
    fun tooDeep => (hwithin tooDeep 4 (Nat.le_refl 4)).1, hmade⟩

end ShapeRules
