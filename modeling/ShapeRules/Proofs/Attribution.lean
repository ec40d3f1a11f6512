import Mathlib.Data.List.Chain
import ShapeRules.Proofs.FreshNames
import ShapeRules.Proofs.Refusals

/-!
# Where a refusal comes from

A refusal names one shape and says one thing of it. The shape stands at the end of a walk along
references that starts with a shape to write out and meets no identifier twice, what the refusal
says of it is true, and its name is the first candidate that was free when the walk came to it.

## Main definitions

* `IsWalk src walk last`: a walk along references
* `Compile.Refusal.HoldsOf`: what a refusal says of the end of a walk
* `Compile.Refusal.shape?`: the name in a refusal

## Main results

* `Compile.Made.exists_walk`: a call is made at the end of a walk
* `Compile.Made.exists_fresh`: the name of a call is allocated after others
* `refusal_attributed`: every refusal holds of the shape that it names
-/

namespace ShapeRules

open Rdf Shacl Datalog Compile

/-! ## Walks along references -/

/-- **A walk along references:** it starts with a shape to write out, goes on to what references
stand for, and meets no identifier twice. -/
structure IsWalk (src : ShapeSource) (walk : List Shape) (last : Shape) : Prop where
  starts : ∃ first ∈ src.shapes, walk.head? = some first
  ends : walk.getLast? = some last
  refers : walk.IsChain fun a b => ∃ r ∈ a.references, src.resolve r = some b
  distinct : (walk.map Shape.id).Nodup

namespace IsWalk

variable {src : ShapeSource} {walk : List Shape} {last : Shape}

theorem singleton (h : last ∈ src.shapes) : IsWalk src [last] last where
  starts := ⟨last, h, rfl⟩
  ends := rfl
  refers := .singleton last
  distinct := by simp

/-- A walk goes on with a reference of its end to a shape that it has not met. -/
theorem concat (h : IsWalk src walk last) {r : Node} {next : Shape} (hr : r ∈ last.references)
    (hs : src.resolve r = some next) (hnew : r ∉ walk.map Shape.id) :
    IsWalk src (walk ++ [next]) next where
  starts := by
    obtain ⟨first, hfirst, hhead⟩ := h.starts
    exact ⟨first, hfirst, by simp [List.head?_append, hhead]⟩
  ends := List.getLast?_concat
  refers := by
    refine List.isChain_append.2 ⟨h.refers, .singleton next, ?_⟩
    intro a ha b hb
    obtain rfl : last = a := Option.some.inj (h.ends.symm.trans ha)
    obtain rfl : next = b := Option.some.inj hb
    exact ⟨r, hr, hs⟩
  distinct := by
    have hid : next.id = r := ShapeSource.id_of_resolve hs
    rw [List.map_append, List.map_singleton, hid]
    refine List.nodup_append.2 ⟨h.distinct, by simp, ?_⟩
    rintro id hmet id' hid' rfl
    exact hnew (List.mem_singleton.1 hid' ▸ hmet)

end IsWalk

namespace Compile

/-! ## What a refusal says -/

/-- The name of the shape that a refusal is about. -/
def Refusal.shape? : Refusal → Option String
  | .unsupportedTerm shape _ _ => some shape
  | .unsupportedConstraint shape _ => some shape
  | .cyclicReference shape _ => some shape
  | .unknownShape shape _ => some shape
  | .malformedName _ => none

/-- **What a refusal says of the shape at the end of a walk.** A malformed name says nothing of a
shape. -/
def Refusal.HoldsOf (src : ShapeSource) (options : Options) (walk : List Shape) (last : Shape) :
    Refusal → Prop
  | .unsupportedTerm _ parameter term => term.isTriple ∧ (parameter, term) ∈ last.values
  | .unsupportedConstraint _ parameter =>
    options.strict ∧ parameter ∈ [Vocab.closed, .hasValue, .oneOf] ∧
      ∃ c ∈ last.constraints, c.parameter = parameter
  | .cyclicReference _ reference => reference ∈ last.references ∧ ∃ s ∈ walk, s.id = reference
  | .unknownShape _ reference => reference ∈ last.references ∧ src.resolve reference = none
  | .malformedName _ => False

/-! ## The calls of a run -/

variable {src : ShapeSource} {options : Options} {c : Call}

/-- **A call is made at the end of a walk** whose identifiers are those around it. -/
theorem Made.exists_walk (h : Made src options c) :
    ∃ walk, IsWalk src walk c.shape ∧ ∀ r, r ∈ c.around ↔ r ∈ walk.map Shape.id := by
  induction h with
  | @top before after shape state shapes _ =>
    have hmem : shape ∈ src.shapes := by
      rw [shapes]
      exact List.mem_append_right _ List.mem_cons_self
    refine ⟨[shape], .singleton hmem, fun r => ?_⟩
    simp [Call.fresh, Call.around]
  | @nested c state r child _ reaches allowed resolved ih =>
    obtain ⟨walk, hwalk, haround⟩ := ih
    have hnew : r ∉ walk.map Shape.id := mt (haround r).2 allowed
    refine ⟨walk ++ [child], hwalk.concat reaches.mem_references resolved hnew, fun r' => ?_⟩
    rw [List.map_append, List.mem_append, ← haround r', List.map_singleton, List.mem_singleton]
    exact List.mem_cons.trans or_comm

/-- **The name of a call is allocated after others,** starting with the names of the library. -/
theorem Made.exists_fresh (h : Made src options c) :
    ∃ earlier, c = .fresh c.ancestors c.shape (Namespace.initial.allocateAll earlier).2 := by
  induction h with
  | @top before after shape state _ hbefore =>
    obtain ⟨f, -, rfl⟩ := foldlM_compileNext_eq_ok_iff.1 hbefore
    refine ⟨f.preorder.map Shape.preferredName, ?_⟩
    rw [Forest.allocateAll_preorder]
    rfl
  | @nested c state r child _ reaches _ _ ih =>
    obtain ⟨earlier, hc⟩ := ih
    obtain ⟨f, g, -, -, -, hns⟩ := reaches.eq_ofRules
    -- the name of the outer call comes next, and then those of what it has nested so far
    refine ⟨earlier ++ c.shape.preferredName :: (f ++ g).preorder.map Shape.preferredName, ?_⟩
    have hnames : c.ns = ((Namespace.initial.allocateAll earlier).2.allocate
        c.shape.preferredName).2 := congrArg Call.ns hc
    rw [Namespace.allocateAll_append, Namespace.allocateAll_cons, ← hnames,
      Forest.allocateAll_preorder, hns]
    rfl

/-- What a call is refused for holds of the walk to it, under its name. -/
theorem Call.AtFault.holdsOf {e : Refusal} {walk : List Shape} (h : c.AtFault src options e)
    (haround : ∀ r, r ∈ c.around ↔ r ∈ walk.map Shape.id) :
    e.shape? = some c.name ∧ e.HoldsOf src options walk c.shape := by
  cases h with
  | term value triple => exact ⟨rfl, triple, value⟩
  | constraint strict mem unsupported =>
    exact ⟨rfl, strict, isUnsupported_iff.1 unsupported, _, mem, rfl⟩
  | cycle mem around => exact ⟨rfl, mem, List.mem_map.1 ((haround _).1 around)⟩
  | unknown mem unresolved => exact ⟨rfl, mem, unresolved⟩

end Compile

/-- **Every refusal holds of the shape that it names.** That shape is the end of a walk along
references, and its name is the first candidate, made from what it asks for, that was free after
some other names had been allocated. -/
theorem refusal_attributed {src : ShapeSource} {options : Options} {e : Refusal}
    (h : (compile src options).result = .error e) :
    ∃ walk last, IsWalk src walk last ∧ e.HoldsOf src options walk last ∧
      ∃ earlier n,
        let taken := (Namespace.initial.allocateAll earlier).2
        let name := candidate (sanitize (baseName last.preferredName))
        e.shape? = some (name n) ∧ name n ∉ taken ∧ ∀ k < n, name k ∈ taken := by
  obtain ⟨c, hmade, hfault⟩ := exists_made_atFault h
  obtain ⟨walk, hwalk, haround⟩ := hmade.exists_walk
  obtain ⟨hshape, hholds⟩ := hfault.holdsOf haround
  obtain ⟨earlier, hc⟩ := hmade.exists_fresh
  obtain ⟨n, -, hn, hfree, htaken⟩ := Namespace.firstFreeFrom_spec
    (sanitize (baseName c.shape.preferredName)) 0 (Namespace.initial.allocateAll earlier).2.names
  have hname : c.name = candidate (sanitize (baseName c.shape.preferredName)) n :=
    (congrArg Call.name hc).trans hn
  refine ⟨walk, c.shape, hwalk, hholds, earlier, n, ?_, hfree, fun k => htaken k (Nat.zero_le k)⟩
  rw [hshape, hname]

/-- A chain of three shapes whose last one refers back to the first. The name that it asks for is
one of the library. -/
def backReference : ShapeSource :=
  let inner : Shape := {
    id := .blank "c"
    names := ["target"]
    constraints := [.maxCount 1, .qualifiedValueShape [.iri "a"] none none false] }
  let middle : Shape := { id := .blank "b", constraints := [.property [.blank "c"]] }
  let outer : Shape := { id := .iri "a", names := ["a"], constraints := [.node [.blank "b"]] }
  { shapes := [{ id := .iri "z" }, outer], known := [outer, middle, inner] }

theorem refusal_attributed_backReference :
    (compile backReference {}).result = .error (.cyclicReference "target0" (.iri "a")) ∧
    ∃ walk last, IsWalk backReference walk last ∧ .iri "a" ∈ last.references ∧
      (∃ s ∈ walk, s.id = .iri "a") ∧
      ∃ n, some "target0" = some (candidate (sanitize (baseName last.preferredName)) n) := by
  have h : (compile backReference {}).result = .error (.cyclicReference "target0" (.iri "a")) := by
    decide +kernel
  obtain ⟨walk, last, hwalk, ⟨hreference, hmet⟩, _, n, hname, -⟩ := refusal_attributed h
  exact ⟨h, walk, last, hwalk, hreference, hmet, n, hname⟩

end ShapeRules
