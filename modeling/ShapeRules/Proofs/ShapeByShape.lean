import ShapeRules.Proofs.Depth
import ShapeRules.Proofs.FreshNames
import ShapeRules.Proofs.Refusals

/-!
# A source, shape by shape

A source can be compiled from the outside, through the entry for single shapes: take a new name,
compile the next shape under it, add what this gives to the program, and go on with the names that
are taken by then. The entry refuses a name that is no identifier, and a run over a source has no
such check. Both end alike because every new name is an identifier, whatever was asked for and
whatever is taken.

## Main definitions

* `Compile.shapeByShape`: the shapes of a list, one after the other, through an entry for one shape

## Main results

* `Compile.shapeByShape_congr`: entries that agree under identifiers give the same
* `Compile.compileWith_eq`: a run over a source, through an entry that checks names
* `Compile.compileShape_eq_malformedName_iff`: when a single shape is refused for its name
* `compile_shape_by_shape`: a source, shape by shape
-/

namespace ShapeRules

open Rdf Shacl Datalog Compile

namespace Compile

/-- **Shapes one after the other,** through an entry for single shapes: each takes a new name, is
compiled under it, and is added to the program. -/
def shapeByShape (entry : String → Shape → Namespace → Traced Refusal (Program × Namespace)) :
    List Shape → Program × Namespace → Traced Refusal (Program × Namespace)
  | [], state => pure state
  | shape :: shapes, (program, taken) => do
    let (name, taken) := taken.allocate shape.preferredName
    let (inner, taken) ← entry name shape taken
    shapeByShape entry shapes (program.extend inner, taken)

/-- The end of a run over a source: the size of the program is reported. -/
def finish (state : Program × Namespace) : Traced Refusal Program := do
  .report (.finished state.1.size)
  pure state.1

section Entries

variable {entry entry' : String → Shape → Namespace → Traced Refusal (Program × Namespace)}

/-- **Entries that agree under identifiers give the same,** since no other names are taken. -/
theorem shapeByShape_congr
    (h : ∀ name shape ns, isIdentifier name → entry name shape ns = entry' name shape ns)
    (shapes : List Shape) (state : Program × Namespace) :
    shapeByShape entry shapes state = shapeByShape entry' shapes state := by
  induction shapes generalizing state with
  | nil => rfl
  | cons shape shapes ih =>
    have hname : isIdentifier (state.2.allocate shape.preferredName).1 :=
      Namespace.isIdentifier_allocate state.2 shape.preferredName
    simp only [shapeByShape, h _ _ _ hname, ih]

/-- A run along a list of shapes goes through them one after the other. -/
theorem foldlM_eq_shapeByShape (shapes : List Shape) (state : Program × Namespace) :
    shapes.foldlM (fun (state : Program × Namespace) shape => do
      let (name, ns) := state.2.allocate shape.preferredName
      let (inner, ns) ← entry name shape ns
      pure (state.1.extend inner, ns)) state = shapeByShape entry shapes state := by
  induction shapes generalizing state with
  | nil => rfl
  | cons shape shapes ih =>
    obtain ⟨program, taken⟩ := state
    rw [List.foldlM_cons, shapeByShape]
    refine (Traced.bind_assoc (entry _ shape _) _ _).trans (congrArg _ ?_)
    funext result
    exact ih _

end Entries

variable {src : ShapeSource} {options : Options}

/-- An identifier passes the check of names. -/
theorem compileShapeWith_of_isIdentifier {writer : Writer} {name : String}
    (h : isIdentifier name) (shape : Shape) (ns : Namespace) :
    compileShapeWith writer name shape ns = writer [] name shape ns := by
  rw [compileShapeWith, h]
  rfl

/-- **A run over a source goes through an entry that checks names,** however shapes are written
out. -/
theorem compileWith_eq (src : ShapeSource) (options : Options) (writer : Writer) :
    compileWith src options writer =
      shapeByShape (compileShapeWith writer) src.shapes
        ({ library := options.library }, .initial) >>= finish := by
  have hentry : ∀ name shape ns, isIdentifier name →
      writer [] name shape ns = compileShapeWith writer name shape ns :=
    fun name shape ns h => (compileShapeWith_of_isIdentifier h shape ns).symm
  rw [compileWith, foldlM_eq_shapeByShape, shapeByShape_congr hentry]
  rfl

/-! ## Refusals of names -/

/-- A call is not at fault for a name. -/
theorem Call.not_atFault_malformedName {c : Call} {text : String} :
    ¬ c.AtFault src options (.malformedName text) := by
  intro h
  cases h

theorem fragment_ne_malformedName (ancestors : List Node) (name : String) (shape : Shape)
    (ns : Namespace) (text : String) :
    (fragment src options ancestors name shape ns).result ≠ .error (.malformedName text) := by
  intro h
  obtain ⟨c, -, hfault⟩ :=
    exists_atFault_of_run (P := fun _ => True) (fun _ _ _ _ => trivial) ancestors shape name ns
      trivial h
  exact Call.not_atFault_malformedName hfault

/-- **When a single shape is refused for its name:** if the name is no identifier, and only then. -/
theorem compileShape_eq_malformedName_iff {name text : String} {shape : Shape} {ns : Namespace} :
    (compileShape src options name shape ns).result = .error (.malformedName text) ↔
      ¬ isIdentifier name ∧ text = name := by
  by_cases hname : isIdentifier name
  · have hrun : compileShape src options name shape ns = fragment src options [] name shape ns :=
      compileShapeWith_of_isIdentifier hname shape ns
    rw [hrun]
    exact iff_of_false (fragment_ne_malformedName [] name shape ns text) fun h => h.1 hname
  · rw [Bool.not_eq_true] at hname
    simp [compileShape, hname, Traced.refuse, eq_comm]

end Compile

/-- **A source, shape by shape.** A run over a source ends as one that goes through its shapes one
after the other, from the empty program, by way of the entry for single shapes; it reports the same
events and then its end, and all this does not depend on how a shape is written out. The entry
refuses a name exactly if it is no identifier. Every new name is one, so it is never refused there,
and a run over a source is never refused for a name. -/
theorem compile_shape_by_shape (src : ShapeSource) (options : Options) :
    (compile src options).result =
      (shapeByShape (compileShape src options) src.shapes
        ({ library := options.library }, .initial)).result.map Prod.fst ∧
    compile src options =
      shapeByShape (compileShape src options) src.shapes
        ({ library := options.library }, .initial) >>= finish ∧
    (∀ writer, compileWith src options writer =
      shapeByShape (compileShapeWith writer) src.shapes
        ({ library := options.library }, .initial) >>= finish) ∧
    (∀ name shape ns text,
      (compileShape src options name shape ns).result = .error (.malformedName text) ↔
        ¬ isIdentifier name ∧ text = name) ∧
    (∀ (ns ns' : Namespace) preferred shape text, isIdentifier (ns.allocate preferred).1 ∧
      (compileShape src options (ns.allocate preferred).1 shape ns').result ≠
        .error (.malformedName text)) ∧
    ∀ text, (compile src options).result ≠ .error (.malformedName text) := by
  have hrun : compile src options = shapeByShape (compileShape src options) src.shapes
      ({ library := options.library }, .initial) >>= finish :=
    compileWith_eq src options (fragment src options)
  refine ⟨?_, hrun, compileWith_eq src options,
    fun _ _ _ _ => compileShape_eq_malformedName_iff, ?_, ?_⟩
  · rw [hrun, Traced.result_bind]
    -- the end of a run is not refused
    cases (shapeByShape (compileShape src options) src.shapes
      ({ library := options.library }, .initial)).result with
    | ok state => rfl
    | error e => rfl
  · intro ns ns' preferred shape text
    have hname := Namespace.isIdentifier_allocate ns preferred
    refine ⟨hname, ?_⟩
    intro h
    exact (compileShape_eq_malformedName_iff.1 h).1 hname
  · intro text h
    obtain ⟨c, -, hfault⟩ := exists_made_atFault h
    exact Call.not_atFault_malformedName hfault

/-- Two shapes that ask for the same name, which is no identifier, and one that refers to itself. -/
def oddNames : ShapeSource :=
  let cyclic : Shape := { id := .blank "c", constraints := [.node [.blank "c"]] }
  { shapes := [{ id := .iri "a", names := ["9 né"] }, { id := .iri "b", names := ["9 né"] }, cyclic]
    known := [cyclic] }

theorem compile_shape_by_shape_oddNames :
    (∀ shape ns, (compileShape oddNames {} "9 né" shape ns).result =
      .error (.malformedName "9 né")) ∧
    (compile oddNames {}).events = [.shapeStarted (.iri "a") "??n?",
      .shapeStarted (.iri "b") "??n?0", .shapeStarted (.blank "c") "shape"] ∧
    (shapeByShape (compileShape oddNames {}) oddNames.shapes
      ({ library := ({} : Options).library }, .initial)).result.map Prod.fst =
        .error (.cyclicReference "shape" (.blank "c")) := by
  obtain ⟨hresult, -, -, hname, -, -⟩ := compile_shape_by_shape oddNames {}
  refine ⟨fun shape ns => (hname _ shape ns _).2 ⟨by decide, rfl⟩, by decide +kernel, ?_⟩
  rw [← hresult]
  decide +kernel

end ShapeRules
