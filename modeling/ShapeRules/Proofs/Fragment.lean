import ShapeRules.Compile.Basic
import ShapeRules.Proofs.Deduplication
import ShapeRules.Proofs.Statements

/-!
# Writing out a shape with what it nests

A run names a shape, writes its rules, and does the same for each shape nested in it before it goes
on. When it succeeds, the same rules come from two separate passes: one that names all occurrences,
and one that writes each of them under its name. Repeated clauses are dropped by each program on the
way, and this is the same as dropping them once at the end.

## Main definitions

* `blocks`: the rules of the constraints of a named shape, given those of the nested shapes
* `Forest.written`: the rules of named occurrences, tree by tree
* `Nests`: the forest that a list of references unfolds to when nothing in it is refused
* `Grows`: the forest of a list of shapes when nothing in it is refused

## Main results

* `Compile.gives`: the outcome of writing out a shape with what it nests
* `Compile.compile_eq_ok_iff`: the outcome of writing out all shapes of a source
-/

namespace ShapeRules

open Rdf Shacl Datalog Compile

/-! ## The rules of named occurrences -/

/-- The predicate that links a shape to those that a constraint nests. -/
def Shacl.Constraint.link : Constraint → Predicate
  | .property _ => .propertyConstr
  | .node _ => .nodeConstr
  | _ => .qualifiedValueConstr

/-- The rules of nested shapes, each followed by the link to it. The parts are the names of the
nested shapes with their rules. -/
def linked (name : String) (link : Predicate) (parts : List (String × List Rule)) : List Rule :=
  parts.flatMap fun part => part.2 ++ [about link name [part.1]]

/-- **The rules of the constraints of a named shape,** given the names and rules of the shapes that
they nest, in order. -/
def blocks (name : String) : List Constraint → List (String × List Rule) → List Rule
  | [], _ => []
  | c :: cs, parts =>
    linked name c.link (parts.take c.references.length) ++ c.statements name ++
      blocks name cs (parts.drop c.references.length)

/-- **The rules of named occurrences,** with those nested in them: for each tree the name of its
root and its rules. -/
def Forest.written : Forest Occurrence → List (String × List Rule)
  | .nil => []
  | .cons o nested rest =>
    (o.name, o.preamble ++ blocks o.name o.shape.constraints nested.written) :: rest.written

/-- The rules of all trees of a forest, in order. -/
def Forest.rules (f : Forest Occurrence) : List Rule :=
  f.written.flatMap Prod.snd

theorem linked_append (name : String) (link : Predicate)
    (parts others : List (String × List Rule)) :
    linked name link (parts ++ others) = linked name link parts ++ linked name link others :=
  List.flatMap_append

theorem blocks_cons_append {name : String} {c : Constraint} {cs : List Constraint}
    {parts others : List (String × List Rule)} (h : parts.length = c.references.length) :
    blocks name (c :: cs) (parts ++ others) =
      linked name c.link parts ++ c.statements name ++ blocks name cs others := by
  rw [blocks, List.take_left' h, List.drop_left' h]

@[simp]
theorem Forest.written_append (f g : Forest Occurrence) :
    (f ++ g).written = f.written ++ g.written := by
  induction f with
  | nil => rfl
  | cons o nested rest _ ih => simp [written, ih]

theorem Forest.map_fst_written (f : Forest Occurrence) :
    f.written.map Prod.fst = f.roots.map Occurrence.name := by
  induction f with
  | nil => rfl
  | cons o nested rest _ ih => simp [written, roots, ih]

theorem Forest.length_written_named (ns : Namespace) (f : Forest Shape) :
    (f.named ns).1.written.length = f.roots.length := by
  have h := congrArg List.length (map_fst_written (f.named ns).1)
  -- naming changes no shape, so the roots are those of `f`
  have hr : (f.named ns).1.roots.map Occurrence.shape = f.roots := by
    rw [← roots_map, map_shape_named]
  rw [List.length_map, List.length_map] at h
  rw [h, ← hr, List.length_map]

/-! ## Forests without refusal -/

/-- **The forest that a list of references unfolds to when nothing in it is refused.** No reference
goes back to one of the shapes around it, each is known, and each shape can be written. -/
inductive Nests (src : ShapeSource) (options : Options) :
    List Node → List Node → Forest Shape → Prop
  | nil {around : List Node} : Nests src options around [] .nil
  | cons {around references : List Node} {r : Node} {s : Shape} {nested rest : Forest Shape}
      (fresh : r ∉ around) (resolved : src.resolve r = some s) (writable : s.Writable options)
      (inner : Nests src options (s.id :: around) s.references nested)
      (outer : Nests src options around references rest) :
      Nests src options around (r :: references) (.cons s nested rest)

namespace Nests

variable {src : ShapeSource} {options : Options} {around : List Node}

theorem append {l m : List Node} {f g : Forest Shape} (hf : Nests src options around l f)
    (hg : Nests src options around m g) : Nests src options around (l ++ m) (f ++ g) := by
  induction l generalizing f with
  | nil =>
    cases hf
    exact hg
  | cons r l ih =>
    obtain _ | ⟨fresh, resolved, writable, inner, outer⟩ := hf
    exact .cons fresh resolved writable inner (ih outer)

theorem of_append {l m : List Node} {h : Forest Shape} (hh : Nests src options around (l ++ m) h) :
    ∃ f g, h = f ++ g ∧ Nests src options around l f ∧ Nests src options around m g := by
  induction l generalizing h with
  | nil => exact ⟨.nil, h, rfl, .nil, hh⟩
  | cons r l ih =>
    obtain _ | ⟨fresh, resolved, writable, inner, outer⟩ := hh
    obtain ⟨f, g, rfl, hf, hg⟩ := ih outer
    exact ⟨.cons _ _ f, g, rfl, .cons fresh resolved writable inner hf, hg⟩

theorem length_roots {l : List Node} {f : Forest Shape} (hf : Nests src options around l f) :
    f.roots.length = l.length := by
  induction hf with
  | nil => rfl
  | cons _ _ _ _ _ _ ih => simp [Forest.roots, ih]

/-- The roots are the shapes that the references stand for. -/
theorem mapM_resolve {l : List Node} {f : Forest Shape} (hf : Nests src options around l f) :
    l.mapM src.resolve = some f.roots := by
  induction hf with
  | nil => rfl
  | cons _ resolved _ _ _ _ ih => simp [resolved, ih, Forest.roots]

theorem unfolded {l : List Node} {f : Forest Shape} (hf : Nests src options around l f) :
    f.Unfolded src := by
  induction hf with
  | nil => trivial
  | cons _ _ _ inner _ ih₁ ih₂ => exact ⟨inner.mapM_resolve, ih₁, ih₂⟩

end Nests

/-- **The forest of a list of shapes when nothing in it is refused.** -/
inductive Grows (src : ShapeSource) (options : Options) : List Shape → Forest Shape → Prop
  | nil : Grows src options [] .nil
  | cons {shapes : List Shape} {s : Shape} {nested rest : Forest Shape}
      (writable : s.Writable options) (inner : Nests src options [s.id] s.references nested)
      (outer : Grows src options shapes rest) :
      Grows src options (s :: shapes) (.cons s nested rest)

namespace Grows

variable {src : ShapeSource} {options : Options} {shapes : List Shape} {f : Forest Shape}

theorem roots_eq (hf : Grows src options shapes f) : f.roots = shapes := by
  induction hf with
  | nil => rfl
  | cons _ _ _ ih => rw [Forest.roots, ih]

theorem unfolded (hf : Grows src options shapes f) : f.Unfolded src := by
  induction hf with
  | nil => trivial
  | cons _ inner _ ih => exact ⟨inner.mapM_resolve, inner.unfolded, ih⟩

end Grows

/-! ## What a successful run gives -/

namespace Compile

section Run

variable {src : ShapeSource} {options : Options} {name : String} {around : List Node}

/-- Follows a reference of a named shape, where `around` are the identifiers of that shape and of
those around it. -/
def follow (src : ShapeSource) (options : Options) (name : String) (around : List Node)
    (link : Predicate) (state : Program × Namespace) (r : Node) :
    Traced Refusal (Program × Namespace) :=
  if r ∈ around then .refuse (.cyclicReference name r)
  else
    match src.resolve r with
    | none => .refuse (.unknownShape name r)
    | some child => do
      let (childName, ns) := state.2.allocate child.preferredName
      let (inner, ns) ← fragment src options around childName child ns
      pure ((state.1.extend inner).push (about link name [childName]), ns)

theorem fragment_eq (ancestors : List Node) (name : String) (shape : Shape) (ns : Namespace) :
    fragment src options ancestors name shape ns = (do
      .report (.shapeStarted shape.id name)
      let metadata ← .ofExcept (metadataRules name shape)
      let targets ← .ofExcept (targetRules name shape)
      shape.constraints.foldlM
        (constraintStep options name (follow src options name (shape.id :: ancestors)))
        (.ofRules options.library (metadata ++ targets), ns)) := by
  rw [fragment]
  -- the recursive call stands under two tests, so it is compared where a reference is followed
  congr! 8
  funext link state r
  rw [follow]
  by_cases hr : r ∈ shape.id :: ancestors
  · rw [dif_pos hr, if_pos hr]
  · rw [dif_neg hr, if_neg hr]
    split
    next hs => rw [hs]
    next child hs => rw [hs]

/-- **Induction along the nesting of shapes:** what holds of a shape as soon as it holds of those
that it refers to, other than the ones around it, holds of every shape. -/
theorem nesting_induction (src : ShapeSource) {motive : List Node → Shape → Prop}
    (step : ∀ ancestors shape, (∀ r child, r ∉ shape.id :: ancestors → src.resolve r = some child →
      motive (shape.id :: ancestors) child) → motive ancestors shape)
    (ancestors : List Node) (shape : Shape) : motive ancestors shape :=
  step ancestors shape fun _ child _hr _hs =>
    nesting_induction src step (shape.id :: ancestors) child
termination_by (unvisited src (shape.id :: ancestors)).length
decreasing_by exact length_unvisited_cons _hs _hr

/-- What writing out a shape comes to: it succeeds exactly if the shape can be written and unfolds
without refusal, and then gives the rules of the named occurrences and the names that were taken. -/
def Gives (src : ShapeSource) (options : Options) (ancestors : List Node) (shape : Shape) : Prop :=
  ∀ name ns t, (fragment src options ancestors name shape ns).result = .ok t ↔
    ∃ nested : Forest Shape, shape.Writable options ∧
      Nests src options (shape.id :: ancestors) shape.references nested ∧
      t = (.ofRules options.library (Occurrence.preamble ⟨name, shape⟩ ++
        blocks name shape.constraints (nested.named ns).1.written), (nested.named ns).2)

theorem push_extend_ofRules (p : Program) (library : String) (link : Predicate)
    (part : String × List Rule) :
    (p.extend (.ofRules library part.2)).push (about link name [part.1]) =
      p.pushAll (linked name link [part]) := by
  rw [Program.extend_ofRules, Program.push_eq_pushAll, ← Program.pushAll_append, linked,
    List.flatMap_singleton]

/-- One reference is followed: the rules of the shape it stands for are added, then the link. -/
theorem follow_eq_ok_iff {link : Predicate} {r : Node} {s t : Program × Namespace}
    (ih : ∀ child, r ∉ around → src.resolve r = some child → Gives src options around child) :
    (follow src options name around link s r).result = .ok t ↔
      ∃ f, Nests src options around [r] f ∧
        t = (s.1.pushAll (linked name link (f.named s.2).1.written), (f.named s.2).2) := by
  rw [follow]
  by_cases hr : r ∈ around
  · -- the run is refused, and no forest starts with a shape that is around it
    rw [if_pos hr]
    constructor
    · intro h
      cases h
    · rintro ⟨f, hf, -⟩
      cases hf with
      | cons fresh => exact absurd hr fresh
  rw [if_neg hr]
  cases hs : src.resolve r with
  | none =>
    -- nor does one start with an unknown shape
    constructor
    · intro h
      cases h
    · rintro ⟨f, hf, -⟩
      cases hf with
      | cons _ resolved => cases hs.symm.trans resolved
  | some child =>
    -- the run names the nested shape before it writes it out, as naming the forest does
    have gives := ih child hr hs (s.2.allocate child.preferredName).1
      (s.2.allocate child.preferredName).2
    refine Traced.bind_eq_ok_iff.trans ?_
    constructor
    · rintro ⟨u, hu, h⟩
      obtain ⟨nested, hw, hn, rfl⟩ := (gives u).1 hu
      obtain rfl := Except.ok.inj h
      refine ⟨.cons child nested .nil, .cons hr hs hw hn .nil, ?_⟩
      exact Prod.ext (push_extend_ofRules s.1 options.library link (_, _)) rfl
    · rintro ⟨f, hf, rfl⟩
      obtain _ | ⟨fresh, resolved, hw, hn, outer⟩ := hf
      cases outer
      obtain rfl := Option.some.inj (hs.symm.trans resolved)
      refine ⟨_, (gives _).2 ⟨_, hw, hn, rfl⟩, ?_⟩
      exact congrArg Except.ok (Prod.ext (push_extend_ofRules s.1 _ link (_, _)) rfl)

/-- The references of a constraint are followed one after the other. -/
theorem foldlM_follow_eq_ok_iff {link : Predicate} {references : List Node}
    {s t : Program × Namespace}
    (ih : ∀ r child, r ∉ around → src.resolve r = some child → Gives src options around child) :
    (references.foldlM (follow src options name around link) s).result = .ok t ↔
      ∃ f, Nests src options around references f ∧
        t = (s.1.pushAll (linked name link (f.named s.2).1.written), (f.named s.2).2) := by
  induction references generalizing s with
  | nil =>
    rw [Traced.foldlM_nil_eq_ok_iff]
    constructor
    · rintro rfl
      exact ⟨.nil, .nil, rfl⟩
    · rintro ⟨f, hf, rfl⟩
      cases hf
      rfl
  | cons r references ihr =>
    rw [Traced.foldlM_cons_eq_ok_iff]
    simp only [follow_eq_ok_iff (ih r), ihr]
    -- the first reference has one tree, the others have the rest of the forest
    constructor
    · rintro ⟨_, ⟨f, hf, rfl⟩, g, hg, rfl⟩
      refine ⟨f ++ g, hf.append hg, ?_⟩
      rw [Forest.named_append, Forest.written_append, linked_append, Program.pushAll_append]
    · rintro ⟨h, hh, rfl⟩
      obtain ⟨f, g, rfl, hf, hg⟩ := Nests.of_append (l := [r]) hh
      refine ⟨_, ⟨f, hf, rfl⟩, g, hg, ?_⟩
      rw [Forest.named_append, Forest.written_append, linked_append, Program.pushAll_append]

theorem qualifiedRules_eq (shapes : List Node) (min max : Option Count) (disjoint : Bool) :
    qualifiedRules name min max disjoint =
      (Constraint.qualifiedValueShape shapes min max disjoint).statements name := by
  cases min <;> cases max <;> rfl

theorem constraintStep_leaf {c : Constraint} (hc : c.isNesting = false)
    (s : Program × Namespace) :
    constraintStep options name (follow src options name around) s c = (do
      let rules ← constraintRules options name c
      pure (s.1.pushAll rules, s.2)) := by
  cases c with
  | property shapes => cases hc
  | node shapes => cases hc
  | qualifiedValueShape shapes min max disjoint => cases hc
  | _ => rfl

/-- **One constraint:** the shapes that it nests are written out and linked, then comes what it
states itself. -/
theorem constraintStep_eq_ok_iff {c : Constraint} {s t : Program × Namespace}
    (ih : ∀ r child, r ∉ around → src.resolve r = some child → Gives src options around child) :
    (constraintStep options name (follow src options name around) s c).result = .ok t ↔
      ∃ f, c.Writable options ∧ Nests src options around c.references f ∧
        t = (s.1.pushAll (linked name c.link (f.named s.2).1.written ++ c.statements name),
          (f.named s.2).2) := by
  by_cases hc : c.isNesting
  · -- a constraint that nests shapes is never refused itself
    have hw : c.Writable options := Constraint.writable_of_isNesting hc
    cases c with
    | property shapes =>
      refine (foldlM_follow_eq_ok_iff ih).trans (exists_congr fun f => ?_)
      rw [Constraint.statements, List.append_nil]
      exact (and_iff_right hw).symm
    | node shapes =>
      refine (foldlM_follow_eq_ok_iff ih).trans (exists_congr fun f => ?_)
      rw [Constraint.statements, List.append_nil]
      exact (and_iff_right hw).symm
    | qualifiedValueShape shapes min max disjoint =>
      refine Traced.bind_eq_ok_iff.trans ?_
      simp only [foldlM_follow_eq_ok_iff ih, qualifiedRules_eq shapes]
      -- the counts come after all nested shapes
      constructor
      · rintro ⟨_, ⟨f, hf, rfl⟩, h⟩
        obtain rfl := Except.ok.inj h
        refine ⟨f, hw, hf, ?_⟩
        rw [Program.pushAll_append]
        rfl
      · rintro ⟨f, -, hf, rfl⟩
        refine ⟨_, ⟨f, hf, rfl⟩, ?_⟩
        rw [Program.pushAll_append]
        rfl
    | _ => cases hc
  · -- any other constraint takes no name and has the empty forest
    rw [Bool.not_eq_true] at hc
    rw [constraintStep_leaf hc, Traced.bind_eq_ok_iff, Constraint.references_of_leaf hc]
    simp only [constraintRules_eq_ok_iff hc]
    constructor
    · rintro ⟨_, ⟨hw, rfl⟩, h⟩
      obtain rfl := Except.ok.inj h
      exact ⟨.nil, hw, .nil, rfl⟩
    · rintro ⟨f, hw, hf, rfl⟩
      cases hf
      exact ⟨_, ⟨hw, rfl⟩, rfl⟩

/-- The constraints of a shape, one after the other. -/
theorem foldlM_constraintStep_eq_ok_iff {cs : List Constraint} {s t : Program × Namespace}
    (ih : ∀ r child, r ∉ around → src.resolve r = some child → Gives src options around child) :
    (cs.foldlM (constraintStep options name (follow src options name around)) s).result = .ok t ↔
      ∃ f, (∀ c ∈ cs, c.Writable options) ∧
        Nests src options around (cs.flatMap Constraint.references) f ∧
        t = (s.1.pushAll (blocks name cs (f.named s.2).1.written), (f.named s.2).2) := by
  induction cs generalizing s with
  | nil =>
    rw [Traced.foldlM_nil_eq_ok_iff]
    constructor
    · rintro rfl
      exact ⟨.nil, by simp, .nil, rfl⟩
    · rintro ⟨f, -, hf, rfl⟩
      cases hf
      rfl
  | cons c cs ihc =>
    rw [Traced.foldlM_cons_eq_ok_iff]
    simp only [constraintStep_eq_ok_iff ih, ihc]
    -- the nested shapes of the first constraint are told apart by the number of its references
    have hblocks : ∀ {f g : Forest Shape}, Nests src options around c.references f →
        s.1.pushAll (blocks name (c :: cs) ((f ++ g).named s.2).1.written) =
          (s.1.pushAll (linked name c.link (f.named s.2).1.written ++ c.statements name)).pushAll
            (blocks name cs (g.named (f.named s.2).2).1.written) := by
      intro f g hf
      rw [Forest.named_append, Forest.written_append, ← Program.pushAll_append, blocks_cons_append]
      rw [Forest.length_written_named, hf.length_roots]
    constructor
    · rintro ⟨_, ⟨f, hw, hf, rfl⟩, g, hws, hg, rfl⟩
      refine ⟨f ++ g, List.forall_mem_cons.2 ⟨hw, hws⟩, hf.append hg, ?_⟩
      rw [hblocks hf, Forest.named_append]
    · rintro ⟨h, hws, hh, rfl⟩
      obtain ⟨hw, hws⟩ := List.forall_mem_cons.1 hws
      obtain ⟨f, g, rfl, hf, hg⟩ := hh.of_append
      refine ⟨_, ⟨f, hw, hf, rfl⟩, g, hws, hg, ?_⟩
      rw [hblocks hf, Forest.named_append]

/-- **A shape with what it nests:** the run gives what naming all occurrences and then writing them
gives. -/
theorem gives (src : ShapeSource) (options : Options) (ancestors : List Node) (shape : Shape) :
    Gives src options ancestors shape := by
  -- the shapes around a shape are part of the induction, since they bound how deep it nests
  induction ancestors, shape using nesting_induction src with
  | step ancestors shape ih =>
    intro name ns t
    rw [fragment_eq]
    -- metadata, targets and constraints succeed one after the other
    simp only [Traced.bind_eq_ok_iff, Traced.result_report, Traced.result_ofExcept,
      metadataRules_eq_ok_iff, targetRules_eq_ok_iff, foldlM_constraintStep_eq_ok_iff ih,
      Shape.writable_iff]
    constructor
    · rintro ⟨-, -, _, ⟨hm, rfl⟩, _, ⟨ht, rfl⟩, f, hc, hf, rfl⟩
      refine ⟨f, ⟨hm, ht, hc⟩, hf, ?_⟩
      rw [Program.pushAll_ofRules]
      rfl
    · rintro ⟨f, ⟨hm, ht, hc⟩, hf, rfl⟩
      refine ⟨(), trivial, _, ⟨hm, rfl⟩, _, ⟨ht, rfl⟩, f, hc, hf, ?_⟩
      rw [Program.pushAll_ofRules]
      rfl

/-- The shapes of a source, one after the other. -/
theorem foldlM_compileNext_eq_ok_iff {shapes : List Shape} {s t : Program × Namespace} :
    (shapes.foldlM (compileNext src options) s).result = .ok t ↔
      ∃ f, Grows src options shapes f ∧
        t = (s.1.pushAll (f.named s.2).1.rules, (f.named s.2).2) := by
  induction shapes generalizing s with
  | nil =>
    rw [Traced.foldlM_nil_eq_ok_iff]
    constructor
    · rintro rfl
      exact ⟨.nil, .nil, rfl⟩
    · rintro ⟨f, hf, rfl⟩
      cases hf
      rfl
  | cons shape shapes ih =>
    have hgives := gives src options [] shape
      (s.2.allocate shape.preferredName).1 (s.2.allocate shape.preferredName).2
    rw [Traced.foldlM_cons_eq_ok_iff]
    simp only [ih]
    -- what is nested in the first shape is named before the shapes that follow
    constructor
    · rintro ⟨u, hu, f, hf, rfl⟩
      obtain ⟨v, hv, h⟩ := Traced.bind_eq_ok_iff.1 hu
      obtain ⟨nested, hw, hn, rfl⟩ := (hgives v).1 hv
      obtain rfl := Except.ok.inj h
      refine ⟨.cons shape nested f, .cons hw hn hf, ?_⟩
      rw [Program.extend_ofRules, ← Program.pushAll_append]
      rfl
    · rintro ⟨f, hf, rfl⟩
      obtain _ | ⟨hw, hn, hf⟩ := hf
      refine ⟨_, Traced.bind_eq_ok_iff.2 ⟨_, (hgives _).2 ⟨_, hw, hn, rfl⟩, rfl⟩, _, hf, ?_⟩
      rw [Program.extend_ofRules, ← Program.pushAll_append]
      rfl

/-- **All shapes of a source:** the run succeeds exactly if they unfold without refusal, and gives
the rules of their named occurrences. -/
theorem compile_eq_ok_iff {p : Program} :
    (compile src options).result = .ok p ↔
      ∃ f, Grows src options src.shapes f ∧
        p = .ofRules options.library (f.named .initial).1.rules := by
  rw [compile, Traced.bind_eq_ok_iff]
  simp only [foldlM_compileNext_eq_ok_iff]
  constructor
  · rintro ⟨_, ⟨f, hf, rfl⟩, h⟩
    exact ⟨f, hf, (Except.ok.inj h).symm⟩
  · rintro ⟨f, hf, rfl⟩
    exact ⟨_, ⟨f, hf, rfl⟩, rfl⟩

end Run

end Compile

end ShapeRules
