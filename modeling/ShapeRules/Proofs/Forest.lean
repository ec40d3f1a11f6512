import ShapeRules.Datalog.Namespace
import ShapeRules.Shacl.Table

/-!
# Forests of occurrences

A shape occurs at the top level and at each place that refers to it. The occurrences form an ordered
forest: right below an occurrence stand the shapes that its references stand for, in order. The
names of the occurrences are allocated one after the other, each occurrence before those nested in
it and those before the ones that follow.

## Main definitions

* `Forest α`: ordered forests
* `Forest.Unfolded src`: below each shape stand the shapes that it refers to
* `Namespace.allocateAll`: names for a list of preferred names
* `Forest.named`: names for the shapes of a forest, in order
* `IsLayout src f`: the named occurrences of the shapes of a source

## Main results

* `Forest.named_append`: naming two forests in a row
* `Forest.allocateAll_preorder`: naming a forest allocates names for its shapes in order
* `IsLayout.unique`: a source has at most one layout
-/

namespace ShapeRules

open Rdf Shacl Datalog

/-- **An ordered forest:** empty, or a root with the forest nested in it, followed by the rest. -/
inductive Forest (α : Type) where
  | nil
  | cons (root : α) (nested rest : Forest α)
  deriving DecidableEq, Repr

namespace Forest

variable {α β γ : Type}

/-- The roots of the trees, in order. -/
def roots : Forest α → List α
  | nil => []
  | cons a _ rest => a :: rest.roots

/-- The nodes in depth-first order, each before those nested in it. -/
def preorder : Forest α → List α
  | nil => []
  | cons a nested rest => a :: (nested.preorder ++ rest.preorder)

/-- The forest with each node replaced by its image. -/
def map (f : α → β) : Forest α → Forest β
  | nil => nil
  | cons a nested rest => cons (f a) (nested.map f) (rest.map f)

/-- The trees of one forest, then those of another. -/
def append : Forest α → Forest α → Forest α
  | nil, g => g
  | cons a nested rest, g => cons a nested (rest.append g)

instance : Append (Forest α) := ⟨append⟩

@[simp]
theorem nil_append (g : Forest α) : nil ++ g = g := rfl

@[simp]
theorem cons_append (a : α) (nested rest g : Forest α) :
    cons a nested rest ++ g = cons a nested (rest ++ g) := rfl

@[simp]
theorem roots_map (h : α → β) (f : Forest α) : (f.map h).roots = f.roots.map h := by
  induction f with
  | nil => rfl
  | cons a nested rest _ ih => simp [map, roots, ih]

@[simp]
theorem preorder_map (h : α → β) (f : Forest α) : (f.map h).preorder = f.preorder.map h := by
  induction f with
  | nil => rfl
  | cons a nested rest ih₁ ih₂ => simp [map, preorder, ih₁, ih₂]

/-- A forest is known once one image of it is, and the nodes in order up to what the image tells. -/
theorem eq_of_map_eq {h : α → β} {k : α → γ} (inj : ∀ a b, h a = h b → k a = k b → a = b)
    {f g : Forest α} (hm : f.map h = g.map h) (hp : f.preorder.map k = g.preorder.map k) :
    f = g := by
  induction f generalizing g with
  | nil =>
    cases g with
    | nil => rfl
    | cons b nested' rest' => cases hm
  | cons a nested rest ih₁ ih₂ =>
    cases g with
    | nil => cases hm
    | cons b nested' rest' =>
      obtain ⟨hab, hn, hr⟩ :
          h a = h b ∧ nested.map h = nested'.map h ∧ rest.map h = rest'.map h := by
        simpa [map] using hm
      -- the image fixes how many nodes are nested, so the two parts of the order can be told apart
      have hlen : (nested.preorder.map k).length = (nested'.preorder.map k).length := by
        have := congrArg (fun f => (preorder f).length) hn
        simpa using this
      simp only [preorder, List.map_cons, List.map_append, List.cons.injEq] at hp
      obtain ⟨hp₁, hp₂⟩ := List.append_inj hp.2 hlen
      rw [inj a b hab hp.1, ih₁ hn hp₁, ih₂ hr hp₂]

end Forest

/-! ## Unfolding references -/

/-- The shapes that a constraint nests. -/
def Shacl.Constraint.references : Constraint → List Node
  | .property shapes => shapes
  | .node shapes => shapes
  | .qualifiedValueShape shapes _ _ _ => shapes
  | _ => []

/-- Whether a constraint is of one of the kinds that nest shapes. -/
def Shacl.Constraint.isNesting : Constraint → Bool
  | .property _ => true
  | .node _ => true
  | .qualifiedValueShape .. => true
  | _ => false

theorem Shacl.Constraint.references_of_leaf {c : Constraint} (hc : c.isNesting = false) :
    c.references = [] := by
  cases c with
  | property shapes => cases hc
  | node shapes => cases hc
  | qualifiedValueShape shapes min max disjoint => cases hc
  | _ => rfl

/-- The shapes that a shape nests, in the order of its constraints. -/
def Shacl.Shape.references (s : Shape) : List Node :=
  s.constraints.flatMap Constraint.references

/-- **Right below each shape stand the shapes that it refers to,** in order. -/
def Forest.Unfolded (src : ShapeSource) : Forest Shape → Prop
  | nil => True
  | cons s nested rest =>
    s.references.mapM src.resolve = some nested.roots ∧ nested.Unfolded src ∧ rest.Unfolded src

/-- Unfolding references leaves no choice. -/
theorem Forest.Unfolded.unique {src : ShapeSource} {f g : Forest Shape} (hf : f.Unfolded src)
    (hg : g.Unfolded src) (h : f.roots = g.roots) : f = g := by
  induction f generalizing g with
  | nil =>
    cases g with
    | nil => rfl
    | cons t nested' rest' => cases h
  | cons s nested rest ih₁ ih₂ =>
    cases g with
    | nil => cases h
    | cons t nested' rest' =>
      obtain ⟨rfl, hr⟩ := List.cons.inj h
      obtain ⟨hs, hn, hrest⟩ := hf
      obtain ⟨hs', hn', hrest'⟩ := hg
      -- the references of the first shape fix the roots below it
      have hroots : nested.roots = nested'.roots := Option.some.inj (hs.symm.trans hs')
      rw [ih₁ hn hn' hroots, ih₂ hrest hrest' hr]

/-! ## Names -/

/-- **Names for a list of preferred names,** allocated one after the other. -/
def Datalog.Namespace.allocateAll (ns : Namespace) :
    List (Option String) → List String × Namespace
  | [] => ([], ns)
  | preferred :: others =>
    let (name, ns) := ns.allocate preferred
    let (names, ns) := ns.allocateAll others
    (name :: names, ns)

theorem Datalog.Namespace.allocateAll_cons (ns : Namespace) (preferred : Option String)
    (l : List (Option String)) :
    ns.allocateAll (preferred :: l) =
      ((ns.allocate preferred).1 :: ((ns.allocate preferred).2.allocateAll l).1,
        ((ns.allocate preferred).2.allocateAll l).2) := rfl

theorem Datalog.Namespace.allocateAll_append (ns : Namespace) (l m : List (Option String)) :
    ns.allocateAll (l ++ m) =
      ((ns.allocateAll l).1 ++ ((ns.allocateAll l).2.allocateAll m).1,
        ((ns.allocateAll l).2.allocateAll m).2) := by
  induction l generalizing ns with
  | nil => rfl
  | cons preferred l ih => simp [allocateAll, ih]

/-- **A shape under a name.** -/
structure Occurrence where
  name : String
  shape : Shape
  deriving DecidableEq, Repr

namespace Forest

/-- The shapes of a forest under names allocated in depth-first order, and the names taken after
it. -/
def named (ns : Namespace) : Forest Shape → Forest Occurrence × Namespace
  | nil => (nil, ns)
  | cons s nested rest =>
    let (name, ns) := ns.allocate s.preferredName
    let (nested, ns) := nested.named ns
    let (rest, ns) := rest.named ns
    (cons ⟨name, s⟩ nested rest, ns)

/-- The second of two forests is named with what the first one leaves. -/
theorem named_append (ns : Namespace) (f g : Forest Shape) :
    (f ++ g).named ns =
      ((f.named ns).1 ++ (g.named (f.named ns).2).1, (g.named (f.named ns).2).2) := by
  induction f generalizing ns with
  | nil => rfl
  | cons s nested rest _ ih => simp [named, ih]

@[simp]
theorem map_shape_named (ns : Namespace) (f : Forest Shape) :
    (f.named ns).1.map Occurrence.shape = f := by
  induction f generalizing ns with
  | nil => rfl
  | cons s nested rest ih₁ ih₂ => simp [named, map, ih₁, ih₂]

/-- **Naming a forest** allocates names for its shapes in depth-first order. -/
theorem allocateAll_preorder (ns : Namespace) (f : Forest Shape) :
    ns.allocateAll (f.preorder.map Shape.preferredName) =
      ((f.named ns).1.preorder.map Occurrence.name, (f.named ns).2) := by
  -- The names are threaded through the forest, so the induction is over every namespace.
  induction f generalizing ns with
  | nil => rfl
  | cons s nested rest ih₁ ih₂ =>
    simp [preorder, named, Namespace.allocateAll, Namespace.allocateAll_append, ih₁, ih₂]

end Forest

/-! ## Layouts -/

/-- **The named occurrences of the shapes of a source:** the shapes to write out are the roots, each
is unfolded, and the names are allocated in depth-first order. -/
structure IsLayout (src : ShapeSource) (f : Forest Occurrence) : Prop where
  roots : f.roots.map Occurrence.shape = src.shapes
  unfolded : (f.map Occurrence.shape).Unfolded src
  names : f.preorder.map Occurrence.name =
    (Namespace.initial.allocateAll (f.preorder.map (·.shape.preferredName))).1

theorem IsLayout.named {src : ShapeSource} {f : Forest Shape} (hr : f.roots = src.shapes)
    (hu : f.Unfolded src) : IsLayout src (f.named .initial).1 where
  roots := by rw [← Forest.roots_map, Forest.map_shape_named, hr]
  unfolded := by rwa [Forest.map_shape_named]
  names := by
    have hp : (f.named .initial).1.preorder.map (·.shape.preferredName) =
        f.preorder.map Shape.preferredName := by
      rw [← Forest.map_shape_named .initial f, Forest.preorder_map, List.map_map,
        Forest.map_shape_named]
      rfl
    rw [hp, Forest.allocateAll_preorder]

/-- **A source has at most one layout.** -/
theorem IsLayout.unique {src : ShapeSource} {f g : Forest Occurrence} (hf : IsLayout src f)
    (hg : IsLayout src g) : f = g := by
  -- The shapes are fixed by the references ...
  have hm : f.map Occurrence.shape = g.map Occurrence.shape := by
    apply hf.unfolded.unique hg.unfolded
    rw [Forest.roots_map, Forest.roots_map, hf.roots, hg.roots]
  have hp : f.preorder.map (·.shape.preferredName) = g.preorder.map (·.shape.preferredName) := by
    have := congrArg (fun h => (Forest.preorder h).map Shape.preferredName) hm
    simpa [Function.comp_def] using this
  -- ... and the names by the shapes in order.
  refine Forest.eq_of_map_eq (h := Occurrence.shape) (k := Occurrence.name) ?_ hm ?_
  · rintro ⟨_, _⟩ ⟨_, _⟩ rfl rfl
    rfl
  · rw [hf.names, hg.names, hp]

end ShapeRules
