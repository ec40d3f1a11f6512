import ShapeRules.Proofs.Fragment

/-!
# The calls of a run

A run writes out the shapes of its source one after the other, and on the way each shape that one
of them refers to. Each time this is a call with a name, the names that are taken and the
identifiers of the shapes around it, and what it gives is joined to the program that the run has at
this point. The calls are told here by the part of the run that comes before them, whether or not
the run succeeds in the end.

## Main definitions

* `Call`: a shape to be written out under a name
* `Call.Reaches`: what a call has when it comes to one of its references
* `Made`: the calls that a run makes
* `Joined`: the programs that a run joins

## Main results

* `Call.Reaches.eq_ofRules`: a call that comes to a reference has written named occurrences so far
-/

namespace ShapeRules

open Rdf Shacl Datalog Compile

namespace Compile

/-- **A shape to be written out under a name,** with the names that are taken and the identifiers of
the shapes around it. -/
structure Call where
  ancestors : List Node
  name : String
  shape : Shape
  ns : Namespace

namespace Call

/-- The call for a shape that is given a fresh name. -/
def fresh (ancestors : List Node) (shape : Shape) (ns : Namespace) : Call where
  ancestors := ancestors
  name := (ns.allocate shape.preferredName).1
  shape := shape
  ns := (ns.allocate shape.preferredName).2

/-- The identifiers that the references of a call must not have. -/
def around (c : Call) : List Node := c.shape.id :: c.ancestors

/-- The run of a call. -/
def run (src : ShapeSource) (options : Options) (c : Call) : Traced Refusal (Program × Namespace) :=
  fragment src options c.ancestors c.name c.shape c.ns

/-- **What a call has when it comes to one of its references:** its preamble, the constraints before
the one with the reference, and the references before it in that constraint are written out. -/
inductive Reaches (src : ShapeSource) (options : Options) (c : Call) :
    Program × Namespace → Node → Prop
  | intro {before after : List Constraint} {k : Constraint} {references others : List Node}
      {r : Node} {metadata targets : List Rule} {middle state : Program × Namespace}
      (constraints : c.shape.constraints = before ++ k :: after)
      (nested : k.references = references ++ r :: others)
      (metadata_ok : metadataRules c.name c.shape = .ok metadata)
      (targets_ok : targetRules c.name c.shape = .ok targets)
      (before_ok : (before.foldlM
        (constraintStep options c.name (follow src options c.name c.around))
        (.ofRules options.library (metadata ++ targets), c.ns)).result = .ok middle)
      (references_ok : (references.foldlM (follow src options c.name c.around k.link)
        middle).result = .ok state) :
      Reaches src options c state r

/-- A call that comes to a reference has written its preamble and a part of its constraints, over
the occurrences of a forest. -/
theorem Reaches.eq_ofRules {src : ShapeSource} {options : Options} {c : Call}
    {state : Program × Namespace} {r : Node} (h : c.Reaches src options state r) :
    ∃ (f g : Forest Shape) (before : List Constraint) (k : Constraint),
      state.1 = .ofRules options.library (Occurrence.preamble ⟨c.name, c.shape⟩ ++
        blocks c.name before (f.named c.ns).1.written ++
        linked c.name k.link (g.named (f.named c.ns).2).1.written) ∧
      state.2 = ((f ++ g).named c.ns).2 := by
  obtain @⟨before, _, k, _, _, _, _, _, _, _, -, -, hm, ht, hbefore, hrefs⟩ := h
  have hgives : ∀ r child, r ∉ c.around → src.resolve r = some child →
      Gives src options c.around child :=
    fun _ child _ _ => gives src options c.around child
  -- Each part of the run so far gives what it states, over the forest of its references.
  obtain ⟨-, rfl⟩ := metadataRules_eq_ok_iff.1 hm
  obtain ⟨-, rfl⟩ := targetRules_eq_ok_iff.1 ht
  obtain ⟨f, -, -, rfl⟩ := (foldlM_constraintStep_eq_ok_iff hgives).1 hbefore
  obtain ⟨g, -, rfl⟩ := (foldlM_follow_eq_ok_iff hgives).1 hrefs
  refine ⟨f, g, before, k, ?_, ?_⟩
  · rw [Program.pushAll_ofRules, Program.pushAll_ofRules]
    rfl
  · rw [Forest.named_append]

end Call

/-- **The calls that a run makes:** one for each shape of the source, after those before it, and one
for each reference that a call comes to, unless it is refused. -/
inductive Made (src : ShapeSource) (options : Options) : Call → Prop
  | top {before after : List Shape} {shape : Shape} {state : Program × Namespace}
      (shapes : src.shapes = before ++ shape :: after)
      (before_ok : (before.foldlM (compileNext src options)
        ({ library := options.library }, .initial)).result = .ok state) :
      Made src options (.fresh [] shape state.2)
  | nested {c : Call} {state : Program × Namespace} {r : Node} {child : Shape}
      (outer : Made src options c) (reaches : c.Reaches src options state r)
      (allowed : r ∉ c.around) (resolved : src.resolve r = some child) :
      Made src options (.fresh c.around child state.2)

/-- **The programs that a run joins:** the program it has when it makes a call, and the one that the
call gives. -/
inductive Joined (src : ShapeSource) (options : Options) : Program → Program → Prop
  | top {before after : List Shape} {shape : Shape} {state result : Program × Namespace}
      (shapes : src.shapes = before ++ shape :: after)
      (before_ok : (before.foldlM (compileNext src options)
        ({ library := options.library }, .initial)).result = .ok state)
      (call_ok : ((Call.fresh [] shape state.2).run src options).result = .ok result) :
      Joined src options state.1 result.1
  | nested {c : Call} {state result : Program × Namespace} {r : Node} {child : Shape}
      (outer : Made src options c) (reaches : c.Reaches src options state r)
      (allowed : r ∉ c.around) (resolved : src.resolve r = some child)
      (call_ok : ((Call.fresh c.around child state.2).run src options).result = .ok result) :
      Joined src options state.1 result.1

end Compile

end ShapeRules
