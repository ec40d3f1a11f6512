import Mathlib.Data.List.Flatten
import ShapeRules.Proofs.Links

/-!
# What a run reports

A run reports when it comes to a shape, and what it leaves out of a constraint. The rules of a
nested shape are added to the program only after all that is reported for it, so the two are written
at different times. They agree nevertheless: both follow the same walk through the named
occurrences, which comes to a shape before its constraints and to a constraint after the shapes that
it nests.

## Main definitions

* `Visit`, `Forest.walk`: what a run comes to, in order
* `Visit.events`: what it reports there
* `logged`: the details of the events of a level with a wording
* `Datalog.Rule.startFields`: what the fact for the kind of a shape says about its start

## Main results

* `Forest.filterMap_shape_walk`, `Forest.filterMap_constraintOf_walk`: the walk comes to every
  occurrence once, and to the constraints of each in their order
* `Compile.events_compile`: the events of a run
* `log_agrees_with_program`: the events of a run and the rules of its program
-/

namespace ShapeRules

open Rdf Shacl Datalog Compile

/-! ## The walk through named occurrences -/

/-- **What a run comes to:** a shape under its name, or a constraint of it. -/
inductive Visit where
  | shape (o : Occurrence)
  | constraint (o : Occurrence) (c : Constraint)

namespace Visit

/-- The shape that is come to. -/
def shape? : Visit → Option Occurrence
  | shape o => some o
  | constraint .. => none

/-- The constraint that is come to, if it is one of a given occurrence. -/
def constraintOf (o : Occurrence) : Visit → Option Constraint
  | shape _ => none
  | constraint o' c => if o' = o then some c else none

end Visit

/-- The visits to the constraints of an occurrence, each after those to the shapes that it nests.
The parts are the visits to the nested shapes, in order. -/
def visitsOf (o : Occurrence) : List Constraint → List (List Visit) → List Visit
  | [], _ => []
  | c :: cs, parts =>
    (parts.take c.references.length).flatten ++
      .constraint o c :: visitsOf o cs (parts.drop c.references.length)

namespace Forest

/-- The visits to named occurrences, with those nested in them, tree by tree. -/
def visits : Forest Occurrence → List (List Visit)
  | nil => []
  | cons o nested rest => (.shape o :: visitsOf o o.shape.constraints nested.visits) :: rest.visits

/-- **The walk through named occurrences.** -/
def walk (f : Forest Occurrence) : List Visit := f.visits.flatten

@[simp]
theorem visits_append (f g : Forest Occurrence) : (f ++ g).visits = f.visits ++ g.visits := by
  induction f with
  | nil => rfl
  | cons o nested rest _ ih => simp [visits, ih]

theorem length_visits (f : Forest Occurrence) : f.visits.length = f.roots.length := by
  induction f with
  | nil => rfl
  | cons o nested rest _ ih => simp [visits, roots, ih]

theorem walk_append (f g : Forest Occurrence) : (f ++ g).walk = f.walk ++ g.walk := by
  rw [walk, visits_append, List.flatten_append, walk, walk]

theorem walk_cons (o : Occurrence) (nested rest : Forest Occurrence) :
    (cons o nested rest).walk =
      .shape o :: visitsOf o o.shape.constraints nested.visits ++ rest.walk := by
  rw [walk, visits, List.flatten_cons, walk]

end Forest

theorem visitsOf_cons_append {o : Occurrence} {c : Constraint} {cs : List Constraint}
    {parts others : List (List Visit)} (h : parts.length = c.references.length) :
    visitsOf o (c :: cs) (parts ++ others) =
      parts.flatten ++ .constraint o c :: visitsOf o cs others := by
  rw [visitsOf, List.take_left' h, List.drop_left' h]

section Pick

variable {β : Type} {pick : Visit → Option β} {o : Occurrence}

/-- Of the visits to an occurrence only those to what it nests are picked, if its constraints are
not and no part is left over. -/
theorem filterMap_visitsOf_parts (hpick : ∀ c, pick (.constraint o c) = none)
    {cs : List Constraint} {parts : List (List Visit)}
    (hlen : parts.length = (cs.flatMap Constraint.references).length) :
    (visitsOf o cs parts).filterMap pick = parts.flatten.filterMap pick := by
  induction cs generalizing parts with
  | nil =>
    obtain rfl := List.length_eq_zero_iff.1 hlen
    rfl
  | cons c cs ih =>
    have hdrop : (parts.drop c.references.length).length =
        (cs.flatMap Constraint.references).length := by
      rw [List.flatMap_cons, List.length_append] at hlen
      rw [List.length_drop]
      omega
    rw [visitsOf, List.filterMap_append, List.filterMap_cons_none (hpick c), ih hdrop,
      ← List.filterMap_append, ← List.flatten_append, List.take_append_drop]

/-- Only those to its constraints are picked, if what it nests is not. -/
theorem filterMap_visitsOf_self {cs : List Constraint} {parts : List (List Visit)}
    (hpick : ∀ v ∈ parts.flatten, pick v = none) :
    (visitsOf o cs parts).filterMap pick = cs.filterMap fun c => pick (.constraint o c) := by
  induction cs generalizing parts with
  | nil => rfl
  | cons c cs ih =>
    have hsub : ∀ {part : List (List Visit)}, part.Sublist parts →
        ∀ v ∈ part.flatten, pick v = none := fun hpart v hv => hpick v (hpart.flatten.subset hv)
    have htake : ((parts.take c.references.length).flatten).filterMap pick = [] :=
      List.filterMap_eq_nil_iff.2 (hsub (List.take_sublist _ _))
    rw [visitsOf, List.filterMap_append, htake, List.nil_append, List.filterMap_cons,
      List.filterMap_cons, ih (hsub (List.drop_sublist _ _))]

end Pick

namespace Forest

variable {src : ShapeSource} {f : Forest Occurrence}

/-- What is nested has visits for each reference. -/
theorem length_visits_nested {o : Occurrence}
    (h : o.shape.references.mapM src.resolve = some (f.map Occurrence.shape).roots) :
    f.visits.length = o.shape.references.length := by
  have hlen := Option.length_of_mapM_eq_some h
  rw [roots_map, List.length_map] at hlen
  rw [length_visits, hlen]

/-- **The walk comes to every occurrence once,** in depth-first order. -/
theorem filterMap_shape_walk (hu : (f.map Occurrence.shape).Unfolded src) :
    f.walk.filterMap Visit.shape? = f.preorder := by
  induction f with
  | nil => rfl
  | cons o nested rest ih₁ ih₂ =>
    obtain ⟨hroots, hu₁, hu₂⟩ := hu
    have hnested : (visitsOf o o.shape.constraints nested.visits).filterMap Visit.shape? =
        nested.preorder := by
      rw [filterMap_visitsOf_parts (fun c => rfl) (length_visits_nested hroots)]
      exact ih₁ hu₁
    rw [walk_cons, List.filterMap_append, List.filterMap_cons, ih₂ hu₂, hnested]
    rfl

theorem filterMap_constraintOf_walk_eq_nil (hu : (f.map Occurrence.shape).Unfolded src)
    {o : Occurrence} (ho : o ∉ f.preorder) : f.walk.filterMap (Visit.constraintOf o) = [] := by
  induction f with
  | nil => rfl
  | cons a nested rest ih₁ ih₂ =>
    obtain ⟨hroots, hu₁, hu₂⟩ := hu
    rw [preorder, List.mem_cons, List.mem_append, not_or, not_or] at ho
    obtain ⟨ha, ho₁, ho₂⟩ := ho
    have hnested : (visitsOf a a.shape.constraints nested.visits).filterMap
        (Visit.constraintOf o) = [] := by
      rw [filterMap_visitsOf_parts (fun c => if_neg fun h => ha h.symm)
        (length_visits_nested hroots)]
      exact ih₁ hu₁ ho₁
    rw [walk_cons, List.filterMap_append, List.filterMap_cons, ih₂ hu₂ ho₂, hnested]
    rfl

/-- **The walk comes to the constraints of an occurrence in their order,** if the occurrences
differ. -/
theorem filterMap_constraintOf_walk (hu : (f.map Occurrence.shape).Unfolded src)
    (hn : f.preorder.Nodup) {o : Occurrence} (ho : o ∈ f.preorder) :
    f.walk.filterMap (Visit.constraintOf o) = o.shape.constraints := by
  induction f with
  | nil => cases ho
  | cons a nested rest ih₁ ih₂ =>
    obtain ⟨hroots, hu₁, hu₂⟩ := hu
    rw [preorder, List.nodup_cons, List.nodup_append', List.mem_append, not_or] at hn
    obtain ⟨⟨ha₁, ha₂⟩, hn₁, hn₂, hdisjoint⟩ := hn
    rw [walk_cons, List.filterMap_append, List.filterMap_cons_none (by rfl)]
    rcases List.mem_cons.1 ho with rfl | ho
    · -- the root itself: nothing nested in it is the same occurrence
      have hnested : ∀ v ∈ nested.visits.flatten, v.constraintOf o = none :=
        List.filterMap_eq_nil_iff.1 (filterMap_constraintOf_walk_eq_nil hu₁ ha₁)
      rw [filterMap_visitsOf_self hnested, filterMap_constraintOf_walk_eq_nil hu₂ ha₂,
        List.append_nil]
      simp [Visit.constraintOf]
    · have hne : a ≠ o := by
        rintro rfl
        exact (List.mem_append.1 ho).elim ha₁ ha₂
      rw [filterMap_visitsOf_parts (fun c => if_neg hne) (length_visits_nested hroots)]
      rcases List.mem_append.1 ho with ho | ho
      · rw [filterMap_constraintOf_walk_eq_nil hu₂ (hdisjoint ho), List.append_nil]
        exact ih₁ hu₁ hn₁ ho
      · have hnot : o ∉ nested.preorder := fun h => hdisjoint h ho
        rw [ih₂ hu₂ hn₂ ho]
        exact congrArg (· ++ _) (filterMap_constraintOf_walk_eq_nil hu₁ hnot)

end Forest

/-! ## What is reported on the walk -/

/-- The flags of a regular expression. -/
def Shacl.Constraint.flags? : Constraint → Option Term
  | .pattern _ flags => flags
  | _ => none

/-- **What is reported of a constraint:** that it is left out, or that its flags are. -/
def Shacl.Constraint.warnings (name : String) (c : Constraint) : List Event :=
  (if c.parameter ∈ [Vocab.closed, .hasValue, .oneOf] then [.constraintSkipped name c.parameter]
    else []) ++ (c.flags?.map (Event.flagsIgnored name)).toList

theorem Shacl.Constraint.warnings_of_isNesting {c : Constraint} (hc : c.isNesting)
    (name : String) : c.warnings name = [] := by
  cases c with
  | property shapes => rfl
  | node shapes => rfl
  | qualifiedValueShape shapes min max disjoint => rfl
  | _ => cases hc

/-- What is reported of a visit. -/
def Visit.events : Visit → List Event
  | shape o => [.shapeStarted o.shape.id o.name]
  | constraint o c => c.warnings o.name

/-- **What is reported on a walk through named occurrences.** -/
def Forest.journal (f : Forest Occurrence) : List Event := f.walk.flatMap Visit.events

theorem Forest.journal_append (f g : Forest Occurrence) :
    (f ++ g).journal = f.journal ++ g.journal := by
  rw [journal, walk_append, List.flatMap_append, journal, journal]

namespace Compile

variable {src : ShapeSource} {options : Options} {name : String} {around : List Node}

/-- What is reported of a constraint that is written out. -/
theorem events_constraintRules {c : Constraint} (hw : c.Writable options) :
    (constraintRules options name c).events = c.warnings name := by
  by_cases hu : isUnsupported c
  · -- a strict run would have refused it
    have hs : ¬ options.strict := fun hs => hw.supported hs (isUnsupported_iff.1 hu)
    rw [constraintRules, if_pos hu, if_neg hs]
    cases c with
    | closed ignored => rfl
    | hasValue ts => rfl
    | oneOf ts => rfl
    | _ => cases hu
  · rw [constraintRules, if_neg hu]
    cases c with
    | pattern t flags =>
      cases flags with
      | none => rfl
      | some flags => rfl
    | closed ignored => exact absurd rfl hu
    | hasValue ts => exact absurd rfl hu
    | oneOf ts => exact absurd rfl hu
    | _ => rfl

/-- What writing out a shape reports: the walk through it and what it nests. -/
def Reports (src : ShapeSource) (options : Options) (ancestors : List Node) (shape : Shape) :
    Prop :=
  ∀ name ns nested, shape.Writable options →
    Nests src options (shape.id :: ancestors) shape.references nested →
    (fragment src options ancestors name shape ns).events =
      (Forest.cons ⟨name, shape⟩ (nested.named ns).1 .nil).journal

section Run

variable (ih : ∀ r child, r ∉ around → src.resolve r = some child →
  Reports src options around child)
include ih

/-- One reference is followed: what it nests is walked through. -/
theorem events_follow {link : Predicate} {r : Node} {s : Program × Namespace} {f : Forest Shape}
    (hf : Nests src options around [r] f) :
    (follow src options name around link s r).events = (f.named s.2).1.journal := by
  cases hf with
  | @cons _ _ _ child nested _ fresh resolved writable inner outer =>
    cases outer
    have hresult := (gives src options around child (s.2.allocate child.preferredName).1
      (s.2.allocate child.preferredName).2 _).2 ⟨nested, writable, inner, rfl⟩
    rw [follow, if_neg fresh, resolved]
    refine (Traced.events_bind hresult).trans ?_
    rw [ih r child fresh resolved _ _ _ writable inner]
    exact List.append_nil _

/-- The references of a constraint, one after the other. -/
theorem events_foldlM_follow {link : Predicate} {references : List Node}
    {s : Program × Namespace} {f : Forest Shape} (hf : Nests src options around references f) :
    (references.foldlM (follow src options name around link) s).events =
      (f.named s.2).1.journal := by
  induction references generalizing s f with
  | nil =>
    cases hf
    rfl
  | cons r references ihr =>
    obtain ⟨f, g, rfl, hf, hg⟩ := Nests.of_append (l := [r]) hf
    have hstep : (follow src options name around link s r).result = .ok _ :=
      (follow_eq_ok_iff fun child _ _ => gives src options around child).2 ⟨f, hf, rfl⟩
    rw [Traced.events_foldlM_cons hstep, events_follow ih hf, ihr hg, Forest.named_append,
      Forest.journal_append]

/-- **One constraint:** what it nests is walked through before it is reported on. -/
theorem events_constraintStep {c : Constraint} {s : Program × Namespace} {f : Forest Shape}
    (hw : c.Writable options) (hf : Nests src options around c.references f) :
    (constraintStep options name (follow src options name around) s c).events =
      (f.named s.2).1.journal ++ c.warnings name := by
  by_cases hc : c.isNesting
  · rw [Constraint.warnings_of_isNesting hc, List.append_nil]
    cases c with
    | property shapes => exact events_foldlM_follow ih hf
    | node shapes => exact events_foldlM_follow ih hf
    | qualifiedValueShape shapes min max disjoint =>
      have hshapes : (shapes.foldlM (follow src options name around .qualifiedValueConstr)
          s).result = .ok _ :=
        (foldlM_follow_eq_ok_iff fun _ child _ _ => gives src options around child).2 ⟨f, hf, rfl⟩
      refine (Traced.events_bind hshapes).trans ((List.append_nil _).trans ?_)
      exact events_foldlM_follow ih hf
    | _ => cases hc
  · rw [Bool.not_eq_true] at hc
    rw [Constraint.references_of_leaf hc] at hf
    cases hf
    rw [constraintStep_leaf hc,
      Traced.events_bind ((constraintRules_eq_ok_iff hc).2 ⟨hw, rfl⟩), events_constraintRules hw]
    exact List.append_nil _

/-- The constraints of an occurrence, one after the other. -/
theorem events_foldlM_constraintStep {o : Occurrence} {cs : List Constraint}
    {s : Program × Namespace} {f : Forest Shape} (hw : ∀ c ∈ cs, c.Writable options)
    (hf : Nests src options around (cs.flatMap Constraint.references) f) :
    (cs.foldlM (constraintStep options o.name (follow src options o.name around)) s).events =
      (visitsOf o cs (f.named s.2).1.visits).flatMap Visit.events := by
  induction cs generalizing s f with
  | nil => rfl
  | cons c cs ihc =>
    rw [List.forall_mem_cons] at hw
    obtain ⟨f, g, rfl, hf, hg⟩ := hf.of_append
    have hstep : (constraintStep options o.name (follow src options o.name around) s c).result =
        .ok _ :=
      (constraintStep_eq_ok_iff fun _ child _ _ => gives src options around child).2
        ⟨f, hw.1, hf, rfl⟩
    -- the visits to what the first constraint nests are told apart by the number of its references
    have hlen : (f.named s.2).1.visits.length = c.references.length := by
      rw [Forest.length_visits, ← hf.length_roots, ← Forest.map_shape_named s.2 f,
        Forest.roots_map, List.length_map, Forest.map_shape_named]
    rw [Traced.events_foldlM_cons hstep, events_constraintStep ih hw.1 hf, ihc hw.2 hg,
      Forest.named_append, Forest.visits_append, visitsOf_cons_append hlen, List.flatMap_append,
      List.flatMap_cons, List.append_assoc]
    rfl

end Run

/-- **Writing out a shape reports the walk through it and what it nests.** -/
theorem reports (src : ShapeSource) (options : Options) (ancestors : List Node) (shape : Shape) :
    Reports src options ancestors shape := by
  induction ancestors, shape using nesting_induction src with
  | step ancestors shape ih =>
    intro name ns nested hw hn
    obtain ⟨hmetadata, htargets, hconstraints⟩ := Shape.writable_iff.1 hw
    have hm : (Traced.ofExcept (metadataRules name shape)).result = .ok (shape.metadata name) :=
      metadataRules_eq_ok_iff.2 ⟨hmetadata, rfl⟩
    have ht : (Traced.ofExcept (targetRules name shape)).result =
        .ok (shape.targets.flatMap (Target.statements name)) :=
      targetRules_eq_ok_iff.2 ⟨htargets, rfl⟩
    rw [fragment_eq, Traced.events_bind (Traced.result_report _), Traced.events_bind hm,
      Traced.events_bind ht,
      events_foldlM_constraintStep ih (o := ⟨name, shape⟩) hconstraints hn, Forest.journal,
      Forest.walk_cons, List.flatMap_append, List.flatMap_cons]
    exact (List.append_nil _).symm

theorem events_foldlM_compileNext {shapes : List Shape} {s : Program × Namespace}
    {f : Forest Shape} (hf : Grows src options shapes f) :
    (shapes.foldlM (compileNext src options) s).events = (f.named s.2).1.journal := by
  induction hf generalizing s with
  | nil => rfl
  | @cons shapes shape nested rest writable inner outer ih =>
    have hresult := (gives src options [] shape (s.2.allocate shape.preferredName).1
      (s.2.allocate shape.preferredName).2 _).2 ⟨nested, writable, inner, rfl⟩
    have hstep : (compileNext src options s shape).result = .ok _ :=
      Traced.bind_eq_ok_iff.2 ⟨_, hresult, rfl⟩
    have hevents : (compileNext src options s shape).events =
        ((Forest.cons shape nested .nil).named s.2).1.journal := by
      refine (Traced.events_bind hresult).trans ?_
      rw [reports src options [] shape _ _ _ writable inner]
      exact List.append_nil _
    have happend := Forest.named_append s.2 (.cons shape nested .nil) rest
    rw [Forest.cons_append, Forest.nil_append] at happend
    rw [Traced.events_foldlM_cons hstep, hevents, ih, happend, Forest.journal_append]
    rfl

/-- **A run reports the walk through the named occurrences,** and at the end how many rules its
program has. -/
theorem events_compile {f : Forest Shape} (hf : Grows src options src.shapes f) :
    (compile src options).events = (f.named .initial).1.journal ++
      [.finished (Program.ofRules options.library (f.named .initial).1.rules).size] := by
  have hresult := (foldlM_compileNext_eq_ok_iff
    (s := ({ library := options.library }, .initial))).2 ⟨f, hf, rfl⟩
  rw [compile, Traced.events_bind hresult, events_foldlM_compileNext hf]
  rfl

end Compile

/-! ## Reports of one kind -/

/-- **The details of the events of a level with a wording,** in order. -/
def logged (level : Level) (message : String) (events : List Event) :
    List (List (String × String)) :=
  (events.filter fun e => e.level = level ∧ e.message = message).map Event.fields

theorem logged_append (level : Level) (message : String) (l m : List Event) :
    logged level message (l ++ m) = logged level message l ++ logged level message m := by
  rw [logged, List.filter_append, List.map_append, logged, logged]

/-- A report that each visit gives at most once is given for the visits in their order. -/
theorem logged_walk {level : Level} {message : String}
    {details : Visit → Option (List (String × String))}
    (h : ∀ v : Visit, logged level message v.events = (details v).toList) (visits : List Visit) :
    logged level message (visits.flatMap Visit.events) = visits.filterMap details := by
  induction visits with
  | nil => rfl
  | cons v visits ih =>
    rw [List.flatMap_cons, logged_append, h, ih, List.filterMap_cons]
    cases details v with
    | none => rfl
    | some fields => rfl

namespace Visit

/-- The details of the start of a shape. -/
def started? : Visit → Option (List (String × String))
  | shape o => some [("shape", o.shape.id.text), ("name", o.name)]
  | constraint .. => none

/-- The details of a constraint that is left out: the name of the occurrence, and the kind of the
constraint. -/
def skipped? : Visit → Option (List (String × String))
  | shape _ => none
  | constraint o c =>
    if c.parameter ∈ [Vocab.closed, .hasValue, .oneOf] then
      some [("name", o.name), ("kind", c.parameter.localName)]
    else none

/-- The details of flags that are left out: the name of the occurrence, and the flags. -/
def unflagged? : Visit → Option (List (String × String))
  | shape _ => none
  | constraint o c => c.flags?.map fun flags => [("name", o.name), ("flags", flags.text)]

/-- Each visit gives each of the three reports at most once. -/
theorem logged_events (v : Visit) :
    logged .debug "translating shape" v.events = v.started?.toList ∧
      logged .warning "skipping constraint without Datalog translation" v.events =
        v.skipped?.toList ∧
      logged .warning "regular expression flags have no Datalog translation, ignoring them"
        v.events = v.unflagged?.toList := by
  cases v with
  | shape o => exact ⟨rfl, rfl, rfl⟩
  | constraint o c =>
    simp only [events, Constraint.warnings, logged_append, skipped?, unflagged?]
    cases c.flags? with
    | none => split <;> exact ⟨rfl, rfl, rfl⟩
    | some flags => split <;> exact ⟨rfl, rfl, rfl⟩

end Visit

/-! ## The starts of shapes in a program -/

/-- **What the fact for the kind of a shape says about its start:** the comment is the shape, and
the argument its name. -/
def Datalog.Rule.startFields (r : Rule) : Option (List (String × String)) :=
  (r.entry.bind Entry.opened?).map fun name => r.comments.map ("shape", ·) ++ [("name", name)]

theorem Datalog.Rule.startFields_eq_none {r : Rule} (h : r.entry.bind Entry.opened? = none) :
    r.startFields = none := by
  rw [startFields, h, Option.map_none]

theorem startFields_kindFact (s : Shape) (name : String) :
    (s.kindFact name).startFields = some [("shape", s.id.text), ("name", name)] := by
  rw [Rule.startFields, entry_kindFact]
  rfl

theorem Plain.startFields_eq_none {terms : List Term} {name : String} {r : Rule}
    (h : Plain terms name r) : r.startFields = none := by
  apply Rule.startFields_eq_none
  rw [h.entry_eq_none, Option.bind_none]

namespace Forest

theorem filterMap_startFields_preamble (o : Occurrence) :
    o.preamble.filterMap Rule.startFields = [[("shape", o.shape.id.text), ("name", o.name)]] := by
  rw [filterMap_preamble fun _ r => Plain.startFields_eq_none, List.filterMap_cons_none (by rfl),
    List.filterMap_cons_some (startFields_kindFact ..), List.filterMap_nil]

/-- **The rules of a forest name the starts of its occurrences** in depth-first order. -/
theorem filterMap_startFields_rules {src : ShapeSource} {f : Forest Occurrence}
    (hu : (f.map Occurrence.shape).Unfolded src) :
    f.rules.filterMap Rule.startFields =
      f.preorder.map fun o => [("shape", o.shape.id.text), ("name", o.name)] := by
  induction f with
  | nil => rfl
  | cons o nested rest ih₁ ih₂ =>
    obtain ⟨hroots, hu₁, hu₂⟩ := hu
    have hlink : ∀ p ∈ linkPredicates, ∀ child,
        (about p o.name [child]).startFields = none := by
      intro p hp child
      apply Rule.startFields_eq_none
      rw [entry_link hp]
      rfl
    have hblocks := filterMap_blocks (fun _ => none) (fun _ r hr => Plain.startFields_eq_none hr)
      hlink (length_written hroots)
    have hnested : (blocks o.name o.shape.constraints nested.written).filterMap Rule.startFields =
        nested.rules.filterMap Rule.startFields := by
      rw [hblocks, rules, List.filterMap_flatMap]
      simp
    rw [rules_cons, List.filterMap_append, List.filterMap_append, filterMap_startFields_preamble,
      hnested, ih₁ hu₁, ih₂ hu₂, preorder, List.map_cons, List.map_append]
    rfl

/-- Dropping repeated clauses loses no start, if the names differ. -/
theorem filterMap_startFields_distinct {src : ShapeSource} {f : Forest Occurrence}
    (hu : (f.map Occurrence.shape).Unfolded src)
    (hn : (f.preorder.map Occurrence.name).Nodup) :
    (distinct f.rules).filterMap Rule.startFields =
      f.preorder.map fun o => [("shape", o.shape.id.text), ("name", o.name)] := by
  -- each name has one fact for its kind, although shapes can occur more than once
  have hkinds : (f.rules.filterMap fun r => r.entry.bind Entry.opened?).Nodup := by
    rw [← List.filterMap_filterMap, filterMap_entry_rules hu, filterMap_opened_outline,
      preorder_map]
    exact hn
  have hclause : ∀ r s, sameClause r s → r.entry.bind Entry.opened? = s.entry.bind Entry.opened? :=
    fun r s h => by rw [Rule.entry_congr h]
  rw [filterMap_distinct_of_key hclause (fun r => Rule.startFields_eq_none) hkinds,
    filterMap_startFields_rules hu]

/-- The walk through a forest starts its occurrences in depth-first order. -/
theorem filterMap_started_walk {src : ShapeSource} {f : Forest Occurrence}
    (hu : (f.map Occurrence.shape).Unfolded src) :
    f.walk.filterMap Visit.started? =
      f.preorder.map fun o => [("shape", o.shape.id.text), ("name", o.name)] := by
  have hstarted : ∀ v : Visit, v.started? =
      v.shape?.map fun o => [("shape", o.shape.id.text), ("name", o.name)] := by
    intro v
    cases v <;> rfl
  rw [← filterMap_shape_walk hu, List.map_filterMap]
  exact List.filterMap_congr fun v _ => hstarted v

end Forest

/-! ## Strict runs -/

/-- A visit to a constraint of an occurrence, or one to what it nests. -/
theorem mem_visitsOf {o : Occurrence} {cs : List Constraint} {parts : List (List Visit)} {v : Visit}
    (h : v ∈ visitsOf o cs parts) : (∃ c ∈ cs, v = .constraint o c) ∨ v ∈ parts.flatten := by
  induction cs generalizing parts with
  | nil => cases h
  | cons c cs ih =>
    rw [visitsOf, List.mem_append, List.mem_cons] at h
    rcases h with h | rfl | h
    · exact .inr ((List.take_sublist _ _).flatten.subset h)
    · exact .inl ⟨c, List.mem_cons_self, rfl⟩
    · rcases ih h with ⟨c', hc', rfl⟩ | h
      · exact .inl ⟨c', List.mem_cons_of_mem _ hc', rfl⟩
      · exact .inr ((List.drop_sublist _ _).flatten.subset h)

/-- A constraint that the walk comes to is one of an occurrence of the forest. -/
theorem Forest.mem_of_constraint_mem_walk {f : Forest Occurrence} {o : Occurrence} {c : Constraint}
    (h : .constraint o c ∈ f.walk) : o ∈ f.preorder ∧ c ∈ o.shape.constraints := by
  induction f with
  | nil => cases h
  | cons a nested rest ih₁ ih₂ =>
    rw [walk_cons, List.mem_append, List.mem_cons] at h
    rw [preorder, List.mem_cons, List.mem_append]
    rcases h with (h | h) | h
    · cases h
    · rcases mem_visitsOf h with ⟨c', hc', he⟩ | h
      · obtain ⟨rfl, rfl⟩ := Visit.constraint.inj he
        exact ⟨.inl rfl, hc'⟩
      · exact ⟨.inr (.inl (ih₁ h).1), (ih₁ h).2⟩
    · exact ⟨.inr (.inr (ih₂ h).1), (ih₂ h).2⟩

theorem Nests.writable_of_mem {src : ShapeSource} {options : Options} {around l : List Node}
    {f : Forest Shape} (hf : Nests src options around l f) {s : Shape} (hs : s ∈ f.preorder) :
    s.Writable options := by
  induction hf with
  | nil => cases hs
  | cons _ _ writable _ _ ih₁ ih₂ =>
    rw [Forest.preorder, List.mem_cons, List.mem_append] at hs
    rcases hs with rfl | hs | hs
    · exact writable
    · exact ih₁ hs
    · exact ih₂ hs

theorem Grows.writable_of_mem {src : ShapeSource} {options : Options} {shapes : List Shape}
    {f : Forest Shape} (hf : Grows src options shapes f) {s : Shape} (hs : s ∈ f.preorder) :
    s.Writable options := by
  induction hf with
  | nil => cases hs
  | cons writable inner _ ih =>
    rw [Forest.preorder, List.mem_cons, List.mem_append] at hs
    rcases hs with rfl | hs | hs
    · exact writable
    · exact inner.writable_of_mem hs
    · exact ih hs

/-- **A strict run leaves no constraint out.** -/
theorem Grows.filterMap_skipped_walk {src : ShapeSource} {options : Options} {shapes : List Shape}
    {f : Forest Shape} (hf : Grows src options shapes f) (hs : options.strict) (ns : Namespace) :
    (f.named ns).1.walk.filterMap Visit.skipped? = [] := by
  refine List.filterMap_eq_nil_iff.2 fun v hv => ?_
  cases v with
  | shape o => rfl
  | constraint o c =>
    obtain ⟨ho, hc⟩ := Forest.mem_of_constraint_mem_walk hv
    have hshape : o.shape ∈ f.preorder := by
      rw [← Forest.map_shape_named ns f, Forest.preorder_map]
      exact List.mem_map_of_mem ho
    exact if_neg ((hf.writable_of_mem hshape).supported hs c hc)

/-! ## The log of a run -/

/-- A report that each visit gives at most once, and the end does not, is given along the walk. -/
theorem Compile.logged_compile {src : ShapeSource} {options : Options} {f : Forest Shape}
    (hf : Grows src options src.shapes f) {level : Level} {message : String}
    {details : Visit → Option (List (String × String))}
    (hvisit : ∀ v : Visit, logged level message v.events = (details v).toList)
    (hlast : ∀ n, logged level message [.finished n] = []) :
    logged level message (compile src options).events =
      (f.named .initial).1.walk.filterMap details := by
  rw [events_compile hf, logged_append, hlast, List.append_nil, Forest.journal, logged_walk hvisit]

/-- **The log and the program agree.** The starts of shapes that are reported are those that the
facts for the kinds of shapes name, in their order. On the walk through the named occurrences, which
comes to every occurrence once and to its constraints in their order, one warning is given for each
constraint without a counterpart, and none by a strict run; and one for each regular expression with
flags. The last event reports the number of rules. -/
theorem log_agrees_with_program {src : ShapeSource} {options : Options} {program : Program}
    (h : (compile src options).result = .ok program) :
    logged .debug "translating shape" (compile src options).events =
      program.rules.filterMap Rule.startFields ∧
    (compile src options).events.getLast?.map (fun e => (e.message, e.fields)) =
      some ("translated shapes graph", [("rules", toString program.size)]) ∧
    ∃ f, IsLayout src f ∧
      logged .warning "skipping constraint without Datalog translation"
        (compile src options).events = f.walk.filterMap Visit.skipped? ∧
      (options.strict → f.walk.filterMap Visit.skipped? = []) ∧
      logged .warning "regular expression flags have no Datalog translation, ignoring them"
        (compile src options).events = f.walk.filterMap Visit.unflagged? ∧
      f.walk.filterMap Visit.shape? = f.preorder ∧
      ∀ o ∈ f.preorder, f.walk.filterMap (Visit.constraintOf o) = o.shape.constraints := by
  obtain ⟨f, hf, rfl⟩ := compile_eq_ok_iff.1 h
  have hlayout : IsLayout src (f.named .initial).1 := .named hf.roots_eq hf.unfolded
  have hn : ((f.named .initial).1.preorder.map Occurrence.name).Nodup :=
    (Forest.names_named .initial f).2.1
  refine ⟨?_, ?_, _, hlayout, logged_compile hf (fun v => v.logged_events.2.1) fun _ => rfl,
    fun hs => hf.filterMap_skipped_walk hs _,
    logged_compile hf (fun v => v.logged_events.2.2) fun _ => rfl,
    Forest.filterMap_shape_walk hlayout.unfolded,
    fun o ho => Forest.filterMap_constraintOf_walk hlayout.unfolded (.of_map _ hn) ho⟩
  · rw [logged_compile hf (fun v => v.logged_events.1) fun _ => rfl,
      Forest.filterMap_started_walk hlayout.unfolded, Program.rules_ofRules,
      Forest.filterMap_startFields_distinct hlayout.unfolded hn]
  · rw [events_compile hf, List.getLast?_concat]
    rfl

/-- A shape whose constraints without a counterpart stand around two references to a second shape,
which has one as well. Both have a regular expression with flags. -/
def interleaved : ShapeSource :=
  let flagged : Constraint := .pattern (.literal (.tagged "^x" "en")) (some (.iri "i"))
  let inner : Shape := {
    id := .blank "b"
    names := ["s"]
    isProperty := true
    constraints := [.oneOf [], flagged] }
  let outer : Shape := {
    id := .iri "a"
    names := ["s"]
    constraints := [.closed [], .property [inner.id], .hasValue [], .node [inner.id], flagged] }
  { shapes := [outer], known := [outer, inner] }

theorem log_agrees_with_program_interleaved :
    (∃ program, (compile interleaved { strict := false }).result = .ok program ∧
      program.rules.filterMap Rule.startFields =
        [[("shape", "<a>"), ("name", "s")], [("shape", "_:b"), ("name", "s0")],
          [("shape", "_:b"), ("name", "s1")]] ∧
      (compile interleaved { strict := false }).events.getLast?.map
        (fun e => (e.message, e.fields)) = some ("translated shapes graph", [("rules", "11")]) ∧
      ∃ f, IsLayout interleaved f ∧
        f.walk.filterMap Visit.skipped? =
          [[("name", "s"), ("kind", "closed")], [("name", "s0"), ("kind", "in")],
            [("name", "s"), ("kind", "hasValue")], [("name", "s1"), ("kind", "in")]] ∧
        f.walk.filterMap Visit.unflagged? =
          [[("name", "s0"), ("flags", "<i>")], [("name", "s1"), ("flags", "<i>")],
            [("name", "s"), ("flags", "<i>")]]) ∧
    ∃ f, IsLayout sharedInner f ∧ f.walk.filterMap Visit.skipped? = [] := by
  constructor
  · have h : (compile interleaved { strict := false }).result =
        .ok ((compile interleaved { strict := false }).result.toOption.getD {}) := by
      decide +kernel
    obtain ⟨hstarts, hlast, f, hlayout, hskipped, -, hflags, -⟩ := log_agrees_with_program h
    refine ⟨_, h, ?_, ?_, f, hlayout, ?_, ?_⟩
    · rw [← hstarts]
      decide +kernel
    · rw [hlast]
      decide +kernel
    · rw [← hskipped]
      decide +kernel
    · rw [← hflags]
      decide +kernel
  · have h : (compile sharedInner {}).result =
        .ok ((compile sharedInner {}).result.toOption.getD {}) := by decide +kernel
    obtain ⟨-, -, f, hlayout, -, hstrict, -⟩ := log_agrees_with_program h
    exact ⟨f, hlayout, hstrict rfl⟩

end ShapeRules
