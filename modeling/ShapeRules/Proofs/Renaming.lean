import Mathlib.Data.Set.Function
import ShapeRules.Proofs.UniqueNames

/-!
# Shapes under other names

A shape is written out at each place that refers to it, every time under a new name and with other
names taken. What is written is the same each time, up to the names: one renaming of the shape and
of what it nests turns the rules of one place into those of another, rule by rule. Whether the shape
is refused, and for what, does not depend on the names at all.

## Main definitions

* `Datalog.Rule.renamed`, `Datalog.Program.renamed`: other names for the shapes of a program
* `Compile.Refusal.inShape`: a refusal that names another shape
* `Compile.Alike`: outcomes that differ in their values and in the shape named only

## Main results

* `Forest.written_renamed`: the rules of renamed occurrences
* `Forest.distinct_renamed`: renaming commutes with dropping repetitions
* `Compile.alike_fragment`: a shape is refused under all names or under none
* `compileShape_renamed`: a shape written out under two names
-/

namespace ShapeRules

open Rdf Shacl Datalog Compile

/-! ## Renaming -/

namespace Datalog

/-- An atom about a shape with the shape renamed, and in a link also the shape that is nested. -/
def Atom.renamed (ρ : String → String) : Atom → Atom
  | ⟨p, []⟩ => ⟨p, []⟩
  | ⟨p, [name]⟩ => ⟨p, [ρ name]⟩
  | ⟨p, name :: arg :: args⟩ => ⟨p, ρ name :: (if p ∈ linkPredicates then ρ arg else arg) :: args⟩

/-- **A rule with the shape renamed that it is about.** Its body and comments stay. -/
def Rule.renamed (ρ : String → String) (r : Rule) : Rule :=
  { r with head := r.head.renamed ρ }

/-- A program with its shapes renamed. -/
def Program.renamed (ρ : String → String) (p : Program) : Program :=
  { library := p.library, rules := p.rules.map (Rule.renamed ρ) }

end Datalog

/-- An occurrence under another name. -/
def Occurrence.renamed (ρ : String → String) (o : Occurrence) : Occurrence :=
  { o with name := ρ o.name }

section Rules

variable (ρ : String → String)

theorem Datalog.Atom.renamed_of_not_link {p : Predicate} (hp : p ∉ linkPredicates) (name : String)
    (args : List String) : (⟨p, name :: args⟩ : Atom).renamed ρ = ⟨p, ρ name :: args⟩ := by
  cases args with
  | nil => rfl
  | cons arg args => rw [renamed, if_neg hp]

theorem renamed_about {p : Predicate} (hp : p ∉ linkPredicates) (name : String)
    (args : List String) : (about p name args).renamed ρ = about p (ρ name) args := by
  rw [about, Rule.renamed, Rule.fact, Atom.renamed_of_not_link ρ hp]
  rfl

theorem renamed_link {p : Predicate} (hp : p ∈ linkPredicates) (name child : String) :
    (about p name [child]).renamed ρ = about p (ρ name) [ρ child] := by
  rw [about, Rule.renamed, Rule.fact, Atom.renamed, if_pos hp]
  rfl

theorem map_renamed_facts {p : Predicate} (hp : p ∉ linkPredicates) (name : String)
    (terms : List Term) : (facts p name terms).map (Rule.renamed ρ) = facts p (ρ name) terms := by
  rw [facts, List.map_flatMap]
  simp only [List.map_map, Function.comp_def, renamed_about ρ hp]
  rfl

theorem map_renamed_abouts {α : Type} {p : Predicate} (hp : p ∉ linkPredicates) (name : String)
    (arg : α → String) (l : List α) :
    (l.map fun a => about p name [arg a]).map (Rule.renamed ρ) =
      l.map fun a => about p (ρ name) [arg a] := by
  simp only [List.map_map, Function.comp_def, renamed_about ρ hp]

theorem map_renamed_memberFacts {mark member : Predicate} (hmark : mark ∉ linkPredicates)
    (hmember : member ∉ linkPredicates) (name : String) (shapes : List Node) :
    (memberFacts mark member name shapes).map (Rule.renamed ρ) =
      memberFacts mark member (ρ name) shapes := by
  rw [memberFacts, List.map_cons, renamed_about ρ hmark, map_renamed_abouts ρ hmember]
  rfl

theorem map_renamed_target (name : String) (target : Target) :
    (target.statements name).map (Rule.renamed ρ) = target.statements (ρ name) := by
  cases target with
  | node t => exact (List.map_map ..).trans (List.map_congr_left fun c _ => rfl)
  | implicitClass iri => rfl
  | _ => exact List.map_map ..

/-- **What a constraint states of a shape** under another name. -/
theorem map_renamed_statements (name : String) (c : Constraint) :
    (c.statements name).map (Rule.renamed ρ) = c.statements (ρ name) := by
  cases c with
  | minCount n =>
    simp only [Constraint.statements]
    split <;> rfl
  | maxCount n => rfl
  | not shapes => exact map_renamed_abouts ρ (by decide) name _ shapes
  | and shapes => exact map_renamed_memberFacts ρ (by decide) (by decide) name shapes
  | or shapes => exact map_renamed_memberFacts ρ (by decide) (by decide) name shapes
  | xone shapes => exact map_renamed_memberFacts ρ (by decide) (by decide) name shapes
  | equals iris => exact map_renamed_abouts ρ (by decide) name _ iris
  | disjoint iris => exact map_renamed_abouts ρ (by decide) name _ iris
  | lessThan iris => exact map_renamed_abouts ρ (by decide) name _ iris
  | lessThanOrEquals iris => exact map_renamed_abouts ρ (by decide) name _ iris
  | datatype iri => rfl
  | nodeKind iri => rfl
  | property shapes => rfl
  | node shapes => rfl
  | qualifiedValueShape shapes min max isDisjoint =>
    simp only [Constraint.statements, List.map_append]
    rw [map_renamed_abouts ρ (by decide), map_renamed_abouts ρ (by decide)]
    congr 1
    split <;> rfl
  | languageIn ts =>
    rw [Constraint.statements, List.map_append, map_renamed_facts ρ (by decide)]
    rfl
  | uniqueLang => rfl
  | closed ignored => rfl
  | hasValue ts => rfl
  | oneOf ts => rfl
  | _ => exact map_renamed_facts ρ (by decide) name _

/-- The rules that a shape starts with under another name. -/
theorem map_renamed_preamble (o : Occurrence) :
    o.preamble.map (Rule.renamed ρ) = (o.renamed ρ).preamble := by
  have htargets : (o.shape.targets.flatMap (Target.statements o.name)).map (Rule.renamed ρ) =
      o.shape.targets.flatMap (Target.statements (ρ o.name)) := by
    rw [List.map_flatMap]
    exact List.flatMap_congr fun target _ => map_renamed_target ρ o.name target
  have hdeactivated :
      (if o.shape.deactivated then [about .deactivated o.name []] else []).map (Rule.renamed ρ) =
        if o.shape.deactivated then [about .deactivated (ρ o.name) []] else [] := by
    split <;> rfl
  simp only [Occurrence.preamble, Shape.metadata, List.map_append, htargets, hdeactivated,
    map_renamed_facts ρ (show Predicate.description ∉ linkPredicates by decide),
    map_renamed_facts ρ (show Predicate.message ∉ linkPredicates by decide)]
  rfl

/-- A nested shape with its rules, under other names. -/
def renamedPart (part : String × List Rule) : String × List Rule :=
  (ρ part.1, part.2.map (Rule.renamed ρ))

theorem map_renamed_linked {link : Predicate} (h : link ∈ linkPredicates) (name : String)
    (parts : List (String × List Rule)) :
    (linked name link parts).map (Rule.renamed ρ) =
      linked (ρ name) link (parts.map (renamedPart ρ)) := by
  rw [linked, linked, List.map_flatMap, List.flatMap_map]
  refine List.flatMap_congr fun part _ => ?_
  rw [List.map_append, List.map_singleton, renamed_link ρ h]
  rfl

theorem map_renamed_blocks (name : String) (cs : List Constraint)
    (parts : List (String × List Rule)) :
    (blocks name cs parts).map (Rule.renamed ρ) =
      blocks (ρ name) cs (parts.map (renamedPart ρ)) := by
  induction cs generalizing parts with
  | nil => rfl
  | cons c cs ih =>
    rw [blocks, blocks, List.map_append, List.map_append, ih, map_renamed_statements,
      map_renamed_linked ρ (link_mem_linkPredicates c), List.map_take, List.map_drop]

/-- **The rules of renamed occurrences** are the renamed rules. -/
theorem Forest.written_renamed (f : Forest Occurrence) :
    (f.map (Occurrence.renamed ρ)).written = f.written.map (renamedPart ρ) := by
  induction f with
  | nil => rfl
  | cons o nested rest ih₁ ih₂ =>
    rw [map, written, written, ih₁, ih₂, List.map_cons, renamedPart, List.map_append,
      map_renamed_preamble, map_renamed_blocks]
    rfl

end Rules

/-! ## Renaming keeps rules apart -/

/-- A rule about a shape has its name first, and then, in a link, that of a nested shape. -/
theorem Form.args {terms : List Term} {names : List String} {name : String} {r : Rule}
    (h : Form terms names name r) : ∃ args, r.head.args = name :: args ∧
      (r.head.predicate ∈ linkPredicates → ∃ child ∈ names, args = [child]) := by
  -- only links have the predicate of a link
  have hmark : ∀ p ∈ markPredicates, p ∉ linkPredicates := by decide
  have hcount : ∀ p ∈ countPredicates, p ∉ linkPredicates := by decide
  have hvalue : ∀ p ∈ valuePredicates, p ∉ linkPredicates := by decide
  have hkind : ∀ p ∈ kindPredicates, p ∉ linkPredicates := by decide
  cases h with
  | plain h =>
    cases h with
    | mark mem => exact ⟨_, rfl, fun hp => absurd hp (hmark _ mem)⟩
    | count mem pos => exact ⟨_, rfl, fun hp => absurd hp (hcount _ mem)⟩
    | value mem constant => exact ⟨_, rfl, fun hp => absurd hp (hvalue _ mem)⟩
    | select constant mem =>
      exact ⟨_, rfl, fun hp => absurd hp (show Predicate.target ∉ linkPredicates by decide)⟩
  | severity iri =>
    exact ⟨_, rfl, fun hp => absurd hp (show Predicate.severity ∉ linkPredicates by decide)⟩
  | kind mem comment => exact ⟨_, rfl, fun hp => absurd hp (hkind _ mem)⟩
  | link mem nested => exact ⟨_, rfl, fun _ => ⟨_, nested, rfl⟩⟩

section Distinct

variable {ρ : String → String} {names : List String}

/-- Rules about shapes are the same once they are the same under new names. -/
theorem toClause_eq_of_renamed (hρ : Set.InjOn ρ {name | name ∈ names}) {r s : Rule}
    {terms terms' : List Term} {name name' : String} (hname : name ∈ names)
    (hname' : name' ∈ names) (hr : Form terms names name r) (hs : Form terms' names name' s)
    (h : (r.renamed ρ).toClause = (s.renamed ρ).toClause) : r.toClause = s.toClause := by
  obtain ⟨args, hargs, hlink⟩ := hr.args
  obtain ⟨args', hargs', hlink'⟩ := hs.args
  obtain ⟨⟨⟨p, _⟩, body⟩, comments⟩ := r
  obtain ⟨⟨⟨p', _⟩, body'⟩, comments'⟩ := s
  simp only at hargs hargs' hlink hlink'
  subst hargs hargs'
  simp only [Rule.renamed, Clause.mk.injEq] at h ⊢
  obtain ⟨hhead, rfl⟩ := h
  have hp : p = p' := by
    have hpredicate := congrArg Atom.predicate hhead
    cases args <;> cases args' <;> exact hpredicate
  subst hp
  refine ⟨?_, rfl⟩
  by_cases hp : p ∈ linkPredicates
  · -- a link has two names, and both are found again
    obtain ⟨child, hchild, rfl⟩ := hlink hp
    obtain ⟨child', hchild', rfl⟩ := hlink' hp
    simp only [Atom.renamed, if_pos hp, Atom.mk.injEq, List.cons.injEq, true_and, and_true] at hhead
    rw [hρ hname hname' hhead.1, hρ hchild hchild' hhead.2]
  · rw [Atom.renamed_of_not_link ρ hp, Atom.renamed_of_not_link ρ hp, Atom.mk.injEq,
      List.cons.injEq] at hhead
    rw [hρ hname hname' hhead.2.1, hhead.2.2]

/-- A map that keeps clauses apart keeps what is distinct. -/
theorem Datalog.distinct_map {f : Rule → Rule} {l : List Rule}
    (h : ∀ r ∈ l, ∀ s ∈ l, sameClause (f r) (f s) = sameClause r s) :
    distinct (l.map f) = (distinct l).map f := by
  induction l using distinct_induction with
  | nil => rfl
  | cons r l ih =>
    have hfilter : (l.map f).filter (fun s => !sameClause s (f r)) =
        (l.filter fun s => !sameClause s r).map f := by
      rw [List.filter_map]
      congr 1
      refine List.filter_congr fun s hs => ?_
      rw [Function.comp_apply, h s (List.mem_cons_of_mem r hs) r List.mem_cons_self]
    rw [List.map_cons, distinct_cons, hfilter, distinct_cons, List.map_cons, ih]
    intro s hs t ht
    exact h s (List.mem_cons_of_mem r (List.mem_filter.1 hs).1) t
      (List.mem_cons_of_mem r (List.mem_filter.1 ht).1)

/-- **Renaming commutes with dropping repetitions,** if it keeps the names of the shapes apart. -/
theorem Forest.distinct_renamed {f : Forest Occurrence}
    (hρ : Set.InjOn ρ {name | name ∈ f.preorder.map Occurrence.name}) :
    distinct (f.rules.map (Rule.renamed ρ)) = (distinct f.rules).map (Rule.renamed ρ) := by
  apply distinct_map
  intro r hr s hs
  obtain ⟨o, ho, hform⟩ := exists_form_of_mem_rules hr
  obtain ⟨o', ho', hform'⟩ := exists_form_of_mem_rules hs
  refine decide_eq_decide.2 ⟨?_, ?_⟩
  · exact toClause_eq_of_renamed hρ (List.mem_map_of_mem ho) (List.mem_map_of_mem ho') hform hform'
  · intro h
    rw [Rule.renamed, Rule.renamed, h]

end Distinct

/-! ## The renaming between two lists of names -/

theorem exists_map_eq {l m : List String} (hl : l.Nodup) (h : l.length = m.length) :
    ∃ ρ : String → String, l.map ρ = m := by
  induction l generalizing m with
  | nil => exact ⟨id, (List.length_eq_zero_iff.1 h.symm).symm⟩
  | cons a l ih =>
    obtain _ | ⟨b, m⟩ := m
    · cases h
    obtain ⟨ha, hl⟩ := List.nodup_cons.1 hl
    obtain ⟨ρ, rfl⟩ := ih hl (Nat.succ.inj h)
    refine ⟨fun x => if x = a then b else ρ x, ?_⟩
    rw [List.map_cons, if_pos rfl]
    refine congrArg _ (List.map_congr_left fun x hx => if_neg ?_)
    rintro rfl
    exact ha hx

namespace Forest

theorem length_preorder_named (ns : Namespace) (f : Forest Shape) :
    (f.named ns).1.preorder.length = f.preorder.length := by
  have h := congrArg (fun g => (preorder g).length) (map_shape_named ns f)
  simpa only [preorder_map, List.length_map] using h

/-- A renaming leaves the shapes of a forest as they are. -/
theorem map_shape_renamed (ρ : String → String) (f : Forest Occurrence) :
    (f.map (Occurrence.renamed ρ)).map Occurrence.shape = f.map Occurrence.shape := by
  induction f with
  | nil => rfl
  | cons o nested rest ih₁ ih₂ => simp [map, ih₁, ih₂, Occurrence.renamed]

/-- Two ways of naming a forest differ by a renaming. -/
theorem named_eq_renamed {ns ns' : Namespace} {f : Forest Shape} {ρ : String → String}
    (h : ((f.named ns).1.preorder.map Occurrence.name).map ρ =
      (f.named ns').1.preorder.map Occurrence.name) :
    (f.named ns').1 = (f.named ns).1.map (Occurrence.renamed ρ) := by
  refine eq_of_map_eq (h := Occurrence.shape) (k := Occurrence.name) ?_ ?_ ?_
  · rintro ⟨_, _⟩ ⟨_, _⟩ rfl rfl
    rfl
  · rw [map_shape_renamed, map_shape_named, map_shape_named]
  · rw [← h, preorder_map, List.map_map, List.map_map]
    rfl

end Forest

/-! ## Refusals under other names -/

namespace Compile

/-- A refusal that names another shape. -/
def Refusal.inShape (name : String) : Refusal → Refusal
  | .unsupportedTerm _ parameter term => .unsupportedTerm name parameter term
  | .unsupportedConstraint _ parameter => .unsupportedConstraint name parameter
  | .cyclicReference _ reference => .cyclicReference name reference
  | .unknownShape _ reference => .unknownShape name reference
  | .malformedName text => .malformedName text

/-- **Outcomes that differ in their values and in the shape named only.** -/
inductive Alike {α β : Type} : Except Refusal α → Except Refusal β → Prop
  | ok (a : α) (b : β) : Alike (.ok a) (.ok b)
  | error (e : Refusal) (name : String) : Alike (.error e) (.error (e.inShape name))

namespace Alike

variable {α β γ δ : Type}

theorem bind {x : Except Refusal α} {y : Except Refusal β} {f : α → Except Refusal γ}
    {g : β → Except Refusal δ} (h : Alike x y) (hfg : ∀ a b, Alike (f a) (g b)) :
    Alike (x >>= f) (y >>= g) := by
  cases h with
  | ok a b => exact hfg a b
  | error e name => exact .error e name

theorem mapM {f : α → Except Refusal β} {g : α → Except Refusal γ} (h : ∀ a, Alike (f a) (g a))
    (l : List α) : Alike (l.mapM f) (l.mapM g) := by
  induction l with
  | nil => exact .ok _ _
  | cons a l ih =>
    rw [List.mapM_cons, List.mapM_cons]
    exact (h a).bind fun _ _ => ih.bind fun _ _ => .ok _ _

/-- Runs along a list are alike if their steps are, whatever state they are in. -/
theorem foldlM {σ τ : Type} {f : σ → α → Traced Refusal σ} {g : τ → α → Traced Refusal τ}
    (h : ∀ s t a, Alike (f s a).result (g t a).result) (l : List α) (s : σ) (t : τ) :
    Alike (l.foldlM f s).result (l.foldlM g t).result := by
  induction l generalizing s t with
  | nil => exact .ok s t
  | cons a l ih =>
    rw [List.foldlM_cons, List.foldlM_cons, Traced.result_bind, Traced.result_bind]
    exact (h s t a).bind fun s t => ih s t

theorem exists_ok_iff {x : Except Refusal α} {y : Except Refusal β} (h : Alike x y) :
    (∃ a, x = .ok a) ↔ ∃ b, y = .ok b := by
  cases h with
  | ok a b => exact ⟨fun _ => ⟨b, rfl⟩, fun _ => ⟨a, rfl⟩⟩
  | error e name => simp

theorem eq_inShape {x : Except Refusal α} {y : Except Refusal β} (h : Alike x y) {e e' : Refusal}
    (hx : x = .error e) (hy : y = .error e') : ∃ name, e' = e.inShape name := by
  cases h with
  | ok a b => cases hx
  | error e₀ name =>
    cases hx
    exact ⟨name, (Except.error.inj hy).symm⟩

end Alike

section Outcome

variable (name name' : String)

theorem alike_constant (parameter : Vocab) (t : Term) :
    Alike (constant name parameter t) (constant name' parameter t) := by
  cases t with
  | node n => exact .ok _ _
  | literal l => exact .ok _ _
  | triple s p o => exact .error (.unsupportedTerm name parameter (.triple s p o)) name'

theorem alike_eachRule (parameter : Vocab) (predicate : Predicate) (terms : List Term) :
    Alike (eachRule name parameter predicate terms) (eachRule name' parameter predicate terms) :=
  .mapM (fun t => (alike_constant name name' parameter t).bind fun _ _ => .ok _ _) terms

theorem alike_metadataRules (s : Shape) :
    Alike (metadataRules name s) (metadataRules name' s) :=
  (alike_eachRule name name' ..).bind fun _ _ => (alike_eachRule name name' ..).bind fun _ _ =>
    .ok _ _

theorem alike_targetRules (s : Shape) : Alike (targetRules name s) (targetRules name' s) := by
  refine .mapM (fun target => ?_) s.targets
  cases target with
  | _ => exact (alike_constant name name' ..).bind fun _ _ => .ok _ _

theorem alike_logicalRules (parameter : Vocab) (mark member : Predicate) (shapes : List Node) :
    Alike (logicalRules name parameter mark member shapes)
      (logicalRules name' parameter mark member shapes) :=
  (alike_eachRule name name' ..).bind fun _ _ => .ok _ _

theorem alike_factsOf (c : Constraint) : Alike (factsOf name c) (factsOf name' c) := by
  cases c with
  | minCount n => exact .ok _ _
  | maxCount n => exact .ok _ _
  | and shapes => exact alike_logicalRules ..
  | or shapes => exact alike_logicalRules ..
  | xone shapes => exact alike_logicalRules ..
  | languageIn ts => exact (alike_eachRule name name' ..).bind fun _ _ => .ok _ _
  | uniqueLang => exact .ok _ _
  | property shapes => exact .ok _ _
  | node shapes => exact .ok _ _
  | qualifiedValueShape shapes min max disjoint => exact .ok _ _
  | closed ignored => exact .ok _ _
  | hasValue ts => exact .ok _ _
  | oneOf ts => exact .ok _ _
  | _ => exact alike_eachRule ..

theorem alike_constraintRules (options : Options) (c : Constraint) :
    Alike (constraintRules options name c).result (constraintRules options name' c).result := by
  rw [result_constraintRules, result_constraintRules]
  split
  · exact .error (.unsupportedConstraint name c.parameter) name'
  · exact alike_factsOf name name' c

variable {src : ShapeSource} {options : Options} {around : List Node}

/-- A reference is refused under both names or under none, if what it stands for is. -/
theorem alike_follow {link : Predicate} {r : Node} (s t : Program × Namespace)
    (ih : ∀ child, r ∉ around → src.resolve r = some child → ∀ name name' ns ns',
      Alike (fragment src options around name child ns).result
        (fragment src options around name' child ns').result) :
    Alike (follow src options name around link s r).result
      (follow src options name' around link t r).result := by
  rw [follow, follow]
  by_cases hr : r ∈ around
  · rw [if_pos hr, if_pos hr]
    exact .error (.cyclicReference name r) name'
  · rw [if_neg hr, if_neg hr]
    cases hs : src.resolve r with
    | none => exact .error (.unknownShape name r) name'
    | some child =>
      simp only [Traced.result_bind]
      exact (ih child hr hs _ _ _ _).bind fun _ _ => .ok _ _

theorem alike_constraintStep {c : Constraint} (s t : Program × Namespace)
    (ih : ∀ r child, r ∉ around → src.resolve r = some child → ∀ name name' ns ns',
      Alike (fragment src options around name child ns).result
        (fragment src options around name' child ns').result) :
    Alike (constraintStep options name (follow src options name around) s c).result
      (constraintStep options name' (follow src options name' around) t c).result := by
  have hfollow : ∀ (link : Predicate) (references : List Node),
      Alike (references.foldlM (follow src options name around link) s).result
        (references.foldlM (follow src options name' around link) t).result := by
    intro link references
    apply Alike.foldlM
    intro s t r
    exact alike_follow name name' s t (ih r)
  by_cases hc : c.isNesting
  · cases c with
    | property shapes => exact hfollow .propertyConstr shapes
    | node shapes => exact hfollow .nodeConstr shapes
    | qualifiedValueShape shapes min max disjoint =>
      rw [constraintStep, constraintStep, Traced.result_bind, Traced.result_bind]
      exact (hfollow .qualifiedValueConstr shapes).bind fun _ _ => .ok _ _
    | _ => cases hc
  · rw [Bool.not_eq_true] at hc
    rw [constraintStep_leaf hc, constraintStep_leaf hc, Traced.result_bind, Traced.result_bind]
    exact (alike_constraintRules name name' options c).bind fun _ _ => .ok _ _

end Outcome

/-- **A shape is refused under all names or under none,** and for the same reason. -/
theorem alike_fragment (src : ShapeSource) (options : Options) (ancestors : List Node)
    (shape : Shape) : ∀ name name' ns ns',
      Alike (fragment src options ancestors name shape ns).result
        (fragment src options ancestors name' shape ns').result := by
  -- Induction along the nesting: at each step the two runs are in unrelated states.
  induction ancestors, shape using nesting_induction src with
  | step ancestors shape ih =>
    intro name name' ns ns'
    rw [fragment_eq, fragment_eq]
    simp only [Traced.result_bind, Traced.result_report, Traced.result_ofExcept]
    refine (Alike.ok () ()).bind fun _ _ => ?_
    refine (alike_metadataRules name name' shape).bind fun _ _ => ?_
    refine (alike_targetRules name name' shape).bind fun _ _ => ?_
    apply Alike.foldlM
    intro s t c
    exact alike_constraintStep name name' s t ih

theorem result_compileShape {src : ShapeSource} {options : Options} {name : String}
    (h : isIdentifier name) (shape : Shape) (ns : Namespace) :
    (compileShape src options name shape ns).result =
      (fragment src options [] name shape ns).result := by
  simp [compileShape, h]

end Compile

/-! ## A shape under two names -/

namespace Forest

theorem nodup_cons_named {ns : Namespace} {n : String} (hn : n ∈ ns.names) (f : Forest Shape) :
    (n :: (f.named ns).1.preorder.map Occurrence.name).Nodup := by
  obtain ⟨-, hnodup, hfresh, -⟩ := names_named ns f
  refine List.nodup_cons.2 ⟨?_, hnodup⟩
  intro hmem
  -- the given name is taken, so none of the new ones is the same
  obtain ⟨o, ho, rfl⟩ := List.mem_map.1 hmem
  exact hfresh o ho hn

/-- A tree under one name and under another: its rules are the same up to a renaming. -/
theorem tree_renamed {ns ns' : Namespace} {f : Forest Shape} {ρ : String → String} {n n' : String}
    (h : (n :: (f.named ns).1.preorder.map Occurrence.name).map ρ =
      n' :: (f.named ns').1.preorder.map Occurrence.name) (shape : Shape) :
    cons ⟨n', shape⟩ (f.named ns').1 nil =
      (cons ⟨n, shape⟩ (f.named ns).1 nil).map (Occurrence.renamed ρ) := by
  obtain ⟨hroot, hrest⟩ := List.cons.inj h
  rw [map, map, ← named_eq_renamed hrest, Occurrence.renamed, hroot]

theorem rules_renamed (ρ : String → String) (f : Forest Occurrence) :
    (f.map (Occurrence.renamed ρ)).rules = f.rules.map (Rule.renamed ρ) := by
  rw [rules, rules, written_renamed, List.flatMap_map, List.map_flatMap]
  rfl

end Forest

/-- The rules of a shape and of what it nests, under one name and under another. -/
theorem Compile.fragment_renamed {src : ShapeSource} {options : Options} {shape : Shape}
    {n n' : String} {ns ns' : Namespace} {t t' : Program × Namespace} (hn : n ∈ ns.names)
    (hn' : n' ∈ ns'.names) (h : (fragment src options [] n shape ns).result = .ok t)
    (h' : (fragment src options [] n' shape ns').result = .ok t') :
    ∃ nested ρ, t.2.names = ns.names ++ nested ∧ t'.2.names = ns'.names ++ nested.map ρ ∧
      Set.InjOn ρ {name | name ∈ n :: nested} ∧ ρ n = n' ∧ t'.1 = t.1.renamed ρ := by
  obtain ⟨f, -, hf, rfl⟩ := (gives src options [] shape n ns t).1 h
  obtain ⟨f', -, hf', rfl⟩ := (gives src options [] shape n' ns' t').1 h'
  -- both runs unfold the shape into the same forest
  obtain rfl : f = f' :=
    hf.unfolded.unique hf'.unfolded (Option.some.inj (hf.mapM_resolve.symm.trans hf'.mapM_resolve))
  -- the names stand for each other in depth-first order
  obtain ⟨ρ, hρ⟩ := exists_map_eq (Forest.nodup_cons_named hn f)
    (m := n' :: (f.named ns').1.preorder.map Occurrence.name)
    (by simp [Forest.length_preorder_named])
  have hinj : Set.InjOn ρ {name | name ∈ n :: (f.named ns).1.preorder.map Occurrence.name} :=
    fun a ha b hb => List.inj_on_of_nodup_map (hρ ▸ Forest.nodup_cons_named hn' f) ha hb
  have hpreorder : (Forest.cons ⟨n, shape⟩ (f.named ns).1 .nil).preorder.map Occurrence.name =
      n :: (f.named ns).1.preorder.map Occurrence.name := by
    simp [Forest.preorder]
  obtain ⟨hroot, hrest⟩ := List.cons.inj hρ
  refine ⟨_, ρ, (Forest.names_named ns f).1, hrest ▸ (Forest.names_named ns' f).1, hinj, hroot, ?_⟩
  rw [← Forest.rules_tree ⟨n, shape⟩, ← Forest.rules_tree ⟨n', shape⟩, Forest.tree_renamed hρ,
    Forest.rules_renamed, Program.ofRules_eq, Program.ofRules_eq,
    Forest.distinct_renamed (hpreorder ▸ hinj)]
  rfl

/-- **A shape written out under two names.** It is written out under both or refused under both. In
the first case one renaming, which keeps the names of the first run apart, turns the rules of the
first run into those of the second; in the other case the refusals differ in the shape that they
name. -/
theorem compileShape_renamed (src : ShapeSource) (options : Options) (shape : Shape)
    {n n' : String} {ns ns' : Namespace} (hi : isIdentifier n) (hi' : isIdentifier n')
    (hn : n ∈ ns) (hn' : n' ∈ ns') :
    ((∃ t, (compileShape src options n shape ns).result = .ok t) ↔
      ∃ t', (compileShape src options n' shape ns').result = .ok t') ∧
    (∀ t t', (compileShape src options n shape ns).result = .ok t →
      (compileShape src options n' shape ns').result = .ok t' →
      ∃ nested ρ, t.2.names = ns.names ++ nested ∧ t'.2.names = ns'.names ++ nested.map ρ ∧
        Set.InjOn ρ {name | name ∈ n :: nested} ∧ ρ n = n' ∧ t'.1 = t.1.renamed ρ) ∧
    ∀ e e', (compileShape src options n shape ns).result = .error e →
      (compileShape src options n' shape ns').result = .error e' →
      ∃ name, e' = e.inShape name := by
  rw [result_compileShape hi, result_compileShape hi']
  have halike := alike_fragment src options [] shape n n' ns ns'
  exact ⟨halike.exists_ok_iff, fun _ _ h h' => fragment_renamed hn hn' h h',
    fun _ _ h h' => halike.eq_inShape h h'⟩

/-- A shape that is refused because of one that it nests. -/
def refusedOuter : Shape where
  id := .iri "r"
  constraints := [.node [.blank "b", .iri "a"], .property [.iri "none"]]

/-- Another name for the first shape, where one of those that it led to is taken. -/
def otherTaken : Namespace := ⟨["a?b0", "s"], by decide⟩

theorem compileShape_renamed_collidingNames :
    (∃ t t', (compileShape collidingNames {} "a?b" collidingFirst collidingTaken).result = .ok t ∧
      (compileShape collidingNames {} "s" collidingFirst otherTaken).result = .ok t' ∧
      t.1.size = 8 ∧ t.2.names = ["a?b", "a?b0", "a?b1"] ∧
      t'.2.names = ["a?b0", "s", "a?b", "a?b1"] ∧
      ∃ ρ, ρ "a?b" = "s" ∧ t'.1 = t.1.renamed ρ) ∧
    ∃ e e', (compileShape collidingNames {} "a?b" refusedOuter collidingTaken).result = .error e ∧
      (compileShape collidingNames {} "s" refusedOuter otherTaken).result = .error e' ∧
      ∃ name, e' = e.inShape name := by
  have hi : isIdentifier "a?b" := by decide
  have hi' : isIdentifier "s" := by decide
  have hn : "a?b" ∈ collidingTaken := by decide
  have hn' : "s" ∈ otherTaken := by decide
  constructor
  · have h : (compileShape collidingNames {} "a?b" collidingFirst collidingTaken).result =
        .ok ((compileShape collidingNames {} "a?b" collidingFirst
          collidingTaken).result.toOption.getD ({}, .initial)) := by decide +kernel
    have h' : (compileShape collidingNames {} "s" collidingFirst otherTaken).result =
        .ok ((compileShape collidingNames {} "s" collidingFirst
          otherTaken).result.toOption.getD ({}, .initial)) := by decide +kernel
    obtain ⟨-, hok, -⟩ := compileShape_renamed collidingNames {} collidingFirst hi hi' hn hn'
    obtain ⟨nested, ρ, -, -, -, hroot, hprogram⟩ := hok _ _ h h'
    exact ⟨_, _, h, h', by decide +kernel, by decide +kernel, by decide +kernel, ρ, hroot, hprogram⟩
  · have h : (compileShape collidingNames {} "a?b" refusedOuter collidingTaken).result =
        .error (.unknownShape "a?b" (.iri "none")) := by decide +kernel
    have h' : (compileShape collidingNames {} "s" refusedOuter otherTaken).result =
        .error (.unknownShape "s" (.iri "none")) := by decide +kernel
    obtain ⟨-, -, herror⟩ := compileShape_renamed collidingNames {} refusedOuter hi hi' hn hn'
    exact ⟨_, _, h, h', herror _ _ h h'⟩

end ShapeRules
