import ShapeRules.Proofs.Calls
import ShapeRules.Proofs.FreshNames
import ShapeRules.Proofs.Ownership

/-!
# Unique names

No two occurrences of a run have the same name, so rules of different occurrences never have the
same clause. When the run joins two programs, the one it has is about names that are taken and the
one of a call about names that are new, so nothing is dropped.

## Main results

* `Compile.Joined.rules_extend`: programs are joined without loss
* `names_unique_and_rules_owned`: the names and rules of a run
-/

namespace ShapeRules

open Rdf Shacl Datalog Compile

/-! ## Programs that are joined -/

/-- Programs whose rules are about different names are joined without loss. -/
theorem rules_extend_of_owner {p : Program} {names : List String} {library : String}
    {l : List Rule} (hp : ∀ r ∈ p.rules, ∃ name ∈ names, r.owner = some name)
    (hl : ∀ r ∈ l, ∃ name, name ∉ names ∧ r.owner = some name) :
    (p.extend (.ofRules library l)).rules = p.rules ++ (Program.ofRules library l).rules := by
  apply Program.rules_extend_ofRules
  intro r hr
  obtain ⟨name, hname, h⟩ := hl r hr
  apply Bool.eq_false_iff.2
  intro hclause
  -- a rule with the same clause would be about the same name
  obtain ⟨s, hs, hsame⟩ := Program.hasClause_iff.1 hclause
  obtain ⟨name', hname', h'⟩ := hp s hs
  have howner : s.owner = r.owner := by rw [Rule.owner, Rule.owner, hsame]
  rw [h, h', Option.some.injEq] at howner
  exact hname (howner ▸ hname')

namespace Forest

/-- The names of a forest are different, new and identifiers, and they are taken afterwards. -/
theorem names_named (ns : Namespace) (f : Forest Shape) :
    (f.named ns).2.names = ns.names ++ (f.named ns).1.preorder.map Occurrence.name ∧
      ((f.named ns).1.preorder.map Occurrence.name).Nodup ∧
      (∀ o ∈ (f.named ns).1.preorder, o.name ∉ ns.names) ∧
      ∀ o ∈ (f.named ns).1.preorder, isIdentifier o.name := by
  obtain ⟨hnames, -, hnodup, hfresh, hident⟩ :=
    ns.allocateAll_spec (f.preorder.map Shape.preferredName)
  rw [allocateAll_preorder] at hnames hnodup hfresh hident
  exact ⟨hnames, hnodup, fun o ho => hfresh _ (List.mem_map_of_mem ho),
    fun o ho => hident _ (List.mem_map_of_mem ho)⟩

/-- The rules of a forest are about names that it takes. -/
theorem exists_owner_named {ns : Namespace} {f : Forest Shape} {part : String × List Rule}
    (hp : part ∈ (f.named ns).1.written) {r : Rule} (hr : r ∈ part.2) :
    ∃ name, name ∉ ns.names ∧ name ∈ (f.named ns).2.names ∧ r.owner = some name := by
  obtain ⟨hnames, -, hfresh, -⟩ := names_named ns f
  obtain ⟨o, ho, h⟩ := exists_owner_of_mem_written hp hr
  refine ⟨o.name, hfresh o ho, ?_, h⟩
  rw [hnames]
  exact List.mem_append_right _ (List.mem_map_of_mem ho)

end Forest

namespace Compile

variable {src : ShapeSource} {options : Options}

/-- What a call under a fresh name gives is about names that were not taken before. -/
theorem Call.exists_owner_of_fresh {ancestors : List Node} {shape : Shape} {ns : Namespace}
    {result : Program × Namespace}
    (h : ((Call.fresh ancestors shape ns).run src options).result = .ok result) :
    ∃ l, result.1 = .ofRules options.library l ∧
      ∀ r ∈ l, ∃ name, name ∉ ns.names ∧ r.owner = some name := by
  obtain ⟨nested, -, -, rfl⟩ := (gives src options ancestors shape _ _ result).1 h
  refine ⟨_, rfl, ?_⟩
  intro r hr
  -- the name of the call is new, and the names of what it nests are new even after it is taken
  have hself : r.owner = some (ns.allocate shape.preferredName).1 →
      ∃ name, name ∉ ns.names ∧ r.owner = some name :=
    fun h => ⟨_, ns.allocate_not_mem shape.preferredName, h⟩
  rcases List.mem_append.1 hr with hr | hr
  · exact hself (owner_of_mem_preamble hr)
  · rcases mem_blocks hr with hr | ⟨part, hp, hr⟩
    · exact hself hr
    · obtain ⟨name, hname, -, h⟩ := Forest.exists_owner_named hp hr
      exact ⟨name, fun hmem => hname (List.mem_append_left _ hmem), h⟩

/-- A call that comes to a reference has rules about names that are taken. -/
theorem Call.Reaches.exists_owner {c : Call} {state : Program × Namespace} {reference : Node}
    (hc : c.name ∈ c.ns.names) (h : c.Reaches src options state reference) :
    ∀ r ∈ state.1.rules, ∃ name ∈ state.2.names, r.owner = some name := by
  obtain ⟨f, g, before, k, hprogram, hns⟩ := h.eq_ofRules
  have hf := (Forest.names_named c.ns f).1
  have hg := (Forest.names_named (f.named c.ns).2 g).1
  rw [Forest.named_append] at hns
  -- names once taken stay taken while the two parts are written
  have hmono : ∀ name ∈ (f.named c.ns).2.names, name ∈ state.2.names := by
    intro name hname
    rw [hns, hg]
    exact List.mem_append_left _ hname
  have hself : ∀ r : Rule, r.owner = some c.name → ∃ name ∈ state.2.names, r.owner = some name := by
    intro r hr
    refine ⟨c.name, hmono _ ?_, hr⟩
    rw [hf]
    exact List.mem_append_left _ hc
  intro r hr
  rw [hprogram, Program.rules_ofRules] at hr
  rcases List.mem_append.1 (distinct_subset _ hr) with hr | hr
  · rcases List.mem_append.1 hr with hr | hr
    · exact hself r (owner_of_mem_preamble hr)
    · rcases mem_blocks hr with hr | ⟨part, hp, hr⟩
      · exact hself r hr
      · obtain ⟨name, -, hname, h⟩ := Forest.exists_owner_named hp hr
        exact ⟨name, hmono name hname, h⟩
  · rcases mem_linked hr with hr | ⟨part, hp, hr⟩
    · exact hself r hr
    · obtain ⟨name, -, hname, h⟩ := Forest.exists_owner_named hp hr
      exact ⟨name, by rwa [hns], h⟩

/-- The name of a call that a run makes is taken. -/
theorem Made.name_mem {c : Call} (h : Made src options c) : c.name ∈ c.ns.names := by
  cases h with
  | top => exact List.mem_append_right _ (List.mem_singleton_self _)
  | nested => exact List.mem_append_right _ (List.mem_singleton_self _)

/-- **Programs are joined without loss.** -/
theorem Joined.rules_extend {p q : Program} (h : Joined src options p q) :
    (p.extend q).rules = p.rules ++ q.rules := by
  cases h with
  | @top before after shape state result _ hbefore hcall =>
    obtain ⟨l, hl, hfresh⟩ := Call.exists_owner_of_fresh hcall
    rw [hl]
    refine rules_extend_of_owner ?_ hfresh
    intro r hr
    -- the shapes before have written occurrences whose names are taken now
    obtain ⟨f, -, rfl⟩ := foldlM_compileNext_eq_ok_iff.1 hbefore
    have hr' : r ∈ distinct (f.named .initial).1.rules := by
      rw [← Program.rules_ofRules options.library]
      exact hr
    obtain ⟨part, hp, hr'⟩ := List.mem_flatMap.1 (distinct_subset _ hr')
    obtain ⟨name, -, hname, h⟩ := Forest.exists_owner_named hp hr'
    exact ⟨name, hname, h⟩
  | nested outer reaches _ _ hcall =>
    obtain ⟨l, hl, hfresh⟩ := Call.exists_owner_of_fresh hcall
    rw [hl]
    exact rules_extend_of_owner (reaches.exists_owner outer.name_mem) hfresh

theorem compileShape_eq_ok_iff {name : String} {shape : Shape} {ns : Namespace}
    {t : Program × Namespace} :
    (compileShape src options name shape ns).result = .ok t ↔
      isIdentifier name ∧ (fragment src options [] name shape ns).result = .ok t := by
  rw [compileShape]
  cases h : isIdentifier name with
  | false => simp [Traced.refuse]
  | true => simp

end Compile

/-! ## The names and rules of a run -/

/-- **Names are unique and every rule has an owner.** The occurrences of a program that is compiled
have different names, which are identifiers and not names of the library, and tell its rules apart;
programs are joined without loss on the way; and one shape under a name that is taken takes one new
name for each occurrence nested in it. -/
theorem names_unique_and_rules_owned (src : ShapeSource) (options : Options) :
    (∀ program, (compile src options).result = .ok program →
      ∃ f, IsLayout src f ∧ program.rules = distinct f.rules ∧ OwnsRules f program ∧
        ∀ o ∈ f.preorder, ∀ predicate : Predicate, o.name ≠ predicate.name) ∧
    (∀ p q, Joined src options p q → (p.extend q).rules = p.rules ++ q.rules) ∧
    ∀ name shape ns program ns', name ∈ ns →
      (compileShape src options name shape ns).result = .ok (program, ns') →
      ∃ nested : Forest Occurrence,
        ((Forest.cons ⟨name, shape⟩ nested .nil).map Occurrence.shape).Unfolded src ∧
        OwnsRules (.cons ⟨name, shape⟩ nested .nil) program ∧
        ns'.names = ns.names ++ nested.preorder.map Occurrence.name ∧
        ∀ o ∈ nested.preorder, o.name ∉ ns := by
  refine ⟨?_, fun p q h => h.rules_extend, ?_⟩
  · intro program h
    obtain ⟨f, hf, rfl⟩ := compile_eq_ok_iff.1 h
    obtain ⟨-, hnodup, hfresh, hident⟩ := Forest.names_named .initial f
    refine ⟨(f.named .initial).1, .named hf.roots_eq hf.unfolded, Program.rules_ofRules .., ?_, ?_⟩
    · exact .ofRules _ (by rw [Forest.map_shape_named]; exact hf.unfolded) hnodup hident
    · intro o ho predicate he
      -- the names of the library are taken from the start
      exact hfresh o ho (he ▸ Namespace.name_mem_initial predicate)
  · intro name shape ns program ns' hname h
    obtain ⟨hidentifier, h⟩ := compileShape_eq_ok_iff.1 h
    obtain ⟨nested, -, hn, he⟩ := (gives src options [] shape name ns _).1 h
    obtain ⟨rfl, rfl⟩ := Prod.mk.inj he
    obtain ⟨hnames, hnodup, hfresh, hident⟩ := Forest.names_named ns nested
    have hunfolded : ((Forest.cons ⟨name, shape⟩ (nested.named ns).1 .nil).map
        Occurrence.shape).Unfolded src := by
      rw [Forest.map, Forest.map_shape_named]
      exact ⟨hn.mapM_resolve, hn.unfolded, trivial⟩
    refine ⟨(nested.named ns).1, hunfolded, ?_, hnames, hfresh⟩
    have hrules : (Forest.cons ⟨name, shape⟩ (nested.named ns).1 .nil).rules =
        Occurrence.preamble ⟨name, shape⟩ ++
          blocks name shape.constraints (nested.named ns).1.written := by
      rw [Forest.rules_cons]
      exact List.append_nil _
    have hpreorder : (Forest.cons ⟨name, shape⟩ (nested.named ns).1 .nil).preorder =
        ⟨name, shape⟩ :: (nested.named ns).1.preorder :=
      congrArg _ (List.append_nil _)
    rw [← hrules]
    refine .ofRules _ hunfolded ?_ ?_
    · rw [hpreorder, List.map_cons, List.nodup_cons]
      refine ⟨?_, hnodup⟩
      intro hmem
      -- the given name is taken, so none of the new ones is the same
      obtain ⟨o, ho, he⟩ := List.mem_map.1 hmem
      exact hfresh o ho (he ▸ hname)
    · rw [hpreorder]
      exact List.forall_mem_cons.2 ⟨hidentifier, hident⟩

/-- A shape that asks for a name that is no identifier. -/
def collidingInner : Shape where
  id := .blank "b"
  names := ["a-b"]
  isProperty := true

/-- A shape that nests it twice and asks for a name that becomes the same. -/
def collidingFirst : Shape where
  id := .iri "a"
  names := ["a b"]
  constraints := [.property [.blank "b"], .node [.blank "b"]]

/-- A shape that nests it once and asks for a name of the library. -/
def collidingSecond : Shape where
  id := .iri "c"
  names := ["target"]
  constraints := [.property [.blank "b"]]

/-- Shapes whose names collide. -/
def collidingNames : ShapeSource where
  shapes := [collidingFirst, collidingSecond]
  known := [collidingFirst, collidingSecond, collidingInner]

/-- The name of the first shape, taken on its own. -/
def collidingTaken : Namespace := ⟨["a?b"], by decide⟩

/-- What a run has after the first shape. -/
def collidingAfterFirst : Program × Namespace :=
  ([collidingFirst].foldlM (compileNext collidingNames {}) ({}, .initial)).result.toOption.getD
    ({}, .initial)

/-- What the second shape gives after the first one. -/
def collidingOfSecond : Program × Namespace :=
  ((Call.fresh [] collidingSecond collidingAfterFirst.2).run collidingNames {}).result.toOption.getD
    ({}, .initial)

theorem names_unique_and_rules_owned_collidingNames :
    (∃ program, (compile collidingNames {}).result = .ok program ∧ program.size = 13 ∧
      ∃ f, IsLayout collidingNames f ∧ program.rules = distinct f.rules ∧ OwnsRules f program ∧
        ∀ o ∈ f.preorder, ∀ predicate : Predicate, o.name ≠ predicate.name) ∧
    (∃ p q, Joined collidingNames {} p q ∧ p.size = 8 ∧ q.size = 5 ∧
      (p.extend q).rules = p.rules ++ q.rules) ∧
    ∃ program ns', "a?b" ∈ collidingTaken ∧
      (compileShape collidingNames {} "a?b" collidingFirst collidingTaken).result =
        .ok (program, ns') ∧
      ∃ nested : Forest Occurrence,
        ((Forest.cons ⟨"a?b", collidingFirst⟩ nested .nil).map Occurrence.shape).Unfolded
          collidingNames ∧
        OwnsRules (.cons ⟨"a?b", collidingFirst⟩ nested .nil) program ∧
        ns'.names = ["a?b"] ++ nested.preorder.map Occurrence.name ∧
        ∀ o ∈ nested.preorder, o.name ∉ collidingTaken := by
  obtain ⟨hcompile, hjoined, hshape⟩ := names_unique_and_rules_owned collidingNames {}
  refine ⟨?_, ?_, ?_⟩
  · have h : (compile collidingNames {}).result =
        .ok ((compile collidingNames {}).result.toOption.getD {}) := by decide +kernel
    exact ⟨_, h, by decide +kernel, hcompile _ h⟩
  · have hshapes : collidingNames.shapes = [collidingFirst] ++ collidingSecond :: [] := rfl
    have h : Joined collidingNames {} collidingAfterFirst.1 collidingOfSecond.1 :=
      .top hshapes (by decide +kernel) (by decide +kernel)
    exact ⟨_, _, h, by decide +kernel, by decide +kernel, hjoined _ _ h⟩
  · have h : (compileShape collidingNames {} "a?b" collidingFirst collidingTaken).result =
        .ok ((compileShape collidingNames {} "a?b" collidingFirst
          collidingTaken).result.toOption.getD ({}, .initial)) := by decide +kernel
    exact ⟨_, _, by decide, h, hshape "a?b" collidingFirst collidingTaken _ _ (by decide) h⟩

end ShapeRules
