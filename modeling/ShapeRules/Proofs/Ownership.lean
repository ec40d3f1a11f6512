import Mathlib.Algebra.Ring.Nat
import Mathlib.Data.List.Nodup
import ShapeRules.Proofs.Forms

/-!
# Rules belong to occurrences

Every rule is about one occurrence of a shape: the first argument of its head is the name of that
occurrence. If no two occurrences have the same name, the rules about an occurrence are those that
it writes itself, and a program has as many rules as its occurrences write distinct ones.

## Main definitions

* `Datalog.Rule.owner`: the name that a rule is about
* `Forest.ownRules`: the rules of each occurrence, without those of what it nests
* `OwnsRules`: the rules of a program are told apart by the occurrences they are about

## Main results

* `Forest.filter_rules`: the rules about an occurrence are those that it writes itself
* `OwnsRules.ofRules`: a program written for occurrences with different names
-/

namespace ShapeRules

open Rdf Shacl Datalog Compile

/-! ## Owners -/

/-- The name that a rule is about, the first argument of its head. -/
def Datalog.Rule.owner (r : Rule) : Option String := r.head.args.head?

/-- Whether a rule is about a name. -/
def Datalog.Rule.isAbout (name : String) (r : Rule) : Bool := r.owner = some name

theorem Datalog.Rule.isAbout_congr {name : String} {r s : Rule} (h : sameClause r s) :
    r.isAbout name = s.isAbout name := by
  have h' : r.toClause = s.toClause := by simpa [sameClause] using h
  rw [isAbout, isAbout, owner, owner, h']

theorem isAbout_iff {name : String} {r : Rule} : r.isAbout name ↔ r.owner = some name := by
  simp [Rule.isAbout]

@[simp]
theorem owner_about (predicate : Predicate) (name : String) (args : List String) :
    (about predicate name args).owner = some name := rfl

theorem Plain.owner {terms : List Term} {name : String} {r : Rule} (h : Plain terms name r) :
    r.owner = some name := by
  cases h <;> rfl

/-- A rule about a shape has its name as the first argument, whatever its form is. -/
theorem Form.owner {terms : List Term} {names : List String} {name : String} {r : Rule}
    (h : Form terms names name r) : r.owner = some name := by
  cases h with
  | plain h => exact h.owner
  | severity iri => rfl
  | kind mem comment => rfl
  | link mem nested => rfl

theorem owner_of_mem_preamble {o : Occurrence} {r : Rule} (h : r ∈ o.preamble) :
    r.owner = some o.name :=
  (form_of_mem_preamble h : Form o.shape.writtenTerms [] o.name r).owner

theorem owner_of_mem_statements {name : String} {c : Constraint} {r : Rule}
    (h : r ∈ c.statements name) : r.owner = some name :=
  (plain_of_mem_statements h).owner

/-! ## The rules of one occurrence -/

theorem filter_eq_nil_of_owner {name : String} {l : List Rule}
    (h : ∀ r ∈ l, r.owner ≠ some name) : l.filter (Rule.isAbout name) = [] :=
  List.filter_eq_nil_iff.2 fun r hr => mt isAbout_iff.1 (h r hr)

theorem filter_eq_self_of_owner {name : String} {l : List Rule}
    (h : ∀ r ∈ l, r.owner = some name) : l.filter (Rule.isAbout name) = l :=
  List.filter_eq_self.2 fun r hr => isAbout_iff.2 (h r hr)

/-- Of linked parts only the links are about the shape that they are linked to. -/
theorem filter_linked_self {name : String} {link : Predicate} {parts : List (String × List Rule)}
    (h : ∀ part ∈ parts, ∀ r ∈ part.2, r.owner ≠ some name) :
    (linked name link parts).filter (Rule.isAbout name) =
      linked name link (parts.map fun part => (part.1, [])) := by
  induction parts with
  | nil => rfl
  | cons part parts ih =>
    obtain ⟨hpart, hparts⟩ := List.forall_mem_cons.1 h
    -- nothing of the part itself is left, but the link to it is
    have hlink : [about link name [part.1]].filter (Rule.isAbout name) =
        [about link name [part.1]] := filter_eq_self_of_owner (by simp)
    rw [linked, List.flatMap_cons, List.filter_append, List.filter_append,
      filter_eq_nil_of_owner hpart, hlink]
    exact congrArg _ (ih hparts)

/-- Of the rules of constraints, those about the shape itself are the same without the rules of what
it nests. -/
theorem filter_blocks_self {name : String} (cs : List Constraint)
    {parts : List (String × List Rule)} (h : ∀ part ∈ parts, ∀ r ∈ part.2, r.owner ≠ some name) :
    (blocks name cs parts).filter (Rule.isAbout name) =
      blocks name cs (parts.map fun part => (part.1, [])) := by
  induction cs generalizing parts with
  | nil => rfl
  | cons c cs ih =>
    rw [blocks, blocks, List.filter_append, List.filter_append,
      filter_linked_self fun part hp => h part (List.mem_of_mem_take hp),
      filter_eq_self_of_owner fun r hr => owner_of_mem_statements hr,
      ih fun part hp => h part (List.mem_of_mem_drop hp), List.map_take, List.map_drop]

/-- Those about another name are the rules of what it nests, if no part is left over. -/
theorem filter_blocks_other {name other : String} (hne : name ≠ other) {cs : List Constraint}
    {parts : List (String × List Rule)}
    (hlen : parts.length = (cs.flatMap Constraint.references).length) :
    (blocks name cs parts).filter (Rule.isAbout other) =
      (parts.flatMap Prod.snd).filter (Rule.isAbout other) := by
  have hnone : ∀ r : Rule, r.owner = some name → Option.guard (Rule.isAbout other) r = none := by
    intro r hr
    rw [Option.guard_eq_none_iff, Rule.isAbout, hr]
    simpa using hne
  rw [← List.filterMap_eq_filter, List.filterMap_flatMap,
    filterMap_blocks (fun _ => none) (fun _ r hr => hnone r hr.owner)
      (fun p _ child => hnone _ (owner_about p name [child])) hlen]
  simp

theorem mem_linked {name : String} {c : Constraint} {parts : List (String × List Rule)} {r : Rule}
    (h : r ∈ linked name c.link parts) : r.owner = some name ∨ ∃ part ∈ parts, r ∈ part.2 :=
  (form_of_mem_linked h).imp_left (Form.owner : Form [] _ name r → _)

/-- The rules of the constraints of a shape are about it or come from what it nests. -/
theorem mem_blocks {name : String} {cs : List Constraint} {parts : List (String × List Rule)}
    {r : Rule} (h : r ∈ blocks name cs parts) :
    r.owner = some name ∨ ∃ part ∈ parts, r ∈ part.2 :=
  (form_of_mem_blocks h).imp_left Form.owner

/-! ## The rules of a forest -/

namespace Forest

variable {f : Forest Occurrence}

/-- Every rule is about an occurrence. -/
theorem exists_owner_of_mem_written {part : String × List Rule} {r : Rule} (hp : part ∈ f.written)
    (hr : r ∈ part.2) : ∃ o ∈ f.preorder, r.owner = some o.name := by
  obtain ⟨o, ho, h⟩ := exists_form_of_mem_written hp hr
  exact ⟨o, ho, h.owner⟩

theorem exists_owner_of_mem_rules {r : Rule} (h : r ∈ f.rules) :
    ∃ o ∈ f.preorder, r.owner = some o.name := by
  obtain ⟨part, hp, hr⟩ := List.mem_flatMap.1 h
  exact exists_owner_of_mem_written hp hr

theorem owner_ne_of_mem_written {name : String} (hname : name ∉ f.preorder.map Occurrence.name)
    {part : String × List Rule} (hp : part ∈ f.written) {r : Rule} (hr : r ∈ part.2) :
    r.owner ≠ some name := by
  obtain ⟨o, ho, h⟩ := exists_owner_of_mem_written hp hr
  rw [h]
  intro he
  exact hname (List.mem_map.2 ⟨o, ho, Option.some.inj he⟩)

theorem filter_rules_eq_nil {name : String} (hname : name ∉ f.preorder.map Occurrence.name) :
    f.rules.filter (Rule.isAbout name) = [] := by
  apply filter_eq_nil_of_owner
  intro r hr
  obtain ⟨part, hp, hr⟩ := List.mem_flatMap.1 hr
  exact owner_ne_of_mem_written hname hp hr

/-- **The rules of each occurrence by itself:** its preamble, what its constraints state, and the
links to the occurrences right below it. -/
def ownRules : Forest Occurrence → List (Occurrence × List Rule)
  | nil => []
  | cons o nested rest =>
    (o, o.preamble ++ blocks o.name o.shape.constraints (nested.roots.map fun c => (c.name, []))) ::
      (nested.ownRules ++ rest.ownRules)

@[simp]
theorem map_fst_ownRules (f : Forest Occurrence) : f.ownRules.map Prod.fst = f.preorder := by
  induction f with
  | nil => rfl
  | cons o nested rest ih₁ ih₂ => simp [ownRules, preorder, ih₁, ih₂]

theorem rules_cons (o : Occurrence) (nested rest : Forest Occurrence) :
    (cons o nested rest).rules =
      o.preamble ++ blocks o.name o.shape.constraints nested.written ++ rest.rules := by
  rw [rules, written, List.flatMap_cons]
  rfl

theorem rules_tree (o : Occurrence) (nested : Forest Occurrence) :
    (cons o nested nil).rules = o.preamble ++ blocks o.name o.shape.constraints nested.written := by
  rw [rules_cons]
  exact List.append_nil _

/-- **The rules about an occurrence are its own,** in the same order, if the names differ. -/
theorem filter_rules {src : ShapeSource} {e : Occurrence × List Rule}
    (hu : (f.map Occurrence.shape).Unfolded src) (hn : (f.preorder.map Occurrence.name).Nodup)
    (he : e ∈ f.ownRules) : f.rules.filter (Rule.isAbout e.1.name) = e.2 := by
  induction f with
  | nil => cases he
  | cons o nested rest ih₁ ih₂ =>
    obtain ⟨hroots, hu₁, hu₂⟩ := hu
    rw [preorder, List.map_cons, List.map_append, List.nodup_cons, List.nodup_append,
      List.mem_append, not_or] at hn
    obtain ⟨⟨ho₁, ho₂⟩, hn₁, hn₂, hdisjoint⟩ := hn
    -- each reference has its part, so no rule of what is nested is left out
    have hlen : nested.written.length = o.shape.references.length := length_written hroots
    -- of an occurrence further down, the root has only what it nests
    have hother : ∀ name, o.name ≠ name →
        (o.preamble ++ blocks o.name o.shape.constraints nested.written).filter
          (Rule.isAbout name) = nested.rules.filter (Rule.isAbout name) := by
      intro name hne
      have hpreamble : o.preamble.filter (Rule.isAbout name) = [] := by
        apply filter_eq_nil_of_owner
        intro r hr
        rw [owner_of_mem_preamble hr]
        exact fun h => hne (Option.some.inj h)
      rw [List.filter_append, hpreamble, filter_blocks_other hne hlen]
      rfl
    rw [rules_cons, List.filter_append]
    rcases List.mem_cons.1 he with rfl | he
    · -- the root itself: its preamble, what it states, and the links
      rw [filter_rules_eq_nil ho₂, List.append_nil, List.filter_append,
        filter_eq_self_of_owner fun r hr => owner_of_mem_preamble hr,
        filter_blocks_self _ fun part hp r hr => owner_ne_of_mem_written ho₁ hp hr]
      have hmap := congrArg (List.map fun name => (name, ([] : List Rule))) nested.map_fst_written
      rw [List.map_map, List.map_map] at hmap
      exact congrArg _ (congrArg _ hmap)
    · rcases List.mem_append.1 he with he | he
      · have hmem : e.1.name ∈ nested.preorder.map Occurrence.name := by
          rw [← map_fst_ownRules]
          exact List.mem_map_of_mem (List.mem_map_of_mem he)
        rw [hother _ (fun h => ho₁ (h ▸ hmem)), ih₁ hu₁ hn₁ he,
          filter_rules_eq_nil fun h => hdisjoint _ hmem _ h rfl, List.append_nil]
      · have hmem : e.1.name ∈ rest.preorder.map Occurrence.name := by
          rw [← map_fst_ownRules]
          exact List.mem_map_of_mem (List.mem_map_of_mem he)
        rw [hother _ (fun h => ho₂ (h ▸ hmem)), ih₂ hu₂ hn₂ he,
          filter_rules_eq_nil fun h => hdisjoint _ h _ hmem rfl, List.nil_append]

end Forest

/-! ## Programs of occurrences with different names -/

/-- **The rules of a program are told apart by the occurrences they are about.** -/
structure OwnsRules (f : Forest Occurrence) (p : Program) : Prop where
  names_nodup : (f.preorder.map Occurrence.name).Nodup
  names_identifier : ∀ o ∈ f.preorder, isIdentifier o.name
  owner_unique : ∀ r ∈ p.rules, f.preorder.countP (fun o => r.isAbout o.name) = 1
  own : ∀ e ∈ f.ownRules, p.rules.filter (Rule.isAbout e.1.name) = distinct e.2
  size : p.size = (f.ownRules.map fun e => (distinct e.2).length).sum

/-- One more rule counts once for each of the occurrences it is about. -/
theorem sum_isAbout_cons (r : Rule) (l : List Rule) (os : List Occurrence) :
    (os.map fun o => ((r :: l).filter (Rule.isAbout o.name)).length).sum =
      (os.map fun o => (l.filter (Rule.isAbout o.name)).length).sum +
        os.countP (fun o => r.isAbout o.name) := by
  induction os with
  | nil => rfl
  | cons o os ih =>
    rw [List.map_cons, List.sum_cons, ih, List.map_cons, List.sum_cons, List.countP_cons,
      List.filter_cons]
    split
    · rw [List.length_cons]
      omega
    · omega

/-- Rules are counted name by name if each is about exactly one of the occurrences. -/
theorem length_eq_sum_isAbout {l : List Rule} {os : List Occurrence}
    (h : ∀ r ∈ l, os.countP (fun o => r.isAbout o.name) = 1) :
    l.length = (os.map fun o => (l.filter (Rule.isAbout o.name)).length).sum := by
  induction l with
  | nil => simp
  | cons r l ih =>
    obtain ⟨hr, hl⟩ := List.forall_mem_cons.1 h
    rw [sum_isAbout_cons, hr, ← ih hl, List.length_cons]

/-- **A program written for occurrences with different names.** -/
theorem OwnsRules.ofRules {src : ShapeSource} {f : Forest Occurrence} (library : String)
    (hu : (f.map Occurrence.shape).Unfolded src) (hn : (f.preorder.map Occurrence.name).Nodup)
    (hi : ∀ o ∈ f.preorder, isIdentifier o.name) : OwnsRules f (.ofRules library f.rules) := by
  have hown : ∀ e ∈ f.ownRules,
      (Program.ofRules library f.rules).rules.filter (Rule.isAbout e.1.name) = distinct e.2 := by
    intro e he
    rw [Program.rules_ofRules, filter_distinct fun r s => Rule.isAbout_congr,
      Forest.filter_rules hu hn he]
  have howner : ∀ r ∈ (Program.ofRules library f.rules).rules,
      f.preorder.countP (fun o => r.isAbout o.name) = 1 := by
    intro r hr
    rw [Program.rules_ofRules] at hr
    obtain ⟨o, ho, h⟩ := Forest.exists_owner_of_mem_rules (distinct_subset _ hr)
    -- the name of the owner stands once among the names
    have hcount := List.count_eq_one_of_mem hn (List.mem_map_of_mem ho)
    rw [List.count, List.countP_map] at hcount
    rw [← hcount]
    refine List.countP_congr fun o' _ => ?_
    rw [isAbout_iff, h, Option.some.injEq, Function.comp_apply, beq_iff_eq]
    exact eq_comm
  refine ⟨hn, hi, howner, hown, ?_⟩
  -- count the rules name by name
  rw [Program.size, length_eq_sum_isAbout howner, ← Forest.map_fst_ownRules, List.map_map]
  refine congrArg _ (List.map_congr_left fun e he => ?_)
  exact congrArg List.length (hown e he)

end ShapeRules
