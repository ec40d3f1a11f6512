import Mathlib.Data.List.Nodup
import Mathlib.Logic.Relation
import ShapeRules.Proofs.UniqueNames

/-!
# Links form a forest

The facts for severities and kinds and the links between shapes are the outline of a program. The
outline is read off the forest of the occurrences: each occurrence opens with its severity and its
kind, what it nests follows, and the link from the occurrence around it closes it. No fact of the
outline repeats another, so none is lost when repeated clauses are dropped.

## Main definitions

* `Entry`, `Datalog.Rule.entry`: what a fact of the outline says
* `Forest.outline`: the outline of a forest of names
* `Datalog.Program.Links`: the relation of the links of a program

## Main results

* `Forest.filterMap_entry_rules`: the outline of the rules of a forest
* `Forest.sublist_of_link_mem`: a link comes after the facts for the kinds of both its ends
* `links_form_forest`: the links of a program form a forest whose roots are the shapes written out
-/

namespace ShapeRules

open Rdf Shacl Datalog Compile

/-! ## Outlines -/

/-- **What a fact of the outline says:** that a shape has a severity, that it has a kind, or that
one shape is linked to another. -/
inductive Entry where
  | severity (name : String)
  | kind (name : String)
  | link (parent child : String)
  deriving DecidableEq

namespace Entry

/-- The shape that has a severity. -/
def graded? : Entry → Option String
  | severity name => some name
  | _ => none

/-- The shape that has a kind. -/
def opened? : Entry → Option String
  | kind name => some name
  | _ => none

/-- The shape that another one is linked to. -/
def child? : Entry → Option String
  | link _ child => some child
  | _ => none

/-- An outline without repeated names has no repeated entries. -/
theorem nodup_of_names {l : List Entry} (hgraded : (l.filterMap graded?).Nodup)
    (hopened : (l.filterMap opened?).Nodup) (hchild : (l.filterMap child?).Nodup) : l.Nodup := by
  induction l with
  | nil => exact List.nodup_nil
  | cons e l ih =>
    have hl : l.Nodup := by
      have hsub := List.sublist_cons_self e l
      exact ih (hgraded.sublist (hsub.filterMap _)) (hopened.sublist (hsub.filterMap _))
        (hchild.sublist (hsub.filterMap _))
    refine List.nodup_cons.2 ⟨fun hmem => ?_, hl⟩
    -- the name of the entry would come up again
    cases e with
    | severity name =>
      rw [List.filterMap_cons, graded?, List.nodup_cons] at hgraded
      exact hgraded.1 (List.mem_filterMap.2 ⟨_, hmem, rfl⟩)
    | kind name =>
      rw [List.filterMap_cons, opened?, List.nodup_cons] at hopened
      exact hopened.1 (List.mem_filterMap.2 ⟨_, hmem, rfl⟩)
    | link parent child =>
      rw [List.filterMap_cons, child?, List.nodup_cons] at hchild
      exact hchild.1 (List.mem_filterMap.2 ⟨_, hmem, rfl⟩)

end Entry

namespace Datalog

/-- **The entry of a fact in the outline.** Other rules have none. -/
def Rule.entry (r : Rule) : Option Entry :=
  if r.body = ∅ then
    match r.head.predicate, r.head.args with
    | .severity, name :: _ => some (.severity name)
    | .nodeShape, name :: _ => some (.kind name)
    | .propertyShape, name :: _ => some (.kind name)
    | .propertyConstr, [parent, child] => some (.link parent child)
    | .nodeConstr, [parent, child] => some (.link parent child)
    | .qualifiedValueConstr, [parent, child] => some (.link parent child)
    | _, _ => none
  else none

/-- Whether a rule is a link to a shape. -/
def Rule.linksTo (name : String) (r : Rule) : Bool := r.entry.bind Entry.child? == some name

/-- One shape is linked to another. -/
def Program.Links (p : Program) (parent child : String) : Prop :=
  ∃ r ∈ p.rules, r.entry = some (.link parent child)

theorem Rule.entry_congr {r s : Rule} (h : sameClause r s) : r.entry = s.entry := by
  have h' : r.toClause = s.toClause := by simpa [sameClause] using h
  rw [entry, entry, h']

end Datalog

theorem entry_severity (name iri : String) :
    (about .severity name [iri]).entry = some (.severity name) := rfl

theorem entry_kindFact (s : Shape) (name : String) :
    (s.kindFact name).entry = some (.kind name) := by
  rw [Shape.kindFact]
  split <;> rfl

theorem entry_link {p : Predicate} (hp : p ∈ linkPredicates) (name child : String) :
    (about p name [child]).entry = some (.link name child) := by
  simp only [linkPredicates, List.mem_cons, List.not_mem_nil, or_false] at hp
  rcases hp with rfl | rfl | rfl <;> rfl

/-- What is said of a shape alone is no part of the outline. -/
theorem Plain.entry_eq_none {terms : List Term} {name : String} {r : Rule}
    (h : Plain terms name r) : r.entry = none := by
  have hother : ∀ p ∈ .target :: (markPredicates ++ countPredicates ++ valuePredicates),
      p ∉ [.severity, .nodeShape, .propertyShape, .propertyConstr, .nodeConstr,
        .qualifiedValueConstr] := by
    decide
  have hp : r.head.predicate ∈
      .target :: (markPredicates ++ countPredicates ++ valuePredicates) := by
    cases h with
    | mark mem => simp [about, Rule.fact, mem]
    | count mem pos => simp [about, Rule.fact, mem]
    | value mem constant => simp [about, Rule.fact, mem]
    | select constant mem => exact List.mem_cons_self
  have hnot := hother _ hp
  unfold Rule.entry
  split
  · split <;> simp_all
  · rfl

/-! ## The outline of a forest -/

namespace Forest

/-- **The outline of a forest of names:** each name opens with its severity and its kind, what is
nested follows, and the link from the name around it closes it. -/
def outline (parent : Option String) : Forest String → List Entry
  | nil => []
  | cons name nested rest =>
    .severity name :: .kind name ::
      (nested.outline (some name) ++ (parent.map (Entry.link · name)).toList ++ rest.outline parent)

theorem filterMap_entry_preamble (o : Occurrence) :
    o.preamble.filterMap Rule.entry = [.severity o.name, .kind o.name] := by
  rw [filterMap_preamble fun _ r => Plain.entry_eq_none,
    List.filterMap_cons_some (entry_severity ..), List.filterMap_cons_some (entry_kindFact ..),
    List.filterMap_nil]

/-- The parts that are written have the outline of the forest, if each is linked to. -/
theorem outline_written {src : ShapeSource} {f : Forest Occurrence}
    (hu : (f.map Occurrence.shape).Unfolded src) (parent : Option String) :
    (f.written.flatMap fun part =>
      part.2.filterMap Rule.entry ++ (parent.map (Entry.link · part.1)).toList) =
      (f.map Occurrence.name).outline parent := by
  -- What is nested is linked to the name around it, so the induction is over every parent.
  induction f generalizing parent with
  | nil => rfl
  | cons o nested rest ih₁ ih₂ =>
    obtain ⟨hroots, hu₁, hu₂⟩ := hu
    have hblocks := filterMap_blocks (fun child => some (Entry.link o.name child))
      (fun _ r hr => Plain.entry_eq_none hr) (fun p hp child => entry_link hp o.name child)
      (length_written hroots)
    have hnested : (blocks o.name o.shape.constraints nested.written).filterMap Rule.entry =
        (nested.map Occurrence.name).outline (some o.name) := by
      rw [hblocks, ← ih₁ hu₁]
      rfl
    rw [written, List.flatMap_cons, ih₂ hu₂, List.filterMap_append, filterMap_entry_preamble,
      hnested]
    simp [outline, map]

/-- **The outline of the rules of a forest** is read off its names. -/
theorem filterMap_entry_rules {src : ShapeSource} {f : Forest Occurrence}
    (hu : (f.map Occurrence.shape).Unfolded src) :
    f.rules.filterMap Rule.entry = (f.map Occurrence.name).outline none := by
  rw [← outline_written hu none, rules, List.filterMap_flatMap]
  simp

variable {f : Forest String} {parent : Option String}

/-- The names below the roots, in depth-first order. -/
def inner {α : Type} : Forest α → List α
  | nil => []
  | cons _ nested rest => nested.preorder ++ rest.inner

theorem filterMap_graded_outline (f : Forest String) (parent : Option String) :
    (f.outline parent).filterMap Entry.graded? = f.preorder := by
  induction f generalizing parent with
  | nil => rfl
  | cons name nested rest ih₁ ih₂ =>
    cases parent <;> simp [outline, preorder, List.filterMap_cons, Entry.graded?, ih₁, ih₂]

theorem filterMap_opened_outline (f : Forest String) (parent : Option String) :
    (f.outline parent).filterMap Entry.opened? = f.preorder := by
  induction f generalizing parent with
  | nil => rfl
  | cons name nested rest ih₁ ih₂ =>
    cases parent <;> simp [outline, preorder, List.filterMap_cons, Entry.opened?, ih₁, ih₂]

/-- The names of the forest are those that have a severity. -/
theorem severity_mem_outline_iff {name : String} :
    .severity name ∈ f.outline parent ↔ name ∈ f.preorder := by
  rw [← filterMap_graded_outline f parent, List.mem_filterMap]
  constructor
  · intro h
    exact ⟨_, h, rfl⟩
  · rintro ⟨e, he, hname⟩
    cases e with
    | severity other =>
      obtain rfl := Option.some.inj hname
      exact he
    | kind other => cases hname
    | link a b => cases hname

/-- Under a parent every name is linked to once. -/
theorem filterMap_child_outline_some (f : Forest String) (parent : String) :
    ((f.outline (some parent)).filterMap Entry.child?).Perm f.preorder := by
  induction f generalizing parent with
  | nil => exact .nil
  | cons name nested rest ih₁ ih₂ =>
    have hchild : ((cons name nested rest).outline (some parent)).filterMap Entry.child? =
        (nested.outline (some name)).filterMap Entry.child? ++
          name :: (rest.outline (some parent)).filterMap Entry.child? := by
      simp [outline, List.filterMap_cons, Entry.child?]
    rw [hchild]
    exact List.perm_middle.trans (((ih₁ name).append (ih₂ parent)).cons name)

/-- Without one, every name below a root. -/
theorem filterMap_child_outline_none (f : Forest String) :
    ((f.outline none).filterMap Entry.child?).Perm f.inner := by
  induction f with
  | nil => exact .nil
  | cons name nested rest _ ih =>
    have hchild : ((cons name nested rest).outline none).filterMap Entry.child? =
        (nested.outline (some name)).filterMap Entry.child? ++
          (rest.outline none).filterMap Entry.child? := by
      simp [outline, List.filterMap_cons, Entry.child?]
    rw [hchild]
    exact (filterMap_child_outline_some nested name).append ih

theorem inner_sublist_preorder {α : Type} (f : Forest α) : f.inner.Sublist f.preorder := by
  induction f with
  | nil => exact .slnil
  | cons a nested rest _ ih => exact ((List.Sublist.refl _).append ih).cons a

/-- The names that are not below a root are the roots. -/
theorem filter_not_inner {f : Forest String} (hn : f.preorder.Nodup) :
    (f.preorder.filter fun name => name ∉ f.inner) = f.roots := by
  induction f with
  | nil => rfl
  | cons root nested rest _ ih =>
    rw [preorder, List.nodup_cons, List.nodup_append', List.mem_append, not_or] at hn
    obtain ⟨⟨hroot₁, hroot₂⟩, -, hn₂, hdisjoint⟩ := hn
    have hinner : root ∉ rest.inner := fun h => hroot₂ (rest.inner_sublist_preorder.subset h)
    have hnested : (nested.preorder.filter fun name => name ∉ nested.preorder ++ rest.inner) =
        [] := by
      simp +contextual
    -- what follows is not nested in the root
    have hrest : (rest.preorder.filter fun name => name ∉ nested.preorder ++ rest.inner) =
        rest.preorder.filter fun name => name ∉ rest.inner := by
      refine List.filter_congr fun name hname => ?_
      have hne : name ∉ nested.preorder := fun h => hdisjoint h hname
      simp [hne]
    rw [preorder, inner, List.filter_cons_of_pos (by simp [hroot₁, hinner]), List.filter_append,
      hnested, hrest, ih hn₂]
    rfl

theorem nodup_outline (hn : f.preorder.Nodup) : (f.outline none).Nodup := by
  apply Entry.nodup_of_names
  · rwa [filterMap_graded_outline]
  · rwa [filterMap_opened_outline]
  · exact f.filterMap_child_outline_none.nodup_iff.2 (hn.sublist f.inner_sublist_preorder)

/-- **A link comes after the facts for the kinds of both its ends,** first the one that it goes out
from, which may be the parent of the whole forest. -/
theorem sublist_of_link_mem {a b : String} (h : .link a b ∈ f.outline parent) :
    (parent = some a ∧ [.kind b, .link a b].Sublist (f.outline parent)) ∨
      [.kind a, .kind b, .link a b].Sublist (f.outline parent) := by
  induction f generalizing parent with
  | nil => cases h
  | cons name nested rest ih₁ ih₂ =>
    -- what is in one of the three parts stands after the two facts of the root
    have hpart : ∀ (part : List Entry) {l : List Entry},
        part.Sublist (nested.outline (some name) ++ (parent.map (Entry.link · name)).toList ++
          rest.outline parent) → l.Sublist (.kind name :: part) →
        l.Sublist ((cons name nested rest).outline parent) :=
      fun _ _ hpart hl => (hl.trans (hpart.cons_cons _)).cons _
    have hnested : (nested.outline (some name)).Sublist (nested.outline (some name) ++
        (parent.map (Entry.link · name)).toList ++ rest.outline parent) :=
      (List.sublist_append_left _ _).trans (List.sublist_append_left _ _)
    have hrest : (rest.outline parent).Sublist (nested.outline (some name) ++
        (parent.map (Entry.link · name)).toList ++ rest.outline parent) :=
      List.sublist_append_right _ _
    simp only [outline, List.mem_cons, List.mem_append, reduceCtorEq, false_or] at h
    rcases h with (h | h) | h
    · rcases ih₁ h with ⟨hname, h⟩ | h
      · obtain rfl := Option.some.inj hname
        exact .inr (hpart _ hnested (h.cons_cons _))
      · exact .inr (hpart _ hnested (h.cons _))
    · -- the link that closes the root
      obtain ⟨p, rfl, hlink⟩ := Option.map_eq_some_iff.1 (Option.mem_toList.1 h)
      obtain ⟨rfl, rfl⟩ := Entry.link.inj hlink
      refine .inl ⟨rfl, hpart [.link p name] ?_ (.refl _)⟩
      exact (List.sublist_append_right _ _).trans (List.sublist_append_left _ _)
    · rcases ih₂ h with ⟨hparent, h⟩ | h
      · exact .inl ⟨hparent, hpart _ hrest (h.cons _)⟩
      · exact .inr (hpart _ hrest (h.cons _))

end Forest

/-! ## The outline of a program -/

/-- What stands in some order among the picked values was picked in that order. -/
theorem exists_sublist_of_sublist_filterMap {α β : Type} {pick : α → Option β} {l : List α}
    {m : List β} (h : m.Sublist (l.filterMap pick)) :
    ∃ k : List α, k.Sublist l ∧ k.map pick = m.map some := by
  induction l generalizing m with
  | nil =>
    obtain rfl := List.sublist_nil.1 h
    exact ⟨[], .slnil, rfl⟩
  | cons x l ih =>
    cases hx : pick x with
    | none =>
      rw [List.filterMap_cons_none hx] at h
      obtain ⟨k, hk, he⟩ := ih h
      exact ⟨k, hk.cons x, he⟩
    | some y =>
      rw [List.filterMap_cons_some hx] at h
      cases h with
      | cons _ h =>
        obtain ⟨k, hk, he⟩ := ih h
        exact ⟨k, hk.cons x, he⟩
      | cons_cons _ h =>
        obtain ⟨k, hk, he⟩ := ih h
        exact ⟨x :: k, hk.cons_cons x, by rw [List.map_cons, List.map_cons, hx, he]⟩

/-- Of two entries of a list without repetitions the first comes before the second. -/
theorem idxOf_lt_idxOf {α : Type} [DecidableEq α] {a b : α} {l : List α} (hn : l.Nodup)
    (h : [a, b].Sublist l) : l.idxOf a < l.idxOf b := by
  induction l with
  | nil => cases h
  | cons x l ih =>
    obtain ⟨hx, hn⟩ := List.nodup_cons.1 hn
    cases h with
    | cons _ h =>
      have ha : x ≠ a := fun he => hx (he ▸ h.subset List.mem_cons_self)
      have hb : x ≠ b := fun he => hx (he ▸ h.subset (List.mem_cons_of_mem _ List.mem_cons_self))
      rw [List.idxOf_cons_ne _ ha, List.idxOf_cons_ne _ hb]
      exact Nat.succ_lt_succ (ih hn h)
    | cons_cons _ h =>
      have hb : a ≠ b := fun he => hx (he ▸ List.singleton_sublist.1 h)
      rw [List.idxOf_cons_self, List.idxOf_cons_ne _ hb]
      exact Nat.succ_pos _

/-- **The outline of a program that is compiled** is that of the names of its layout. -/
theorem Compile.exists_outline {src : ShapeSource} {options : Options} {program : Program}
    (h : (compile src options).result = .ok program) :
    ∃ f, IsLayout src f ∧ (f.map Occurrence.name).preorder.Nodup ∧
      program.rules = distinct f.rules ∧
      program.rules.filterMap Rule.entry = (f.map Occurrence.name).outline none := by
  obtain ⟨f, hf, rfl⟩ := compile_eq_ok_iff.1 h
  have hlayout : IsLayout src (f.named .initial).1 := .named hf.roots_eq hf.unfolded
  have hn : ((f.named .initial).1.map Occurrence.name).preorder.Nodup := by
    rw [Forest.preorder_map]
    exact (Forest.names_named .initial f).2.1
  have houtline := Forest.filterMap_entry_rules hlayout.unfolded
  refine ⟨_, hlayout, hn, Program.rules_ofRules .., ?_⟩
  rw [Program.rules_ofRules, ← houtline]
  -- no entry is repeated, so dropping repeated clauses loses none
  apply filterMap_distinct fun r s => Rule.entry_congr
  rw [houtline]
  exact Forest.nodup_outline hn

section Outline

variable {rules : List Rule} {f : Forest String} {r : Rule} {a b : String}

theorem countP_entry_eq_one (hn : f.preorder.Nodup)
    (h : rules.filterMap Rule.entry = f.outline none) {e : Entry} (he : e ∈ f.outline none) :
    rules.countP (fun r => r.entry == some e) = 1 := by
  have hcount : (rules.filterMap Rule.entry).count e = 1 := by
    rw [h]
    exact List.count_eq_one_of_mem (Forest.nodup_outline hn) he
  rwa [List.count_filterMap] at hcount

theorem filterMap_child_eq (h : rules.filterMap Rule.entry = f.outline none) :
    (rules.filterMap fun r => r.entry.bind Entry.child?) =
      (f.outline none).filterMap Entry.child? := by
  rw [← h, List.filterMap_filterMap]

/-- The shapes that no link leads to are those that are not below a root. -/
theorem all_not_linksTo_iff (h : rules.filterMap Rule.entry = f.outline none) {name : String} :
    (rules.all fun r => !r.linksTo name) ↔ name ∉ f.inner := by
  rw [← f.filterMap_child_outline_none.mem_iff, ← filterMap_child_eq h]
  simp [Rule.linksTo]

/-- A shape is linked to at most once. -/
theorem filter_linksTo_eq (hn : f.preorder.Nodup)
    (h : rules.filterMap Rule.entry = f.outline none) (hr : r ∈ rules)
    (hlink : r.entry = some (.link a b)) : rules.filter (Rule.linksTo b) = [r] := by
  have hnodup : (rules.filterMap fun r => r.entry.bind Entry.child?).Nodup := by
    rw [filterMap_child_eq h, f.filterMap_child_outline_none.nodup_iff]
    exact hn.sublist f.inner_sublist_preorder
  have hchild : r.entry.bind Entry.child? = some b := by rw [hlink]; rfl
  have hcount := List.count_eq_one_of_mem hnodup (List.mem_filterMap.2 ⟨r, hr, hchild⟩)
  rw [List.count_filterMap, List.countP_eq_length_filter] at hcount
  -- there is one such rule, and the link is one
  obtain ⟨s, hs : rules.filter (Rule.linksTo b) = [s]⟩ := List.length_eq_one_iff.1 hcount
  have hmem : r ∈ rules.filter (Rule.linksTo b) :=
    List.mem_filter.2 ⟨hr, beq_iff_eq.2 hchild⟩
  rw [hs, List.mem_singleton] at hmem
  rw [hs, hmem]

theorem sublist_of_link (h : rules.filterMap Rule.entry = f.outline none) (hr : r ∈ rules)
    (hlink : r.entry = some (.link a b)) :
    [.kind a, .kind b, .link a b].Sublist (f.outline none) := by
  have hmem : .link a b ∈ f.outline none := h ▸ List.mem_filterMap.2 ⟨r, hr, hlink⟩
  exact (Forest.sublist_of_link_mem hmem).resolve_left fun hnone => nomatch hnone.1

/-- Both ends of a link have one kind and one severity. -/
theorem countP_ends_eq_one (hn : f.preorder.Nodup)
    (h : rules.filterMap Rule.entry = f.outline none) (hr : r ∈ rules)
    (hlink : r.entry = some (.link a b)) {name : String} (hname : name ∈ [a, b]) :
    rules.countP (fun s => s.entry == some (.kind name)) = 1 ∧
      rules.countP (fun s => s.entry == some (.severity name)) = 1 := by
  have hsublist := sublist_of_link h hr hlink
  have hkind : .kind name ∈ f.outline none := by
    simp only [List.mem_cons, List.not_mem_nil, or_false] at hname
    rcases hname with rfl | rfl
    · exact hsublist.subset (by simp)
    · exact hsublist.subset (by simp)
  -- a name that has a kind has a severity as well
  have hmem : name ∈ f.preorder := by
    rw [← Forest.filterMap_opened_outline f none]
    exact List.mem_filterMap.2 ⟨_, hkind, rfl⟩
  exact ⟨countP_entry_eq_one hn h hkind,
    countP_entry_eq_one hn h (Forest.severity_mem_outline_iff.2 hmem)⟩

/-- The facts for the kinds of both ends come before a link. -/
theorem exists_kinds_before (hn : f.preorder.Nodup)
    (h : rules.filterMap Rule.entry = f.outline none) (hr : r ∈ rules)
    (hlink : r.entry = some (.link a b)) :
    ∃ s t : Rule, s.entry = some (.kind a) ∧ t.entry = some (.kind b) ∧
      [s, t, r].Sublist rules := by
  obtain ⟨k, hk, hmap⟩ := exists_sublist_of_sublist_filterMap (h ▸ sublist_of_link h hr hlink)
  obtain ⟨s, k, rfl, hs, hmap⟩ := List.map_eq_cons_iff.1 hmap
  obtain ⟨t, k, rfl, ht, hmap⟩ := List.map_eq_cons_iff.1 hmap
  obtain ⟨r', k, rfl, hr', hmap⟩ := List.map_eq_cons_iff.1 hmap
  obtain rfl := List.map_eq_nil_iff.1 hmap
  -- the link that was picked last is the only one to `b`
  have hmem : r' ∈ rules.filter (Rule.linksTo b) :=
    List.mem_filter.2 ⟨hk.subset (by simp), by simp [Rule.linksTo, hr', Entry.child?]⟩
  rw [filter_linksTo_eq hn h hr hlink, List.mem_singleton] at hmem
  exact ⟨s, t, hs, ht, hmem ▸ hk⟩

/-- Links lead to names that come later. -/
theorem idxOf_lt_of_link (hn : f.preorder.Nodup)
    (h : rules.filterMap Rule.entry = f.outline none) (hr : r ∈ rules)
    (hlink : r.entry = some (.link a b)) : f.preorder.idxOf a < f.preorder.idxOf b := by
  have hkinds := (sublist_of_link h hr hlink).filterMap Entry.opened?
  rw [Forest.filterMap_opened_outline] at hkinds
  exact idxOf_lt_idxOf hn hkinds

end Outline

/-- **Links form a forest.** Both ends of a link have exactly one kind and one severity; no other
link leads to its second end; it comes after the facts for the kinds of both; links never lead back;
and the shapes that no link leads to are those written out at the top level, in their order. -/
theorem links_form_forest {src : ShapeSource} {options : Options} {program : Program}
    (h : (compile src options).result = .ok program) :
    (∀ r ∈ program.rules, ∀ a b, r.entry = some (.link a b) →
      (∀ name ∈ [a, b], program.rules.countP (fun s => s.entry == some (.kind name)) = 1 ∧
        program.rules.countP (fun s => s.entry == some (.severity name)) = 1) ∧
      program.rules.filter (Rule.linksTo b) = [r] ∧
      ∃ s t : Rule, s.entry = some (.kind a) ∧ t.entry = some (.kind b) ∧
        [s, t, r].Sublist program.rules) ∧
    (∀ name, ¬ Relation.TransGen program.Links name name) ∧
    ∃ f, IsLayout src f ∧
      (program.rules.filterMap fun r => r.entry.bind Entry.opened?).filter
        (fun name => program.rules.all fun r => !r.linksTo name) = f.roots.map Occurrence.name := by
  obtain ⟨f, hlayout, hn, -, houtline⟩ := exists_outline h
  refine ⟨?_, ?_, f, hlayout, ?_⟩
  · intro r hr a b hlink
    exact ⟨fun name hname => countP_ends_eq_one hn houtline hr hlink hname,
      filter_linksTo_eq hn houtline hr hlink, exists_kinds_before hn houtline hr hlink⟩
  · intro name hcycle
    -- along a chain of links the position of the name grows
    have hlt : ∀ {a b}, Relation.TransGen program.Links a b →
        (f.map Occurrence.name).preorder.idxOf a < (f.map Occurrence.name).preorder.idxOf b := by
      intro a b hab
      induction hab with
      | single hlink =>
        obtain ⟨r, hr, hlink⟩ := hlink
        exact idxOf_lt_of_link hn houtline hr hlink
      | tail _ hlink ih =>
        obtain ⟨r, hr, hlink⟩ := hlink
        exact Nat.lt_trans ih (idxOf_lt_of_link hn houtline hr hlink)
    exact Nat.lt_irrefl _ (hlt hcycle)
  · have hopened : (program.rules.filterMap fun r => r.entry.bind Entry.opened?) =
        (f.map Occurrence.name).preorder := by
      rw [← Forest.filterMap_opened_outline _ none, ← houtline, List.filterMap_filterMap]
    rw [hopened, ← Forest.roots_map, ← Forest.filter_not_inner hn]
    refine List.filter_congr fun name _ => ?_
    rw [Bool.eq_iff_iff, all_not_linksTo_iff houtline, decide_eq_true_iff]

/-- A shape that nests a second one and a third, which the second nests as well; and one more shape
that nests the third. All ask for the same name. -/
def sharedInner : ShapeSource :=
  let inner : Shape := { id := .blank "c", names := ["s"], isProperty := true }
  let middle : Shape := { id := .blank "b", names := ["s"], constraints := [.property [inner.id]] }
  let first : Shape := {
    id := .iri "a"
    names := ["s"]
    constraints := [.node [middle.id], .qualifiedValueShape [inner.id] (some 1) none false] }
  let second : Shape := { id := .iri "d", names := ["s"], constraints := [.property [inner.id]] }
  { shapes := [first, second], known := [first, middle, inner, second] }

theorem links_form_forest_sharedInner :
    ∃ program, (compile sharedInner {}).result = .ok program ∧
      (∃ r ∈ program.rules, r.entry = some (.link "s0" "s1") ∧
        (∀ name ∈ ["s0", "s1"],
          program.rules.countP (fun s => s.entry == some (.kind name)) = 1 ∧
          program.rules.countP (fun s => s.entry == some (.severity name)) = 1) ∧
        program.rules.filter (Rule.linksTo "s1") = [r] ∧
        ∃ s t : Rule, s.entry = some (.kind "s0") ∧ t.entry = some (.kind "s1") ∧
          [s, t, r].Sublist program.rules) ∧
      (∀ name, ¬ Relation.TransGen program.Links name name) ∧
      ∃ f, IsLayout sharedInner f ∧ f.roots.map Occurrence.name = ["s", "s3"] ∧
        (program.rules.filterMap fun r => r.entry.bind Entry.opened?).filter
          (fun name => program.rules.all fun r => !r.linksTo name) =
            f.roots.map Occurrence.name := by
  have h : (compile sharedInner {}).result =
      .ok ((compile sharedInner {}).result.toOption.getD {}) := by decide +kernel
  obtain ⟨hlinks, hcycle, f, hlayout, hroots⟩ := links_form_forest h
  refine ⟨_, h, ?_, hcycle, f, hlayout, ?_, hroots⟩
  · have hr : about .propertyConstr "s0" ["s1"] ∈
        ((compile sharedInner {}).result.toOption.getD {}).rules := by decide +kernel
    exact ⟨_, hr, rfl, hlinks _ hr "s0" "s1" rfl⟩
  · rw [← hroots]
    decide +kernel

end ShapeRules
