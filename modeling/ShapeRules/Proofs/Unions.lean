import Mathlib.Data.List.Induction
import Mathlib.Logic.Function.Basic
import ShapeRules.Proofs.Deduplication

/-!
# Programs as unions

Programs are built up by adding rules, facts, lists of rules and other programs, which were built up
in the same way. Beside each program stands the plain list of all rules that ever went into it, with
their repetitions; one edit after the other, the program stays the list of the first rules with each
clause. The laws of the union follow, since concatenation is associative and what is repeated does
not matter.

## Main definitions

* `Edit`: an edit of one of several named programs
* `programsAfter`, `insertedAfter`: the programs after some edits, and what went into each

## Main results

* `find?_of_mem_distinct`: the rules that stay are the first ones with their clauses
* `rules_programsAfter`: the rules of a program after any edits
* `Program.merge_assoc`, `Program.merge_merge_self`: laws of the union
* `program_union_laws`: all of this, of every sequence of edits
-/

namespace ShapeRules.Datalog

/-! ## The first rules with each clause -/

theorem nodup_distinct (l : List Rule) : ((distinct l).map Rule.toClause).Nodup := by
  induction l using distinct_induction with
  | nil => exact List.nodup_nil
  | cons r l ih =>
    rw [distinct_cons, List.map_cons, List.nodup_cons]
    refine ⟨?_, ih⟩
    intro hr
    obtain ⟨s, hs, hclause⟩ := List.mem_map.1 hr
    -- what stays after `r` does not have its clause
    have hother := (List.mem_filter.1 (distinct_subset _ hs)).2
    rw [sameClause, decide_eq_true hclause] at hother
    cases hother

/-- **The rules that stay are the first ones with their clauses,** comments included. -/
theorem find?_of_mem_distinct {l : List Rule} {r : Rule} (hr : r ∈ distinct l) :
    l.find? (sameClause · r) = some r := by
  induction l using distinct_induction with
  | nil => cases hr
  | cons s l ih =>
    rw [distinct_cons] at hr
    rcases List.mem_cons.1 hr with rfl | hr
    · exact List.find?_cons_of_pos (decide_eq_true rfl)
    · -- a rule further on has another clause than `s`, and so have those it is looked for among
      have hother : sameClause r s = false := by
        simpa using (List.mem_filter.1 (distinct_subset _ hr)).2
      have hclause : r.toClause ≠ s.toClause := of_decide_eq_false hother
      have hfound := ih hr
      rw [List.find?_filter] at hfound
      rw [List.find?_cons_of_neg (by simpa [sameClause] using Ne.symm hclause), ← hfound]
      congr 1
      funext u
      by_cases hu : u.toClause = r.toClause
      · simp [sameClause, hu, hclause]
      · simp [sameClause, hu]

theorem distinct_distinct (l : List Rule) : distinct (distinct l) = distinct l := by
  rw [← Program.rules_ofRules defaultLibrary, Program.ofRules, Program.pushAll_distinct,
    ← Program.ofRules, Program.rules_ofRules]

/-! ## Laws of the union -/

namespace Program

theorem mem_seen_iff {p : Program} {c : Clause} : c ∈ p.seen ↔ ∃ r ∈ p.rules, r.toClause = c := by
  rw [p.seen_eq, OrderedSet.mem_ofList, List.mem_map]

/-- **Whether a rule was added** is whether its clause was not there, and then the list is one
longer. -/
theorem addRule_eq_true_iff (p : Program) (r : Rule) :
    (p.addRule r).1 = true ↔ (p.addRule r).2.size = p.size + 1 := by
  rw [addRule]
  split
  · simp
  · simp [size]

theorem hasClause_pushAll {p : Program} {l : List Rule} {s : Rule} :
    (p.pushAll l).hasClause s ↔ p.hasClause s ∨ ∃ r ∈ l, r.toClause = s.toClause := by
  induction l generalizing p with
  | nil => simp [pushAll]
  | cons r l ih =>
    rw [pushAll_cons, ih, hasClause_push, Bool.or_eq_true, sameClause, decide_eq_true_iff, or_assoc,
      List.exists_mem_cons_iff, eq_comm (a := s.toClause)]

/-- Rules whose clauses are there add nothing. -/
theorem pushAll_eq_self {p : Program} {l : List Rule} (h : ∀ r ∈ l, p.hasClause r) :
    p.pushAll l = p := by
  apply ext (library_pushAll p l)
  have hnone : l.filter (fun r => !p.hasClause r) = [] := by
    rw [List.filter_eq_nil_iff]
    intro r hr
    simp [h r hr]
  rw [rules_pushAll, hnone, distinct_nil, List.append_nil]

variable (a b c : Program)

/-- **The union is associative.** -/
theorem merge_assoc : (a.merge b).merge c = a.merge (b.merge c) := by
  -- what the second program leaves out of the third has come with the second already
  have hseen : ∀ r, (!b.hasClause r) = false → (a.pushAll b.rules).hasClause r := by
    intro r hr
    rw [Bool.not_eq_false', hasClause_iff] at hr
    exact hasClause_pushAll.2 (.inr hr)
  calc (a.pushAll b.rules).pushAll c.rules
      = (a.pushAll b.rules).pushAll (c.rules.filter fun r => !b.hasClause r) :=
        (pushAll_filter c.rules hseen).symm
    _ = (a.pushAll b.rules).pushAll (distinct (c.rules.filter fun r => !b.hasClause r)) :=
        (pushAll_distinct ..).symm
    _ = a.pushAll (b.pushAll c.rules).rules := by rw [rules_pushAll b, pushAll_append]

/-- What is there adds nothing a second time. -/
theorem merge_merge_self : (a.merge b).merge a = a.merge b := by
  apply pushAll_eq_self
  intro r hr
  exact hasClause_pushAll.2 (.inl (hasClause_iff.2 ⟨r, hr, rfl⟩))

theorem merge_self : a.merge a = a := by
  apply pushAll_eq_self
  intro r hr
  exact hasClause_iff.2 ⟨r, hr, rfl⟩

/-- The clauses of a union do not depend on the order. -/
theorem seen_merge_comm : (a.merge b).seen = (b.merge a).seen := by
  apply OrderedSet.ext
  intro c
  have hmem : ∀ p q : Program, c ∈ (p.merge q).seen ↔ c ∈ p.seen ∨ c ∈ q.seen := by
    intro p q
    have h := hasClause_pushAll (p := p) (l := q.rules) (s := { toClause := c })
    rw [← hasClause_iff] at h
    simpa [hasClause, merge, extend] using h
  rw [hmem, hmem, or_comm]

/-- A program whose rules are the first ones with each clause is the program of the list. -/
theorem eq_ofRules {p : Program} {l : List Rule} (h : p.rules = distinct l) :
    p = ofRules p.library l :=
  ext (library_pushAll { library := p.library } l).symm (h.trans (rules_ofRules ..).symm)

/-- **What goes into a program** is appended to all that went into it before. -/
theorem rules_pushAll_of_distinct {p : Program} {l : List Rule} (h : p.rules = distinct l)
    (m : List Rule) : (p.pushAll m).rules = distinct (l ++ m) := by
  rw [eq_ofRules h, pushAll_ofRules, rules_ofRules]

theorem rules_extend_of_distinct {p q : Program} {l m : List Rule} (hp : p.rules = distinct l)
    (hq : q.rules = distinct m) : (p.extend q).rules = distinct (l ++ m) := by
  rw [extend, hq, pushAll_distinct, rules_pushAll_of_distinct hp]

end Program

/-! ## Sequences of edits -/

/-- **An edit of one of several named programs.** -/
inductive Edit where
  /-- The program starts over, without rules, over a library. -/
  | start (library : String)
  | addRule (r : Rule)
  | addFact (head : Atom)
  | addAll (rules : List Rule)
  /-- The rules of another program are added, or once more its own. -/
  | extend (other : String)
  /-- The program becomes the union of two. -/
  | merge (left right : String)

namespace Edit

/-- What an edit makes of the program with a name. -/
def program (programs : String → Program) (name : String) : Edit → Program
  | .start library => { library }
  | .addRule r => ((programs name).addRule r).2
  | .addFact head => ((programs name).addFact head).2
  | .addAll rules => (programs name).pushAll rules
  | .extend other => (programs name).extend (programs other)
  | .merge left right => (programs left).merge (programs right)

/-- All that went into the program with a name, after an edit of it. -/
def inserted (insertions : String → List Rule) (name : String) : Edit → List Rule
  | .start _ => []
  | .addRule r => insertions name ++ [r]
  | .addFact head => insertions name ++ [.fact head]
  | .addAll rules => insertions name ++ rules
  | .extend other => insertions name ++ insertions other
  | .merge left right => insertions left ++ insertions right

/-- **One edit** keeps the rules of every program the first ones with each clause. -/
theorem rules_program {programs : String → Program} {insertions : String → List Rule}
    (h : ∀ name, (programs name).rules = distinct (insertions name)) (name : String) (e : Edit) :
    (e.program programs name).rules = distinct (e.inserted insertions name) := by
  cases e with
  | start library => rfl
  | addRule r => exact Program.rules_pushAll_of_distinct (h name) [r]
  | addFact head => exact Program.rules_pushAll_of_distinct (h name) [.fact head]
  | addAll rules => exact Program.rules_pushAll_of_distinct (h name) rules
  | extend other => exact Program.rules_extend_of_distinct (h name) (h other)
  | merge left right => exact Program.rules_extend_of_distinct (h left) (h right)

end Edit

/-- The programs after some edits, each of the program with a name; all are empty at first. -/
def programsAfter (edits : List (String × Edit)) : String → Program :=
  edits.foldl (fun programs e => Function.update programs e.1 (e.2.program programs e.1))
    fun _ => .empty

/-- All rules that went into the programs, in order and with their repetitions. -/
def insertedAfter (edits : List (String × Edit)) : String → List Rule :=
  edits.foldl (fun insertions e => Function.update insertions e.1 (e.2.inserted insertions e.1))
    fun _ => []

theorem programsAfter_concat (edits : List (String × Edit)) (e : String × Edit) :
    programsAfter (edits ++ [e]) =
      Function.update (programsAfter edits) e.1 (e.2.program (programsAfter edits) e.1) :=
  List.foldl_concat ..

theorem insertedAfter_concat (edits : List (String × Edit)) (e : String × Edit) :
    insertedAfter (edits ++ [e]) =
      Function.update (insertedAfter edits) e.1 (e.2.inserted (insertedAfter edits) e.1) :=
  List.foldl_concat ..

/-- **After any edits** the rules of a program are the first ones with each clause of all that went
into it. -/
theorem rules_programsAfter (edits : List (String × Edit)) (name : String) :
    (programsAfter edits name).rules = distinct (insertedAfter edits name) := by
  induction edits using List.reverseRecOn generalizing name with
  | nil => rfl
  | append_singleton edits e ih =>
    rw [programsAfter_concat, insertedAfter_concat]
    by_cases hname : name = e.1
    · subst hname
      rw [Function.update_self, Function.update_self, e.2.rules_program ih]
    · rw [Function.update_of_ne hname, Function.update_of_ne hname, ih]

/-- **The laws of programs and their unions.** After any edits of several programs:

* the set of clauses of each program is that of its rules, and no two rules have the same clause,
* its rules are the first ones with each clause of all that went into it, with their comments,
* a rule is reported as added exactly if the list grows by one,
* the union is associative and idempotent, has the empty program as its unit on rules, takes nothing
  from a program a second time and keeps the library of the first program, and in both orders it has
  the same clauses. -/
theorem program_union_laws (edits : List (String × Edit)) :
    let p := programsAfter edits
    (∀ a, (∀ c, c ∈ (p a).seen ↔ ∃ r ∈ (p a).rules, r.toClause = c) ∧
      ((p a).rules.map Rule.toClause).Nodup ∧
      (p a).rules = distinct (insertedAfter edits a) ∧
      (∀ r ∈ (p a).rules, (insertedAfter edits a).find? (sameClause · r) = some r) ∧
      ∀ r, ((p a).addRule r).1 = true ↔ ((p a).addRule r).2.size = (p a).size + 1) ∧
    ∀ a b c, ((p a).merge (p b)).merge (p c) = (p a).merge ((p b).merge (p c)) ∧
      (p a).merge (p a) = p a ∧
      (∀ library, ((p a).merge { library }).rules = (p a).rules ∧
        (Program.merge { library } (p a)).rules = (p a).rules) ∧
      ((p a).merge (p b)).merge (p a) = (p a).merge (p b) ∧
      ((p a).merge (p b)).library = (p a).library ∧
      ∀ k, k ∈ ((p a).merge (p b)).rules.map Rule.toClause ↔
        k ∈ ((p b).merge (p a)).rules.map Rule.toClause := by
  intro p
  have hrules : ∀ a, (p a).rules = distinct (insertedAfter edits a) := rules_programsAfter edits
  refine ⟨fun a => ⟨fun c => Program.mem_seen_iff, ?_, hrules a, ?_, (p a).addRule_eq_true_iff⟩,
    fun a b c => ⟨Program.merge_assoc .., Program.merge_self _, fun library => ⟨rfl, ?_⟩,
      Program.merge_merge_self .., Program.library_pushAll .., fun k => ?_⟩⟩
  · rw [hrules]
    exact nodup_distinct _
  · intro r hr
    rw [hrules] at hr
    exact find?_of_mem_distinct hr
  · show (Program.ofRules library (p a).rules).rules = _
    rw [Program.rules_ofRules, hrules, distinct_distinct]
  · rw [List.mem_map, List.mem_map, ← Program.mem_seen_iff, Program.seen_merge_comm,
      Program.mem_seen_iff]

/-- A fact with a comment. -/
def notedFact (comment : String) : Rule :=
  (Rule.fact ⟨.target, ["n"]⟩).withComment comment

/-- One clause goes into both programs with different comments, and into the first one again. -/
def repeatedEdits : List (String × Edit) :=
  [("a", .addRule (notedFact "first")), ("b", .addRule (notedFact "second")),
    ("b", .addFact ⟨.conforms, ["n"]⟩), ("a", .merge "a" "b"), ("a", .extend "a")]

theorem program_union_laws_repeated :
    notedFact "first" ∈ (programsAfter repeatedEdits "a").rules ∧
      (insertedAfter repeatedEdits "a").find? (sameClause · (notedFact "first")) =
        some (notedFact "first") ∧
      (insertedAfter repeatedEdits "a").length = 6 ∧ (programsAfter repeatedEdits "a").size = 2 :=
  have hmem : notedFact "first" ∈ (programsAfter repeatedEdits "a").rules := by decide +kernel
  ⟨hmem, ((program_union_laws repeatedEdits).1 "a").2.2.2.1 _ hmem, by decide +kernel,
    by decide +kernel⟩

end ShapeRules.Datalog
