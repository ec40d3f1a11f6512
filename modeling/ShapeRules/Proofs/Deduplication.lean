import Mathlib.Data.List.Basic
import ShapeRules.Datalog.Program

/-!
# Programs drop repeated clauses

A program keeps the first of several rules with the same clause. Adding rules one by one therefore
adds the list of the rules without those whose clause is in the program or came earlier, and adding
the rules of a program that was itself built from a list is the same as adding the list.

## Main definitions

* `distinct`: a list of rules without those whose clause came earlier

## Main results

* `Program.rules_pushAll`, `Program.rules_ofRules`: what adding a list of rules gives
* `Program.extend_ofRules`: a program that is added need not have dropped its repetitions
* `Program.rules_extend_ofRules`: a program that shares no clause is added whole
-/

namespace ShapeRules.Datalog

/-- Whether two rules have the same clause. -/
def sameClause (r s : Rule) : Bool := r.toClause = s.toClause

/-- **The rules of a list without those whose clause came earlier.** -/
def distinct (rules : List Rule) : List Rule := rules.eraseDupsBy sameClause

@[simp]
theorem distinct_nil : distinct [] = [] := rfl

theorem distinct_cons (r : Rule) (l : List Rule) :
    distinct (r :: l) = r :: distinct (l.filter fun s => !sameClause s r) := by
  rw [distinct, List.eraseDupsBy_cons]
  simp [distinct]

/-- Induction along the recursion of `distinct`: the rules after the first one are considered
without those that have its clause. -/
theorem distinct_induction {motive : List Rule → Prop} (nil : motive [])
    (cons : ∀ r l, motive (l.filter fun s => !sameClause s r) → motive (r :: l)) (l : List Rule) :
    motive l := by
  match l with
  | [] => exact nil
  | r :: l => exact cons r l (distinct_induction nil cons _)
termination_by l.length
decreasing_by exact Nat.lt_succ_of_le (List.length_filter_le ..)

/-- The clauses of the distinct rules are the distinct clauses. -/
theorem map_toClause_distinct (l : List Rule) :
    (distinct l).map Rule.toClause = (l.map Rule.toClause).eraseDups := by
  induction l using distinct_induction with
  | nil => rfl
  | cons r l ih =>
    -- both sides go on without what has the clause of `r`
    rw [distinct_cons, List.map_cons, List.map_cons, List.eraseDups_cons, ih, List.filter_map]
    rfl

theorem distinct_subset (l : List Rule) : distinct l ⊆ l := by
  induction l using distinct_induction with
  | nil => exact List.nil_subset _
  | cons r l ih =>
    rw [distinct_cons]
    apply List.cons_subset_cons r
    intro s hs
    exact (List.mem_filter.1 (ih hs)).1

/-- Every clause stays. -/
theorem exists_mem_distinct {r : Rule} {l : List Rule} (hr : r ∈ l) :
    ∃ s ∈ distinct l, sameClause s r := by
  have hclause : r.toClause ∈ (distinct l).map Rule.toClause := by
    rw [map_toClause_distinct, List.mem_eraseDups]
    exact List.mem_map_of_mem hr
  obtain ⟨s, hs, he⟩ := List.mem_map.1 hclause
  exact ⟨s, hs, decide_eq_true he⟩

/-- What depends on the clause alone is found in both lists or in none. -/
theorem mem_filterMap_distinct {β : Type} {pick : Rule → Option β}
    (h : ∀ r s, sameClause r s → pick r = pick s) {l : List Rule} {b : β} :
    b ∈ (distinct l).filterMap pick ↔ b ∈ l.filterMap pick := by
  rw [List.mem_filterMap, List.mem_filterMap]
  constructor
  · rintro ⟨r, hr, hb⟩
    exact ⟨r, distinct_subset l hr, hb⟩
  · rintro ⟨r, hr, hb⟩
    obtain ⟨s, hs, hsame⟩ := exists_mem_distinct hr
    exact ⟨s, hs, (h s r hsame).trans hb⟩

/-- A test that only looks at the clause can be made before or after. -/
theorem filter_distinct {keep : Rule → Bool} (h : ∀ r s, sameClause r s → keep r = keep s)
    (l : List Rule) : (distinct l).filter keep = distinct (l.filter keep) := by
  induction l using distinct_induction with
  | nil => rfl
  | cons r l ih =>
    rw [distinct_cons]
    cases hr : keep r with
    | false =>
      rw [List.filter_cons_of_neg (by simp [hr]), List.filter_cons_of_neg (by simp [hr]), ih]
      -- a rule that is kept does not have the clause of the one that is not
      rw [List.filter_filter]
      congr 1
      apply List.filter_congr
      intro s _
      cases hs : sameClause s r with
      | false => simp
      | true => simp [h s r hs, hr]
    | true =>
      rw [List.filter_cons_of_pos hr, List.filter_cons_of_pos hr, distinct_cons, ih,
        List.filter_filter, List.filter_filter]
      simp only [Bool.and_comm]

/-- What is found under a key that depends on the clause, where no key comes twice, is found in the
same order. It may depend on the comments itself. -/
theorem filterMap_distinct_of_key {β γ : Type} {pick : Rule → Option β} {key : Rule → Option γ}
    (hkey : ∀ r s, sameClause r s → key r = key s) (hpick : ∀ r, key r = none → pick r = none)
    {l : List Rule} (hn : (l.filterMap key).Nodup) :
    (distinct l).filterMap pick = l.filterMap pick := by
  induction l using distinct_induction with
  | nil => rfl
  | cons r l ih =>
    -- a rule with the clause of `r` has no key, since the key of `r` would come again
    have hdropped : ∀ s ∈ l, sameClause s r → key s = none := by
      intro s hs hclause
      rw [hkey s r hclause]
      cases hr : key r with
      | none => rfl
      | some x =>
        rw [List.filterMap_cons_some hr, List.nodup_cons] at hn
        exact absurd (List.mem_filterMap.2 ⟨s, hs, (hkey s r hclause).trans hr⟩) hn.1
    have hl : ∀ {δ : Type} {f : Rule → Option δ}, (∀ s, key s = none → f s = none) →
        (l.filter fun s => !sameClause s r).filterMap f = l.filterMap f := by
      intro δ f hf
      rw [List.filterMap_filter]
      refine List.filterMap_congr fun s hs => ?_
      cases hclause : sameClause s r with
      | false => rfl
      | true => exact (hf s (hdropped s hs hclause)).symm
    have hn' : (l.filterMap key).Nodup :=
      hn.sublist ((List.sublist_cons_self r l).filterMap key)
    rw [distinct_cons, List.filterMap_cons, ih (hl (fun _ h => h) ▸ hn'), hl hpick,
      List.filterMap_cons]

/-- What depends on the clause and is found at most once is found in the same order. -/
theorem filterMap_distinct {β : Type} {pick : Rule → Option β}
    (h : ∀ r s, sameClause r s → pick r = pick s) {l : List Rule} (hn : (l.filterMap pick).Nodup) :
    (distinct l).filterMap pick = l.filterMap pick :=
  filterMap_distinct_of_key h (fun _ hr => hr) hn

namespace Program

theorem hasClause_iff {p : Program} {r : Rule} :
    p.hasClause r ↔ ∃ s ∈ p.rules, s.toClause = r.toClause := by
  rw [hasClause, decide_eq_true_iff, p.seen_eq, OrderedSet.mem_ofList, List.mem_map]

/-- The rules and the library say all about a program. -/
theorem ext {p q : Program} (hl : p.library = q.library) (hr : p.rules = q.rules) : p = q := by
  obtain ⟨library, rules, i⟩ := p
  obtain ⟨_, _, j⟩ := q
  obtain rfl : library = _ := hl
  obtain rfl : rules = _ := hr
  rw [i.unique j]

theorem pushAll_cons (p : Program) (r : Rule) (l : List Rule) :
    p.pushAll (r :: l) = (p.push r).pushAll l := rfl

theorem pushAll_append (p : Program) (l m : List Rule) :
    p.pushAll (l ++ m) = (p.pushAll l).pushAll m :=
  List.foldl_append

theorem push_eq_pushAll (p : Program) (r : Rule) : p.push r = p.pushAll [r] := rfl

theorem push_of_hasClause {p : Program} {r : Rule} (h : p.hasClause r) : p.push r = p := by
  rw [push, addRule, if_pos h]

theorem rules_push_of_new {p : Program} {r : Rule} (h : ¬ p.hasClause r) :
    (p.push r).rules = p.rules ++ [r] := by
  rw [push, addRule, if_neg h]

theorem hasClause_congr {p : Program} {r s : Rule} (h : sameClause r s) :
    p.hasClause r = p.hasClause s := by
  have h' : r.toClause = s.toClause := by simpa [sameClause] using h
  rw [hasClause, hasClause, h']

theorem hasClause_push (p : Program) (r s : Rule) :
    (p.push r).hasClause s = (p.hasClause s || sameClause s r) := by
  by_cases hr : p.hasClause r
  · rw [push_of_hasClause hr]
    -- a rule with the clause of `r` is there as well
    cases hs : sameClause s r with
    | false => simp
    | true => simp [hasClause_congr hs, hr]
  · rw [Bool.eq_iff_iff, Bool.or_eq_true, hasClause_iff, hasClause_iff, rules_push_of_new hr]
    simp [sameClause, or_and_right, exists_or, eq_comm (a := s.toClause)]

/-- **Adding rules** appends the distinct ones among those whose clause is not there. -/
theorem rules_pushAll (p : Program) (l : List Rule) :
    (p.pushAll l).rules = p.rules ++ distinct (l.filter fun r => !p.hasClause r) := by
  -- The program grows along the list, so the induction is over every program.
  induction l generalizing p with
  | nil => simp [pushAll]
  | cons r l ih =>
    rw [pushAll_cons, ih]
    by_cases hr : p.hasClause r
    · rw [push_of_hasClause hr, List.filter_cons_of_neg (by simp [hr])]
    · rw [List.filter_cons_of_pos (by simp [hr]), distinct_cons, List.filter_filter]
      -- after `r` is added, a rule is new if it was new before and does not have the clause of `r`
      have hkeep : (fun s => !(p.push r).hasClause s) =
          fun s => !sameClause s r && !p.hasClause s := by
        funext s
        rw [hasClause_push, Bool.not_or, Bool.and_comm]
      rw [hkeep, rules_push_of_new hr, List.append_assoc, List.singleton_append]

/-- The rules of the program of a list are the distinct ones. -/
@[simp]
theorem rules_ofRules (library : String) (l : List Rule) :
    (ofRules library l).rules = distinct l := by
  have hnew : l.filter (fun r => !hasClause { library } r) = l :=
    List.filter_eq_self.2 (by simp [← Bool.not_eq_true, hasClause_iff])
  rw [ofRules, rules_pushAll, hnew, List.nil_append]

@[simp]
theorem library_push (p : Program) (r : Rule) : (p.push r).library = p.library := by
  rw [push, addRule]
  split <;> rfl

@[simp]
theorem library_pushAll (p : Program) (l : List Rule) : (p.pushAll l).library = p.library := by
  induction l generalizing p with
  | nil => rfl
  | cons r l ih => rw [pushAll_cons, ih, library_push]

theorem ofRules_eq (library : String) (l : List Rule) :
    ofRules library l = { library, rules := distinct l } :=
  ext (library_pushAll { library } l) (rules_ofRules library l)

/-- Rules whose clause is there can be left out of those that are added. -/
theorem pushAll_filter {p : Program} {keep : Rule → Bool} (l : List Rule)
    (h : ∀ r, keep r = false → p.hasClause r) : p.pushAll (l.filter keep) = p.pushAll l := by
  induction l generalizing p with
  | nil => rfl
  | cons r l ih =>
    rw [pushAll_cons]
    cases hr : keep r with
    | false => rw [List.filter_cons_of_neg (by simp [hr]), push_of_hasClause (h r hr), ih h]
    | true =>
      rw [List.filter_cons_of_pos hr, pushAll_cons]
      -- what was there is there after one more rule
      apply ih
      intro s hs
      rw [hasClause_push, h s hs, Bool.true_or]

theorem pushAll_distinct (p : Program) (l : List Rule) : p.pushAll (distinct l) = p.pushAll l := by
  induction l using distinct_induction generalizing p with
  | nil => rfl
  | cons r l ih =>
    rw [distinct_cons, pushAll_cons, pushAll_cons, ih]
    -- the rules left out have the clause of `r`, which has just been added
    apply pushAll_filter l
    intro s hs
    rw [hasClause_push, (Bool.not_eq_false' _).mp hs, Bool.or_true]

/-- **Adding a program** that was built from a list is adding the list. -/
theorem extend_ofRules (p : Program) (library : String) (l : List Rule) :
    p.extend (ofRules library l) = p.pushAll l := by
  rw [extend, rules_ofRules, pushAll_distinct]

/-- A program that shares no clause is added whole. -/
theorem rules_extend_ofRules {p : Program} {library : String} {l : List Rule}
    (h : ∀ r ∈ l, p.hasClause r = false) :
    (p.extend (ofRules library l)).rules = p.rules ++ (ofRules library l).rules := by
  have hkeep : l.filter (fun r => !p.hasClause r) = l := by
    apply List.filter_eq_self.2
    intro r hr
    rw [h r hr]
    rfl
  rw [extend_ofRules, rules_pushAll, hkeep, rules_ofRules]

theorem pushAll_ofRules (library : String) (l m : List Rule) :
    (ofRules library l).pushAll m = ofRules library (l ++ m) :=
  (pushAll_append ..).symm

end Program

end ShapeRules.Datalog
