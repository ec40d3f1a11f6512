import ShapeRules.Proofs.Forest

/-!
# Fresh names

Allocation takes the first of the candidates that is free. The name is an identifier that was not
taken before, and it is taken afterwards.

## Main results

* `Datalog.Namespace.allocate_not_mem`, `Datalog.Namespace.isIdentifier_allocate`: what a new name
  is like
* `Datalog.Namespace.allocateAll_spec`: the names of a whole list
-/

namespace ShapeRules.Datalog

/-! ## Candidates -/

theorem isIdentifierPart_of_isDigit {c : Char} (h : c.isDigit) : isIdentifierPart c := by
  simp [isIdentifierPart, Char.isAlphanum, h]

theorem isIdentifierPart_of_mem_candidateDigits {c : Char} {n : Nat}
    (h : c ∈ candidateDigits n) : isIdentifierPart c := by
  cases n with
  | zero => cases h
  | succ n =>
    apply isIdentifierPart_of_isDigit
    exact Nat.isDigit_of_mem_toDigits (by decide) (by decide) h

/-- A candidate of an identifier is an identifier. -/
theorem isIdentifier_candidate {base : String} (h : isIdentifier base) (n : Nat) :
    isIdentifier (candidate base n) := by
  rw [isIdentifier] at h ⊢
  rw [toList_candidate]
  cases hb : base.toList with
  | nil =>
    rw [hb] at h
    cases h
  | cons c cs =>
    rw [hb] at h
    obtain ⟨hc, hcs⟩ := Bool.and_eq_true_iff.1 h
    -- digits may follow the first character, which the base has
    have hdigits : (candidateDigits n).all isIdentifierPart := by
      apply List.all_eq_true.2
      intro d hd
      exact isIdentifierPart_of_mem_candidateDigits hd
    rw [List.cons_append, isIdentifierChars, List.all_append, hc, hcs, hdigits]
    rfl

theorem keepIf_spec {allowed : Char → Bool} (h : allowed placeholder) (c : Char) :
    allowed (keepIf allowed c) := by
  unfold keepIf
  split
  next hc => exact hc
  · exact h

/-- Sanitizing a text that is not empty gives an identifier. -/
theorem isIdentifier_sanitize {s : String} (h : s ≠ "") : isIdentifier (sanitize s) := by
  rw [isIdentifier, sanitize, String.toList_ofList]
  cases hs : s.toList with
  | nil => exact absurd (String.toList_eq_nil_iff.1 hs) h
  | cons c cs =>
    -- the placeholder is allowed everywhere, so every character that is kept or replaced is
    refine Bool.and_eq_true_iff.2 ⟨keepIf_spec (by decide) c, ?_⟩
    apply List.all_eq_true.2
    intro d hd
    obtain ⟨e, -, rfl⟩ := List.mem_map.1 hd
    exact keepIf_spec (by decide) e

theorem baseName_ne_empty (preferred : Option String) : baseName preferred ≠ "" := by
  cases preferred with
  | none => decide
  | some s =>
    rw [baseName]
    split
    · decide
    next h => exact h

/-! ## Allocation -/

namespace Namespace

theorem names_allocate (ns : Namespace) (preferred : Option String) :
    (ns.allocate preferred).2.names = ns.names ++ [(ns.allocate preferred).1] := rfl

/-- **A new name was not taken.** -/
theorem allocate_not_mem (ns : Namespace) (preferred : Option String) :
    (ns.allocate preferred).1 ∉ ns.names :=
  ns.firstFree_not_mem _

/-- **A new name is an identifier.** -/
theorem isIdentifier_allocate (ns : Namespace) (preferred : Option String) :
    isIdentifier (ns.allocate preferred).1 := by
  obtain ⟨m, -, hm, -, -⟩ :=
    firstFreeFrom_spec (sanitize (baseName preferred)) 0 ns.names
  show isIdentifier (ns.firstFree (sanitize (baseName preferred)))
  rw [firstFree, hm]
  exact isIdentifier_candidate (isIdentifier_sanitize (baseName_ne_empty preferred)) m

theorem names_allocateAll (ns : Namespace) (l : List (Option String)) :
    (ns.allocateAll l).2.names = ns.names ++ (ns.allocateAll l).1 := by
  induction l generalizing ns with
  | nil => exact (List.append_nil ns.names).symm
  | cons preferred l ih =>
    rw [allocateAll, ih, names_allocate, List.append_assoc]
    rfl

theorem length_allocateAll (ns : Namespace) (l : List (Option String)) :
    (ns.allocateAll l).1.length = l.length := by
  induction l generalizing ns with
  | nil => rfl
  | cons preferred l ih => rw [allocateAll, List.length_cons, List.length_cons, ih]

theorem isIdentifier_of_mem_allocateAll (ns : Namespace) (l : List (Option String)) :
    ∀ name ∈ (ns.allocateAll l).1, isIdentifier name := by
  induction l generalizing ns with
  | nil => exact fun name hname => absurd hname List.not_mem_nil
  | cons preferred l ih =>
    intro name hname
    rcases List.mem_cons.1 hname with rfl | hname
    · exact ns.isIdentifier_allocate preferred
    · exact ih _ name hname

/-- **Names for a list:** they are different from each other and from those that were taken, they
are identifiers, and they are taken afterwards. -/
theorem allocateAll_spec (ns : Namespace) (l : List (Option String)) :
    (ns.allocateAll l).2.names = ns.names ++ (ns.allocateAll l).1 ∧
      (ns.allocateAll l).1.length = l.length ∧ (ns.allocateAll l).1.Nodup ∧
      (∀ name ∈ (ns.allocateAll l).1, name ∉ ns.names) ∧
      ∀ name ∈ (ns.allocateAll l).1, isIdentifier name := by
  -- The names that are taken afterwards are the old and the new ones, each once.
  have hnodup := (ns.allocateAll l).2.nodup
  rw [names_allocateAll, List.nodup_append] at hnodup
  obtain ⟨-, hnew, hdisjoint⟩ := hnodup
  refine ⟨ns.names_allocateAll l, ns.length_allocateAll l, hnew, ?_,
    ns.isIdentifier_of_mem_allocateAll l⟩
  intro name hname hmem
  exact hdisjoint name hmem name hname rfl

/-- The names of the library are taken from the start. -/
theorem name_mem_initial (p : Predicate) : p.name ∈ initial.names :=
  List.mem_map_of_mem (Predicate.mem_all p)

end Namespace

end ShapeRules.Datalog
