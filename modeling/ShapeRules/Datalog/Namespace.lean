import ShapeRules.Datalog.Identifier
import ShapeRules.Datalog.Predicate

/-!
# Allocation of fresh names

A namespace holds the names that are taken. It starts with the names of the library's predicates,
so no shape can shadow one of them. A fresh name is found near a preferred one: the sanitized name
itself, then the same name followed by `0`, `1`, and so on, whichever is free first. The candidates
of one base are all different, so a free one is found however many names are taken.

## Main definitions

* `Namespace`: the names that are taken
* `candidate`: the names tried in turn
* `Namespace.allocate`: takes the first free candidate

## Main results

* `candidate_injective`: different numbers give different candidates
* `Namespace.firstFreeFrom_spec`: which candidate is found
-/

namespace ShapeRules.Datalog

/-- **The names that are taken,** in the order in which they were. -/
structure Namespace where
  names : List String
  /-- Each name is taken once. -/
  nodup : names.Nodup
  deriving DecidableEq, Repr

/-- The preferred name of a shape that states none. -/
def defaultName : String := "shape"

/-- The text from which fresh names are derived: the preferred name, or the default one if it is
missing or empty. -/
def baseName : Option String → String
  | none => defaultName
  | some s => if s = "" then defaultName else s

/-- The names tried in turn: the base, then the base followed by `0`, `1`, and so on. -/
def candidate (base : String) : Nat → String
  | 0 => base
  | n + 1 => base ++ toString n

/-- What a candidate has after its base: nothing, or the digits of a number. -/
def candidateDigits : Nat → List Char
  | 0 => []
  | n + 1 => Nat.toDigits 10 n

theorem toList_candidate (base : String) (n : Nat) :
    (candidate base n).toList = base.toList ++ candidateDigits n := by
  cases n with
  | zero => simp [candidate, candidateDigits]
  | succ n => simp [candidate, candidateDigits]

/-- **Different numbers give different candidates.** -/
theorem candidate_injective {base : String} {m n : Nat}
    (h : candidate base m = candidate base n) : m = n := by
  have hdigits : candidateDigits m = candidateDigits n := by
    have hlist := congrArg String.toList h
    rw [toList_candidate, toList_candidate] at hlist
    exact List.append_cancel_left hlist
  -- Only the candidate without a number has no digits; the others are read back from theirs.
  cases m with
  | zero =>
    cases n with
    | zero => rfl
    | succ n => exact absurd hdigits.symm Nat.toDigits_ne_nil
  | succ m =>
    cases n with
    | zero => exact absurd hdigits Nat.toDigits_ne_nil
    | succ n =>
      have hnum := congrArg (fun ds => Nat.ofDigitChars 10 ds 0) hdigits
      simpa [candidateDigits] using hnum

namespace Namespace

/-- The namespace that holds only the names of the library's predicates. -/
def initial : Namespace where
  names := Predicate.all.map Predicate.name
  nodup := by
    refine List.pairwise_map.2 (Predicate.nodup_all.imp ?_)
    intro p q hne he
    exact hne (Predicate.name_injective he)

instance : Membership String Namespace := ⟨fun ns s => s ∈ ns.names⟩

instance (s : String) (ns : Namespace) : Decidable (s ∈ ns) :=
  inferInstanceAs (Decidable (s ∈ ns.names))

/-- The number of names that are taken. -/
def size (ns : Namespace) : Nat := ns.names.length

/-- Whether two namespaces hold the same names. -/
def sameNames (a b : Namespace) : Bool :=
  a.names.all (· ∈ b.names) && b.names.all (· ∈ a.names)

/-- The first candidate from a number on that is not among some names. A candidate that is taken is
struck off the names, since the ones after it differ from it. -/
def firstFreeFrom (base : String) (n : Nat) (names : List String) : String :=
  if h : candidate base n ∈ names then
    have : (names.erase (candidate base n)).length < names.length := by
      rw [List.length_erase_of_mem h]
      exact Nat.sub_one_lt (Nat.ne_of_gt (List.length_pos_of_mem h))
    firstFreeFrom base (n + 1) (names.erase (candidate base n))
  else candidate base n
termination_by names.length

/-- **The search finds the first candidate from a number on that is not taken.** -/
theorem firstFreeFrom_spec (base : String) (n : Nat) (names : List String) :
    ∃ m, n ≤ m ∧ firstFreeFrom base n names = candidate base m ∧ candidate base m ∉ names ∧
      ∀ k, n ≤ k → k < m → candidate base k ∈ names := by
  fun_induction firstFreeFrom base n names with
  | case1 n names h _ ih =>
    obtain ⟨m, hnm, hm, hfree, htaken⟩ := ih
    -- striking off a taken candidate leaves the later ones as they are
    have hne : ∀ k, n + 1 ≤ k → candidate base k ≠ candidate base n := by
      intro k hk he
      have := candidate_injective he
      omega
    refine ⟨m, by omega, hm, ?_, ?_⟩
    · intro hmem
      exact hfree ((List.mem_erase_of_ne (hne m hnm)).2 hmem)
    · intro k hnk hkm
      rcases Nat.eq_or_lt_of_le hnk with rfl | hlt
      · exact h
      · exact List.mem_of_mem_erase (htaken k hlt hkm)
  | case2 n names h =>
    refine ⟨n, Nat.le_refl n, rfl, h, ?_⟩
    intro k hnk hkn
    omega

/-- The first candidate that is free. -/
def firstFree (ns : Namespace) (base : String) : String :=
  firstFreeFrom base 0 ns.names

theorem firstFree_not_mem (ns : Namespace) (base : String) : ns.firstFree base ∉ ns.names := by
  obtain ⟨m, -, hm, hfree, -⟩ := firstFreeFrom_spec base 0 ns.names
  rw [firstFree, hm]
  exact hfree

/-- A namespace with one more name. -/
def add (ns : Namespace) (name : String) (h : name ∉ ns.names) : Namespace where
  names := ns.names ++ [name]
  nodup := by
    refine List.nodup_append.2 ⟨ns.nodup, List.pairwise_singleton _ name, ?_⟩
    rintro a ha b hb rfl
    exact h (List.mem_singleton.1 hb ▸ ha)

/-- **Allocation.** Takes the first free candidate near the preferred name. -/
def allocate (ns : Namespace) (preferred : Option String) : String × Namespace :=
  let base := sanitize (baseName preferred)
  (ns.firstFree base, ns.add (ns.firstFree base) (ns.firstFree_not_mem base))

end Namespace

end ShapeRules.Datalog
