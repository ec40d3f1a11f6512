import Mathlib.Data.Finset.Card
import Mathlib.Data.Finset.Dedup
import Mathlib.Data.Finset.Insert
import ShapeRules.Proofs.FreshNames

/-!
# Allocation as a search

Allocation goes through the candidates of a base until it comes to one that is free. The candidates
that it passes over are different names that are taken, so there are at most as many of them as
names are taken. A counter of 64 bits is therefore wide enough for the numbers that are tried,
whatever names they are tried against.

## Main definitions

* `Namespace.nameSet`: the names that are taken, as a set
* `Namespace.search`: the search with a counter of 64 bits and a bound on the candidates it looks at

## Main results

* `Namespace.le_card_nameSet`: how many candidates can be taken in a row
* `Namespace.search_eq`: what the search gives, and after how many candidates
* `Namespace.allocate_takes_first_free`: what allocation gives
-/

namespace ShapeRules.Datalog

theorem baseName_eq (preferred : Option String) :
    baseName preferred = (preferred.filter (· ≠ "")).getD "shape" := by
  cases preferred with
  | none => rfl
  | some s =>
    rw [baseName]
    by_cases h : s = ""
    · rw [if_pos h, Option.filter_some_neg (by simp [h])]
      rfl
    · rw [if_neg h, Option.filter_some_pos (by simp [h])]
      rfl

namespace Namespace

/-- The names that are taken, as a set. -/
def nameSet (ns : Namespace) : Finset String := ns.names.toFinset

theorem mem_nameSet {ns : Namespace} {name : String} : name ∈ ns.nameSet ↔ name ∈ ns :=
  List.mem_toFinset

/-- **The search with a counter of 64 bits.** It looks at `name` and then at `base` followed by what
the counter stands at, at no more than `budget` candidates in all. It gives nothing if none of them
is free, or if the counter would overflow. -/
def search (ns : Namespace) (base : String) : Nat → String → UInt64 → Option String
  | 0, _, _ => none
  | budget + 1, name, counter =>
    if name ∈ ns then
      if counter.toNat + 1 < UInt64.size then
        ns.search base budget (base ++ toString counter) (counter + 1)
      else none
    else some name

variable {ns : Namespace} {base : String} {k : Nat}

/-- **Candidates that are taken in a row** are different names, so they are no more than all names
that are taken. -/
theorem le_card_nameSet (htaken : ∀ j < k, candidate base j ∈ ns) : k ≤ ns.nameSet.card := by
  have hinjective : Function.Injective (candidate base) := fun _ _ h => candidate_injective h
  have hsubset : (Finset.range k).image (candidate base) ⊆ ns.nameSet := by
    intro name hname
    obtain ⟨j, hj, rfl⟩ := Finset.mem_image.1 hname
    exact mem_nameSet.2 (htaken j (Finset.mem_range.1 hj))
  calc
    k = (Finset.range k).card := (Finset.card_range k).symm
    _ = ((Finset.range k).image (candidate base)).card :=
      (Finset.card_image_of_injective _ hinjective).symm
    _ ≤ ns.nameSet.card := Finset.card_le_card hsubset

theorem candidate_succ_eq {n : Nat} {counter : UInt64} (hcounter : counter.toNat = n) :
    base ++ toString counter = candidate base (n + 1) := by
  rw [candidate, ← hcounter]
  rfl

/-- **The search stops at the first candidate that is free,** if it may look that far; the counter
does not overflow if the number of that candidate fits. -/
theorem search_eq (hfree : candidate base k ∉ ns) (htaken : ∀ j < k, candidate base j ∈ ns)
    (hk : k < UInt64.size) {n : Nat} (hn : n ≤ k) {counter : UInt64} (hcounter : counter.toNat = n)
    (budget : Nat) :
    ns.search base budget (candidate base n) counter =
      if k < n + budget then some (candidate base k) else none := by
  -- The counter stands at the number of the candidate that is looked at.
  induction budget generalizing n counter with
  | zero =>
    rw [search, if_neg (by omega)]
  | succ budget ih =>
    rw [search]
    by_cases hnk : n = k
    · subst hnk
      rw [if_neg hfree, if_pos (by omega)]
    · have hlt : n < k := by omega
      have hfits : counter.toNat + 1 < UInt64.size := by omega
      have hnext : (counter + 1).toNat = n + 1 := by
        rw [UInt64.toNat_add, UInt64.toNat_one, Nat.mod_eq_of_lt hfits, hcounter]
      rw [if_pos (htaken n hlt), if_pos hfits, candidate_succ_eq hcounter, ih hlt hnext,
        Nat.succ_add_eq_add_succ]

theorem mem_allocate_iff (ns : Namespace) (preferred : Option String) (s : String) :
    s ∈ (ns.allocate preferred).2 ↔ s ∈ ns ∨ s = (ns.allocate preferred).1 := by
  show s ∈ (ns.allocate preferred).2.names ↔ s ∈ ns.names ∨ s = (ns.allocate preferred).1
  rw [names_allocate, List.mem_append, List.mem_singleton]

/-- One more name is taken. -/
theorem card_nameSet_allocate (ns : Namespace) (preferred : Option String) :
    (ns.allocate preferred).2.nameSet.card = ns.nameSet.card + 1 := by
  have hinsert : (ns.allocate preferred).2.nameSet =
      insert (ns.allocate preferred).1 ns.nameSet := by
    ext s
    rw [mem_nameSet, mem_allocate_iff, Finset.mem_insert, mem_nameSet, or_comm]
  have hnew : (ns.allocate preferred).1 ∉ ns.nameSet := fun h =>
    ns.allocate_not_mem preferred (mem_nameSet.1 h)
  rw [hinsert, Finset.card_insert_of_notMem hnew]

/-- **Allocation takes the first free candidate.** With the sanitized preferred name as the base, or
`shape` if there is none, the name is the first of `base`, `base0`, `base1` and so on that is not
taken, found after no more than one candidate beyond the number of names that are taken. A search
with a counter of 64 bits stops at the same candidate, neither earlier nor later, while fewer than
`2 ^ 64` names are taken. The name is an identifier, and exactly that name is taken in addition. -/
theorem allocate_takes_first_free (ns : Namespace) (preferred : Option String) :
    let base := sanitize ((preferred.filter (· ≠ "")).getD "shape")
    let name := (ns.allocate preferred).1
    let ns' := (ns.allocate preferred).2
    (∃ k ≤ ns.nameSet.card, name = candidate base k ∧ name ∉ ns ∧
      (∀ j < k, candidate base j ∈ ns) ∧
      (ns.nameSet.card < UInt64.size → ∀ budget,
        ns.search base budget base 0 = if k < budget then some name else none)) ∧
    (∀ s, s ∈ ns' ↔ s ∈ ns ∨ s = name) ∧ ns'.nameSet.card = ns.nameSet.card + 1 ∧
    ns'.size = ns.size + 1 ∧ isIdentifier name := by
  intro base name ns'
  obtain ⟨k, -, hname, hfree, htaken⟩ :=
    firstFreeFrom_spec (sanitize (baseName preferred)) 0 ns.names
  rw [baseName_eq] at hname hfree htaken
  replace htaken : ∀ j < k, candidate base j ∈ ns := fun j hj => htaken j (Nat.zero_le j) hj
  have hbase : name = candidate base k := by
    rw [← hname, ← baseName_eq]
    rfl
  have hbound : k ≤ ns.nameSet.card := le_card_nameSet htaken
  refine ⟨⟨k, hbound, hbase, hbase ▸ hfree, htaken, ?_⟩, ns.mem_allocate_iff preferred,
    ns.card_nameSet_allocate preferred, ?_, ns.isIdentifier_allocate preferred⟩
  · intro hcard budget
    have hzero : (0 : UInt64).toNat = 0 := rfl
    have hsearch :=
      search_eq hfree htaken (Nat.lt_of_le_of_lt hbound hcard) (Nat.zero_le k) hzero budget
    rwa [Nat.zero_add, ← hbase] at hsearch
  · exact List.length_append

/-- Names that a text with blanks and letters beyond ASCII competes for. -/
def scatteredNames : Namespace :=
  ⟨["a?b?1", "shape", "a?b?", "target", "a?b?0", "a?b?3"], by decide⟩

theorem allocate_takes_first_free_scatteredNames :
    (scatteredNames.allocate (some "a bé")).1 = "a?b?2" ∧
      scatteredNames.nameSet.card = 6 ∧
      scatteredNames.search "a?b?" 4 "a?b?" 0 = some "a?b?2" ∧
      scatteredNames.search "a?b?" 3 "a?b?" 0 = none ∧
      (scatteredNames.allocate (some "a bé")).2.nameSet.card = 7 ∧ isIdentifier "a?b?2" := by
  have hname : (scatteredNames.allocate (some "a bé")).1 = "a?b?2" := by decide +kernel
  have hcard : scatteredNames.nameSet.card = 6 := by decide +kernel
  obtain ⟨⟨k, -, hk, -, -, hsearch⟩, -, hsize, -, hidentifier⟩ :=
    allocate_takes_first_free scatteredNames (some "a bé")
  have hbase : sanitize (((some "a bé").filter (· ≠ "")).getD "shape") = "a?b?" := by decide +kernel
  rw [hname] at hk hsearch hidentifier
  rw [hbase] at hk hsearch
  obtain rfl : 3 = k := candidate_injective (show candidate "a?b?" 3 = candidate "a?b?" k from hk)
  have hbudget := hsearch (by rw [hcard]; decide)
  refine ⟨hname, hcard, hbudget 4, hbudget 3, ?_, hidentifier⟩
  rw [hsize, hcard]

end Namespace

end ShapeRules.Datalog
