/-!
# Finite maps as lists of entries

A finite map is kept as the list of its entries, no two of which have the same key. The list has no
order of its own: an entry that is written goes to the front, and what it replaces is taken out.

## Main definitions

* `FiniteMap κ ν`: a list of entries with different keys
* `FiniteMap.insert`, `FiniteMap.erase`, `FiniteMap.get?`: the operations

## Main results

* `FiniteMap.get?_insert`: what is found after a key was written
* `FiniteMap.erase_insert`: a new key that is taken out again leaves nothing behind
* `FiniteMap.mem_keys_iff`, `FiniteMap.mem_values_iff`: the keys and values, by what is found
-/

namespace ShapeRules

/-- **A finite map,** kept as a list of entries. -/
structure FiniteMap (κ ν : Type) where
  /-- The entries, in no order that matters. -/
  entries : List (κ × ν)
  /-- No key has two entries. -/
  nodup : (entries.map Prod.fst).Nodup
  deriving DecidableEq, Repr

namespace FiniteMap

variable {κ ν : Type}

/-- The map without entries. -/
def empty : FiniteMap κ ν := ⟨[], .nil⟩

instance : EmptyCollection (FiniteMap κ ν) := ⟨empty⟩

/-- The keys. -/
def keys (m : FiniteMap κ ν) : List κ := m.entries.map Prod.fst

/-- The values. -/
def values (m : FiniteMap κ ν) : List ν := m.entries.map Prod.snd

/-- The number of entries. -/
def size (m : FiniteMap κ ν) : Nat := m.entries.length

/-- A map is its entries. -/
theorem eq_of_entries_eq {m m' : FiniteMap κ ν} (h : m.entries = m'.entries) : m = m' := by
  cases m
  cases m'
  cases h
  rfl

variable [DecidableEq κ]

/-- The value of a key. -/
def get? (m : FiniteMap κ ν) (k : κ) : Option ν :=
  (m.entries.find? (·.1 = k)).map Prod.snd

/-- Whether a key has a value. -/
def contains (m : FiniteMap κ ν) (k : κ) : Bool :=
  (m.get? k).isSome

/-- The map with a key written. -/
def insert (m : FiniteMap κ ν) (k : κ) (v : ν) : FiniteMap κ ν where
  entries := (k, v) :: m.entries.filter (·.1 ≠ k)
  nodup := by
    refine List.nodup_cons.2 ⟨by simp, ?_⟩
    exact m.nodup.sublist (List.filter_sublist.map _)

theorem entries_insert (m : FiniteMap κ ν) (k : κ) (v : ν) :
    (m.insert k v).entries = (k, v) :: m.entries.filter (·.1 ≠ k) := rfl

/-- The map without a key. -/
def erase (m : FiniteMap κ ν) (k : κ) : FiniteMap κ ν where
  entries := m.entries.filter (·.1 ≠ k)
  nodup := m.nodup.sublist (List.filter_sublist.map _)

theorem entries_erase (m : FiniteMap κ ν) (k : κ) :
    (m.erase k).entries = m.entries.filter (·.1 ≠ k) := rfl

/-! ## What is found -/

@[simp]
theorem get?_empty (k : κ) : (∅ : FiniteMap κ ν).get? k = none := rfl

/-- What is found after a key was written. -/
@[simp]
theorem get?_insert (m : FiniteMap κ ν) (k k' : κ) (v : ν) :
    (m.insert k v).get? k' = if k' = k then some v else m.get? k' := by
  by_cases h : k' = k
  · subst h
    simp [get?, insert]
  · -- the entries that were taken out have the other key
    have hkeep : ∀ e : κ × ν, (e.1 ≠ k ∧ e.1 = k') ↔ e.1 = k' :=
      fun e => ⟨And.right, fun he => ⟨he ▸ h, he⟩⟩
    rw [if_neg h, get?, entries_insert, List.find?_cons_of_neg (by simpa using Ne.symm h),
      List.find?_filter]
    simp only [decide_eq_true_eq, hkeep, get?]

/-- A value is found exactly if the map has the entry. -/
theorem get?_eq_some_iff {m : FiniteMap κ ν} {k : κ} {v : ν} :
    m.get? k = some v ↔ (k, v) ∈ m.entries := by
  constructor
  · intro h
    obtain ⟨e, he, rfl⟩ := Option.map_eq_some_iff.1 h
    have hk : e.1 = k := by simpa using List.find?_some he
    exact hk ▸ List.mem_of_find?_eq_some he
  · intro h
    obtain ⟨before, after, hsplit⟩ := List.append_of_mem h
    -- no entry before this one has the key
    have hbefore : ∀ e ∈ before, ¬ decide (e.1 = k) := by
      intro e he hk
      have hnodup := m.nodup
      rw [hsplit, List.map_append, List.nodup_append] at hnodup
      exact hnodup.2.2 _ (List.mem_map_of_mem he) k (by simp) (of_decide_eq_true hk)
    rw [get?, hsplit, List.find?_append, List.find?_eq_none.2 hbefore]
    simp

/-- What is written first under a key does not matter. -/
theorem insert_insert (m : FiniteMap κ ν) (k : κ) (v v' : ν) :
    (m.insert k v).insert k v' = m.insert k v' := by
  apply eq_of_entries_eq
  simp [entries_insert]

/-- **A new key that is taken out again leaves nothing behind.** -/
theorem erase_insert {m : FiniteMap κ ν} {k : κ} (h : m.get? k = none) (v : ν) :
    (m.insert k v).erase k = m := by
  have hnew : ∀ e ∈ m.entries, decide (e.1 ≠ k) := by
    rintro ⟨k', v'⟩ he
    rw [decide_eq_true_iff]
    rintro rfl
    rw [get?_eq_some_iff.2 he] at h
    cases h
  apply eq_of_entries_eq
  rw [entries_erase, entries_insert, List.filter_cons_of_neg (by simp),
    List.filter_eq_self.2 hnew, List.filter_eq_self.2 hnew]

/-- The keys are those that have a value. -/
theorem mem_keys_iff {m : FiniteMap κ ν} {k : κ} : k ∈ m.keys ↔ m.contains k := by
  rw [contains, Option.isSome_iff_exists, keys, List.mem_map]
  constructor
  · rintro ⟨⟨k', v⟩, he, rfl⟩
    exact ⟨v, get?_eq_some_iff.2 he⟩
  · rintro ⟨v, h⟩
    exact ⟨(k, v), get?_eq_some_iff.1 h, rfl⟩

/-- The values are those of the keys. -/
theorem mem_values_iff {m : FiniteMap κ ν} {v : ν} : v ∈ m.values ↔ ∃ k, m.get? k = some v := by
  rw [values, List.mem_map]
  constructor
  · rintro ⟨⟨k, v'⟩, he, rfl⟩
    exact ⟨k, get?_eq_some_iff.2 he⟩
  · rintro ⟨k, h⟩
    exact ⟨(k, v), get?_eq_some_iff.1 h, rfl⟩

end FiniteMap

end ShapeRules
