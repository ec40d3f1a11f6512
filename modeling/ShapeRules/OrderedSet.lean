/-!
# Finite sets as strictly increasing lists

A finite set over a linearly ordered type is kept as the list of its members in increasing order.
Two such sets with the same members are then the same value, so equality, iteration order and
printing depend on the members only, and never on the order in which they arrived.

## Main definitions

* `OrderedSet α`: a strictly increasing list over `α`
* `OrderedSet.insert`, `OrderedSet.erase`, `OrderedSet.ofList`: the operations

## Main results

* `OrderedSet.mem_insert`, `OrderedSet.mem_erase`, `OrderedSet.mem_ofList`: membership after each
  operation
* `OrderedSet.ext`: sets with the same members are equal
-/

namespace ShapeRules

/-- **A finite set**, kept as the strictly increasing list of its members. -/
structure OrderedSet (α : Type) [Ord α] where
  /-- The members, in increasing order. -/
  toList : List α
  /-- Each member is smaller than the members after it. -/
  increasing : toList.Pairwise fun a b => compare a b = .lt

namespace OrderedSet

variable {α : Type} [Ord α]

instance : Membership α (OrderedSet α) := ⟨fun s a => a ∈ s.toList⟩

theorem mem_def {s : OrderedSet α} {a : α} : a ∈ s ↔ a ∈ s.toList := Iff.rfl

instance [DecidableEq α] (a : α) (s : OrderedSet α) : Decidable (a ∈ s) :=
  inferInstanceAs (Decidable (a ∈ s.toList))

theorem toList_injective {s t : OrderedSet α} (h : s.toList = t.toList) : s = t := by
  cases s; cases t; simp_all

instance [DecidableEq α] : DecidableEq (OrderedSet α) := fun s t =>
  decidable_of_iff (s.toList = t.toList) ⟨toList_injective, fun h => h ▸ rfl⟩

/-- The set without members. -/
def empty : OrderedSet α := ⟨[], .nil⟩

instance : EmptyCollection (OrderedSet α) := ⟨empty⟩

@[simp]
theorem toList_empty : (∅ : OrderedSet α).toList = [] := rfl

/-- The number of members. -/
def size (s : OrderedSet α) : Nat := s.toList.length

/-! ## Insertion into an increasing list -/

section Insertion

/-- Puts `a` before the first larger element; an equal element is left alone. -/
def insertList (a : α) : List α → List α
  | [] => [a]
  | b :: l =>
    match compare a b with
    | .lt => a :: b :: l
    | .eq => b :: l
    | .gt => b :: insertList a l

variable [Std.LawfulEqOrd α]

@[simp]
theorem mem_insertList {a x : α} {l : List α} : x ∈ insertList a l ↔ x = a ∨ x ∈ l := by
  induction l with
  | nil => simp [insertList]
  | cons b l ih =>
    simp only [insertList]
    split
    · simp
    next h =>
      obtain rfl := Std.LawfulEqOrd.eq_of_compare h
      simp
    · simp only [List.mem_cons, ih]
      exact or_left_comm

variable [Std.TransOrd α]

theorem pairwise_insertList {a : α} {l : List α}
    (h : l.Pairwise fun a b => compare a b = .lt) :
    (insertList a l).Pairwise fun a b => compare a b = .lt := by
  induction l with
  | nil => simp [insertList]
  | cons b l ih =>
    rw [List.pairwise_cons] at h
    simp only [insertList]
    split
    next hab =>
      refine List.pairwise_cons.2 ⟨?_, List.pairwise_cons.2 h⟩
      intro x hx
      rcases List.mem_cons.1 hx with rfl | hx
      · exact hab
      · exact Std.TransCmp.lt_trans hab (h.1 x hx)
    · exact List.pairwise_cons.2 h
    next hab =>
      refine List.pairwise_cons.2 ⟨?_, ih h.2⟩
      intro x hx
      rcases mem_insertList.1 hx with rfl | hx
      · exact Std.OrientedCmp.gt_iff_lt.1 hab
      · exact h.1 x hx

/-- Adds a member. -/
def insert (a : α) (s : OrderedSet α) : OrderedSet α :=
  ⟨insertList a s.toList, pairwise_insertList s.increasing⟩

@[simp]
theorem mem_insert {a x : α} {s : OrderedSet α} : x ∈ s.insert a ↔ x = a ∨ x ∈ s :=
  mem_insertList

/-- The set of the elements of a list. -/
def ofList (l : List α) : OrderedSet α := l.foldr insert ∅

@[simp]
theorem mem_ofList {x : α} {l : List α} : x ∈ ofList l ↔ x ∈ l := by
  induction l with
  | nil => simp [ofList, mem_def]
  | cons a l ih => simpa [ofList] using or_congr_right ih

end Insertion

/-- Removes a member; a set without it stays as it is. -/
def erase [DecidableEq α] (a : α) (s : OrderedSet α) : OrderedSet α :=
  ⟨s.toList.filter (· ≠ a), s.increasing.filter _⟩

@[simp]
theorem mem_erase [DecidableEq α] {a x : α} {s : OrderedSet α} :
    x ∈ s.erase a ↔ x ≠ a ∧ x ∈ s := by
  simp [erase, mem_def, and_comm]

/-- The image of a set under a map. -/
def map {β : Type} [Ord β] [Std.TransOrd β] [Std.LawfulEqOrd β] (f : α → β)
    (s : OrderedSet α) : OrderedSet β :=
  ofList (s.toList.map f)

@[simp]
theorem mem_map {β : Type} [Ord β] [Std.TransOrd β] [Std.LawfulEqOrd β] {f : α → β}
    {s : OrderedSet α} {y : β} : y ∈ s.map f ↔ ∃ x ∈ s, f x = y :=
  mem_ofList.trans List.mem_map

/-! ## Sets are determined by their members -/

/-- No member is listed twice. -/
theorem nodup [Std.LawfulEqOrd α] (s : OrderedSet α) : s.toList.Nodup := by
  refine s.increasing.imp fun {a b} h he => ?_
  subst he
  simp at h

section Extensionality

variable [Std.TransOrd α] [Std.LawfulEqOrd α]

theorem eq_of_pairwise_of_mem_iff {l m : List α}
    (hl : l.Pairwise fun a b => compare a b = .lt)
    (hm : m.Pairwise fun a b => compare a b = .lt)
    (h : ∀ x, x ∈ l ↔ x ∈ m) : l = m := by
  have irrefl : ∀ x : α, compare x x ≠ .lt := by simp
  induction l generalizing m with
  | nil =>
    cases m with
    | nil => rfl
    | cons b m => simpa using h b
  | cons a l ih =>
    cases m with
    | nil => simpa using h a
    | cons b m =>
      rw [List.pairwise_cons] at hl hm
      obtain rfl : a = b := by
        rcases List.mem_cons.1 ((h a).1 (by simp)) with hab | ha
        · exact hab
        rcases List.mem_cons.1 ((h b).2 (by simp)) with hba | hb
        · exact hba.symm
        exact absurd (Std.TransCmp.lt_trans (hl.1 b hb) (hm.1 a ha)) (irrefl a)
      congr 1
      refine ih hl.2 hm.2 fun x => ⟨fun hx => ?_, fun hx => ?_⟩
      · rcases List.mem_cons.1 ((h x).1 (List.mem_cons_of_mem _ hx)) with rfl | hx'
        · exact absurd (hl.1 x hx) (irrefl x)
        · exact hx'
      · rcases List.mem_cons.1 ((h x).2 (List.mem_cons_of_mem _ hx)) with rfl | hx'
        · exact absurd (hm.1 x hx) (irrefl x)
        · exact hx'

/-- **Extensionality.** Sets with the same members are equal. -/
theorem ext {s t : OrderedSet α} (h : ∀ x, x ∈ s ↔ x ∈ t) : s = t :=
  toList_injective (eq_of_pairwise_of_mem_iff s.increasing t.increasing h)

/-- The set of a list depends on the elements of the list only. -/
theorem ofList_eq_ofList_iff {l m : List α} : ofList l = ofList m ↔ ∀ x, x ∈ l ↔ x ∈ m := by
  constructor
  · intro h x
    rw [← mem_ofList, h, mem_ofList]
  · intro h
    exact ext fun x => by simpa using h x

end Extensionality

end OrderedSet

end ShapeRules
