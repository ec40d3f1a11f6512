import Mathlib.Data.String.Basic
import ShapeRules.Datalog.Rule

/-!
# Rule bodies are canonical

A body is a set of atoms that is kept as an increasing list, so what is written depends on the atoms
only, and not on how often and in which order they were given. The order is that of the predicates'
declarations and then that of the arguments, where texts are compared by the bytes that encode them.

Texts are compared by their characters, so the bytes have to decide as the characters do. A
character is encoded as a number to the base 64 whose first digit carries a mark of the number of
digits. Of two numbers with equally many digits the smaller one has the smaller digit where they
first differ; of two numbers with different marks the smaller one has the smaller mark.

## Main definitions

* `Text.bytes`: the bytes of a text
* `Text.encoded`: a number to the base 64, with a mark on its first digit
* `Datalog.Atom.Before`: the order of atoms

## Main results

* `Text.bytes_lt_bytes_iff`: texts are in the order of their bytes
* `Datalog.Atom.compare_eq_lt_iff`: atoms are compared in their order
* `Datalog.body_canonical`: rules with one head and two lists of body atoms
-/

namespace ShapeRules

/-! ## The order of bytes -/

namespace Text

/-- The bytes of a text. -/
def bytes (s : String) : List UInt8 := s.toUTF8.data.toList

theorem bytes_eq (s : String) : bytes s = s.toList.flatMap String.utf8EncodeChar := by
  have h : (String.ofList s.toList).toByteArray.data.toList =
      s.toList.flatMap String.utf8EncodeChar := by
    rw [String.toByteArray_ofList, List.utf8Encode, List.toList_data_toByteArray]
  rwa [String.ofList_toList] at h

/-- The digits of `v` to the base 64, of which `k` follow the first. The first digit is raised by
`m` and each other one by 128. -/
def encoded (m : Nat) : Nat → Nat → List UInt8
  | 0, v => [UInt8.ofNat (v + m)]
  | k + 1, v => encoded m k (v / 64) ++ [UInt8.ofNat (v % 64 + 128)]

/-- The number of bytes that follow the first one of a character. -/
def followers (v : Nat) : Nat :=
  if v ≤ 127 then 0 else if v ≤ 2047 then 1 else if v ≤ 65535 then 2 else 3

/-- The mark of a first byte, by the number of bytes that follow it. -/
def mark : Nat → Nat
  | 0 => 0
  | 1 => 192
  | 2 => 224
  | _ => 240

/-- The first byte of a character. -/
def first (v : Nat) : Nat := v / 64 ^ followers v + mark (followers v)

theorem toNat_val_lt (c : Char) : c.val.toNat < 1114112 := by
  have h := c.valid
  unfold UInt32.isValidChar Nat.isValidChar at h
  omega

theorem utf8EncodeChar_eq (c : Char) : String.utf8EncodeChar c =
    encoded (mark (followers c.val.toNat)) (followers c.val.toNat) c.val.toNat := by
  have hc := toNat_val_lt c
  unfold String.utf8EncodeChar followers
  simp only
  generalize c.val.toNat = v at hc
  -- the remainder that the encoding takes of the first digit does nothing, as the digit is small
  split_ifs with h1 h2 h3
  · rfl
  · rw [Nat.mod_eq_of_lt (by omega : v / 64 < 32)]
    rfl
  · rw [Nat.mod_eq_of_lt (by omega : v / 4096 < 16)]
    simp [encoded, mark, Nat.div_div_eq_div_mul]
  · rw [Nat.mod_eq_of_lt (by omega : v / 262144 < 8)]
    simp [encoded, mark, Nat.div_div_eq_div_mul]

theorem encoded_eq_cons (m k v : Nat) :
    ∃ rest, encoded m k v = UInt8.ofNat (v / 64 ^ k + m) :: rest := by
  induction k generalizing v with
  | zero => exact ⟨[], by simp [encoded]⟩
  | succ k ih =>
    obtain ⟨rest, hrest⟩ := ih (v / 64)
    refine ⟨rest ++ [UInt8.ofNat (v % 64 + 128)], ?_⟩
    rw [encoded, hrest, List.cons_append, Nat.div_div_eq_div_mul, Nat.pow_succ']

theorem utf8EncodeChar_eq_cons (c : Char) :
    ∃ rest, String.utf8EncodeChar c = UInt8.ofNat (first c.val.toNat) :: rest := by
  rw [utf8EncodeChar_eq]
  exact encoded_eq_cons _ _ _

theorem ofNat_lt_ofNat {m n : Nat} (h : m < n) (hn : n < 256) : UInt8.ofNat m < UInt8.ofNat n :=
  (UInt8.ofNat_lt_iff_lt (h.trans hn) hn).2 h

/-- Of two numbers with equally many digits, the smaller one has the smaller digit where they first
differ. -/
theorem encoded_append_lt {m k v w : Nat} (h : v < w) (hw : w / 64 ^ k + m < 256)
    (s t : List UInt8) : encoded m k v ++ s < encoded m k w ++ t := by
  induction k generalizing v w s t with
  | zero =>
    rw [Nat.pow_zero, Nat.div_one] at hw
    exact .rel (ofNat_lt_ofNat (by omega) hw)
  | succ k ih =>
    simp only [encoded, List.append_assoc]
    rcases Nat.lt_or_eq_of_le (Nat.div_le_div_right (c := 64) h.le) with hlt | heq
    · refine ih hlt ?_ _ _
      rwa [Nat.div_div_eq_div_mul, ← Nat.pow_succ']
    · have hlast : v % 64 < w % 64 := by omega
      rw [heq]
      exact List.Lex.append_left _ (.rel (ofNat_lt_ofNat (by omega) (by omega))) _

/-- The first byte of a character is smaller than that of a larger character with more bytes. -/
theorem first_lt_first {v w : Nat} (h : v < w) (hw : w < 1114112)
    (hk : followers v ≠ followers w) : first v < first w := by
  unfold first
  unfold followers at hk ⊢
  split_ifs at hk ⊢ <;> simp only [mark] <;> omega

theorem first_lt {v : Nat} (hv : v < 1114112) : first v < 256 := by
  unfold first followers
  split_ifs <;> simp only [mark] <;> omega

/-- **The encodings of two characters** differ in a byte, whatever follows, and the first such byte
is smaller in the smaller character. -/
theorem utf8EncodeChar_append_lt {c d : Char} (h : c < d) (s t : List UInt8) :
    String.utf8EncodeChar c ++ s < String.utf8EncodeChar d ++ t := by
  have hlt : c.val.toNat < d.val.toNat := h
  have hd := toNat_val_lt d
  by_cases hk : followers c.val.toNat = followers d.val.toNat
  · rw [utf8EncodeChar_eq, utf8EncodeChar_eq, hk]
    exact encoded_append_lt hlt (first_lt hd) s t
  · obtain ⟨r, hr⟩ := utf8EncodeChar_eq_cons c
    obtain ⟨u, hu⟩ := utf8EncodeChar_eq_cons d
    rw [hr, hu]
    exact .rel (ofNat_lt_ofNat (first_lt_first hlt hd hk) (first_lt hd))

theorem flatMap_utf8EncodeChar_lt {l m : List Char} (h : List.Lex (· < ·) l m) :
    l.flatMap String.utf8EncodeChar < m.flatMap String.utf8EncodeChar := by
  induction h with
  | @nil c m =>
    obtain ⟨r, hr⟩ := utf8EncodeChar_eq_cons c
    rw [List.flatMap_cons, hr]
    exact .nil
  | rel hcd => exact utf8EncodeChar_append_lt hcd _ _
  | cons _ ih => exact List.Lex.append_left _ ih _

/-- **Texts are in the order of their bytes.** -/
theorem bytes_lt_bytes_iff {s t : String} : bytes s < bytes t ↔ s < t := by
  have hmono {s t : String} (h : s < t) : bytes s < bytes t := by
    rw [bytes_eq, bytes_eq]
    exact flatMap_utf8EncodeChar_lt (String.lt_iff_toList_lt.1 h)
  refine ⟨fun h => ?_, hmono⟩
  rcases lt_trichotomy s t with hst | rfl | hts
  · exact hst
  · exact absurd h (List.lt_irrefl _)
  · exact absurd h (List.lt_asymm (hmono hts))

end Text

/-! ## The order of atoms -/

namespace Datalog

theorem compareLex_eq_lt_iff {α : Type} [Ord α] [Std.LawfulEqOrd α] {l m : List α} :
    compare l m = .lt ↔ List.Lex (fun a b => compare a b = .lt) l m := by
  rw [List.compare_eq_compareLex]
  induction l generalizing m with
  | nil =>
    cases m with
    | nil => simp [List.compareLex_nil_nil]
    | cons b m => simp [List.compareLex_nil_cons]
  | cons a l ih =>
    cases m with
    | nil => simp [List.compareLex_cons_nil]
    | cons b m =>
      rw [List.compareLex_cons_cons, Ordering.then_eq_lt, List.cons_lex_cons_iff, ih,
        Std.compare_eq_iff_eq]

theorem Predicate.idxOf_all (p : Predicate) : Predicate.all.idxOf p = p.ctorIdx := by
  cases p <;> decide

/-- **The order of atoms:** that of the declarations of their predicates, and with one predicate
that of their arguments, each compared by its bytes. -/
def Atom.Before (a b : Atom) : Prop :=
  Predicate.all.idxOf a.predicate < Predicate.all.idxOf b.predicate ∨
    a.predicate = b.predicate ∧
      List.Lex (fun s t => Text.bytes s < Text.bytes t) a.args b.args

theorem Atom.compare_eq_lt_iff {a b : Atom} : compare a b = .lt ↔ a.Before b := by
  have hpredicate : compare a.predicate b.predicate = .lt ↔
      Predicate.all.idxOf a.predicate < Predicate.all.idxOf b.predicate := by
    rw [Predicate.idxOf_all, Predicate.idxOf_all]
    exact Nat.compare_eq_lt
  have hargs : compare a.args b.args = .lt ↔
      List.Lex (fun s t => Text.bytes s < Text.bytes t) a.args b.args := by
    have hlt : (fun s t : String => compare s t = .lt) =
        fun s t => Text.bytes s < Text.bytes t := by
      funext s t
      exact propext (compareOfLessAndEq_eq_lt.trans Text.bytes_lt_bytes_iff.symm)
    rw [compareLex_eq_lt_iff, hlt]
  calc compare a b = .lt
      ↔ (compare a.predicate b.predicate).then (compare a.args b.args) = .lt := Iff.rfl
    _ ↔ a.Before b := by
      rw [Ordering.then_eq_lt, hpredicate, hargs, Std.compare_eq_iff_eq]
      rfl

/-! ## The written body -/

theorem join_eq_intercalate (sep s : String) (l : List String) :
    s ++ String.join (l.map (sep ++ ·)) = String.intercalate sep (s :: l) := by
  induction l generalizing s with
  | nil => simp
  | cons t l ih =>
    rw [String.intercalate_cons_cons, ← ih, List.map_cons, String.join_cons]
    simp only [String.append_assoc]

theorem Clause.bodyText_eq (c : Clause) : c.bodyText =
    if c.body.toList = [] then ""
    else " :- " ++ String.intercalate (",\n" ++ c.indent) (c.body.toList.map Atom.text) := by
  unfold Clause.bodyText
  split
  next h => rw [if_pos h]
  next a rest h =>
    rw [if_neg (by simp [h]), h, List.map_cons, ← join_eq_intercalate, List.map_map,
      String.append_assoc]
    rfl

/-- **Bodies are canonical.** Two rules with one head are the same if and only if their bodies were
given with the same atoms, and then they are written in the same way: each atom of the body once and
in increasing order, the first after ` :- ` and each other one under it on a line of its own. -/
theorem body_canonical (head : Atom) (l : List Atom) :
    (∀ m, (Rule.derive head l).toClause = (Rule.derive head m).toClause ↔ ∀ a, a ∈ l ↔ a ∈ m) ∧
      (∀ m, (∀ a, a ∈ l ↔ a ∈ m) → (Rule.derive head l).text = (Rule.derive head m).text) ∧
      ∃ atoms : List Atom, (∀ a, a ∈ atoms ↔ a ∈ l) ∧ atoms.Nodup ∧ atoms.Pairwise Atom.Before ∧
        (Rule.derive head l).text = head.text ++
          (if atoms = [] then "" else " :- " ++ String.intercalate
            (",\n" ++ String.ofList (List.replicate (head.text.utf8ByteSize + 4) ' '))
            (atoms.map Atom.text)) ++ "." := by
  have hbody {m : List Atom} (h : ∀ a, a ∈ l ↔ a ∈ m) :
      Rule.derive head l = Rule.derive head m := by
    rw [Rule.derive, OrderedSet.ofList_eq_ofList_iff.2 h, ← Rule.derive]
  refine ⟨fun m => ⟨fun h => ?_, fun h => congrArg _ (hbody h)⟩, fun m h => congrArg _ (hbody h),
    (OrderedSet.ofList l).toList, fun a => ?_, OrderedSet.nodup _, ?_, ?_⟩
  · exact OrderedSet.ofList_eq_ofList_iff.1 (congrArg Clause.body h)
  · exact OrderedSet.mem_ofList
  · exact (OrderedSet.ofList l).increasing.imp Atom.compare_eq_lt_iff.1
  · have hcomments : (Rule.derive head l).commentText = "" := rfl
    rw [Rule.text, hcomments, String.empty_append, Clause.text, Clause.bodyText_eq]
    rfl

/-- A character of three bytes and one sixteen-bit code unit. -/
def halfwidth : Atom := ⟨.value, ["ￜ"]⟩

/-- A character of four bytes, whose first sixteen-bit code unit is smaller than that of
`halfwidth`. -/
def emoji : Atom := ⟨.value, ["😀"]⟩

theorem body_canonical_of_repeated :
    (∀ a, a ∈ [emoji, halfwidth, emoji] ↔ a ∈ [halfwidth, emoji]) ∧
      (Rule.derive ⟨.conforms, ["?x"]⟩ [emoji, halfwidth, emoji]).text =
        (Rule.derive ⟨.conforms, ["?x"]⟩ [halfwidth, emoji]).text ∧
      (Rule.derive ⟨.conforms, ["?x"]⟩ [emoji, halfwidth, emoji]).text =
        "conforms(?x) :- value(ￜ),\n                value(😀)." :=
  have hsame : ∀ a, a ∈ [emoji, halfwidth, emoji] ↔ a ∈ [halfwidth, emoji] := by
    simp [or_comm]
  ⟨hsame, (body_canonical ⟨.conforms, ["?x"]⟩ [emoji, halfwidth, emoji]).2.1 _ hsame,
    by decide +kernel⟩

end Datalog

end ShapeRules
