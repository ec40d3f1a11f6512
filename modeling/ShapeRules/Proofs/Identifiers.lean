import Mathlib.Computability.Language
import Mathlib.Data.List.TFAE
import Mathlib.Tactic.TFAE
import ShapeRules.Proofs.FreshNames

/-!
# Sanitizing and the language of identifiers

Identifiers form a regular language: one character of a first class, then any number of characters
of a second one. Sanitizing looks at a text place by place. It keeps what the language allows at a
place and puts a question mark, which is allowed everywhere, in the place of anything else. So its
results are in the language, and it has nothing left to do on a text that is.

## Main definitions

* `Text.anyOf`: the words of one character of a class
* `Datalog.AllowedAt`: the characters that an identifier can have at a place
* `Datalog.identifiers`: the language of identifiers

## Main results

* `Text.mem_kstar_anyOf`, `Text.mem_anyOf_mul_kstar`: repetitions of a class
* `Datalog.getElem?_sanitize`: what sanitizing does at each place
* `Datalog.isIdentifier_iff_mem_identifiers`: identifiers are the words of their language
* `Datalog.sanitize_retracts`: sanitizing is a retraction onto the identifiers
-/

namespace ShapeRules

open scoped Computability

/-! ## Classes of characters and their repetition -/

namespace Text

/-- The characters from one to another. -/
def Between (a b c : Char) : Prop := a.toNat ≤ c.toNat ∧ c.toNat ≤ b.toNat
  deriving Decidable

/-- The ASCII digits. -/
def Numeric (c : Char) : Prop := Between '0' '9' c
  deriving Decidable

/-- The words of one character of a class. -/
def anyOf (p : Char → Prop) : Language Char := {w | ∃ c, p c ∧ w = [c]}

theorem numeric_iff {c : Char} : Numeric c ↔ c.isDigit := by
  simp [Numeric, Between, Char.isDigit, UInt32.le_iff_toNat_le]

section AnyOf

variable {p : Char → Prop} {w : List Char} {c : Char} {l : Language Char}

theorem nil_notMem_anyOf_mul : [] ∉ anyOf p * l := by
  rw [Language.mem_mul]
  rintro ⟨_, ⟨c, -, rfl⟩, v, -, h⟩
  cases h

theorem cons_mem_anyOf_mul : c :: w ∈ anyOf p * l ↔ p c ∧ w ∈ l := by
  rw [Language.mem_mul]
  constructor
  · rintro ⟨_, ⟨d, hd, rfl⟩, v, hv, h⟩
    obtain ⟨rfl, rfl⟩ := List.cons.inj h
    exact ⟨hd, hv⟩
  · rintro ⟨hc, hw⟩
    exact ⟨[c], ⟨c, hc, rfl⟩, w, hw, rfl⟩

/-- **A class repeated:** words all of whose characters are in it. -/
theorem mem_kstar_anyOf : w ∈ (anyOf p)∗ ↔ ∀ c ∈ w, p c := by
  constructor
  · intro hw c hc
    obtain ⟨words, rfl, hwords⟩ := Language.mem_kstar.1 hw
    obtain ⟨word, hword, hc⟩ := List.mem_flatten.1 hc
    obtain ⟨d, hd, rfl⟩ := hwords word hword
    rwa [List.mem_singleton.1 hc]
  · intro hw
    -- a text is its characters put together again
    have hflatten : w = (w.map fun c => [c]).flatten := by
      rw [← List.flatMap_def, List.flatMap_singleton']
    rw [hflatten]
    apply Language.join_mem_kstar
    intro word hword
    obtain ⟨c, hc, rfl⟩ := List.mem_map.1 hword
    exact ⟨c, hw c hc, rfl⟩

/-- A class repeated at least once. -/
theorem mem_anyOf_mul_kstar : w ∈ anyOf p * (anyOf p)∗ ↔ w ≠ [] ∧ ∀ c ∈ w, p c := by
  cases w with
  | nil => simp [nil_notMem_anyOf_mul]
  | cons c w => simp [cons_mem_anyOf_mul, mem_kstar_anyOf]

end AnyOf

end Text

namespace Datalog

open Text

/-! ## The language of identifiers -/

/-- An ASCII letter, an underscore or a question mark. -/
def Initial (c : Char) : Prop :=
  Between 'A' 'Z' c ∨ Between 'a' 'z' c ∨ c = '_' ∨ c = '?'
  deriving Decidable

/-- **The characters that an identifier can have at a place:** digits only after the first. -/
def AllowedAt (i : Nat) (c : Char) : Prop := Initial c ∨ Numeric c ∧ i ≠ 0
  deriving Decidable

/-- **The language of identifiers,** `[A-Za-z_?][A-Za-z0-9_?]*`. -/
def identifiers : Language Char := anyOf Initial * (anyOf fun c => Initial c ∨ Numeric c)∗

theorem isAlpha_iff {c : Char} : c.isAlpha ↔ Between 'A' 'Z' c ∨ Between 'a' 'z' c := by
  have hrange : ∀ low high : Char, c.val ≥ low.val ∧ c.val ≤ high.val ↔ Between low high c :=
    fun _ _ => and_congr UInt32.le_iff_toNat_le UInt32.le_iff_toNat_le
  have hupper : c.isUpper ↔ Between 'A' 'Z' c := decide_eq_true_iff.trans (hrange 'A' 'Z')
  have hlower : c.isLower ↔ Between 'a' 'z' c := by
    refine Iff.trans ?_ (hrange 'a' 'z')
    exact Bool.and_eq_true_iff.trans (and_congr decide_eq_true_iff decide_eq_true_iff)
  exact Bool.or_eq_true_iff.trans (or_congr hupper hlower)

theorem isIdentifierPart_iff {c : Char} : isIdentifierPart c ↔ Initial c ∨ Numeric c := by
  have hpart : isIdentifierPart c ↔ ((c.isAlpha ∨ c.isDigit) ∨ c = '_') ∨ c = '?' := by
    simp [isIdentifierPart, Char.isAlphanum, placeholder]
  rw [hpart, isAlpha_iff, ← numeric_iff, Initial]
  tauto

theorem not_numeric_of_initial {c : Char} (h : Initial c) : ¬ Numeric c := by
  rintro ⟨hlow, hhigh⟩
  rcases h with ⟨h, -⟩ | ⟨h, -⟩ | rfl | rfl
  · exact absurd (h.trans hhigh) (by decide)
  · exact absurd (h.trans hhigh) (by decide)
  · exact absurd hhigh (by decide)
  · exact absurd hhigh (by decide)

theorem isIdentifierStart_iff {c : Char} : isIdentifierStart c ↔ Initial c := by
  have hstart : isIdentifierStart c ↔ isIdentifierPart c ∧ ¬ c.isDigit := by
    simp [isIdentifierStart]
  rw [hstart, isIdentifierPart_iff, ← numeric_iff]
  constructor
  · rintro ⟨h | h, hdigit⟩
    · exact h
    · exact absurd h hdigit
  · intro h
    exact ⟨.inl h, not_numeric_of_initial h⟩

/-- **Identifiers are the words of their language.** -/
theorem isIdentifier_iff_mem_identifiers {s : String} :
    isIdentifier s ↔ s.toList ∈ identifiers := by
  rw [isIdentifier, identifiers]
  cases s.toList with
  | nil => simp [isIdentifierChars, nil_notMem_anyOf_mul]
  | cons c cs =>
    rw [isIdentifierChars, Bool.and_eq_true, List.all_eq_true, cons_mem_anyOf_mul, mem_kstar_anyOf,
      isIdentifierStart_iff]
    simp only [isIdentifierPart_iff]

/-- Digits can follow an identifier. -/
theorem isIdentifier_append {s digits : String} (hs : isIdentifier s)
    (hdigits : ∀ c ∈ digits.toList, Numeric c) : isIdentifier (s ++ digits) := by
  rw [isIdentifier_iff_mem_identifiers, identifiers, Language.mem_mul] at hs ⊢
  obtain ⟨first, hfirst, rest, hrest, hs⟩ := hs
  refine ⟨first, hfirst, rest ++ digits.toList, ?_, ?_⟩
  · rw [mem_kstar_anyOf] at hrest ⊢
    exact List.forall_mem_append.2 ⟨hrest, fun c hc => .inr (hdigits c hc)⟩
  · rw [String.toList_append, ← hs, List.append_assoc]

/-! ## Sanitizing, place by place -/

theorem length_sanitize (s : String) : (sanitize s).length = s.length := by
  rw [← String.length_toList, ← String.length_toList, sanitize, String.toList_ofList]
  cases s.toList with
  | nil => rfl
  | cons c cs => simp [sanitizeChars]

/-- What is allowed at a place is kept, and a question mark takes the place of anything else. -/
theorem getElem?_sanitize {s : String} {i : Nat} {c : Char} (h : s.toList[i]? = some c) :
    (AllowedAt i c → (sanitize s).toList[i]? = some c) ∧
      (¬ AllowedAt i c → (sanitize s).toList[i]? = some '?') := by
  have hkeep : ∀ {allowed : Char → Bool}, (allowed c ↔ AllowedAt i c) →
      (AllowedAt i c → keepIf allowed c = c) ∧ (¬ AllowedAt i c → keepIf allowed c = '?') := by
    intro allowed hallowed
    rw [← hallowed, keepIf]
    exact ⟨fun hc => if_pos hc, fun hc => if_neg hc⟩
  rw [sanitize, String.toList_ofList]
  cases hs : s.toList with
  | nil =>
    rw [hs] at h
    cases h
  | cons d ds =>
    rw [hs] at h
    cases i with
    | zero =>
      obtain rfl : d = c := Option.some.inj h
      have hstart : isIdentifierStart d ↔ AllowedAt 0 d := by
        simp [isIdentifierStart_iff, AllowedAt]
      simpa [sanitizeChars] using hkeep hstart
    | succ i =>
      have hpart : isIdentifierPart c ↔ AllowedAt (i + 1) c := by
        simp [isIdentifierPart_iff, AllowedAt]
      rw [List.getElem?_cons_succ] at h
      simpa [sanitizeChars, h] using hkeep hpart

/-- **Sanitizing has nothing left to do** on what it gives. -/
theorem sanitize_sanitize (s : String) : sanitize (sanitize s) = sanitize s := by
  by_cases hs : s = ""
  · rw [hs]
    rfl
  · exact (isIdentifier_iff.1 (isIdentifier_sanitize hs)).2

/-- **Sanitizing is a retraction onto the identifiers.** It keeps the length of a text and, at each
place, a character that an identifier can have there; anywhere else it puts a question mark. Doing
it again changes nothing. A text is an identifier exactly if it is not empty and left alone, exactly
if it is not empty and the result of sanitizing some text, and exactly if it is a word of the
language of identifiers. Digits can be added to the end of an identifier. -/
theorem sanitize_retracts :
    (∀ s, (sanitize s).length = s.length ∧
      ∀ i c, s.toList[i]? = some c →
        (AllowedAt i c → (sanitize s).toList[i]? = some c) ∧
        (¬ AllowedAt i c → (sanitize s).toList[i]? = some '?')) ∧
    (∀ s, sanitize (sanitize s) = sanitize s) ∧
    (∀ n : String, List.TFAE [isIdentifier n, n ≠ "" ∧ sanitize n = n,
      n ≠ "" ∧ ∃ s, n = sanitize s, n.toList ∈ identifiers]) ∧
    ∀ n digits : String, isIdentifier n → (∀ c ∈ digits.toList, Numeric c) →
      isIdentifier (n ++ digits) := by
  refine ⟨fun s => ⟨length_sanitize s, fun i c => getElem?_sanitize⟩, sanitize_sanitize, ?_,
    fun n digits => isIdentifier_append⟩
  intro n
  tfae_have 1 ↔ 2 := isIdentifier_iff
  tfae_have 2 → 3 := fun ⟨hne, hn⟩ => ⟨hne, n, hn.symm⟩
  tfae_have 3 → 2 := by
    rintro ⟨hne, s, rfl⟩
    exact ⟨hne, sanitize_sanitize s⟩
  tfae_have 1 ↔ 4 := isIdentifier_iff_mem_identifiers
  tfae_finish

/-- A text with a digit at its start, a letter and a digit of other scripts, and a blank. -/
def mixedText : String := "1é\u0663x_9 "

theorem sanitize_retracts_mixedText :
    sanitize mixedText = "???x_9?" ∧ (sanitize mixedText).length = mixedText.length ∧
    ¬ AllowedAt 0 '1' ∧ (sanitize mixedText).toList[0]? = some '?' ∧
    AllowedAt 5 '9' ∧ (sanitize mixedText).toList[5]? = some '9' ∧
    ¬ isIdentifier mixedText ∧ isIdentifier (sanitize mixedText) ∧
    (sanitize mixedText).toList ∈ identifiers ∧ isIdentifier (sanitize mixedText ++ "07") := by
  obtain ⟨hplaces, -, hidentifier, hdigits⟩ := sanitize_retracts
  obtain ⟨hlength, hplace⟩ := hplaces mixedText
  have himage := (hidentifier (sanitize mixedText)).out 0 2
  have hword := (hidentifier (sanitize mixedText)).out 0 3
  have hsanitized : isIdentifier (sanitize mixedText) := himage.2 ⟨by decide, mixedText, rfl⟩
  refine ⟨by decide, hlength, by decide, ?_, by decide, ?_, by decide, hsanitized,
    hword.1 hsanitized, ?_⟩
  · exact (hplace 0 '1' (by decide)).2 (by decide)
  · exact (hplace 5 '9' (by decide)).1 (by decide)
  · exact hdigits _ "07" hsanitized (List.forall_mem_cons.2 ⟨by decide,
      List.forall_mem_singleton.2 (by decide)⟩)

end Datalog

end ShapeRules
