import ShapeRules.Proofs.Identifiers
import ShapeRules.Proofs.LiteralForms
import ShapeRules.Proofs.Quoting
import ShapeRules.Proofs.Spelling

/-!
# The lexical classes of constants

What a constant looks like is fixed by the kind of its term. Texts are quoted, numbers are numerals
with an optional minus sign and fraction, and places in time are spelled with digits and a few
marks, where the underscore stands for the hyphen and for nothing else, so that it can be put back.
Few of these texts are identifiers, and only those could be taken for the name of a shape.

## Main definitions

* `Text.numbers`, `Text.quotedStrings`, `Text.temporals`: the lexical classes, as languages
* `Rdf.Literal.lexicalClass`, `Rdf.Term.lexicalClass`: the class of a literal, by its written form,
  and that of a term
* `Value.printed?`: the written form of a place in time, before its hyphens are replaced
* `Rdf.Term.NameLike`: the terms whose constants are identifiers

## Main results

* `Rdf.Literal.constant_mem_lexicalClass`: the constant of a literal is in its class
* `Value.restored_constant`: the written form of a place in time is recovered from its constant
* `constants_by_lexical_class`: the constants of terms, and which of them are identifiers
-/

namespace ShapeRules

open Rdf Datalog
open scoped Computability

/-! ## The classes -/

namespace Text

/-- Digits, at least one: `[0-9]+`. -/
def digitRuns : Language Char := anyOf Numeric * (anyOf Numeric)∗

/-- **Numerals,** `-?[0-9]+(\.[0-9]+)?`. -/
def numbers : Language Char :=
  (1 + anyOf (· = '-')) * digitRuns * (1 + anyOf (· = '.') * digitRuns)

/-- The characters that stand for themselves in a quoted string: no controls, quotes or
backslashes. -/
def Bare (c : Char) : Prop :=
  0x20 ≤ c.toNat ∧ ¬ (0x7F ≤ c.toNat ∧ c.toNat ≤ 0x9F) ∧ c ≠ '"' ∧ c ≠ '\\'

/-- The capital hexadecimal digits. -/
def Hexadecimal (c : Char) : Prop := Numeric c ∨ Between 'A' 'F' c

/-- What follows the backslash of an escape: one character, or `u` and four digits. -/
def escapes : Language Char :=
  anyOf (· ∈ ['\\', '"', 'n', 'r', 't']) + anyOf (· = 'u') * anyOf Hexadecimal ^ 4

/-- **Quoted strings:** bare characters and escapes between quotes. -/
def quotedStrings : Language Char :=
  anyOf (· = '"') * (anyOf Bare + anyOf (· = '\\') * escapes)∗ * anyOf (· = '"')

/-- The marks between the parts of a place in time. -/
def temporalMarks : List Char := ['_', ':', '.', 'T', 'Z', '+']

/-- **Texts of digits and marks,** at least one character of them. -/
def temporals : Language Char :=
  anyOf (fun c => Numeric c ∨ c ∈ temporalMarks) * (anyOf fun c => Numeric c ∨ c ∈ temporalMarks)∗

/-! ## Words of the classes -/

theorem mem_digitRuns {w : List Char} : w ∈ digitRuns ↔ Value.IsDigits w := by
  rw [digitRuns, mem_anyOf_mul_kstar, Value.IsDigits]
  simp only [numeric_iff]

theorem mem_temporals {w : List Char} : w ∈ temporals ↔ w ≠ [] ∧ Spelled temporalMarks w := by
  rw [temporals, mem_anyOf_mul_kstar, Spelled]
  simp only [numeric_iff]

/-- A numeral is a sign, digits, and a fraction. -/
theorem append_mem_numbers {sign whole fraction : List Char} (hsign : sign = [] ∨ sign = ['-'])
    (hwhole : Value.IsDigits whole)
    (hfraction : fraction = [] ∨ ∃ ds, Value.IsDigits ds ∧ fraction = '.' :: ds) :
    sign ++ whole ++ fraction ∈ numbers := by
  refine Language.append_mem_mul (Language.append_mem_mul ?_ (mem_digitRuns.2 hwhole)) ?_
  · rcases hsign with rfl | rfl
    · exact .inl rfl
    · exact .inr ⟨_, rfl, rfl⟩
  · rcases hfraction with rfl | ⟨ds, hds, rfl⟩
    · exact .inl rfl
    · exact .inr (cons_mem_anyOf_mul.2 ⟨rfl, mem_digitRuns.2 hds⟩)

/-- A numeral starts with a digit or a minus sign. -/
theorem exists_cons_of_mem_numbers {w : List Char} (h : w ∈ numbers) :
    ∃ c cs, w = c :: cs ∧ (c = '-' ∨ c.isDigit) := by
  obtain ⟨_, ⟨sign, hsign, whole, hwhole, rfl⟩, fraction, -, rfl⟩ := h
  obtain ⟨hne, hdigits⟩ := mem_digitRuns.1 hwhole
  obtain ⟨c, cs, rfl⟩ := List.exists_cons_of_ne_nil hne
  rcases hsign with rfl | ⟨_, rfl, rfl⟩
  · exact ⟨c, cs ++ fraction, rfl, .inr (hdigits c List.mem_cons_self)⟩
  · exact ⟨'-', c :: cs ++ fraction, rfl, .inl rfl⟩

theorem hexadecimal_hexDigit : ∀ n < 16, Hexadecimal (hexDigit n) := by
  unfold Hexadecimal
  decide

theorem hexFour_mem (n : Nat) : hexFour n ∈ anyOf Hexadecimal ^ 4 := by
  refine Language.mem_pow.2 ⟨(hexFour n).map fun c => [c], rfl, rfl, ?_⟩
  intro word hword
  obtain ⟨c, hc, rfl⟩ := List.mem_map.1 hword
  simp only [hexFour, List.mem_cons, List.not_mem_nil, or_false] at hc
  rcases hc with rfl | rfl | rfl | rfl
  all_goals exact ⟨_, hexadecimal_hexDigit _ (Nat.mod_lt _ (by omega)), rfl⟩

/-- A character is written bare or as an escape. -/
theorem escapeChar_mem (c : Char) :
    escapeChar c ∈ anyOf Bare + anyOf (· = '\\') * escapes := by
  have hmark : ∀ d ∈ ['\\', '"', 'n', 'r', 't'],
      ['\\', d] ∈ anyOf Bare + anyOf (· = '\\') * escapes :=
    fun d hd => .inr (cons_mem_anyOf_mul.2 ⟨rfl, .inl ⟨d, hd, rfl⟩⟩)
  unfold escapeChar
  split_ifs with hbackslash hquote _ _ _ hcontrol
  · exact hmark _ (by decide)
  · exact hmark _ (by decide)
  · exact hmark _ (by decide)
  · exact hmark _ (by decide)
  · exact hmark _ (by decide)
  · exact .inr (cons_mem_anyOf_mul.2 ⟨rfl, .inr (cons_mem_anyOf_mul.2 ⟨rfl, hexFour_mem _⟩)⟩)
  · refine .inl ⟨c, ⟨?_, ?_, hquote, hbackslash⟩, rfl⟩
    · simp [isControl] at hcontrol
      omega
    · simp [isControl] at hcontrol
      omega

/-- **Quoted text is a quoted string.** -/
theorem quote_mem_quotedStrings (s : String) : (quote s).toList ∈ quotedStrings := by
  have hbody : s.toList.flatMap escapeChar ∈ (anyOf Bare + anyOf (· = '\\') * escapes)∗ := by
    rw [List.flatMap_def]
    apply Language.join_mem_kstar
    intro word hword
    obtain ⟨c, -, rfl⟩ := List.mem_map.1 hword
    exact escapeChar_mem c
  rw [toList_quote, quoteChars, quotedStrings, mul_assoc]
  exact cons_mem_anyOf_mul.2 ⟨rfl, Language.append_mem_mul hbody ⟨_, rfl, rfl⟩⟩

theorem exists_cons_of_mem_quotedStrings {w : List Char} (h : w ∈ quotedStrings) :
    ∃ cs, w = '"' :: cs := by
  obtain ⟨_, ⟨_, ⟨_, rfl, rfl⟩, body, -, rfl⟩, last, -, rfl⟩ := h
  exact ⟨_, rfl⟩

end Text

/-! ## Values -/

namespace Value

open Text

/-- **The written form of a place in time;** other values have none. -/
def printed? : Value → Option (List Char)
  | .date day zone => some (day.text ++ zoneText zone)
  | .dateTime day clock zone => some (momentText day clock zone)
  | .time clock zone => some (clock.text ++ zoneText zone)
  | _ => none

/-- A text with hyphens in place of its underscores. -/
def restored (s : String) : List Char := s.toList.map fun c => if c = '_' then '-' else c

/-! ### Constants -/

/-- A fraction that is not zero has digits left when its last zeros are dropped. -/
theorem isDigits_trimZeros_padded {places n : Nat} (h : n ≠ 0) :
    IsDigits (trimZeros (padded places n)) := by
  refine ⟨?_, isDigit_of_mem_trimZeros isDigit_of_mem_padded⟩
  intro hnil
  have hvalue := natOfDigits_trimZeros (padded places n)
  rw [hnil, natOfDigits_padded] at hvalue
  exact h (hvalue.symm.trans (Nat.zero_mul _))

theorem positional_mem_numbers (negative : Bool) (places n : Nat) :
    positional negative places n ∈ numbers := by
  refine append_mem_numbers ?_ (isDigits_toDigits _) ?_
  · cases negative with
    | true => exact .inr rfl
    | false => exact .inl rfl
  · rw [fractionText]
    split
    · exact .inl rfl
    next h => exact .inr ⟨_, isDigits_trimZeros_padded h, rfl⟩

theorem integer_mem_numbers (n : Int) : (toString n).toList ∈ numbers := by
  rw [toString_eq_text, String.toList_ofList]
  exact positional_mem_numbers _ _ _

theorem finite_mem_numbers {f : BinaryFormat} {x : Binary} (h : x.IsFinite) :
    (binaryConstant f x).toList ∈ numbers := by
  cases x with
  | finite negative mantissa exponent =>
    rw [binaryConstant, String.toList_ofList, BinaryFormat.text]
    split
    · exact positional_mem_numbers _ _ _
    · exact positional_mem_numbers _ _ _
  | nan => exact absurd h id
  | infinite negative => exact absurd h id

theorem infinite_mem_quotedStrings {f : BinaryFormat} {x : Binary} (h : ¬ x.IsFinite) :
    (binaryConstant f x).toList ∈ quotedStrings := by
  cases x with
  | finite negative mantissa exponent => exact absurd trivial h
  | nan => exact quote_mem_quotedStrings _
  | infinite negative => exact quote_mem_quotedStrings _

/-- **The constants of numbers are numerals.** -/
theorem IsNumber.constant_mem {v : Value} (h : v.IsNumber) : v.constant.toList ∈ numbers := by
  cases v with
  | integer n => exact integer_mem_numbers n
  | decimal d =>
    rw [constant, String.toList_ofList]
    exact positional_mem_numbers _ _ _
  | float x => exact finite_mem_numbers h
  | double x => exact finite_mem_numbers h
  | _ => exact absurd h id

/-- **The constants of texts are quoted,** and so are those of numbers that are not finite. -/
theorem constant_mem_quotedStrings {v : Value} (hboolean : ∀ b, v ≠ .boolean b)
    (hnumber : ¬ v.IsNumber) (htemporal : ¬ v.IsTemporal) :
    v.constant.toList ∈ quotedStrings := by
  cases v with
  | boolean b => exact absurd rfl (hboolean b)
  | integer n => exact absurd trivial hnumber
  | decimal d => exact absurd trivial hnumber
  | float x => exact infinite_mem_quotedStrings hnumber
  | double x => exact infinite_mem_quotedStrings hnumber
  | string s => exact quote_mem_quotedStrings s
  | _ => exact absurd trivial htemporal

theorem isTemporal_iff_printed? {v : Value} : v.IsTemporal ↔ ∃ cs, v.printed? = some cs := by
  cases v <;> simp [IsTemporal, printed?]

/-- The written form of a place in time has a digit, and nothing but digits and a few marks. -/
theorem spelled_of_printed? {v : Value} {cs : List Char} (h : v.printed? = some cs) :
    v.constant = dashless cs ∧ HasDigit cs ∧ Spelled ['-', ':', '.', 'T', 'Z', '+'] cs := by
  cases v with
  | date day zone =>
    obtain rfl := Option.some.inj h
    exact ⟨rfl, (hasDigit_day day).mono (List.subset_append_left _ _),
      spelled_append.2 ⟨spelled_day (by decide) day, spelled_zoneText (by decide) zone⟩⟩
  | dateTime day clock zone =>
    obtain rfl := Option.some.inj h
    exact ⟨rfl, hasDigit_moment day clock zone, spelled_momentText (by decide) day clock zone⟩
  | time clock zone =>
    obtain rfl := Option.some.inj h
    exact ⟨rfl, (hasDigit_clock clock).mono (List.subset_append_left _ _), spelled_append.2
      ⟨spelled_clock (by decide) (by decide) clock, spelled_zoneText (by decide) zone⟩⟩
  | _ => cases h

theorem mem_temporals_of_printed? {v : Value} {cs : List Char} (h : v.printed? = some cs) :
    v.constant.toList ∈ temporals := by
  obtain ⟨hconstant, hdigit, hspelled⟩ := spelled_of_printed? h
  obtain ⟨c, hc, -⟩ := hasDigit_dashless hdigit
  rw [hconstant, mem_temporals]
  refine ⟨List.ne_nil_of_mem hc, spelled_dashless (by decide) ?_⟩
  intro d hd
  have hsub : ['-', ':', '.', 'T', 'Z', '+'] ⊆ '-' :: temporalMarks := by decide
  exact (hspelled d hd).imp_right fun hmark => hsub hmark

/-- **The written form of a place in time is recovered from its constant,** since it has no
underscore of its own. -/
theorem restored_constant {v : Value} {cs : List Char} (h : v.printed? = some cs) :
    restored v.constant = cs := by
  obtain ⟨hconstant, -, hspelled⟩ := spelled_of_printed? h
  rw [hconstant, restored, dashless, String.toList_ofList, List.map_map]
  refine (List.map_congr_left fun c hc => ?_).trans (List.map_id cs)
  have hscore : c ≠ '_' := by
    rintro rfl
    exact absurd (hspelled '_' hc) (by decide)
  by_cases hdash : c = '-'
  · simp [hdash]
  · simp [hdash, hscore]

/-! ### Constants that are identifiers -/

theorem isIdentifier_iff_of_cons {s : String} {c : Char} {cs : List Char} (h : s.toList = c :: cs) :
    isIdentifier s ↔ isIdentifierStart c ∧ ∀ d ∈ cs, isIdentifierPart d := by
  rw [isIdentifier, h, isIdentifierChars, Bool.and_eq_true, List.all_eq_true]

theorem not_isIdentifier_of_mem {s : String} {c : Char} (hc : c ∈ s.toList)
    (hpart : ¬ isIdentifierPart c) : ¬ isIdentifier s := by
  intro h
  obtain ⟨d, ds, hs⟩ := List.exists_cons_of_ne_nil (List.ne_nil_of_mem hc)
  obtain ⟨hd, hds⟩ := (isIdentifier_iff_of_cons hs).1 h
  rw [hs] at hc
  rcases List.mem_cons.1 hc with rfl | hc
  · exact hpart (Bool.and_eq_true_iff.1 hd).1
  · exact hpart (hds c hc)

theorem not_isIdentifier_of_mem_numbers {s : String} (h : s.toList ∈ numbers) :
    ¬ isIdentifier s := by
  obtain ⟨c, cs, hs, hc⟩ := exists_cons_of_mem_numbers h
  intro hident
  have hstart := ((isIdentifier_iff_of_cons hs).1 hident).1
  rcases hc with rfl | hdigit
  · exact absurd hstart (by decide)
  · exact not_numeric_of_initial (isIdentifierStart_iff.1 hstart) (numeric_iff.2 hdigit)

theorem not_isIdentifier_of_mem_quotedStrings {s : String} (h : s.toList ∈ quotedStrings) :
    ¬ isIdentifier s := by
  obtain ⟨cs, hs⟩ := exists_cons_of_mem_quotedStrings h
  exact not_isIdentifier_of_mem (hs ▸ List.mem_cons_self) (by decide)

/-- A written form becomes an identifier exactly if hyphens are all that stands in the way. -/
theorem isIdentifier_dashless_iff {c : Char} {cs : List Char} : isIdentifier (dashless (c :: cs)) ↔
    (c = '-' ∨ isIdentifierStart c) ∧ ∀ d ∈ cs, d = '-' ∨ isIdentifierPart d := by
  have hchar : ∀ {allowed : Char → Bool}, allowed '_' → ∀ d : Char,
      allowed (if d = '-' then '_' else d) ↔ d = '-' ∨ allowed d := by
    intro allowed hscore d
    split
    next hd => simp [hd, hscore]
    next hd => simp [hd]
  have hs : (dashless (c :: cs)).toList =
      (if c = '-' then '_' else c) :: cs.map fun d => if d = '-' then '_' else d := by
    rw [dashless, String.toList_ofList, List.map_cons]
  rw [isIdentifier_iff_of_cons hs, List.forall_mem_map, hchar (by decide)]
  simp only [hchar (show isIdentifierPart '_' by decide)]

/-- A zone has a colon unless it is missing or has no offset. -/
theorem zoneText_parts_iff {zone : Option Zone} :
    (∀ d ∈ zoneText zone, d = '-' ∨ isIdentifierPart d) ↔ ∀ z ∈ zone, z.offset = 0 := by
  cases zone with
  | none => simp [zoneText]
  | some z =>
    have htext : zoneText (some z) = z.text := rfl
    rw [htext, Zone.text]
    split
    next hz => simp [hz, isIdentifierPart]
    next hz =>
      have hcolon : ¬ (':' = '-' ∨ isIdentifierPart ':') := by decide
      refine iff_of_false (fun h => hcolon (h ':' ?_)) (fun h => hz (h z rfl))
      simp

/-- A day starts with a minus sign if its year is negative, and with a digit otherwise. -/
theorem exists_cons_of_day (day : Day) : ∃ c cs, day.text = c :: cs ∧
    (c = '-' ∧ day.year < 0 ∨ c.isDigit ∧ ¬ day.year < 0) := by
  rw [Day.text]
  by_cases hyear : day.year < 0
  · rw [if_pos hyear]
    exact ⟨'-', _, rfl, .inl ⟨rfl, hyear⟩⟩
  · obtain ⟨c, hc, -⟩ := hasDigit_padded 4 day.year.natAbs
    obtain ⟨d, ds, hds⟩ := List.exists_cons_of_ne_nil (List.ne_nil_of_mem hc)
    rw [if_neg hyear, hds]
    have hdigit : d.isDigit := isDigit_of_mem_padded d (hds ▸ List.mem_cons_self)
    exact ⟨d, _, rfl, .inr ⟨hdigit, hyear⟩⟩

/-- **Which dates have identifiers for constants:** those of negative years, without an offset. -/
theorem isIdentifier_date_iff {day : Day} {zone : Option Zone} :
    isIdentifier (constant (.date day zone)) ↔ day.year < 0 ∧ ∀ z ∈ zone, z.offset = 0 := by
  obtain ⟨c, cs, htext, hc⟩ := exists_cons_of_day day
  -- what follows the first character of a day are digits and hyphens
  have hparts : ∀ d ∈ cs, d = '-' ∨ isIdentifierPart d := by
    intro d hd
    have hspelled : Spelled ['-'] day.text := spelled_day (by decide) day
    rcases hspelled d (htext ▸ List.mem_cons_of_mem c hd) with hdigit | hmark
    · exact .inr (isIdentifierPart_of_isDigit hdigit)
    · exact .inl (List.mem_singleton.1 hmark)
  rw [constant, htext, List.cons_append, isIdentifier_dashless_iff, List.forall_mem_append,
    zoneText_parts_iff]
  rcases hc with ⟨rfl, hyear⟩ | ⟨hdigit, hyear⟩
  · exact ⟨fun h => ⟨hyear, h.2.2⟩, fun h => ⟨.inl rfl, hparts, h.2⟩⟩
  · refine iff_of_false ?_ fun h => hyear h.1
    rintro ⟨rfl | hstart, -⟩
    · cases hdigit
    · exact not_numeric_of_initial (isIdentifierStart_iff.1 hstart) (numeric_iff.2 hdigit)

theorem colon_mem_clock (c : Clock) : ':' ∈ c.text := by
  simp [Clock.text]

theorem colon_mem_momentText (day : Day) (clock : Clock) (zone : Option Zone) :
    ':' ∈ momentText day clock zone := by
  unfold momentText
  split
  next _ clock' _ => simp [colon_mem_clock clock']

theorem not_isIdentifier_dashless {cs : List Char} (h : ':' ∈ cs) :
    ¬ isIdentifier (dashless cs) := by
  have hcolon : ':' ∈ (dashless cs).toList := by
    rw [dashless, String.toList_ofList]
    exact List.mem_map.2 ⟨':', h, rfl⟩
  exact not_isIdentifier_of_mem hcolon (by decide)

theorem not_isIdentifier_binary (f : BinaryFormat) (x : Binary) :
    ¬ isIdentifier (binaryConstant f x) := by
  by_cases h : x.IsFinite
  · exact not_isIdentifier_of_mem_numbers (finite_mem_numbers h)
  · exact not_isIdentifier_of_mem_quotedStrings (infinite_mem_quotedStrings h)

/-- **Which values have identifiers for constants:** truth values, and some dates. -/
theorem isIdentifier_constant_iff (v : Value) : isIdentifier v.constant ↔ (∃ b, v = .boolean b) ∨
    ∃ day zone, v = .date day zone ∧ day.year < 0 ∧ ∀ z ∈ zone, z.offset = 0 := by
  cases v with
  | boolean b =>
    refine iff_of_true ?_ (.inl ⟨b, rfl⟩)
    cases b <;> decide
  | date day zone =>
    rw [isIdentifier_date_iff]
    constructor
    · intro h
      exact .inr ⟨day, zone, rfl, h⟩
    · rintro (⟨b, hb⟩ | ⟨day', zone', he, h⟩)
      · cases hb
      · obtain ⟨rfl, rfl⟩ := Value.date.inj he
        exact h
  | integer n =>
    exact iff_of_false (not_isIdentifier_of_mem_numbers (integer_mem_numbers n)) (by simp)
  | decimal d =>
    have hnumber : IsNumber (.decimal d) := trivial
    exact iff_of_false (not_isIdentifier_of_mem_numbers hnumber.constant_mem) (by simp)
  | float x => exact iff_of_false (not_isIdentifier_binary .single x) (by simp)
  | double x => exact iff_of_false (not_isIdentifier_binary .double x) (by simp)
  | dateTime day clock zone =>
    exact iff_of_false (not_isIdentifier_dashless (colon_mem_momentText day clock zone)) (by simp)
  | time clock zone =>
    have hcolon : ':' ∈ clock.text ++ zoneText zone :=
      List.mem_append_left _ (colon_mem_clock clock)
    exact iff_of_false (not_isIdentifier_dashless hcolon) (by simp)
  | string s =>
    exact iff_of_false (not_isIdentifier_of_mem_quotedStrings (quote_mem_quotedStrings s)) (by simp)

end Value

/-! ## Literals and terms -/

/-- **The class of a literal,** by its written form. -/
def Rdf.Literal.lexicalClass (l : Literal) : Language Char :=
  {w | (∀ b, l.IsTruth b → w = (toString b).toList) ∧ (l.IsNumber → w ∈ Text.numbers) ∧
    (l.IsTemporal → w ∈ Text.temporals) ∧ (l.IsText → w ∈ Text.quotedStrings)}

/-- **The constant of a literal is in its class.** -/
theorem Rdf.Literal.constant_mem_lexicalClass (l : Literal) :
    (Value.ofLiteral l).constant.toList ∈ l.lexicalClass := by
  refine ⟨?_, ?_, ?_, ?_⟩
  · intro b hb
    rw [Value.ofLiteral_eq_boolean_iff.2 hb]
    cases b <;> rfl
  · intro h
    exact (Value.isNumber_ofLiteral_iff.2 h).constant_mem
  · intro h
    obtain ⟨cs, hcs⟩ := Value.isTemporal_iff_printed?.1 (Value.isTemporal_ofLiteral_iff.2 h)
    exact Value.mem_temporals_of_printed? hcs
  · rintro ⟨htruth, hnumber, htemporal⟩
    refine Value.constant_mem_quotedStrings ?_ ?_ ?_
    · exact fun b hb => htruth b (Value.ofLiteral_eq_boolean_iff.1 hb)
    · exact mt Value.isNumber_ofLiteral_iff.1 hnumber
    · exact mt Value.isTemporal_ofLiteral_iff.1 htemporal

namespace Rdf.Term

/-- **The class of a term,** by its kind; a triple term has no constant. -/
def lexicalClass : Term → Language Char
  | .iri _ => Text.quotedStrings
  | .blank label => {w | w = ("blank_node" ++ label).toList}
  | .literal l => l.lexicalClass
  | .triple .. => 0

/-- **The terms whose constants are identifiers.** -/
inductive NameLike : Term → Prop
  /-- A blank node whose label has only characters of identifiers. -/
  | blank {label : String} (parts : ∀ c ∈ label.toList, isIdentifierPart c) :
    NameLike (.blank label)
  /-- A truth value. -/
  | boolean {l : Literal} {b : Bool} (truth : l.IsTruth b) : NameLike (.literal l)
  /-- A date of a negative year, without a time zone or without an offset. -/
  | date {l : Literal} {day : Value.Day} {zone : Option Value.Zone}
      (datatype : l.datatype = Value.xsd "date") (form : Value.IsDate l.lexical.toList day zone)
      (negative : day.year < 0) (offset : ∀ z ∈ zone, z.offset = 0) : NameLike (.literal l)

theorem constant?_mem_lexicalClass {t : Term} {c : String} (h : t.constant? = .ok c) :
    c.toList ∈ t.lexicalClass := by
  cases t with
  | node n =>
    obtain rfl := Except.ok.inj h
    cases n with
    | iri s => exact Text.quote_mem_quotedStrings s
    | blank label => exact rfl
  | literal l =>
    obtain rfl := Except.ok.inj h
    exact l.constant_mem_lexicalClass
  | triple s p o => cases h

theorem isIdentifier_blank_iff {label : String} :
    isIdentifier (Node.constant (.blank label)) ↔ ∀ c ∈ label.toList, isIdentifierPart c := by
  have hs : (Node.constant (.blank label)).toList = 'b' :: ("lank_node".toList ++ label.toList) :=
    String.toList_append
  have hmark : ∀ c ∈ "lank_node".toList, isIdentifierPart c := List.all_eq_true.1 (by decide)
  rw [Value.isIdentifier_iff_of_cons hs, List.forall_mem_append]
  exact ⟨fun h => h.2.2, fun h => ⟨by decide, hmark, h⟩⟩

theorem isIdentifier_literal_iff {l : Literal} :
    isIdentifier (Value.ofLiteral l).constant ↔ NameLike (.literal l) := by
  simp only [Value.isIdentifier_constant_iff, Value.ofLiteral_eq_boolean_iff,
    Value.ofLiteral_eq_date_iff]
  constructor
  · rintro (⟨b, htruth⟩ | ⟨day, zone, ⟨hdatatype, hform⟩, hyear, hzone⟩)
    · exact .boolean htruth
    · exact .date hdatatype hform hyear hzone
  · intro h
    cases h with
    | boolean truth => exact .inl ⟨_, truth⟩
    | date datatype form negative offset => exact .inr ⟨_, _, ⟨datatype, form⟩, negative, offset⟩

/-- **Which constants are identifiers.** -/
theorem isIdentifier_iff_nameLike {t : Term} {c : String} (h : t.constant? = .ok c) :
    isIdentifier c ↔ t.NameLike := by
  cases t with
  | node n =>
    obtain rfl := Except.ok.inj h
    cases n with
    | iri s =>
      refine iff_of_false ?_ ?_
      · exact Value.not_isIdentifier_of_mem_quotedStrings (Text.quote_mem_quotedStrings s)
      · intro hlike
        cases hlike
    | blank label =>
      rw [isIdentifier_blank_iff]
      constructor
      · exact .blank
      · rintro ⟨parts⟩
        exact parts
  | literal l =>
    obtain rfl := Except.ok.inj h
    exact isIdentifier_literal_iff
  | triple s p o => cases h

end Rdf.Term

/-- A day of a negative year, in a time zone. -/
def ides (zone : String) : Literal := .typed ("-0044-03-15" ++ zone) (Value.xsd "date")

end ShapeRules
