import ShapeRules.Proofs.Hygiene
import ShapeRules.Proofs.Readback

/-!
# How constants are spelled

A value that is not quoted is spelled with digits and a few marks, which depend on its kind: a sign
and a point for numbers, and the marks between the parts of a date or of a time of day. None of
these characters structures the text of a program, so each of these constants is a token. Names are
tokens since identifiers have no such character either. Only the label of a blank node is written as
it stands, and whether its constant is a token depends on the label.

## Main definitions

* `Spelled marks cs`: characters that are digits or among some marks

## Main results

* `Value.isToken_constant`: the constant of a value is a token
* `Rdf.Term.isToken_of_mem_written`: the constant of a term is a token, if its label is
* `isToken_of_isIdentifier`: identifiers are tokens
-/

namespace ShapeRules

open Rdf Datalog

/-- **Characters that are digits or among some marks.** -/
def Spelled (marks cs : List Char) : Prop := ∀ c ∈ cs, c.isDigit ∨ c ∈ marks

section Spelled

variable {marks cs ds : List Char}

@[simp]
theorem spelled_nil : Spelled marks [] := fun _ h => absurd h List.not_mem_nil

@[simp]
theorem spelled_cons {c : Char} : Spelled marks (c :: cs) ↔ (c.isDigit ∨ c ∈ marks) ∧
    Spelled marks cs :=
  List.forall_mem_cons

@[simp]
theorem spelled_append : Spelled marks (cs ++ ds) ↔ Spelled marks cs ∧ Spelled marks ds :=
  List.forall_mem_append

theorem Spelled.subset (h : Spelled marks cs) (hsub : ds ⊆ cs) : Spelled marks ds :=
  fun c hc => h c (hsub hc)

@[simp]
theorem spelled_toDigits (marks : List Char) (n : Nat) : Spelled marks (Nat.toDigits 10 n) :=
  fun _ hc => .inl (Nat.isDigit_of_mem_toDigits (by decide) (by decide) hc)

end Spelled

/-! ## Numbers, days and clocks -/

namespace Value

variable {marks : List Char}

@[simp]
theorem spelled_padded (marks : List Char) (width n : Nat) : Spelled marks (padded width n) := by
  rw [padded, List.leftpad, spelled_append]
  refine ⟨fun c hc => ?_, spelled_toDigits marks n⟩
  obtain rfl := List.eq_of_mem_replicate hc
  exact .inl rfl

theorem spelled_fractionText (hpoint : '.' ∈ marks) (places n : Nat) :
    Spelled marks (fractionText places n) := by
  rw [fractionText]
  split
  · exact spelled_nil
  · refine spelled_cons.2 ⟨.inr hpoint, (spelled_padded marks places n).subset fun c hc => ?_⟩
    -- trimming drops digits only
    rw [trimZeros, List.mem_reverse] at hc
    exact List.mem_reverse.1 ((List.dropWhile_sublist _).subset hc)

theorem spelled_positional (hminus : '-' ∈ marks) (hpoint : '.' ∈ marks) (negative : Bool)
    (places n : Nat) : Spelled marks (positional negative places n) := by
  have hsign : Spelled marks (if negative then ['-'] else []) := by
    split <;> simp [hminus]
  rw [positional, spelled_append, spelled_append]
  exact ⟨⟨hsign, spelled_toDigits marks _⟩, spelled_fractionText hpoint _ _⟩

theorem spelled_integer (hminus : '-' ∈ marks) (n : Int) : Spelled marks (toString n).toList := by
  have hsign : Spelled marks (if n < 0 then ['-'] else []) := by
    split <;> simp [hminus]
  rw [toList_integer, spelled_append]
  exact ⟨hsign, spelled_toDigits marks _⟩

theorem spelled_finite (hminus : '-' ∈ marks) (hpoint : '.' ∈ marks) (f : BinaryFormat)
    (negative : Bool) (mantissa : Nat) (exponent : Int) :
    Spelled marks (f.text (.finite negative mantissa exponent)) := by
  rw [BinaryFormat.text]
  split
  · exact spelled_positional hminus hpoint _ _ _
  · exact spelled_positional hminus hpoint _ _ _

theorem spelled_day (hminus : '-' ∈ marks) (d : Day) : Spelled marks d.text := by
  have hsign : Spelled marks (if d.year < 0 then ['-'] else []) := by
    split <;> simp [hminus]
  simp [Day.text, hsign, hminus]

theorem spelled_clock (hcolon : ':' ∈ marks) (hpoint : '.' ∈ marks) (c : Clock) :
    Spelled marks c.text := by
  simp [Clock.text, hcolon, spelled_fractionText hpoint]

theorem spelled_zoneText (hmarks : ['Z', '+', '-', ':'] ⊆ marks) (z : Option Zone) :
    Spelled marks (zoneText z) := by
  cases z with
  | none => exact spelled_nil
  | some z =>
    have hsign : (if z.offset < 0 then '-' else '+') ∈ marks := by
      split
      · exact hmarks (by decide)
      · exact hmarks (by decide)
    have hcolon : ':' ∈ marks := hmarks (by decide)
    have hzero : 'Z' ∈ marks := hmarks (by decide)
    rw [zoneText, Option.map_some, Option.getD_some, Zone.text]
    split
    · simp [hzero]
    · simp [hsign, hcolon]

theorem spelled_momentText (hmarks : ['Z', '+', '-', ':', '.', 'T'] ⊆ marks) (d : Day) (c : Clock)
    (z : Option Zone) : Spelled marks (momentText d c z) := by
  have hday : ∀ day : Day, Spelled marks day.text := spelled_day (hmarks (by decide))
  have hclock : ∀ clock : Clock, Spelled marks clock.text :=
    spelled_clock (hmarks (by decide)) (hmarks (by decide))
  have hsub : ['Z', '+', '-', ':'] ⊆ ['Z', '+', '-', ':', '.', 'T'] := by decide
  have hzone : Spelled marks (zoneText z) := spelled_zoneText (fun _ hc => hmarks (hsub hc)) z
  have htime : 'T' ∈ marks := hmarks (by decide)
  unfold momentText
  split
  next day clock _ => simp [hday day, hclock clock, hzone, htime]

/-- Underscores take the place of hyphens. -/
theorem spelled_dashless {cs : List Char} (hscore : '_' ∈ marks) (h : Spelled ('-' :: marks) cs) :
    Spelled marks (dashless cs).toList := by
  intro c hc
  rw [dashless, String.toList_ofList] at hc
  obtain ⟨d, hd, rfl⟩ := List.mem_map.1 hc
  split
  · exact .inr hscore
  next hne =>
    rcases h d hd with hdigit | hmark
    · exact .inl hdigit
    · exact .inr ((List.mem_cons.1 hmark).resolve_left hne)

end Value

/-! ## Tokens -/

/-- Characters of a class that none of those that structure a text is in. -/
theorem isTokenChar_of_class {allowed : Char → Bool}
    (hnone : ['"', ',', '(', ')', '\n'].all fun d => !allowed d) {c : Char} (h : allowed c) :
    isTokenChar c := by
  refine decide_eq_true fun hmem => ?_
  have hc := List.all_eq_true.1 hnone c hmem
  rw [h] at hc
  cases hc

theorem isToken_quote (s : String) : IsToken (Text.quote s) := .inl ⟨s, rfl⟩

/-- What has a digit and is spelled without the characters that structure a text is a token. -/
theorem isToken_of_spelled {marks : List Char} {s : String} (hmarks : ∀ c ∈ marks, isTokenChar c)
    (hdigit : HasDigit s.toList) (h : Spelled marks s.toList) : IsToken s := by
  refine .inr ⟨?_, fun c hc => ?_⟩
  · rintro rfl
    obtain ⟨c, hc, -⟩ := hdigit
    cases hc
  · rcases h c hc with hd | hmark
    · exact isTokenChar_of_class (by decide) hd
    · exact hmarks c hmark

/-- **Identifiers are tokens.** -/
theorem isToken_of_isIdentifier {s : String} (h : isIdentifier s) : IsToken s := by
  have hpart : ∀ c, isIdentifierPart c → isTokenChar c :=
    fun c => isTokenChar_of_class (by decide)
  have hchars : isIdentifierChars s.toList := h
  cases hs : s.toList with
  | nil =>
    rw [hs] at hchars
    cases hchars
  | cons d ds =>
    rw [hs, isIdentifierChars, Bool.and_eq_true, List.all_eq_true] at hchars
    obtain ⟨hd, hds⟩ := hchars
    refine .inr ⟨?_, ?_⟩
    · rintro rfl
      cases hs
    · rw [hs]
      refine List.forall_mem_cons.2 ⟨hpart d ?_, fun c hc => hpart c (hds c hc)⟩
      exact (Bool.and_eq_true_iff.1 hd).1

theorem isToken_count (n : Nat) : IsToken (toString n) := by
  have h : (toString n).toList = Nat.toDigits 10 n := Nat.toList_repr
  refine isToken_of_spelled (by simp : ∀ c ∈ [], isTokenChar c) ?_ ?_
  · rw [h]
    exact hasDigit_toDigits n
  · rw [h]
    exact spelled_toDigits [] n

namespace Value

/-- The marks that constants are spelled with, besides digits. -/
def constantMarks : List Char := ['_', 'Z', '+', ':', '.', 'T', '-']

theorem isTokenChar_of_mem_constantMarks {c : Char} (h : c ∈ constantMarks) : isTokenChar c :=
  List.all_eq_true.1 (by decide : constantMarks.all isTokenChar) c h

theorem isToken_binary (f : BinaryFormat) (x : Binary) : IsToken (binaryConstant f x) := by
  cases x with
  | nan => exact isToken_quote _
  | infinite negative => exact isToken_quote _
  | finite negative mantissa exponent =>
    refine isToken_of_spelled (fun _ => isTokenChar_of_mem_constantMarks) ?_ ?_
    · rw [binaryConstant, String.toList_ofList]
      exact hasDigit_finite f negative mantissa exponent
    · rw [binaryConstant, String.toList_ofList]
      exact spelled_finite (by decide) (by decide) f negative mantissa exponent

theorem isToken_dashless {cs : List Char} (hdigit : HasDigit cs)
    (h : Spelled ('-' :: constantMarks) cs) : IsToken (dashless cs) :=
  isToken_of_spelled (fun _ => isTokenChar_of_mem_constantMarks) (hasDigit_dashless hdigit)
    (spelled_dashless (by decide) h)

/-- **The constant of a value is a token.** -/
theorem isToken_constant (v : Value) : IsToken v.constant := by
  have hmarks : ∀ c ∈ constantMarks, isTokenChar c := fun _ => isTokenChar_of_mem_constantMarks
  cases v with
  | boolean b => cases b <;> exact isToken_of_isIdentifier (by decide)
  | integer n =>
    exact isToken_of_spelled hmarks (hasDigit_integer n) (spelled_integer (by decide) n)
  | decimal d =>
    refine isToken_of_spelled hmarks ?_ ?_
    · rw [constant, String.toList_ofList]
      exact hasDigit_positional ..
    · rw [constant, String.toList_ofList]
      exact spelled_positional (by decide) (by decide) _ _ _
  | float x => exact isToken_binary .single x
  | double x => exact isToken_binary .double x
  | date day zone =>
    refine isToken_dashless ((hasDigit_day day).mono (List.subset_append_left _ _)) ?_
    exact spelled_append.2 ⟨spelled_day (by decide) day, spelled_zoneText (by decide) zone⟩
  | dateTime day clock zone =>
    exact isToken_dashless (hasDigit_moment day clock zone)
      (spelled_momentText (by decide) day clock zone)
  | time clock zone =>
    refine isToken_dashless ((hasDigit_clock clock).mono (List.subset_append_left _ _)) ?_
    exact spelled_append.2
      ⟨spelled_clock (by decide) (by decide) clock, spelled_zoneText (by decide) zone⟩
  | string s => exact isToken_quote s

end Value

/-- **The constant of a term is a token,** if the label of a blank node has no character that
structures a text. -/
theorem Rdf.Term.isToken_of_mem_written {t : Term} {c : String} (h : c ∈ t.written)
    (hlabel : ∀ b, t = .blank b → ∀ d ∈ b.toList, isTokenChar d) : IsToken c := by
  cases t with
  | node n =>
    obtain rfl := List.mem_singleton.1 h
    cases n with
    | iri s => exact isToken_quote s
    | blank b =>
      have hmark : ∀ d ∈ blankMark.toList, isTokenChar d :=
        List.all_eq_true.1 (by decide : blankMark.toList.all isTokenChar)
      have hchars : (Node.blank b).constant.toList = blankMark.toList ++ b.toList :=
        String.toList_append
      refine .inr ⟨fun he => ?_, ?_⟩
      · rw [he] at hchars
        cases hchars
      · rw [hchars]
        exact List.forall_mem_append.2 ⟨hmark, hlabel b rfl⟩
  | literal l =>
    obtain rfl := List.mem_singleton.1 h
    exact (Value.ofLiteral l).isToken_constant
  | triple s p o => cases h

end ShapeRules
