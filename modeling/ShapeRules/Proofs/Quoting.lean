import Mathlib.Algebra.Group.Nat.Even
import Mathlib.Algebra.Ring.Parity
import Mathlib.Data.List.DropRight
import ShapeRules.Proofs.Readers

/-!
# Quoted text delimits itself

Where a quoted string ends can be told without knowing what is quoted. Inside it a character is
written bare, and then it is neither a quote nor a backslash, or it is written as an escape. A
reader that keeps track of whether a backslash still waits for its character is therefore never
waiting between two characters, and always waiting at a quote inside; it comes to rest at the quote
that ends the string.

## Main definitions

* `backslashes`: how many backslashes stand at the end of a text
* `waits`: whether a backslash waits for its character, one character further

## Main results

* `escapeChar_cases`: the two ways to write a character
* `foldl_waits_flatMap`: nothing waits between two characters
* `odd_backslashes_iff`: what waits is told by the backslashes before it
* `quote_self_delimiting`: quoted text is read back, and its last quote is the only bare one
-/

namespace ShapeRules.Text

/-! ## How a character is written -/

theorem hexDigit_range : ∀ n < 16, 0x30 ≤ (hexDigit n).toNat ∧ (hexDigit n).toNat ≤ 0x46 := by
  decide

theorem hexFour_range (n : Nat) {d : Char} (hd : d ∈ hexFour n) :
    0x30 ≤ d.toNat ∧ d.toNat ≤ 0x46 := by
  simp only [hexFour, List.mem_cons, List.not_mem_nil, or_false] at hd
  rcases hd with rfl | rfl | rfl | rfl
  all_goals exact hexDigit_range _ (Nat.mod_lt _ (by omega))

/-- **The two ways to write a character:** bare, unless it is a backslash, a quote or a control, or
as a backslash, a character that is no control, and perhaps digits. -/
theorem escapeChar_cases (c : Char) :
    escapeChar c = [c] ∧ c ≠ '\\' ∧ c ≠ '"' ∧ isControl c = false ∨
      ∃ e digits, escapeChar c = '\\' :: e :: digits ∧ isControl e = false ∧
        ∀ d ∈ digits, 0x30 ≤ d.toNat ∧ d.toNat ≤ 0x46 := by
  have hmark : ∀ e, isControl e = false → ∃ e' digits, ['\\', e] = '\\' :: e' :: digits ∧
      isControl e' = false ∧ ∀ d ∈ digits, 0x30 ≤ d.toNat ∧ d.toNat ≤ 0x46 :=
    fun e he => ⟨e, [], rfl, he, by simp⟩
  unfold escapeChar
  split_ifs with hbackslash hquote _ _ _ hcontrol
  · exact .inr (hmark _ rfl)
  · exact .inr (hmark _ rfl)
  · exact .inr (hmark _ rfl)
  · exact .inr (hmark _ rfl)
  · exact .inr (hmark _ rfl)
  · exact .inr ⟨'u', hexFour c.toNat, rfl, rfl, fun d => hexFour_range c.toNat⟩
  · exact .inl ⟨rfl, hbackslash, hquote, by simpa using hcontrol⟩

theorem isControl_of_mem_escapeChar {c d : Char} (hd : d ∈ escapeChar c) : isControl d = false := by
  rcases escapeChar_cases c with ⟨hc, -, -, hcontrol⟩ | ⟨e, digits, hc, he, hdigits⟩
  · rw [hc, List.mem_singleton] at hd
    rw [hd, hcontrol]
  · rw [hc, List.mem_cons, List.mem_cons] at hd
    rcases hd with rfl | rfl | hd
    · rfl
    · exact he
    · have hrange := hdigits d hd
      simp [isControl]
      omega

theorem isControl_of_mem_quote {s : String} {c : Char} (hc : c ∈ (quote s).toList) :
    isControl c = false := by
  rw [toList_quote, quoteChars, List.mem_cons, List.mem_append, List.mem_singleton] at hc
  rcases hc with rfl | hc | rfl
  · rfl
  · obtain ⟨d, -, hc⟩ := List.mem_flatMap.1 hc
    exact isControl_of_mem_escapeChar hc
  · rfl

/-! ## Backslashes that wait -/

/-- Whether a backslash waits for its character after one more character. A backslash that comes
while another one waits is its character. -/
def waits (waiting : Bool) (c : Char) : Bool := c = '\\' && !waiting

/-- The number of backslashes in a row at the end of a text. -/
def backslashes (cs : List Char) : Nat := (cs.rtakeWhile (· = '\\')).length

/-- **What waits is told by the backslashes before it:** one does exactly if their number is
odd. -/
theorem odd_backslashes_iff (cs : List Char) :
    Odd (backslashes cs) ↔ cs.foldl waits false = true := by
  induction cs using List.reverseRecOn with
  | nil => simp [backslashes]
  | append_singleton cs c ih =>
    rw [List.foldl_concat, waits]
    by_cases hc : c = '\\'
    · -- one backslash more turns odd into even
      have hlength : backslashes (cs ++ [c]) = backslashes cs + 1 := by
        rw [backslashes, List.rtakeWhile_concat_pos _ _ _ (by simpa using hc), List.length_append]
        rfl
      rw [hlength, Nat.odd_add_one, ih]
      simp [hc]
    · have hlength : backslashes (cs ++ [c]) = 0 := by
        rw [backslashes, List.rtakeWhile_concat_neg _ _ _ (by simpa using hc)]
        rfl
      rw [hlength]
      simp [hc]

/-- Nothing starts to wait in a text without backslashes. -/
theorem foldl_waits_of_not_mem {cs : List Char} (h : '\\' ∉ cs) : cs.foldl waits false = false := by
  induction cs with
  | nil => rfl
  | cons c cs ih =>
    rw [List.mem_cons, not_or] at h
    have hc : waits false c = false := by simp [waits, Ne.symm h.1]
    rw [List.foldl_cons, hc, ih h.2]

/-- Nothing waits after a character that is written. -/
theorem foldl_waits_escapeChar (c : Char) : (escapeChar c).foldl waits false = false := by
  rcases escapeChar_cases c with ⟨hc, hbackslash, -⟩ | ⟨e, digits, hc, -, hdigits⟩
  · rw [hc]
    exact foldl_waits_of_not_mem (by simpa using Ne.symm hbackslash)
  · -- the first backslash takes the next character, and digits are no backslashes
    have htaken : waits (waits false '\\') e = false := by simp [waits]
    rw [hc, List.foldl_cons, List.foldl_cons, htaken]
    apply foldl_waits_of_not_mem
    intro hmem
    have hrange := hdigits _ hmem
    exact absurd hrange.2 (by decide)

/-- **Nothing waits between two characters.** -/
theorem foldl_waits_flatMap (cs : List Char) :
    (cs.flatMap escapeChar).foldl waits false = false := by
  induction cs with
  | nil => rfl
  | cons c cs ih => rw [List.flatMap_cons, List.foldl_append, foldl_waits_escapeChar, ih]

/-- A quote in a written character comes while a backslash waits. -/
theorem foldl_waits_of_quote_mem {c : Char} {before after : List Char}
    (h : escapeChar c = before ++ '"' :: after) : before.foldl waits false = true := by
  have hmem : '"' ∈ escapeChar c := h ▸ List.mem_append_right _ List.mem_cons_self
  rcases escapeChar_cases c with ⟨hc, -, hquote, -⟩ | ⟨e, digits, hc, -, hdigits⟩
  · rw [hc, List.mem_singleton] at hmem
    exact absurd hmem.symm hquote
  · rw [hc] at h
    cases before with
    | nil => exact absurd (List.cons.inj h).1 (by decide)
    | cons b before =>
      rw [List.cons_append, List.cons.injEq] at h
      obtain ⟨rfl, h⟩ := h
      cases before with
      | nil => rfl
      | cons b before =>
        -- what follows the escaped character are digits
        obtain rfl := (List.cons.inj h).2
        have hrange := hdigits '"' (List.mem_append_right _ List.mem_cons_self)
        exact absurd hrange.1 (by decide)

/-- **A quote among written characters comes while a backslash waits.** -/
theorem foldl_waits_of_flatMap_eq {cs before after : List Char}
    (h : cs.flatMap escapeChar = before ++ '"' :: after) : before.foldl waits false = true := by
  induction cs generalizing before with
  | nil => simp at h
  | cons c cs ih =>
    rw [List.flatMap_cons] at h
    rcases List.append_eq_append_iff.1 h with ⟨before', rfl, hrest⟩ | ⟨after', hc, hrest⟩
    · -- the quote is in a later character, and nothing waits where that one begins
      rw [List.foldl_append, foldl_waits_escapeChar]
      exact ih hrest
    · cases after' with
      | nil =>
        rw [List.append_nil] at hc
        have hrest : cs.flatMap escapeChar = [] ++ '"' :: after := hrest.symm
        rw [← hc, foldl_waits_escapeChar]
        exact ih hrest
      | cons q after' =>
        obtain rfl : '"' = q := (List.cons.inj hrest).1
        exact foldl_waits_of_quote_mem hc

/-! ## Quoted text -/

/-- **Quotes inside are escaped, and the last one is not.** -/
theorem odd_backslashes_iff_of_quote_eq {s : String} {before after : List Char}
    (h : (quote s).toList = before ++ '"' :: after) (hbefore : before ≠ []) :
    Odd (backslashes before) ↔ after ≠ [] := by
  rw [odd_backslashes_iff]
  obtain ⟨q, before, rfl⟩ := List.exists_cons_of_ne_nil hbefore
  rw [toList_quote, quoteChars, List.cons_append, List.cons.injEq] at h
  obtain ⟨rfl, h⟩ := h
  have hfirst : waits false '"' = false := rfl
  rw [List.foldl_cons, hfirst]
  rcases List.eq_nil_or_concat after with rfl | ⟨after, last, rfl⟩
  · -- the text before the last quote is what the characters are written as
    obtain rfl : s.toList.flatMap escapeChar = before := List.append_cancel_right h
    simp [foldl_waits_flatMap]
  · have hbody : s.toList.flatMap escapeChar ++ ['"'] = (before ++ '"' :: after) ++ [last] := by
      simpa using h
    have hinside := foldl_waits_of_flatMap_eq (List.append_inj_left' hbody rfl)
    simp [hinside]

theorem quote_inj {s t : String} (h : quote s = quote t) : s = t := by
  have hs := Reader.quoted_quote s []
  rw [h, Reader.quoted_quote t []] at hs
  simpa using hs.symm

/-- **Quoted text delimits itself.** One reader takes the string off the front of any text that
begins with it quoted, and leaves what follows. Quoted text has no control character, neither below
the space nor from delete up to U+009F, and of the quotes after the first exactly the last one is
bare: an odd number of backslashes stands before each of the others. Different strings have
different quoted texts. -/
theorem quote_self_delimiting (s : String) :
    (∀ rest : String, Reader.quoted (quote s ++ rest).toList = some (s, rest.toList)) ∧
    (∀ c ∈ (quote s).toList, 0x20 ≤ c.toNat ∧ ¬ (0x7F ≤ c.toNat ∧ c.toNat ≤ 0x9F)) ∧
    (∀ before after, (quote s).toList = before ++ '"' :: after → before ≠ [] →
      (Odd (backslashes before) ↔ after ≠ [])) ∧
    ∀ t, quote s = quote t → s = t := by
  refine ⟨?_, ?_, ?_, fun t => quote_inj⟩
  · intro rest
    rw [String.toList_append]
    exact Reader.quoted_quote s rest.toList
  · intro c hc
    have hcontrol := isControl_of_mem_quote hc
    simp [isControl] at hcontrol
    omega
  · intro before after
    exact odd_backslashes_iff_of_quote_eq

/-- A text that already looks like an escape, with a quote, a line break and two controls. -/
def lookalike : String := "\\u0022\"\n\x7f\u0085"

theorem quote_self_delimiting_lookalike :
    quote lookalike = "\"\\\\u0022\\\"\\n\\u007F\\u0085\"" ∧
    Reader.quoted (quote lookalike ++ "\"\\").toList = some (lookalike, ['"', '\\']) ∧
    (quote lookalike).toList = "\"\\\\u0022\\".toList ++ '"' :: "\\n\\u007F\\u0085\"".toList ∧
    Odd (backslashes "\"\\\\u0022\\".toList) ∧
    ¬ Odd (backslashes "\"\\\\u0022\\\"\\n\\u007F\\u0085".toList) ∧
    quote "\n" ≠ quote "\\n" := by
  have htext : quote lookalike = "\"\\\\u0022\\\"\\n\\u007F\\u0085\"" := by decide +kernel
  obtain ⟨hread, -, hodd, -⟩ := quote_self_delimiting lookalike
  have hinside : (quote lookalike).toList =
      "\"\\\\u0022\\".toList ++ '"' :: "\\n\\u007F\\u0085\"".toList := by
    rw [htext]
    decide +kernel
  have hlast : (quote lookalike).toList = "\"\\\\u0022\\\"\\n\\u007F\\u0085".toList ++ ['"'] := by
    rw [htext]
    decide +kernel
  refine ⟨htext, hread "\"\\", hinside, ?_, ?_, ?_⟩
  · exact (hodd _ _ hinside (by decide)).2 (by decide)
  · intro h
    exact (hodd _ _ hlast (by decide)).1 h rfl
  · intro h
    exact absurd ((quote_self_delimiting "\n").2.2.2 "\\n" h) (by decide)

end ShapeRules.Text
