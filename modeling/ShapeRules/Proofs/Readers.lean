import Mathlib.Tactic.SplitIfs
import ShapeRules.Rdf.NTriples
import ShapeRules.Text.Quoted

/-!
# Reading texts back

A reader takes a value off the front of a text and leaves the rest. A written form is read back if
the reader of its kind takes exactly the form and stops where it ends, whatever follows; two values
with one written form are then the same. Quoted strings are of this kind, in constants and in
literals alike: an escape tells by its second character how far it goes, and no bare quote stands
inside.

## Main definitions

* `Reader`: partial functions from a text to a value and the rest of the text
* `Reader.many`: items one after the other, as long as the next character announces one
* `Reader.quoted`: a quoted string

## Main results

* `Reader.many_flatMap`: written items are read back one after the other
* `Reader.quoted_quote`, `Reader.quoted_lexicalText`: quoted strings are read back
-/

namespace ShapeRules.Text

/-- The pieces of a text do not have the character that it is split at. -/
theorem not_mem_of_mem_splitOn {a : Char} {cs piece : List Char} (h : piece ∈ cs.splitOn a) :
    a ∉ piece := by
  induction cs generalizing piece with
  | nil =>
    obtain rfl : piece = [] := by simpa using h
    exact List.not_mem_nil
  | cons c cs ih =>
    obtain ⟨first, others, hs⟩ := List.exists_cons_of_ne_nil (List.splitOn_ne_nil a cs)
    rw [hs] at ih
    rw [List.splitOn_cons_eq_if_modifyHead, hs] at h
    split_ifs at h with hc
    · rcases List.mem_cons.1 h with rfl | h
      · exact List.not_mem_nil
      · exact ih h
    · rw [List.modifyHead_cons] at h
      rcases List.mem_cons.1 h with rfl | h
      · intro hmem
        rcases List.mem_cons.1 hmem with rfl | hmem
        · exact hc (beq_self_eq_true a)
        · exact ih List.mem_cons_self hmem
      · exact ih (List.mem_cons_of_mem _ h)

/-- **A reader** takes a value off the front of a text and leaves the rest, or fails. -/
abbrev Reader (α : Type) := StateT (List Char) Option α

namespace Reader

variable {α β : Type}

/-- A reader goes on with what the reader before it has left. -/
theorem bind_eq {r : Reader α} {f : α → Reader β} {cs rest : List Char} {a : α}
    (h : r cs = some (a, rest)) : (r >>= f) cs = f a rest := by
  change (r cs).bind (fun x => f x.1 x.2) = f a rest
  rw [h, Option.bind_some]

theorem map_eq {r : Reader α} (f : α → β) {cs rest : List Char} {a : α}
    (h : r cs = some (a, rest)) : (f <$> r) cs = some (f a, rest) := by
  rw [map_eq_pure_bind, bind_eq h]
  rfl

/-! ## Elementary readers -/

/-- Takes nothing and gives the value of an option. -/
def ofOption (o : Option α) : Reader α := fun cs => o.map (·, cs)

theorem ofOption_some (a : α) (cs : List Char) : ofOption (some a) cs = some (a, cs) := rfl

/-- Passes over a given text. -/
def skip (mark : List Char) : Reader Unit := fun cs =>
  if cs.take mark.length = mark then some ((), cs.drop mark.length) else none

theorem skip_append (mark rest : List Char) : skip mark (mark ++ rest) = some ((), rest) := by
  rw [skip, List.take_left, if_pos rfl, List.drop_left]

theorem skip_cons (c : Char) (rest : List Char) : skip [c] (c :: rest) = some ((), rest) :=
  skip_append [c] rest

/-- The longest front whose characters are all of a kind. -/
def span (p : Char → Bool) : Reader (List Char) := fun cs => some (cs.takeWhile p, cs.dropWhile p)

theorem span_append {p : Char → Bool} {cs rest : List Char} (h : ∀ c ∈ cs, p c)
    (hrest : rest.head?.all (!p ·)) : span p (cs ++ rest) = some (cs, rest) := by
  rw [span, List.takeWhile_append_of_pos h, List.dropWhile_append_of_pos h]
  cases rest with
  | nil => simp
  | cons c rest => simp_all

/-- One reader if a given character comes next, and another one otherwise. -/
def ifNext (c : Char) (r s : Reader α) : Reader α := fun cs =>
  if cs.head? = some c then r cs else s cs

theorem ifNext_pos {c : Char} {r s : Reader α} {cs : List Char} (h : cs.head? = some c) :
    ifNext c r s cs = r cs :=
  if_pos h

theorem ifNext_neg {c : Char} {r s : Reader α} {cs : List Char} (h : cs.head? ≠ some c) :
    ifNext c r s cs = s cs :=
  if_neg h

/-! ## Repetition -/

/-- **Repetition.** Reads items as long as the next character announces one. An item that takes
nothing off the text ends the reading in failure. -/
def many (more : Char → Bool) (item : Reader α) (cs : List Char) : Option (List α × List Char) :=
  if cs.head?.any more then
    (item cs).bind fun next =>
      if next.2.length < cs.length then
        (many more item next.2).map fun last => (next.1 :: last.1, last.2)
      else none
  else some ([], cs)
termination_by cs.length

theorem many_stop {more : Char → Bool} (item : Reader α) {cs : List Char}
    (h : ¬ cs.head?.any more) : many more item cs = some ([], cs) := by
  rw [many, if_neg h]

theorem many_step {more : Char → Bool} {item : Reader α} {written rest : List Char} {a : α}
    (hmore : written.head?.any more) (hitem : item (written ++ rest) = some (a, rest)) :
    many more item (written ++ rest) =
      (many more item rest).map fun last => (a :: last.1, last.2) := by
  cases written with
  | nil => simp at hmore
  | cons c written =>
    have hshorter : rest.length < (c :: written ++ rest).length := by
      rw [List.length_append, List.length_cons]
      omega
    rw [many, hitem, if_pos (by simpa using hmore), Option.bind_some, if_pos hshorter]

/-- **Written items are read back one after the other.** It is enough that an item is read back
before the next item and before the rest. -/
theorem many_flatMap {more : Char → Bool} {item : Reader β} {write : α → List Char}
    (value : α → β) {l : List α} {rest : List Char} (hmore : ∀ a ∈ l, (write a).head?.any more)
    (hitem : ∀ a ∈ l, ∀ after, (after.head?.any more ∨ after = rest) →
      item (write a ++ after) = some (value a, after))
    (hrest : ¬ rest.head?.any more) :
    many more item (l.flatMap write ++ rest) = some (l.map value, rest) := by
  induction l with
  | nil => exact many_stop item hrest
  | cons a l ih =>
    rw [List.forall_mem_cons] at hmore hitem
    have hafter : (l.flatMap write ++ rest).head?.any more ∨ l.flatMap write ++ rest = rest := by
      cases l with
      | nil => exact .inr rfl
      | cons b l =>
        have hb := hmore.2 b List.mem_cons_self
        cases hw : write b with
        | nil => simp [hw] at hb
        | cons c cs => exact .inl (by simpa [hw] using hb)
    rw [List.flatMap_cons, List.append_assoc,
      many_step hmore.1 (hitem.1 _ hafter), ih hmore.2 hitem.2]
    rfl

/-! ## Characters of a quoted string -/

/-- The value of a hexadecimal digit in capitals. -/
def hexValue (d : Char) : Nat := if d.toNat < 58 then d.toNat - 48 else d.toNat - 55

theorem hexValue_hexDigit : ∀ n < 16, hexValue (hexDigit n) = n := by decide

/-- The character that a letter after a backslash stands for. -/
def unescape : Char → Option Char
  | 'b' => some '\x08'
  | 't' => some '\t'
  | 'n' => some '\n'
  | 'f' => some '\x0c'
  | 'r' => some '\r'
  | '"' => some '"'
  | '\\' => some '\\'
  | _ => none

/-- One character of a quoted string, bare or escaped. -/
def character : Reader Char
  | '\\' :: 'u' :: d₃ :: d₂ :: d₁ :: d₀ :: rest =>
    some (Char.ofNat
      (hexValue d₃ * 4096 + hexValue d₂ * 256 + hexValue d₁ * 16 + hexValue d₀), rest)
  | '\\' :: e :: rest => (unescape e).map (·, rest)
  | c :: rest => some (c, rest)
  | [] => none

/-- A bare character is read back unless it is a backslash. -/
theorem character_bare {c : Char} (h : c ≠ '\\') (rest : List Char) :
    character (c :: rest) = some (c, rest) := by
  unfold character
  split <;> simp_all

/-- A character written by its code point is read back if four digits are enough. -/
theorem character_unicodeEscape {c : Char} (h : c.toNat < 65536) (rest : List Char) :
    character (unicodeEscape c ++ rest) = some (c, rest) := by
  have hd := fun m => hexValue_hexDigit (m % 16) (Nat.mod_lt m (by omega))
  have hsum : c.toNat / 4096 % 16 * 4096 + c.toNat / 256 % 16 * 256 + c.toNat / 16 % 16 * 16 +
      c.toNat % 16 = c.toNat := by omega
  simp only [unicodeEscape, hexFour, List.cons_append, List.nil_append, character, hd, hsum,
    Char.ofNat_toNat]

/-- A way to write the characters of a quoted string: each one is read back, and none begins like
the quote that ends the string. -/
structure Escapes (escape : Char → List Char) : Prop where
  readBack : ∀ c rest, character (escape c ++ rest) = some (c, rest)
  head_ne_quote : ∀ c, (escape c).head?.any (· ≠ '"')

/-- The escapes of constants are read back. -/
theorem escapes_escapeChar : Escapes escapeChar where
  readBack c rest := by
    unfold escapeChar
    split_ifs with hbackslash _ _ _ _ hcontrol
    all_goals try subst c; rfl
    · exact character_unicodeEscape (by simp [isControl] at hcontrol; omega) rest
    · exact character_bare hbackslash rest
  head_ne_quote c := by
    unfold escapeChar
    split_ifs with _ hquote
    all_goals first | rfl | simpa using hquote

/-- The escapes of literals are read back. -/
theorem escapes_lexicalChar : Escapes Rdf.lexicalChar where
  readBack c rest := by
    unfold Rdf.lexicalChar
    split_ifs with _ _ _ _ _ _ hbackslash hcontrol
    all_goals try subst c; rfl
    · exact character_unicodeEscape (by simp at hcontrol; omega) rest
    · exact character_bare hbackslash rest
  head_ne_quote c := by
    unfold Rdf.lexicalChar
    split_ifs with _ _ _ _ _ hquote
    all_goals first | rfl | simpa using hquote

/-! ## Quoted strings -/

/-- A quoted string. -/
def quoted : Reader String := do
  skip ['"']
  let cs ← many (· ≠ '"') character
  skip ['"']
  return String.ofList cs

/-- Characters between quotes are read back. -/
theorem quoted_flatMap {escape : Char → List Char} (h : Escapes escape) (cs rest : List Char) :
    quoted ('"' :: (cs.flatMap escape ++ '"' :: rest)) = some (String.ofList cs, rest) := by
  have hchars : many (· ≠ '"') character (cs.flatMap escape ++ '"' :: rest) =
      some (cs, '"' :: rest) := by
    simpa using many_flatMap id (fun c _ => h.head_ne_quote c)
      (fun c _ after _ => h.readBack c after) (by simp)
  rw [quoted, bind_eq (skip_cons _ _), bind_eq hchars, bind_eq (skip_cons _ _)]
  rfl

/-- **A quoted constant is read back.** -/
theorem quoted_quote (s : String) (rest : List Char) :
    quoted ((quote s).toList ++ rest) = some (s, rest) := by
  simpa [quoteChars] using quoted_flatMap escapes_escapeChar s.toList rest

/-- **A lexical form is read back.** -/
theorem quoted_lexicalText (s : String) (rest : List Char) :
    quoted ((Rdf.lexicalText s).toList ++ rest) = some (s, rest) := by
  simpa [Rdf.lexicalText] using quoted_flatMap escapes_lexicalChar s.toList rest

end Reader

end ShapeRules.Text
