/-!
# Datalog identifiers

An identifier starts with an ASCII letter, an underscore or a question mark, and goes on with
these or ASCII digits. Any text becomes an identifier of the same length when each other character
is replaced by a question mark.

## Main definitions

* `isIdentifierStart`, `isIdentifierPart`: the characters at the start and after it
* `sanitize`: the identifier of a text
* `IsIdentifier`: the texts that are identifiers

## Main results

* `isIdentifier_iff`: an identifier is a nonempty text that `sanitize` leaves alone
-/

namespace ShapeRules.Datalog

/-- The character written for one that an identifier cannot hold. -/
def placeholder : Char := '?'

/-- Whether a character can stand inside an identifier. -/
def isIdentifierPart (c : Char) : Bool :=
  c.isAlphanum || c == '_' || c == placeholder

/-- Whether a character can start an identifier. -/
def isIdentifierStart (c : Char) : Bool :=
  isIdentifierPart c && !c.isDigit

/-- A character if it is allowed, and the placeholder otherwise. -/
def keepIf (allowed : Char → Bool) (c : Char) : Char :=
  if allowed c then c else placeholder

/-- The identifier of a text, as characters. -/
def sanitizeChars : List Char → List Char
  | [] => []
  | c :: cs => keepIf isIdentifierStart c :: cs.map (keepIf isIdentifierPart)

/-- **The identifier of a text:** each character that cannot stand at its place is replaced by a
question mark. -/
def sanitize (s : String) : String :=
  String.ofList (sanitizeChars s.toList)

/-- The texts that are identifiers, as characters. -/
def isIdentifierChars : List Char → Bool
  | [] => false
  | c :: cs => isIdentifierStart c && cs.all isIdentifierPart

/-- Whether a text is an identifier. -/
def isIdentifier (s : String) : Bool :=
  isIdentifierChars s.toList

theorem keepIf_eq_self_iff {allowed : Char → Bool} {c : Char} (h : allowed placeholder) :
    keepIf allowed c = c ↔ allowed c := by
  unfold keepIf
  split
  next hc => simp [hc]
  next hc =>
    constructor
    · intro e
      rw [← e]
      exact h
    · intro e
      exact absurd e hc

/-- An identifier is a nonempty text that sanitizing leaves alone. -/
theorem isIdentifier_iff {s : String} : isIdentifier s ↔ s ≠ "" ∧ sanitize s = s := by
  have hs : sanitize s = s ↔ sanitizeChars s.toList = s.toList := by
    rw [← String.toList_inj]
    simp [sanitize]
  have he : s = "" ↔ s.toList = [] := by simp
  rw [Ne, he, hs, isIdentifier]
  cases s.toList with
  | nil => simp [isIdentifierChars]
  | cons c cs =>
    have hmap : cs.map (keepIf isIdentifierPart) = cs ↔ cs.all isIdentifierPart := by
      induction cs with
      | nil => simp
      | cons d ds ih => simp [keepIf_eq_self_iff (show isIdentifierPart placeholder by decide), ih]
    simp [isIdentifierChars, sanitizeChars, hmap,
      keepIf_eq_self_iff (show isIdentifierStart placeholder by decide)]

end ShapeRules.Datalog
