/-!
# Decimal numerals

Numbers are read from ASCII digits and written positionally: the digits of the integral part, then,
for a number that is not integral, a point and the fraction without trailing zeros.

## Main definitions

* `natural?`: the number of a nonempty run of digits
* `splitSign`: the sign in front of a numeral
* `positional`: the positional text of a number with some decimal places
-/

namespace ShapeRules.Value

/-- A power of ten. -/
def tenTo (n : Nat) : Nat := Nat.pow 10 n

/-- A power of two. -/
def twoTo (n : Nat) : Nat := Nat.pow 2 n

/-- The number denoted by digits. -/
def natOfDigits (ds : List Char) : Nat := Nat.ofDigitChars 10 ds 0

/-- The number of a nonempty run of digits. -/
def natural? (cs : List Char) : Option Nat :=
  if cs ≠ [] ∧ cs.all Char.isDigit then some (natOfDigits cs) else none

theorem natural?_eq_some_iff {cs : List Char} {n : Nat} :
    natural? cs = some n ↔ cs ≠ [] ∧ (∀ c ∈ cs, c.isDigit) ∧ natOfDigits cs = n := by
  unfold natural?
  split
  next h =>
    rw [List.all_eq_true] at h
    constructor
    · intro hn
      exact ⟨h.1, h.2, Option.some.inj hn⟩
    · rintro ⟨-, -, rfl⟩
      rfl
  next h =>
    rw [List.all_eq_true] at h
    constructor
    · intro hn
      cases hn
    · rintro ⟨hne, hdigits, -⟩
      exact absurd ⟨hne, hdigits⟩ h

/-- The sign in front of a numeral, whether it is negative, and what follows it. -/
def splitSign : List Char → Bool × List Char
  | '-' :: cs => (true, cs)
  | '+' :: cs => (false, cs)
  | cs => (false, cs)

/-- A number with a sign. -/
def signed (negative : Bool) (n : Nat) : Int :=
  if negative then -n else n

/-- The digits at the start of a text, and what follows them. -/
def splitDigits (cs : List Char) : List Char × List Char :=
  (cs.takeWhile Char.isDigit, cs.dropWhile Char.isDigit)

/-- The text of an integer: a minus sign if it is negative, then its digits. -/
theorem toList_integer (z : Int) :
    (toString z).toList = (if z < 0 then ['-'] else []) ++ Nat.toDigits 10 z.natAbs := by
  cases z with
  | ofNat n =>
    rw [if_neg (by simp)]
    exact Nat.toList_repr
  | negSucc n =>
    rw [if_pos (Int.negSucc_lt_zero n), Int.natAbs_negSucc, ← Nat.toList_repr]
    exact String.toList_append

/-- Digits without the zeros at their end. -/
def trimZeros (ds : List Char) : List Char :=
  (ds.reverse.dropWhile (· == '0')).reverse

/-- The digits of a number, with zeros in front up to a width. -/
def padded (width n : Nat) : List Char :=
  (Nat.toDigits 10 n).leftpad width '0'

/-- The text of the fraction `n / 10 ^ places` below one, from the point on; nothing for zero. -/
def fractionText (places n : Nat) : List Char :=
  if n = 0 then [] else '.' :: trimZeros (padded places n)

/-- **The positional text of `n / 10 ^ places`,** with a minus sign if asked for. -/
def positional (negative : Bool) (places n : Nat) : List Char :=
  (if negative then ['-'] else []) ++
    Nat.toDigits 10 (n / tenTo places) ++ fractionText places (n % tenTo places)

/-- A fraction read from the digits after a point, as a count of units `10 ^ -places`. Zeros at the
end do not count; any other digit beyond the places is refused. -/
def fraction? (places : Nat) (ds : List Char) : Option Nat :=
  let trimmed := trimZeros ds
  if trimmed.length ≤ places then
    some (natOfDigits trimmed * tenTo (places - trimmed.length))
  else none

end ShapeRules.Value
