import Mathlib.Algebra.Order.Field.Rat
import Mathlib.Data.List.DropRight
import Mathlib.Data.List.Induction
import Mathlib.Data.Nat.Digits.Defs
import Mathlib.Tactic.FieldSimp
import Mathlib.Tactic.Positivity
import Mathlib.Tactic.Ring
import ShapeRules.Datalog.Constant

/-!
# Exact numbers are written by value

A numeral denotes a rational number, read off its digits, its point and its sign. Reading accepts
exactly the numerals whose number can be represented, and gives this number; writing gives a numeral
that denotes the number, and the same one for an integer and a decimal. So two literals have the
same constant exactly if they denote the same number, however it is spelled and whichever of the
datatypes it has.

## Main definitions

* `Value.denoted`: the rational number of a numeral
* `Value.IsDigits`, `Value.IsPositional`, `Value.AfterSign`: the forms of numerals
* `Rdf.Literal.IsExact`: a literal of an integer datatype or a decimal whose lexical form can be
  read

## Main results

* `Value.integer?_eq_some_iff`, `Value.Decimal.ofChars?_eq_some_iff`: which numerals are read, and
  as what
* `Value.Decimal.denoted_text`, `Value.toString_eq_text`: the text of a number denotes it, and an
  integer is written like a decimal
* `exact_number_constants`: the constants of integers and decimals
-/

namespace ShapeRules

namespace Value

/-! ## Numerals and their numbers -/

/-- At least one digit, and nothing else. -/
def IsDigits (cs : List Char) : Prop := cs ≠ [] ∧ ∀ c ∈ cs, c.isDigit

/-- Digits, or a point with digits on one side of it or on both. -/
def IsPositional (cs : List Char) : Prop :=
  IsDigits cs ∨ ∃ whole ds, IsDigits (whole ++ ds) ∧ cs = whole ++ '.' :: ds

/-- A text of some form after an optional sign. -/
def AfterSign (P : List Char → Prop) (cs : List Char) : Prop :=
  ∃ sign rest, (sign = [] ∨ sign = ['+'] ∨ sign = ['-']) ∧ P rest ∧ cs = sign ++ rest

/-- The value of a digit. -/
def digit (c : Char) : ℕ := c.toNat - '0'.toNat

/-- The number of the digits before the point, the last of which counts the ones. -/
def wholeValue (ds : List Char) : ℕ := Nat.ofDigits 10 (ds.reverse.map digit)

/-- The number of the digits after the point: what stands one place further counts a tenth. -/
def fractionValue : List Char → ℚ
  | [] => 0
  | c :: cs => (digit c + fractionValue cs) / 10

/-- The number of a numeral without a sign. -/
def magnitude (cs : List Char) : ℚ :=
  wholeValue (cs.takeWhile (· ≠ '.')) + fractionValue ((cs.dropWhile (· ≠ '.')).drop 1)

/-- **The rational number that a numeral denotes.** -/
def denoted (cs : List Char) : ℚ :=
  if cs.head? = some '-' then -magnitude cs.tail
  else if cs.head? = some '+' then magnitude cs.tail
  else magnitude cs

/-! ## Digits -/

theorem tenTo_eq (n : ℕ) : tenTo n = 10 ^ n := rfl

theorem digit_spec {c : Char} (h : c.isDigit) : digit c < 10 ∧ (digit c = 0 → c = '0') := by
  have hbounds : 48 ≤ c.toNat ∧ c.toNat ≤ 57 := by
    simpa [Char.isDigit, UInt32.le_iff_toNat_le] using h
  have hzero : '0'.toNat = 48 := rfl
  rw [digit, ← Char.toNat_inj]
  omega

theorem natOfDigits_append (l m : List Char) :
    natOfDigits (l ++ m) = 10 ^ m.length * natOfDigits l + natOfDigits m := by
  rw [natOfDigits, Nat.ofDigitChars_append, Nat.ofDigitChars_eq_ofDigitChars_zero]
  rfl

theorem natOfDigits_singleton (c : Char) : natOfDigits [c] = digit c := by
  simp [natOfDigits, Nat.ofDigitChars_cons, digit]

theorem natOfDigits_toDigits (n : ℕ) : natOfDigits (Nat.toDigits 10 n) = n :=
  Nat.ofDigitChars_ten_toDigits

theorem wholeValue_eq (ds : List Char) : wholeValue ds = natOfDigits ds := by
  induction ds using List.reverseRecOn with
  | nil => rfl
  | append_singleton ds c ih =>
    rw [natOfDigits_append, natOfDigits_singleton, ← ih]
    simp [wholeValue, Nat.ofDigits_cons, add_comm]

theorem fractionValue_eq (ds : List Char) :
    fractionValue ds = natOfDigits ds / 10 ^ ds.length := by
  induction ds with
  | nil => simp [fractionValue, natOfDigits]
  | cons c ds ih =>
    rw [← List.singleton_append, natOfDigits_append, natOfDigits_singleton, List.singleton_append,
      fractionValue, ih, List.length_cons]
    push_cast
    field_simp
    ring

theorem fractionValue_nonneg (ds : List Char) : 0 ≤ fractionValue ds := by
  rw [fractionValue_eq]
  positivity

theorem magnitude_nonneg (cs : List Char) : 0 ≤ magnitude cs :=
  add_nonneg (Nat.cast_nonneg _) (fractionValue_nonneg _)

/-! ## Zeros at the end of a fraction -/

theorem length_trimZeros_le (ds : List Char) : (trimZeros ds).length ≤ ds.length :=
  (List.rdropWhile_prefix _ ds).length_le

theorem isDigit_of_mem_trimZeros {ds : List Char} (h : ∀ c ∈ ds, c.isDigit) :
    ∀ c ∈ trimZeros ds, c.isDigit :=
  fun c hc => h c ((List.rdropWhile_prefix _ ds).subset hc)

/-- A zero that is dropped divides the digits by ten. -/
theorem natOfDigits_trimZeros (ds : List Char) :
    natOfDigits (trimZeros ds) * 10 ^ (ds.length - (trimZeros ds).length) = natOfDigits ds := by
  induction ds using List.reverseRecOn with
  | nil => rfl
  | append_singleton ds c ih =>
    have htrim : trimZeros (ds ++ [c]) = if c == '0' then trimZeros ds else ds ++ [c] :=
      List.rdropWhile_concat _ _ _
    rw [htrim]
    split
    next hc =>
      obtain rfl : c = '0' := by simpa using hc
      have hzero : digit '0' = 0 := rfl
      rw [natOfDigits_append, natOfDigits_singleton, ← ih, List.length_append,
        List.length_singleton, Nat.sub_add_comm (length_trimZeros_le ds), pow_succ, hzero]
      ring
    next => simp

theorem scaled_div {k t : ℕ} (h : t ≤ k) (n : ℕ) :
    ((n * 10 ^ (k - t) : ℕ) : ℚ) / 10 ^ k = n / 10 ^ t := by
  obtain ⟨j, rfl⟩ := Nat.exists_eq_add_of_le h
  rw [Nat.add_sub_cancel_left, pow_add]
  push_cast
  field_simp

/-- **Zeros at the end of a fraction** count for nothing. -/
theorem fractionValue_trimZeros (ds : List Char) :
    fractionValue (trimZeros ds) = fractionValue ds := by
  rw [fractionValue_eq, fractionValue_eq, ← natOfDigits_trimZeros ds,
    scaled_div (length_trimZeros_le ds)]

theorem not_dvd_natOfDigits_trimZeros {ds : List Char} (h : ∀ c ∈ ds, c.isDigit)
    (hne : trimZeros ds ≠ []) : ¬ 10 ∣ natOfDigits (trimZeros ds) := by
  have hnot : ¬ ((trimZeros ds).getLast hne == '0') := List.rdropWhile_last_not _ ds hne
  have hlast : (trimZeros ds).getLast hne ≠ '0' := by simpa using hnot
  obtain ⟨hlt, hzero⟩ := digit_spec (isDigit_of_mem_trimZeros h _ (List.getLast_mem hne))
  have hpos := mt hzero hlast
  rw [← List.dropLast_append_getLast hne, natOfDigits_append, natOfDigits_singleton,
    List.length_singleton]
  omega

/-- **A fraction is read** exactly if it is a multiple of the last place. -/
theorem fraction?_eq_some_iff {places n : ℕ} {ds : List Char} (hds : ∀ c ∈ ds, c.isDigit) :
    fraction? places ds = some n ↔ fractionValue ds = n / 10 ^ places := by
  rw [← fractionValue_trimZeros, fractionValue_eq, fraction?]
  split
  next hle =>
    rw [← scaled_div hle, div_left_inj' (by positivity), Nat.cast_inj, Option.some_inj]
    rfl
  next hlt =>
    -- with more places than that, the digits would be a multiple of ten
    refine iff_of_false (by simp) fun h => ?_
    rw [← scaled_div (not_le.1 hlt).le n, div_left_inj' (by positivity), Nat.cast_inj] at h
    have hne : trimZeros ds ≠ [] := by
      intro hnil
      simp [hnil] at hlt
    refine not_dvd_natOfDigits_trimZeros hds hne ?_
    rw [h]
    exact Dvd.dvd.mul_left (dvd_pow_self 10 (Nat.sub_ne_zero_of_lt (not_le.1 hlt))) n

/-! ## The parts of a numeral -/

theorem ne_of_isDigit {c d : Char} (hc : c.isDigit) (hd : ¬ d.isDigit) : c ≠ d := by
  rintro rfl
  exact hd hc

theorem ne_point_of_mem {ds : List Char} (h : ∀ c ∈ ds, c.isDigit) :
    ∀ c ∈ ds, decide (c ≠ '.') :=
  fun c hc => decide_eq_true (ne_of_isDigit (h c hc) (by decide))

theorem magnitude_digits {ds : List Char} (h : ∀ c ∈ ds, c.isDigit) :
    magnitude ds = natOfDigits ds := by
  rw [magnitude, List.takeWhile_eq_self_iff.2 (ne_point_of_mem h),
    List.dropWhile_eq_nil_iff.2 (ne_point_of_mem h), wholeValue_eq]
  simp [fractionValue]

theorem magnitude_point {whole : List Char} (h : ∀ c ∈ whole, c.isDigit) (ds : List Char) :
    magnitude (whole ++ '.' :: ds) = natOfDigits whole + fractionValue ds := by
  rw [magnitude, List.takeWhile_append_of_pos (ne_point_of_mem h),
    List.dropWhile_append_of_pos (ne_point_of_mem h)]
  simp [wholeValue_eq]

theorem splitSign_eq (cs : List Char) : splitSign cs =
    if cs.head? = some '-' then (true, cs.tail)
    else if cs.head? = some '+' then (false, cs.tail)
    else (false, cs) := by
  unfold splitSign
  split
  next => rfl
  next => rfl
  next hminus hplus =>
    have hm : cs.head? ≠ some '-' := fun h => hminus _ (List.eq_cons_of_mem_head? h)
    have hp : cs.head? ≠ some '+' := fun h => hplus _ (List.eq_cons_of_mem_head? h)
    rw [if_neg hm, if_neg hp]

/-- The first character of an unsigned numeral is no sign. -/
theorem IsPositional.splitSign_eq_self {cs : List Char} (h : IsPositional cs) :
    splitSign cs = (false, cs) := by
  have hmem : ∀ c ∈ cs, c.isDigit ∨ c = '.' := by
    rcases h with ⟨-, hdigits⟩ | ⟨whole, ds, ⟨-, hdigits⟩, rfl⟩
    · exact fun c hc => .inl (hdigits c hc)
    · obtain ⟨hwhole, hds⟩ := List.forall_mem_append.1 hdigits
      refine List.forall_mem_append.2 ⟨fun c hc => .inl (hwhole c hc), ?_⟩
      exact List.forall_mem_cons.2 ⟨.inr rfl, fun c hc => .inl (hds c hc)⟩
  have hminus : cs.head? ≠ some '-' :=
    fun h => absurd (hmem _ (List.mem_of_mem_head? h)) (by decide)
  have hplus : cs.head? ≠ some '+' :=
    fun h => absurd (hmem _ (List.mem_of_mem_head? h)) (by decide)
  rw [splitSign_eq, if_neg hminus, if_neg hplus]

theorem afterSign_iff {P : List Char → Prop} (hP : ∀ cs, P cs → splitSign cs = (false, cs))
    {cs : List Char} : AfterSign P cs ↔ P (splitSign cs).2 := by
  constructor
  · rintro ⟨sign, rest, hsign, hrest, rfl⟩
    rcases hsign with rfl | rfl | rfl
    · rw [List.nil_append, hP rest hrest]
      exact hrest
    · exact hrest
    · exact hrest
  · intro h
    rw [splitSign_eq] at h
    split_ifs at h with hminus hplus
    · exact ⟨['-'], cs.tail, .inr (.inr rfl), h, List.eq_cons_of_mem_head? hminus⟩
    · exact ⟨['+'], cs.tail, .inr (.inl rfl), h, List.eq_cons_of_mem_head? hplus⟩
    · exact ⟨[], cs, .inl rfl, h, rfl⟩

theorem afterSign_isDigits_iff {cs : List Char} :
    AfterSign IsDigits cs ↔ IsDigits (splitSign cs).2 :=
  afterSign_iff fun _ h => IsPositional.splitSign_eq_self (.inl h)

theorem afterSign_isPositional_iff {cs : List Char} :
    AfterSign IsPositional cs ↔ IsPositional (splitSign cs).2 :=
  afterSign_iff fun _ h => h.splitSign_eq_self

/-- The sign of a numeral is that of its number. -/
theorem denoted_eq_signed {cs : List Char} {n : ℕ} {q : ℚ}
    (h : magnitude (splitSign cs).2 = n / q) :
    denoted cs = (signed (splitSign cs).1 n : ℤ) / q := by
  rw [splitSign_eq] at h ⊢
  rw [denoted]
  split_ifs at h ⊢ <;> simp [signed, h, neg_div]

theorem abs_denoted (cs : List Char) : |denoted cs| = magnitude (splitSign cs).2 := by
  rw [splitSign_eq, denoted]
  split_ifs
  · rw [abs_neg, abs_of_nonneg (magnitude_nonneg _)]
  · rw [abs_of_nonneg (magnitude_nonneg _)]
  · rw [abs_of_nonneg (magnitude_nonneg _)]

/-! ## Reading -/

theorem denoted_of_isDigits {cs : List Char} (h : IsDigits (splitSign cs).2) :
    denoted cs = (signed (splitSign cs).1 (natOfDigits (splitSign cs).2) : ℤ) := by
  have hmagnitude : magnitude (splitSign cs).2 = natOfDigits (splitSign cs).2 / 1 := by
    rw [magnitude_digits h.2, div_one]
  rw [denoted_eq_signed hmagnitude, div_one]

/-- **Which numerals are read as integers:** a sign and digits whose number fits a word. -/
theorem integer?_eq_some_iff {cs : List Char} {z : ℤ} : integer? cs = some z ↔
    AfterSign IsDigits cs ∧ denoted cs = z ∧ fitsWord 64 z := by
  have h : integer? cs = ((natural? (splitSign cs).2).map (signed (splitSign cs).1)).filter
      (fitsWord 64) := rfl
  rw [h, Option.filter_eq_some_iff, Option.map_eq_some_iff, afterSign_isDigits_iff]
  constructor
  · rintro ⟨⟨n, hn, rfl⟩, hfits⟩
    obtain ⟨hne, hdigits, rfl⟩ := natural?_eq_some_iff.1 hn
    exact ⟨⟨hne, hdigits⟩, denoted_of_isDigits ⟨hne, hdigits⟩, hfits⟩
  · rintro ⟨hdigits, hz, hfits⟩
    rw [denoted_of_isDigits hdigits, Int.cast_inj] at hz
    exact ⟨⟨_, natural?_eq_some_iff.2 ⟨hdigits.1, hdigits.2, rfl⟩, hz⟩, hfits⟩

theorem splitDigits_append {ds rest : List Char} (h : ∀ c ∈ ds, c.isDigit)
    (hrest : ∀ c ∈ rest.head?, ¬ c.isDigit) : splitDigits (ds ++ rest) = (ds, rest) := by
  rw [splitDigits, List.takeWhile_append_of_pos h, List.dropWhile_append_of_pos h]
  cases rest with
  | nil => simp
  | cons c rest =>
    have hc : ¬ c.isDigit := hrest c rfl
    simp [hc]

theorem splitDigits_eq {cs ds rest : List Char} (h : splitDigits cs = (ds, rest)) :
    cs = ds ++ rest ∧ ∀ c ∈ ds, c.isDigit := by
  obtain ⟨rfl, rfl⟩ := Prod.mk.inj h
  exact ⟨List.takeWhile_append_dropWhile.symm, fun c hc => List.mem_takeWhile_imp hc⟩

namespace Decimal

theorem unitsOfChars?_digits {ds : List Char} (h : IsDigits ds) :
    unitsOfChars? ds = some (natOfDigits ds * tenTo decimalPlaces) := by
  have hsplit : splitDigits (ds ++ []) = (ds, []) := splitDigits_append h.2 (by simp)
  rw [List.append_nil] at hsplit
  obtain ⟨c, cs, rfl⟩ := List.exists_cons_of_ne_nil h.1
  rw [unitsOfChars?, hsplit]

theorem digits_around_point_iff {whole ds : List Char} :
    (ds.all Char.isDigit && !(whole.isEmpty && ds.isEmpty)) = true ↔
      (∀ c ∈ ds, c.isDigit) ∧ whole ++ ds ≠ [] := by
  cases whole <;> simp

theorem unitsOfChars?_point {whole ds : List Char} (h : IsDigits (whole ++ ds)) :
    unitsOfChars? (whole ++ '.' :: ds) =
      (fraction? decimalPlaces ds).map (natOfDigits whole * tenTo decimalPlaces + ·) := by
  obtain ⟨hwhole, hds⟩ := List.forall_mem_append.1 h.2
  have hguard := digits_around_point_iff.2 ⟨hds, h.1⟩
  rw [unitsOfChars?, splitDigits_append hwhole (by simp)]
  -- the pattern for texts without a point looks at the digits before it first
  cases whole with
  | nil => exact if_pos hguard
  | cons c whole => exact if_pos hguard

theorem isPositional_of_unitsOfChars? {cs : List Char} {n : ℕ} (h : unitsOfChars? cs = some n) :
    IsPositional cs := by
  unfold unitsOfChars? at h
  split at h
  next => cases h
  next whole hne hsplit =>
    obtain ⟨rfl, hdigits⟩ := splitDigits_eq hsplit
    rw [List.append_nil]
    exact .inl ⟨hne, hdigits⟩
  next whole ds hsplit =>
    obtain ⟨rfl, hdigits⟩ := splitDigits_eq hsplit
    split at h
    next hguard =>
      obtain ⟨hds, hne⟩ := digits_around_point_iff.1 hguard
      exact .inr ⟨whole, ds, ⟨hne, List.forall_mem_append.2 ⟨hdigits, hds⟩⟩, rfl⟩
    next => cases h
  next => cases h

/-- **Which unsigned numerals are read:** those with a whole number of units. -/
theorem unitsOfChars?_eq_some_iff {cs : List Char} {n : ℕ} : unitsOfChars? cs = some n ↔
    IsPositional cs ∧ magnitude cs = n / 10 ^ decimalPlaces := by
  suffices h : IsPositional cs →
      (unitsOfChars? cs = some n ↔ magnitude cs = n / 10 ^ decimalPlaces) from
    ⟨fun hn => ⟨isPositional_of_unitsOfChars? hn, (h (isPositional_of_unitsOfChars? hn)).1 hn⟩,
      fun ⟨hcs, hn⟩ => (h hcs).2 hn⟩
  have hpos : (0 : ℚ) < 10 ^ decimalPlaces := by positivity
  rintro (hdigits | ⟨whole, ds, hdigits, rfl⟩)
  · rw [unitsOfChars?_digits hdigits, magnitude_digits hdigits.2, eq_div_iff hpos.ne',
      Option.some_inj, tenTo_eq]
    exact_mod_cast Iff.rfl
  · obtain ⟨hwhole, hds⟩ := List.forall_mem_append.1 hdigits.2
    rw [unitsOfChars?_point hdigits, magnitude_point hwhole, Option.map_eq_some_iff, tenTo_eq]
    constructor
    · rintro ⟨k, hk, rfl⟩
      rw [(fraction?_eq_some_iff hds).1 hk]
      push_cast
      field_simp
    · intro h
      have hfraction : fractionValue ds =
          (n - natOfDigits whole * 10 ^ decimalPlaces) / 10 ^ decimalPlaces := by
        rw [sub_div, ← h, mul_div_cancel_right₀ _ hpos.ne', add_sub_cancel_left]
      have hunits : natOfDigits whole * 10 ^ decimalPlaces ≤ n := by
        have hnonneg := fractionValue_nonneg ds
        rw [hfraction, le_div_iff₀ hpos, zero_mul, sub_nonneg] at hnonneg
        exact_mod_cast hnonneg
      obtain ⟨k, rfl⟩ := Nat.exists_eq_add_of_le hunits
      refine ⟨k, (fraction?_eq_some_iff hds).2 ?_, rfl⟩
      rw [hfraction]
      push_cast
      rw [add_sub_cancel_left]

theorem ofUnits?_eq_some_iff {z : ℤ} {d : Decimal} :
    ofUnits? z = some d ↔ d.units = z ∧ fitsWord 128 d.units := by
  unfold ofUnits?
  split
  next h =>
    cases d
    simp only [Option.some_inj, mk.injEq]
    exact ⟨fun hz => ⟨hz.symm, hz ▸ h⟩, fun hz => hz.1.symm⟩
  next h =>
    refine iff_of_false (by simp) ?_
    rintro ⟨rfl, hfits⟩
    exact h hfits

/-- **Which numerals are read as decimals:** those with a whole number of units that fits a word. -/
theorem ofChars?_eq_some_iff {cs : List Char} {d : Decimal} : ofChars? cs = some d ↔
    AfterSign IsPositional cs ∧ denoted cs = d.units / 10 ^ decimalPlaces ∧
      fitsWord 128 d.units := by
  have h : ofChars? cs = (unitsOfChars? (splitSign cs).2).bind fun n =>
      ofUnits? (signed (splitSign cs).1 n) := rfl
  have hpos : (0 : ℚ) < 10 ^ decimalPlaces := by positivity
  rw [h, Option.bind_eq_some_iff, afterSign_isPositional_iff]
  constructor
  · rintro ⟨n, hn, hd⟩
    obtain ⟨hform, hmagnitude⟩ := unitsOfChars?_eq_some_iff.1 hn
    obtain ⟨hunits, hfits⟩ := ofUnits?_eq_some_iff.1 hd
    exact ⟨hform, hunits ▸ denoted_eq_signed hmagnitude, hfits⟩
  · rintro ⟨hform, hdenoted, hfits⟩
    have hmagnitude : magnitude (splitSign cs).2 = (d.units.natAbs : ℕ) / 10 ^ decimalPlaces := by
      rw [← abs_denoted, hdenoted, abs_div, abs_of_pos hpos, Nat.cast_natAbs, Int.cast_abs]
    refine ⟨d.units.natAbs, unitsOfChars?_eq_some_iff.2 ⟨hform, hmagnitude⟩,
      ofUnits?_eq_some_iff.2 ⟨?_, hfits⟩⟩
    rw [denoted_eq_signed hmagnitude, div_left_inj' hpos.ne', Int.cast_inj] at hdenoted
    exact hdenoted.symm

end Decimal

/-! ## Writing -/

theorem isDigits_toDigits (n : ℕ) : IsDigits (Nat.toDigits 10 n) :=
  ⟨Nat.toDigits_ne_nil, fun _ hc => Nat.isDigit_of_mem_toDigits (by decide) (by decide) hc⟩

theorem length_padded {places n : ℕ} (h : n < 10 ^ places) (hp : 0 < places) :
    (padded places n).length = places := by
  rw [padded, List.length_leftpad]
  exact max_eq_left (Nat.toDigits_length 10 n places hp h)

theorem natOfDigits_padded (places n : ℕ) : natOfDigits (padded places n) = n := by
  rw [padded, List.leftpad, natOfDigits_append, natOfDigits_toDigits]
  simp [natOfDigits]

theorem isDigit_of_mem_padded {places n : ℕ} : ∀ c ∈ padded places n, c.isDigit := by
  intro c hc
  rw [padded, List.leftpad, List.mem_append] at hc
  rcases hc with hc | hc
  · obtain rfl := List.eq_of_mem_replicate hc
    rfl
  · exact (isDigits_toDigits n).2 c hc

/-- The unsigned text of a number. -/
theorem positional_false (places n : ℕ) : positional false places n =
    Nat.toDigits 10 (n / tenTo places) ++ fractionText places (n % tenTo places) := rfl

theorem isPositional_positional (places n : ℕ) : IsPositional (positional false places n) := by
  have hwhole := isDigits_toDigits (n / tenTo places)
  rw [positional_false, fractionText]
  split
  next => exact .inl (by rwa [List.append_nil])
  next =>
    refine .inr ⟨_, _, ⟨List.append_ne_nil_of_left_ne_nil hwhole.1 _, ?_⟩, rfl⟩
    exact List.forall_mem_append.2
      ⟨hwhole.2, isDigit_of_mem_trimZeros isDigit_of_mem_padded⟩

/-- **The text of a number denotes it.** -/
theorem magnitude_positional {places : ℕ} (hp : 0 < places) (n : ℕ) :
    magnitude (positional false places n) = n / 10 ^ places := by
  have hwhole := isDigits_toDigits (n / tenTo places)
  have hsum : (n / tenTo places : ℕ) + ((n % tenTo places : ℕ) : ℚ) / 10 ^ places =
      n / 10 ^ places := by
    rw [eq_div_iff (by positivity), add_mul, div_mul_cancel₀ _ (by positivity)]
    exact_mod_cast Nat.div_add_mod' n (tenTo places)
  rw [positional_false, fractionText]
  split
  next hzero =>
    rw [List.append_nil, magnitude_digits hwhole.2, natOfDigits_toDigits, ← hsum, hzero,
      Nat.cast_zero, zero_div, add_zero]
  next =>
    have hlt : n % tenTo places < 10 ^ places := Nat.mod_lt n (Nat.pow_pos (by decide))
    rw [magnitude_point hwhole.2, fractionValue_trimZeros, fractionValue_eq, length_padded hlt hp,
      natOfDigits_padded, natOfDigits_toDigits, hsum]

theorem splitSign_positional (negative : Bool) (places n : ℕ) :
    splitSign (positional negative places n) = (negative, positional false places n) := by
  cases negative with
  | true => rfl
  | false => exact (isPositional_positional places n).splitSign_eq_self

theorem signed_natAbs (z : ℤ) : signed (z < 0) z.natAbs = z := by
  unfold signed
  split
  next h =>
    have hneg : z < 0 := by simpa using h
    omega
  next h =>
    have hpos : 0 ≤ z := by simpa using h
    omega

namespace Decimal

variable (d : Decimal)

theorem splitSign_text : splitSign d.text =
    (decide (d.units < 0), positional false decimalPlaces d.units.natAbs) :=
  splitSign_positional _ _ _

theorem denoted_text : denoted d.text = d.units / 10 ^ decimalPlaces := by
  have hmagnitude : magnitude (splitSign d.text).2 =
      (d.units.natAbs : ℕ) / 10 ^ decimalPlaces := by
    rw [splitSign_text]
    exact magnitude_positional (by decide) _
  rw [denoted_eq_signed hmagnitude, splitSign_text, signed_natAbs]

theorem afterSign_text : AfterSign IsPositional d.text := by
  rw [afterSign_isPositional_iff, splitSign_text]
  exact isPositional_positional _ _

/-- Decimals have the same text exactly if they are the same number. -/
theorem text_eq_text_iff {d e : Decimal} : d.text = e.text ↔
    (d.units : ℚ) / 10 ^ decimalPlaces = e.units / 10 ^ decimalPlaces := by
  constructor
  · intro h
    rw [← denoted_text, ← denoted_text, h]
  · intro h
    rw [div_left_inj' (by positivity), Int.cast_inj] at h
    rw [text, text, h]

end Decimal

theorem positional_mul (negative : Bool) (places n : ℕ) :
    positional negative places (n * tenTo places) =
      (if negative then ['-'] else []) ++ Nat.toDigits 10 n := by
  have hpos : 0 < tenTo places := Nat.pow_pos (by decide)
  rw [positional, Nat.mul_mod_left, Nat.mul_div_cancel _ hpos]
  exact List.append_nil _

/-- **Integers are written like decimals.** -/
theorem toString_eq_text (z : ℤ) :
    toString z = String.ofList (Decimal.text ⟨z * tenTo decimalPlaces⟩) := by
  have hsign : z * tenTo decimalPlaces < 0 ↔ z < 0 := by
    have hpos : (0 : ℤ) < tenTo decimalPlaces := by decide
    exact ⟨fun h => neg_of_mul_neg_left h hpos.le, fun h => mul_neg_of_neg_of_pos h hpos⟩
  rw [← String.toList_inj, String.toList_ofList, toList_integer, Decimal.text, Int.natAbs_mul,
    Int.natAbs_natCast, positional_mul]
  simp only [decide_eq_true_iff, hsign]

theorem denoted_toString (z : ℤ) : denoted (toString z).toList = z := by
  rw [toString_eq_text, String.toList_ofList, Decimal.denoted_text, tenTo_eq]
  push_cast
  field_simp

theorem afterSign_toString (z : ℤ) : AfterSign IsDigits (toString z).toList := by
  refine ⟨if z < 0 then ['-'] else [], _, ?_, isDigits_toDigits z.natAbs, toList_integer z⟩
  split <;> simp

theorem fitsWord_iff {width : ℕ} {z : ℤ} :
    fitsWord (width + 1) z ↔ -2 ^ width ≤ z ∧ z ≤ 2 ^ width - 1 := by
  have hword : ((twoTo (width + 1 - 1) : ℕ) : ℤ) = 2 ^ width := Nat.cast_pow 2 width
  rw [fitsWord, hword, Bool.and_eq_true, decide_eq_true_iff, decide_eq_true_iff,
    Int.le_sub_one_iff]

/-! ## Literals -/

theorem read?_of_mem_integerTypes {datatype : String} (h : datatype ∈ integerTypes)
    (lexical : String) : read? datatype lexical = (integer? lexical.toList).map .integer := by
  have hboolean : datatype ≠ xsd "boolean" := by
    rintro rfl
    exact absurd h (by decide)
  simp only [read?]
  rw [if_neg hboolean, if_pos h]

theorem read?_decimal (lexical : String) :
    read? (xsd "decimal") lexical = (Decimal.ofChars? lexical.toList).map .decimal := by
  unfold read?
  rw [if_neg (by decide), if_neg (by decide), if_pos rfl]

end Value

open Rdf Value

/-- **A literal with an exact number:** one of an integer datatype, or a decimal, whose lexical form
can be read. -/
def Rdf.Literal.IsExact (l : Literal) : Prop :=
  (l.datatype = xsd "decimal" ∨ l.datatype ∈ integerTypes) ∧ (read? l.datatype l.lexical).isSome

theorem constant?_of_read? {l : Literal} {v : Value} (h : read? l.datatype l.lexical = some v) :
    (Term.literal l).constant? = .ok v.constant := by
  rw [Term.constant?, ofLiteral, h, Option.getD_some]

theorem constant?_of_read?_eq_none {l : Literal} (h : read? l.datatype l.lexical = none) :
    (Term.literal l).constant? = .ok (Text.quote l.lexical) := by
  rw [Term.constant?, ofLiteral, h, Option.getD_none]
  rfl

section Typed

variable {datatype lexical : String}

theorem isExact_integer_iff (hdatatype : datatype ∈ integerTypes) :
    (Literal.typed lexical datatype).IsExact ↔ AfterSign IsDigits lexical.toList ∧
      ∃ z : ℤ, denoted lexical.toList = z ∧ -2 ^ 63 ≤ z ∧ z ≤ 2 ^ 63 - 1 := by
  have hread : (read? datatype lexical).isSome ↔ ∃ z, integer? lexical.toList = some z := by
    rw [read?_of_mem_integerTypes hdatatype, Option.isSome_map, Option.isSome_iff_exists]
  rw [Literal.IsExact, Literal.datatype, Literal.lexical, and_iff_right (.inr hdatatype), hread]
  simp only [integer?_eq_some_iff, fitsWord_iff, exists_and_left]

theorem isExact_decimal_iff :
    (Literal.typed lexical (xsd "decimal")).IsExact ↔ AfterSign IsPositional lexical.toList ∧
      ∃ units : ℤ, denoted lexical.toList = units / 10 ^ 18 ∧
        -2 ^ 127 ≤ units ∧ units ≤ 2 ^ 127 - 1 := by
  have hread : (read? (xsd "decimal") lexical).isSome ↔
      ∃ d, Decimal.ofChars? lexical.toList = some d := by
    rw [read?_decimal, Option.isSome_map, Option.isSome_iff_exists]
  rw [Literal.IsExact, Literal.datatype, Literal.lexical, and_iff_right (.inl rfl), hread]
  simp only [Decimal.ofChars?_eq_some_iff, fitsWord_iff, exists_and_left, decimalPlaces]
  refine and_congr_right fun _ => ⟨?_, ?_⟩
  · rintro ⟨d, hd⟩
    exact ⟨d.units, hd⟩
  · rintro ⟨units, hunits⟩
    exact ⟨⟨units⟩, hunits⟩

/-- The constant of an integer numeral, which is quoted if its integer does not fit a word. -/
theorem constant?_of_afterSign_isDigits (hdatatype : datatype ∈ integerTypes)
    (hform : AfterSign IsDigits lexical.toList) :
    ∃ z : ℤ, denoted lexical.toList = z ∧
      (Term.literal (.typed lexical datatype)).constant? =
        .ok (if fitsWord 64 z then toString z else Text.quote lexical) := by
  have hread := read?_of_mem_integerTypes hdatatype lexical
  have hvalue := denoted_of_isDigits (afterSign_isDigits_iff.1 hform)
  refine ⟨_, hvalue, ?_⟩
  split
  next hfits =>
    rw [integer?_eq_some_iff.2 ⟨hform, hvalue, hfits⟩] at hread
    exact constant?_of_read? (l := .typed lexical datatype) hread
  next hfits =>
    have hnone : integer? lexical.toList = none := by
      refine Option.eq_none_iff_forall_ne_some.2 fun w hw => hfits ?_
      obtain ⟨-, hw, hwfits⟩ := integer?_eq_some_iff.1 hw
      rwa [Int.cast_inj.1 (hvalue.symm.trans hw)]
    rw [hnone] at hread
    exact constant?_of_read?_eq_none (l := .typed lexical datatype) hread

end Typed

/-- The constant of an exact number is the text of a decimal, which has the number of the literal
and is read again under its datatype. -/
theorem Rdf.Literal.IsExact.exists_decimal {l : Literal} (h : l.IsExact) :
    ∃ d : Decimal, denoted l.lexical.toList = d.units / 10 ^ decimalPlaces ∧
      (Term.literal l).constant? = .ok (String.ofList d.text) ∧
      ∃ v, read? l.datatype (String.ofList d.text) = some v ∧
        v.constant = String.ofList d.text := by
  obtain ⟨hdatatype, hread⟩ := h
  obtain ⟨v, hv⟩ := Option.isSome_iff_exists.1 hread
  have hconstant := constant?_of_read? hv
  rcases hdatatype with hdecimal | hinteger
  · rw [hdecimal, read?_decimal] at hv
    obtain ⟨d, hd, rfl⟩ := Option.map_eq_some_iff.1 hv
    obtain ⟨-, hvalue, hfits⟩ := Decimal.ofChars?_eq_some_iff.1 hd
    have hagain := Decimal.ofChars?_eq_some_iff.2 ⟨d.afterSign_text, d.denoted_text, hfits⟩
    refine ⟨d, hvalue, hconstant, .decimal d, ?_, rfl⟩
    rw [hdecimal, read?_decimal, String.toList_ofList, hagain]
    rfl
  · rw [read?_of_mem_integerTypes hinteger] at hv
    obtain ⟨z, hz, rfl⟩ := Option.map_eq_some_iff.1 hv
    obtain ⟨-, hvalue, hfits⟩ := integer?_eq_some_iff.1 hz
    have hagain := integer?_eq_some_iff.2 ⟨afterSign_toString z, denoted_toString z, hfits⟩
    refine ⟨⟨z * tenTo decimalPlaces⟩, ?_, ?_, .integer z, ?_, toString_eq_text z⟩
    · rw [hvalue, tenTo_eq]
      push_cast
      field_simp
    · rw [hconstant, ← toString_eq_text]
      rfl
    · rw [← toString_eq_text, read?_of_mem_integerTypes hinteger, hagain]
      rfl

theorem toString_ne_quote (z : ℤ) (s : String) : toString z ≠ Text.quote s := by
  intro h
  have hmem : '"' ∈ (toString z).toList := by
    rw [h, Text.toList_quote]
    exact List.mem_cons_self
  rw [toList_integer, List.mem_append] at hmem
  rcases hmem with hsign | hdigit
  · split at hsign
    · exact absurd hsign (by decide)
    · cases hsign
  · exact absurd ((isDigits_toDigits z.natAbs).2 _ hdigit) (by decide)

/-- **Exact numbers are written by value.** Literals of the integer datatypes and decimals have the
same constant exactly if they denote the same number; the constant denotes this number, can be read
under the same datatype and is its own constant. An integer is read within a signed word of 64 bits
and a decimal as a count of `10 ^ -18` within one of 128 bits. The constant of an integer numeral is
the text of its integer exactly if the integer fits its word, and otherwise the numeral is
quoted. -/
theorem exact_number_constants :
    (∀ l m : Literal, l.IsExact → m.IsExact →
        ((Term.literal l).constant? = (Term.literal m).constant? ↔
          denoted l.lexical.toList = denoted m.lexical.toList)) ∧
      (∀ l : Literal, l.IsExact → ∃ s, (Term.literal l).constant? = .ok s ∧
        denoted s.toList = denoted l.lexical.toList ∧ (Literal.typed s l.datatype).IsExact ∧
        (Term.literal (.typed s l.datatype)).constant? = .ok s) ∧
      (∀ lexical : String, (Literal.typed lexical (xsd "decimal")).IsExact ↔
        AfterSign IsPositional lexical.toList ∧ ∃ units : ℤ,
          denoted lexical.toList = units / 10 ^ 18 ∧ -2 ^ 127 ≤ units ∧ units ≤ 2 ^ 127 - 1) ∧
      ∀ datatype ∈ integerTypes, ∀ lexical : String,
        ((Literal.typed lexical datatype).IsExact ↔ AfterSign IsDigits lexical.toList ∧
          ∃ z : ℤ, denoted lexical.toList = z ∧ -2 ^ 63 ≤ z ∧ z ≤ 2 ^ 63 - 1) ∧
        (AfterSign IsDigits lexical.toList → ∃ z : ℤ, denoted lexical.toList = z ∧
          ((Term.literal (.typed lexical datatype)).constant? = .ok (toString z) ↔
            -2 ^ 63 ≤ z ∧ z ≤ 2 ^ 63 - 1) ∧
          (¬ (-2 ^ 63 ≤ z ∧ z ≤ 2 ^ 63 - 1) →
            (Term.literal (.typed lexical datatype)).constant? = .ok (Text.quote lexical))) := by
  refine ⟨fun l m hl hm => ?_, fun l hl => ?_, fun lexical => isExact_decimal_iff,
    fun datatype hdatatype lexical => ⟨isExact_integer_iff hdatatype, fun hform => ?_⟩⟩
  · obtain ⟨d, hdvalue, hd, -⟩ := hl.exists_decimal
    obtain ⟨e, hevalue, he, -⟩ := hm.exists_decimal
    rw [hd, he, hdvalue, hevalue, Except.ok.injEq, String.ofList_inj, Decimal.text_eq_text_iff]
  · obtain ⟨d, hvalue, hd, v, hv, hconstant⟩ := hl.exists_decimal
    refine ⟨_, hd, ?_, ⟨hl.1, Option.isSome_iff_exists.2 ⟨v, hv⟩⟩, ?_⟩
    · rw [String.toList_ofList, d.denoted_text, hvalue]
    · rw [← hconstant]
      exact constant?_of_read? (l := .typed v.constant l.datatype) (hconstant ▸ hv)
  · obtain ⟨z, hz, hconstant⟩ := constant?_of_afterSign_isDigits hdatatype hform
    refine ⟨z, hz, ?_⟩
    rw [← fitsWord_iff, hconstant, Except.ok.injEq, Except.ok.injEq]
    split
    next hfits => exact ⟨iff_of_true rfl hfits, fun h => absurd hfits h⟩
    next hfits => exact ⟨iff_of_false (toString_ne_quote z lexical).symm hfits, fun _ => rfl⟩

/-- Two spellings of zero, the least decimal, and the least integer that is too large. -/
theorem exact_number_constants_limits :
    (Literal.typed "-00" (xsd "byte")).IsExact ∧ (Literal.typed "+.000" (xsd "decimal")).IsExact ∧
      (Term.literal (.typed "-00" (xsd "byte"))).constant? =
        (Term.literal (.typed "+.000" (xsd "decimal"))).constant? ∧
      (∃ s, (Term.literal (.typed "-00" (xsd "byte"))).constant? = .ok s ∧
        (Term.literal (.typed s (xsd "byte"))).constant? = .ok s) ∧
      AfterSign IsDigits "+9223372036854775808".toList ∧
      (Term.literal (.typed "+9223372036854775808" (xsd "long"))).constant? =
        .ok (Text.quote "+9223372036854775808") ∧
      ∃ units : ℤ, denoted "-170141183460469231731.6873037158841057280".toList = units / 10 ^ 18 ∧
        -2 ^ 127 ≤ units ∧ units ≤ 2 ^ 127 - 1 := by
  have hbyte : (Literal.typed "-00" (xsd "byte")).IsExact :=
    ⟨.inr (by decide +kernel), by decide +kernel⟩
  have hdecimal : (Literal.typed "+.000" (xsd "decimal")).IsExact :=
    ⟨.inl rfl, by decide +kernel⟩
  have hleast : (Literal.typed "-170141183460469231731.6873037158841057280"
      (xsd "decimal")).IsExact :=
    ⟨.inl rfl, by decide +kernel⟩
  have hform : AfterSign IsDigits "+9223372036854775808".toList :=
    ⟨['+'], "9223372036854775808".toList, by decide, ⟨by decide, List.all_eq_true.1 (by decide)⟩,
      rfl⟩
  obtain ⟨hequal, hread, hunits, hinteger⟩ := exact_number_constants
  obtain ⟨s, hs, -, -, hagain⟩ := hread _ hbyte
  obtain ⟨z, hz, -, hquoted⟩ :=
    (hinteger (xsd "long") (by decide +kernel) "+9223372036854775808").2 hform
  have hvalue : denoted "+9223372036854775808".toList = (2 ^ 63 : ℤ) := by decide +kernel
  obtain rfl : z = 2 ^ 63 := Int.cast_injective (hz.symm.trans hvalue)
  exact ⟨hbyte, hdecimal, (hequal _ _ hbyte hdecimal).2 (by decide +kernel), ⟨s, hs, hagain⟩, hform,
    hquoted (by decide), ((hunits _).1 hleast).2⟩

end ShapeRules
