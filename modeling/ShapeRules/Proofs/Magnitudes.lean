import Mathlib.Data.Int.Log
import Mathlib.Data.Rat.Floor
import Mathlib.Tactic.Linarith
import ShapeRules.Proofs.ExactNumbers

/-!
# Which numerals are read as finite binary numbers

A scientific numeral is a positional one with an optional power of ten. It is read as a finite
number of a binary format if it is closer to the largest number of the format than to the next power
of two, and as an infinite one otherwise: the tie goes to the power, whose mantissa is even.

## Main definitions

* `IsScientific`: the scientific numerals and their numbers
* `BinaryFormat.threshold`: the middle between the largest number of a format and the next power
* `BinaryFormat.InReach`: the formats whose threshold has a magnitude that is computed

## Main results

* `binaryLog_eq`: the exponent of a fraction is its binary logarithm
* `BinaryFormat.round_isFinite_iff`: rounding stays finite below the threshold
* `BinaryFormat.ofChars?_isFinite_iff`: the numerals that are read as finite numbers
-/

namespace ShapeRules.Value

/-! ## Rounding -/

section Fractions

variable {n d m : ℕ}

/-- A fraction divided by a power of the base. -/
theorem scaleDown_div (base : ℕ) (e : ℤ) :
    ((scaleDown base e n d).1 : ℚ) / (scaleDown base e n d).2 = n / d / (base : ℚ) ^ e := by
  have hup : ((Nat.pow base (-e).toNat : ℕ) : ℚ) = (base : ℚ) ^ (-e).toNat := Nat.cast_pow _ _
  have hdown : ((Nat.pow base e.toNat : ℕ) : ℚ) = (base : ℚ) ^ e.toNat := Nat.cast_pow _ _
  simp only [scaleDown, Nat.cast_mul, hup, hdown]
  obtain ⟨k, rfl | rfl⟩ := e.eq_nat_or_neg
  · rw [zpow_natCast, Int.toNat_natCast, Int.toNat_neg_natCast, pow_zero, mul_one, div_div]
  · rw [zpow_neg, zpow_natCast, neg_neg, Int.toNat_natCast, Int.toNat_neg_natCast, pow_zero,
      mul_one, div_inv_eq_mul, div_mul_eq_mul_div]

theorem scaleDown_pos {base : ℕ} (hbase : 0 < base) (hd : 0 < d) (e : ℤ) :
    0 < (scaleDown base e n d).2 :=
  Nat.mul_pos hd (Nat.pow_pos hbase)

/-- A fraction is at least one after the division exactly if it is at least the power. -/
theorem scaleDown_le_iff {base : ℕ} (hbase : 0 < base) (hd : 0 < d) (e : ℤ) :
    (scaleDown base e n d).2 ≤ (scaleDown base e n d).1 ↔ (base : ℚ) ^ e ≤ n / d := by
  have hscale : (0 : ℚ) < (scaleDown base e n d).2 := Nat.cast_pos.2 (scaleDown_pos hbase hd e)
  have hpow : (0 : ℚ) < (base : ℚ) ^ e := zpow_pos (Nat.cast_pos.2 hbase) e
  rw [← one_le_div₀ hpow, ← scaleDown_div base, one_le_div₀ hscale, Nat.cast_le]

/-- **The binary logarithm of a fraction.** -/
theorem binaryLog_eq (hn : 0 < n) (hd : 0 < d) : binaryLog n d = Int.log 2 ((n : ℚ) / d) := by
  have hn' : (0 : ℚ) < n := Nat.cast_pos.2 hn
  have hd' : (0 : ℚ) < d := Nat.cast_pos.2 hd
  have hpos : (0 : ℚ) < n / d := div_pos hn' hd'
  -- the first guess is the logarithm or its successor
  have hlow : (n.log2 : ℤ) - d.log2 - 1 ≤ Int.log 2 ((n : ℚ) / d) := by
    rw [← Int.zpow_le_iff_le_log (by decide) hpos, sub_sub, zpow_sub₀ (by simp), ← Nat.cast_succ,
      zpow_natCast, zpow_natCast]
    exact div_le_div₀ hn'.le (by exact_mod_cast Nat.log2_self_le hn.ne') hd'
      (by exact_mod_cast Nat.lt_log2_self.le)
  have hhigh : Int.log 2 ((n : ℚ) / d) < (n.log2 : ℤ) - d.log2 + 1 := by
    rw [← Int.lt_zpow_iff_log_lt (by decide) hpos, sub_add_eq_add_sub, zpow_sub₀ (by simp),
      ← Nat.cast_succ, zpow_natCast, zpow_natCast]
    exact div_lt_div₀ (by exact_mod_cast Nat.lt_log2_self)
      (by exact_mod_cast Nat.log2_self_le hd.ne') (by positivity) (by positivity)
  have hguess : (scaleDown 2 (n.log2 - d.log2) n d).2 ≤ (scaleDown 2 (n.log2 - d.log2) n d).1 ↔
      (n.log2 : ℤ) - d.log2 ≤ Int.log 2 ((n : ℚ) / d) :=
    (scaleDown_le_iff (by decide) hd _).trans (Int.zpow_le_iff_le_log (by decide) hpos)
  simp only [binaryLog]
  split_ifs with h
  · have := hguess.1 h
    omega
  · have := mt hguess.2 h
    omega

/-- Rounding goes to one of the two integers around a fraction. -/
theorem divideToEven_le (h : n < m * d) : divideToEven n d ≤ m := by
  have hdiv : n / d < m := Nat.div_lt_of_lt_mul (by rwa [Nat.mul_comm])
  simp only [divideToEven]
  split_ifs
  all_goals omega

/-- **Rounding up to an even number:** it starts at the middle. -/
theorem le_divideToEven_iff (hd : 0 < d) (hm : Even m) :
    m ≤ divideToEven n d ↔ (m - 1 / 2 : ℚ) ≤ n / d := by
  have hcross : (m - 1 / 2 : ℚ) ≤ n / d ↔ 2 * (m * d) ≤ 2 * n + d := by
    rw [le_div_iff₀ (Nat.cast_pos.2 hd), ← @Nat.cast_le ℚ]
    push_cast
    constructor
    · intro h
      linarith
    · intro h
      linarith
  have hsplit : d * (n / d) + n % d = n := Nat.div_add_mod n d
  have hmod : n % d < d := Nat.mod_lt n hd
  have hcomm : d * m = m * d := Nat.mul_comm d m
  rw [hcross]
  simp only [divideToEven]
  obtain ⟨k, hk⟩ := hm
  rcases Nat.lt_trichotomy (n / d + 1) m with hlt | heq | hgt
  · -- beyond the next integer
    have hmul : d * (n / d + 2) ≤ d * m := Nat.mul_le_mul_left d hlt
    rw [Nat.mul_add] at hmul
    split_ifs
    all_goals omega
  · -- the next integer, so the quotient is odd
    have hmul : d * (n / d + 1) = d * m := by rw [heq]
    rw [Nat.mul_add] at hmul
    split_ifs
    all_goals omega
  · -- not beyond the quotient, which is rounded to itself at least
    have hmul : d * m ≤ d * (n / d) := Nat.mul_le_mul_left d (Nat.le_of_lt_succ hgt)
    split_ifs
    all_goals omega

/-- A fraction below a power of two is rounded up to it from the middle on. -/
theorem divideToEven_eq_iff (hd : 0 < d) {p : ℕ} (hp : 0 < p) (h : n < 2 ^ p * d) :
    divideToEven n d = 2 ^ p ↔ (2 ^ p - 1 / 2 : ℚ) ≤ n / d := by
  have heven : Even (2 ^ p) := even_two.pow_of_ne_zero hp.ne'
  have hmiddle : 2 ^ p ≤ divideToEven n d ↔ ((2 ^ p : ℕ) - 1 / 2 : ℚ) ≤ n / d :=
    le_divideToEven_iff hd heven
  rw [Nat.cast_pow, Nat.cast_ofNat] at hmiddle
  rw [← hmiddle]
  exact ⟨fun he => he.ge, fun hle => (divideToEven_le h).antisymm hle⟩

/-- The digits of a number tell its magnitude. -/
theorem decimal_bounds (hn : 0 < n) (e : ℤ) :
    (10 : ℚ) ^ (e + (Nat.toDigits 10 n).length - 1) ≤ n * 10 ^ e ∧
      (n * 10 ^ e : ℚ) < 10 ^ (e + (Nat.toDigits 10 n).length) := by
  have hpow : (0 : ℚ) < 10 ^ e := zpow_pos (by simp) e
  obtain ⟨k, hk⟩ : ∃ k, (Nat.toDigits 10 n).length = k + 1 :=
    Nat.exists_eq_add_of_le' Nat.length_toDigits_pos
  have hlow : 10 ^ k ≤ n := by
    rcases Nat.eq_zero_or_pos k with rfl | hpos
    · exact hn
    · -- one digit less would not do
      have hlength := Nat.length_toDigits_le_iff (b := 10) (n := n) (by decide) hpos
      exact not_lt.1 (mt hlength.2 (by omega))
  have hhigh : n < 10 ^ (k + 1) := (Nat.length_toDigits_le_iff (by decide) k.succ_pos).1 hk.le
  rw [hk, Nat.cast_succ, ← add_assoc, add_sub_cancel_right, add_assoc, ← Nat.cast_succ,
    zpow_add₀ (by simp), zpow_add₀ (by simp), zpow_natCast, zpow_natCast, mul_comm,
    mul_comm (10 ^ e)]
  constructor
  · exact mul_le_mul_of_nonneg_right (by exact_mod_cast hlow) hpow.le
  · exact mul_lt_mul_of_pos_right (by exact_mod_cast hhigh) hpow

end Fractions

/-- The finite numbers. -/
def Binary.IsFinite : Binary → Prop
  | .finite .. => True
  | _ => False

theorem Binary.isFinite_ite {p : Prop} [Decidable p] {negative sign : Bool} {mantissa : ℕ}
    {e : ℤ} : (if p then infinite negative else finite sign mantissa e).IsFinite ↔ ¬ p := by
  split
  next hp => exact iff_of_false id (not_not.2 hp)
  next hp => exact iff_of_true trivial hp

namespace BinaryFormat

variable {f : BinaryFormat} {negative : Bool}

/-- **The least magnitude that is rounded to infinity:** the middle between the largest number of
the format and the next power of two. -/
def threshold (f : BinaryFormat) : ℚ := (2 ^ f.precision - 1 / 2) * 2 ^ f.maxExponent

/-- The formats whose threshold has a magnitude that is computed. -/
structure InReach (f : BinaryFormat) : Prop where
  precision : 0 < f.precision
  exponents : f.minExponent ≤ f.maxExponent
  low : 0 < f.maxExponent + f.precision
  high : f.maxExponent + f.precision ≤ 3 * 400

theorem inReach_single : single.InReach := ⟨by decide, by decide, by decide, by decide⟩

theorem inReach_double : double.InReach := ⟨by decide, by decide, by decide, by decide⟩

theorem threshold_lt (f : BinaryFormat) : f.threshold < 2 ^ (f.maxExponent + f.precision) := by
  have hpow : (0 : ℚ) < 2 ^ f.maxExponent := zpow_pos two_pos _
  rw [threshold, zpow_add₀ (by simp), zpow_natCast, mul_comm (2 ^ f.maxExponent : ℚ)]
  gcongr
  linarith

theorem le_threshold (h : 0 < f.precision) :
    2 ^ (f.maxExponent + f.precision - 1) ≤ f.threshold := by
  have hpow : (0 : ℚ) < 2 ^ f.maxExponent := zpow_pos two_pos _
  obtain ⟨k, hk⟩ := Nat.exists_eq_add_of_le' h
  have hone : (1 : ℚ) ≤ 2 ^ k := one_le_pow₀ (by simp)
  rw [threshold, hk, Nat.cast_add, Nat.cast_one, ← add_assoc, add_sub_cancel_right,
    zpow_add₀ (by simp), zpow_natCast, mul_comm (2 ^ f.maxExponent : ℚ), pow_succ]
  gcongr
  linarith

theorem InReach.one_le_threshold (hf : f.InReach) : 1 ≤ f.threshold := by
  have hlow := hf.low
  exact (one_le_zpow₀ one_le_two (by omega)).trans (le_threshold hf.precision)

theorem InReach.threshold_le (hf : f.InReach) : f.threshold ≤ 10 ^ 400 := by
  calc f.threshold ≤ 2 ^ (f.maxExponent + f.precision) := f.threshold_lt.le
    _ ≤ 2 ^ (3 * 400 : ℤ) := zpow_le_zpow_right₀ one_le_two hf.high
    _ = (2 ^ 3) ^ 400 := by rw [← pow_mul]; rfl
    _ ≤ 10 ^ 400 := by gcongr; norm_num

/-- The exponent of the last bit is too large beyond the threshold, or the largest one with a
mantissa that is rounded up to the next power of two. -/
theorem threshold_le_iff (hf : f.InReach) {x : ℚ} (hx : 0 < x) {e : ℤ}
    (he : e = max (Int.log 2 x + 1 - f.precision) f.minExponent) : f.threshold ≤ x ↔
      f.maxExponent < e ∨ f.maxExponent = e ∧ (2 ^ f.precision - 1 / 2) * 2 ^ e ≤ x := by
  have hexponents := hf.exponents
  -- all that matters of a number is its logarithm, unless that is the last one of the format
  constructor
  · intro h
    have hlog : f.maxExponent + f.precision - 1 ≤ Int.log 2 x :=
      (Int.zpow_le_iff_le_log (by decide) hx).1 ((le_threshold hf.precision).trans h)
    rcases lt_or_eq_of_le (show f.maxExponent ≤ e by omega) with hlt | heq
    · exact .inl hlt
    · exact .inr ⟨heq, heq ▸ h⟩
  · rintro (hlt | ⟨heq, h⟩)
    · have hlog : f.maxExponent + f.precision ≤ Int.log 2 x := by omega
      exact f.threshold_lt.le.trans ((Int.zpow_le_iff_le_log (by decide) hx).2 hlog)
    · rwa [threshold, heq]

/-- **Rounding stays finite below the threshold.** -/
theorem round_isFinite_iff (hf : f.InReach) {n d : ℕ} (hn : 0 < n) (hd : 0 < d) :
    (f.round negative n d).IsFinite ↔ (n / d : ℚ) < f.threshold := by
  have hpos : (0 : ℚ) < n / d := div_pos (Nat.cast_pos.2 hn) (Nat.cast_pos.2 hd)
  obtain ⟨e, he⟩ : ∃ e, e = max (binaryLog n d + 1 - f.precision) f.minExponent := ⟨_, rfl⟩
  have hpow : (0 : ℚ) < 2 ^ e := zpow_pos two_pos e
  have hscale : 0 < (scaleDown 2 e n d).2 := scaleDown_pos (by decide) hd e
  have hdiv : ((scaleDown 2 e n d).1 : ℚ) / (scaleDown 2 e n d).2 = n / d / 2 ^ e :=
    scaleDown_div 2 e
  have hlt : (scaleDown 2 e n d).1 < 2 ^ f.precision * (scaleDown 2 e n d).2 := by
    rw [← @Nat.cast_lt ℚ, Nat.cast_mul, ← div_lt_iff₀ (Nat.cast_pos.2 hscale), hdiv,
      div_lt_iff₀ hpow, Nat.cast_pow, Nat.cast_ofNat, ← zpow_natCast, ← zpow_add₀ (by simp)]
    refine (Int.lt_zpow_iff_log_lt (by decide) hpos).2 ?_
    rw [← binaryLog_eq hn hd]
    omega
  -- the mantissa has at most one bit too many, and then it is a power of two
  have hup : divideToEven (scaleDown 2 e n d).1 (scaleDown 2 e n d).2 = twoTo f.precision ↔
      (2 ^ f.precision - 1 / 2) * 2 ^ e ≤ (n / d : ℚ) := by
    rw [← le_div_iff₀ hpow, ← hdiv]
    exact divideToEven_eq_iff hscale hf.precision hlt
  rw [← not_le, threshold_le_iff hf hpos (binaryLog_eq hn hd ▸ he), ← hup]
  simp only [round, ← he, Binary.isFinite_ite]
  split_ifs with hmantissa
  · simp only [hmantissa, and_true]
    omega
  · simp only [hmantissa, and_false, or_false]

/-- **Which decimal numbers are read as finite ones.** Those that are settled by their magnitude are
on the same side of the threshold. -/
theorem ofScientific_isFinite_iff (hf : f.InReach) {n : ℕ} {e : ℤ} :
    (f.ofScientific negative n e).IsFinite ↔ (n * 10 ^ e : ℚ) < f.threshold := by
  have hone := hf.one_le_threshold
  rcases Nat.eq_zero_or_pos n with rfl | hn
  · simpa [ofScientific, Binary.IsFinite] using one_pos.trans_le hone
  obtain ⟨hlow, hhigh⟩ := decimal_bounds hn e
  have hreach : decimalReach = 400 := rfl
  simp only [ofScientific, hn.ne', false_or]
  split_ifs with hsmall hlarge
  · refine iff_of_true trivial ?_
    have hpower : (10 : ℚ) ^ (e + (Nat.toDigits 10 n).length) ≤ 10 ^ (0 : ℤ) :=
      zpow_le_zpow_right₀ (by simp) (by omega)
    rw [zpow_zero] at hpower
    linarith
  · refine iff_of_false id (not_lt.2 ?_)
    have hpower : (10 : ℚ) ^ (400 : ℤ) ≤ 10 ^ (e + (Nat.toDigits 10 n).length - 1) :=
      zpow_le_zpow_right₀ (by simp) (by omega)
    exact hf.threshold_le.trans (hpower.trans hlow)
  · have hdiv : ((scaleDown 10 (-e) n 1).1 : ℚ) / (scaleDown 10 (-e) n 1).2 = n * 10 ^ e := by
      rw [scaleDown_div, zpow_neg, div_inv_eq_mul, Nat.cast_one, div_one]
      rfl
    have hnumerator : 0 < (scaleDown 10 (-e) n 1).1 := Nat.mul_pos hn (Nat.pow_pos (by decide))
    rw [round_isFinite_iff hf hnumerator (scaleDown_pos (by decide) one_pos _), hdiv]

end BinaryFormat

/-! ## Scientific numerals -/

/-- **A scientific numeral and its number:** a positional numeral, and an optional power of ten
after a mark. -/
inductive IsScientific : List Char → ℚ → Prop
  | plain {ms : List Char} (positional : IsPositional ms) : IsScientific ms (magnitude ms)
  | scaled {ms es : List Char} {mark : Char} {z : ℤ} (positional : IsPositional ms)
    (hmark : mark = 'e' ∨ mark = 'E') (digits : AfterSign IsDigits es) (value : denoted es = z) :
    IsScientific (ms ++ mark :: es) (magnitude ms * 10 ^ z)

theorem IsPositional.exists_cons {cs : List Char} (h : IsPositional cs) :
    ∃ c rest, cs = c :: rest ∧ (c.isDigit ∨ c = '.') := by
  rcases h with ⟨hne, hdigits⟩ | ⟨whole, ds, ⟨-, hdigits⟩, rfl⟩
  · obtain ⟨c, rest, rfl⟩ := List.exists_cons_of_ne_nil hne
    exact ⟨c, rest, rfl, .inl (hdigits c List.mem_cons_self)⟩
  · cases whole with
    | nil => exact ⟨'.', ds, rfl, .inr rfl⟩
    | cons c whole => exact ⟨c, _, rfl, .inl (hdigits c List.mem_cons_self)⟩

namespace IsScientific

variable {cs : List Char} {q : ℚ}

/-- A numeral starts with a digit or a point. -/
theorem exists_cons (h : IsScientific cs q) : ∃ c rest, cs = c :: rest ∧ (c.isDigit ∨ c = '.') := by
  cases h with
  | plain positional => exact positional.exists_cons
  | scaled positional =>
    obtain ⟨c, rest, rfl, hc⟩ := positional.exists_cons
    exact ⟨c, _, rfl, hc⟩

theorem splitSign_eq_self (h : IsScientific cs q) : splitSign cs = (false, cs) := by
  obtain ⟨c, rest, rfl, hc⟩ := h.exists_cons
  have hminus : (c :: rest).head? ≠ some '-' := by
    rintro ⟨⟩
    exact absurd hc (by decide)
  have hplus : (c :: rest).head? ≠ some '+' := by
    rintro ⟨⟩
    exact absurd hc (by decide)
  rw [splitSign_eq, if_neg hminus, if_neg hplus]

/-- A numeral does not start with a letter, in any case. -/
theorem lower_ne (h : IsScientific cs q) {c : Char} {letters : List Char} (hc : 65 ≤ c.toNat) :
    String.ofList (cs.map Char.toLower) ≠ String.ofList (c :: letters) := by
  obtain ⟨d, rest, rfl, hd⟩ := h.exists_cons
  have hcode : d.toNat < 65 := by
    rcases hd with hdigit | rfl
    · have hlt := (digit_spec hdigit).1
      have hzero : '0'.toNat = 48 := rfl
      rw [digit] at hlt
      omega
    · decide
  have hlower : d.toLower = d := by
    unfold Char.toLower
    refine dif_neg fun hupper => ?_
    have hletter : 65 ≤ d.toNat := UInt32.le_iff_toNat_le.1 hupper.1
    omega
  intro he
  obtain ⟨rfl, -⟩ := List.cons.inj (String.ofList_inj.1 he)
  rw [hlower] at hc
  omega

end IsScientific

namespace BinaryFormat

/-- **Which texts are exponents.** -/
theorem exponent?_eq_some_iff {cs : List Char} {z : ℤ} : exponent? cs = some z ↔
    cs = [] ∧ z = 0 ∨ ∃ mark es, (mark = 'e' ∨ mark = 'E') ∧ AfterSign IsDigits es ∧
      denoted es = z ∧ cs = mark :: es := by
  cases cs with
  | nil => simp [exponent?, eq_comm]
  | cons c cs =>
    have hdigits : (natural? (splitSign cs).2).map (signed (splitSign cs).1) = some z ↔
        AfterSign IsDigits cs ∧ denoted cs = z := by
      rw [Option.map_eq_some_iff, afterSign_isDigits_iff]
      constructor
      · rintro ⟨n, hn, rfl⟩
        obtain ⟨hne, hdigits, rfl⟩ := natural?_eq_some_iff.1 hn
        exact ⟨⟨hne, hdigits⟩, denoted_of_isDigits ⟨hne, hdigits⟩⟩
      · rintro ⟨h, hz⟩
        rw [denoted_of_isDigits h, Int.cast_inj] at hz
        exact ⟨_, natural?_eq_some_iff.2 ⟨h.1, h.2, rfl⟩, hz⟩
    simp only [exponent?]
    split_ifs with hmark
    · rw [hdigits]
      constructor
      · rintro ⟨hform, hz⟩
        exact .inr ⟨c, cs, hmark, hform, hz, rfl⟩
      · rintro (⟨h, -⟩ | ⟨mark, es, -, hform, hz, he⟩)
        · cases h
        · obtain ⟨rfl, rfl⟩ := List.cons.inj he
          exact ⟨hform, hz⟩
    · refine iff_of_false (by simp) ?_
      rintro (⟨h, -⟩ | ⟨mark, es, hmark', -, -, he⟩)
      · cases h
      · exact hmark ((List.cons.inj he).1 ▸ hmark')

/-- The number of the digits of a numeral with a point, which is moved behind them. -/
theorem magnitude_eq_scaled {whole ds : List Char} (h : ∀ c ∈ whole, c.isDigit) :
    magnitude (whole ++ '.' :: ds) =
      natOfDigits (whole ++ ds) * (10 : ℚ) ^ (-(ds.length : ℤ)) := by
  rw [magnitude_point h, fractionValue_eq, natOfDigits_append, zpow_neg, zpow_natCast]
  push_cast
  field_simp

/-- A scientific numeral is a positional one with an exponent. -/
theorem isScientific_iff {cs : List Char} {q : ℚ} : IsScientific cs q ↔
    ∃ ms rest z, IsPositional ms ∧ exponent? rest = some z ∧ cs = ms ++ rest ∧
      q = magnitude ms * 10 ^ z := by
  constructor
  · intro h
    cases h with
    | plain positional => exact ⟨cs, [], 0, positional, rfl, by simp, by simp⟩
    | @scaled ms es mark z positional hmark digits value =>
      have hexponent := exponent?_eq_some_iff.2 (.inr ⟨mark, es, hmark, digits, value, rfl⟩)
      exact ⟨ms, mark :: es, z, positional, hexponent, rfl, rfl⟩
  · rintro ⟨ms, rest, z, positional, hexponent, rfl, rfl⟩
    rcases exponent?_eq_some_iff.1 hexponent with ⟨rfl, rfl⟩ | ⟨mark, es, hmark, digits, value, rfl⟩
    · rw [List.append_nil, zpow_zero, mul_one]
      exact .plain positional
    · exact .scaled positional hmark digits value

/-- What follows the digits of a numeral does not go on with them. -/
theorem head?_ne_of_exponent? {rest : List Char} {z : ℤ} (h : exponent? rest = some z) :
    ∀ c ∈ rest.head?, ¬ c.isDigit ∧ c ≠ '.' := by
  rcases exponent?_eq_some_iff.1 h with ⟨rfl, -⟩ | ⟨mark, es, rfl | rfl, -, -, rfl⟩
  · simp
  · simp
  · simp

variable {f : BinaryFormat} {negative : Bool} {cs : List Char} {x : Binary}

/-- The digits of a numeral and the place of its point. -/
theorem ofUnsigned?_append {ms rest : List Char} (h : IsPositional ms)
    (hrest : ∀ c ∈ rest.head?, ¬ c.isDigit ∧ c ≠ '.') : ∃ (n : ℕ) (k : ℤ),
      magnitude ms = n * (10 : ℚ) ^ (-k) ∧ f.ofUnsigned? negative (ms ++ rest) =
        (exponent? rest).map fun e => f.ofScientific negative n (e - k) := by
  have hdigit : ∀ c ∈ rest.head?, ¬ c.isDigit := fun c hc => (hrest c hc).1
  rcases h with hms | ⟨whole, ds, hds, rfl⟩
  · have hsplit : splitDigits (ms ++ rest) = (ms, rest) := splitDigits_append hms.2 hdigit
    refine ⟨natOfDigits ms, 0, by simp [magnitude_digits hms.2], ?_⟩
    simp only [ofUnsigned?, hsplit]
    split
    next => exact absurd rfl (hrest '.' rfl).2
    next => simp [hms.1]
  · obtain ⟨hwhole, hfraction⟩ := List.forall_mem_append.1 hds.2
    have hsplit : splitDigits (whole ++ '.' :: (ds ++ rest)) = (whole, '.' :: (ds ++ rest)) :=
      splitDigits_append hwhole (by simp)
    have hsplit' : splitDigits (ds ++ rest) = (ds, rest) := splitDigits_append hfraction hdigit
    refine ⟨natOfDigits (whole ++ ds), ds.length, magnitude_eq_scaled hwhole, ?_⟩
    have hguard : ¬ (whole.isEmpty && ds.isEmpty) = true := by
      have hne := hds.1
      simpa [List.append_eq_nil_iff] using hne
    rw [List.append_assoc, List.cons_append]
    simp only [ofUnsigned?, hsplit, hsplit', hguard]
    rfl

/-- What is read starts with a positional numeral, and an exponent follows. -/
theorem exists_of_ofUnsigned? (h : f.ofUnsigned? negative cs = some x) :
    ∃ ms rest z, IsPositional ms ∧ exponent? rest = some z ∧ cs = ms ++ rest := by
  simp only [ofUnsigned?] at h
  have hsplit : splitDigits cs = ((splitDigits cs).1, (splitDigits cs).2) := rfl
  obtain ⟨hcs, hwhole⟩ := splitDigits_eq hsplit
  split at h
  next ds hpoint =>
    have hsplit' : splitDigits ds = ((splitDigits ds).1, (splitDigits ds).2) := rfl
    obtain ⟨hds, hfraction⟩ := splitDigits_eq hsplit'
    split at h
    next => cases h
    next hguard =>
      obtain ⟨z, hz, -⟩ := Option.map_eq_some_iff.1 h
      have hne : (splitDigits cs).1 ++ (splitDigits ds).1 ≠ [] := by
        simpa [List.append_eq_nil_iff] using hguard
      refine ⟨(splitDigits cs).1 ++ '.' :: (splitDigits ds).1, (splitDigits ds).2, z, ?_, hz, ?_⟩
      · exact .inr ⟨_, _, ⟨hne, List.forall_mem_append.2 ⟨hwhole, hfraction⟩⟩, rfl⟩
      · rw [List.append_assoc, List.cons_append, ← hds, ← hpoint, ← hcs]
  next =>
    split at h
    next => cases h
    next hguard =>
      obtain ⟨z, hz, -⟩ := Option.map_eq_some_iff.1 h
      have hne : (splitDigits cs).1 ≠ [] := by simpa using hguard
      exact ⟨(splitDigits cs).1, (splitDigits cs).2, z, .inl ⟨hne, hwhole⟩, hz, hcs⟩

/-- **Which unsigned numerals are read as finite numbers.** -/
theorem ofUnsigned?_isFinite_iff (hf : f.InReach) :
    (∃ x, f.ofUnsigned? negative cs = some x ∧ x.IsFinite) ↔
      ∃ q, IsScientific cs q ∧ q < f.threshold := by
  have hvalue : ∀ {n : ℕ} {k z : ℤ} {m : ℚ}, m = n * (10 : ℚ) ^ (-k) →
      m * 10 ^ z = n * 10 ^ (z - k) := by
    rintro n k z m rfl
    rw [mul_assoc, ← zpow_add₀ (by simp), neg_add_eq_sub]
  constructor
  · rintro ⟨x, hx, hfinite⟩
    obtain ⟨ms, rest, z, hms, hz, rfl⟩ := exists_of_ofUnsigned? hx
    obtain ⟨n, k, hmagnitude, hread⟩ := ofUnsigned?_append hms (head?_ne_of_exponent? hz)
    rw [hread, hz, Option.map_some, Option.some_inj] at hx
    rw [← hx, ofScientific_isFinite_iff hf, ← hvalue hmagnitude] at hfinite
    exact ⟨_, isScientific_iff.2 ⟨ms, rest, z, hms, hz, rfl, rfl⟩, hfinite⟩
  · rintro ⟨q, hq, hlt⟩
    obtain ⟨ms, rest, z, hms, hz, rfl, rfl⟩ := isScientific_iff.1 hq
    obtain ⟨n, k, hmagnitude, hread⟩ := ofUnsigned?_append hms (head?_ne_of_exponent? hz)
    refine ⟨f.ofScientific negative n (z - k), by rw [hread, hz, Option.map_some], ?_⟩
    rwa [ofScientific_isFinite_iff hf, ← hvalue hmagnitude]

/-- **Which numerals are read as finite numbers:** the scientific ones below the threshold, after an
optional sign. -/
theorem ofChars?_isFinite_iff (hf : f.InReach) :
    (∃ x, f.ofChars? cs = some x ∧ x.IsFinite) ↔
      AfterSign (fun rest => ∃ q, IsScientific rest q ∧ q < f.threshold) cs := by
  rw [afterSign_iff fun rest ⟨_, hq, _⟩ => hq.splitSign_eq_self]
  have hword : ∀ {x : Binary}, ¬ x.IsFinite → ¬ ∃ y, some x = some y ∧ y.IsFinite := by
    rintro x hx ⟨y, hy, hfinite⟩
    exact hx (Option.some.inj hy ▸ hfinite)
  simp only [ofChars?]
  split_ifs with hinfinity hnan
  · refine iff_of_false (hword id) ?_
    rintro ⟨q, hq, -⟩
    rcases hinfinity with h | h
    · exact hq.lower_ne (by decide) h
    · exact hq.lower_ne (by decide) h
  · refine iff_of_false (hword id) ?_
    rintro ⟨q, hq, -⟩
    exact hq.lower_ne (by decide) hnan
  · exact ofUnsigned?_isFinite_iff hf

end BinaryFormat

end ShapeRules.Value
