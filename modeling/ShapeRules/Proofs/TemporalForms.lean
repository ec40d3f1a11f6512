import Mathlib.Tactic.IntervalCases
import ShapeRules.Proofs.ExactNumbers

/-!
# Which texts are read as places in time

A date, a time of day or a moment is written with its fields at fixed places: a year of at least
four digits, and two digits for each other field, where the seconds may have a fraction. The fields
make up a day of the calendar, a time of that day and an offset of at most fourteen hours. The
texts of this form are read, provided that the moment is close enough to the start of year one, and
no other texts are.

## Main definitions

* `Day.InCalendar`, `Day.ordinal`: the days of the calendar and their numbers
* `IsYear`, `IsDay`, `IsClock`, `IsZone`: the written fields
* `IsDate`, `IsDateTime`, `IsTime`: the texts that stand for places in time

## Main results

* `Day.number_next`: the days are numbered one by one
* `date?_eq_some_iff`, `dateTime?_eq_some_iff`, `time?_eq_some_iff`: the texts that are read
-/

namespace ShapeRules.Value

/-! ## The calendar -/

/-- **The years with a leap day:** every fourth, without three centuries out of four. -/
def LeapYear (year : ℤ) : Prop := 4 ∣ year ∧ (100 ∣ year → 400 ∣ year)

instance (year : ℤ) : Decidable (LeapYear year) := inferInstanceAs (Decidable (_ ∧ _))

/-- The lengths of the months of a common year. -/
def monthLengths : List ℕ := [31, 28, 31, 30, 31, 30, 31, 31, 30, 31, 30, 31]

/-- The length of a month: February has one more day in a leap year. -/
def monthLength (year : ℤ) (month : ℕ) : ℕ :=
  monthLengths.getD (month - 1) 0 + if month = 2 ∧ LeapYear year then 1 else 0

namespace Day

/-- **The days of the calendar.** -/
def InCalendar (d : Day) : Prop :=
  d.month ∈ Set.Icc 1 12 ∧ d.day ∈ Set.Icc 1 (monthLength d.year d.month)

/-- **The number of days since the first day of year one:** those of the years before, those of the
months before in the same year, and those before in the same month. -/
def ordinal (d : Day) : ℤ :=
  365 * (d.year - 1) + (d.year - 1) / 4 - (d.year - 1) / 100 + (d.year - 1) / 400 +
    ((List.range' 1 (d.month - 1)).map (monthLength d.year)).sum + (d.day - 1)

theorem isLeap_iff {year : ℤ} : isLeap year ↔ LeapYear year := by
  simp only [isLeap, LeapYear, Bool.and_eq_true, Bool.or_eq_true, decide_eq_true_iff, bne_iff_ne]
  omega

theorem daysInMonth_eq {month : ℕ} (h : month ∈ Set.Icc 1 12) (year : ℤ) :
    daysInMonth year month = monthLength year month := by
  obtain ⟨h1, h12⟩ := h
  rw [daysInMonth, monthLength]
  simp only [isLeap_iff]
  by_cases hleap : LeapYear year
  · interval_cases month <;> simp [monthLengths, hleap]
  · interval_cases month <;> simp [monthLengths, hleap]

theorem isValid_iff {d : Day} : d.isValid ↔ d.InCalendar := by
  simp only [isValid, InCalendar, Bool.and_eq_true, decide_eq_true_iff, Set.mem_Icc, and_assoc]
  refine and_congr_right fun h1 => and_congr_right fun h12 => and_congr_right fun _ => ?_
  rw [daysInMonth_eq ⟨h1, h12⟩]

theorem daysBefore_eq {month : ℕ} (h : month ≤ 12) (year : ℤ) :
    daysBefore year month = ((List.range' 1 (month - 1)).map (monthLength year)).sum := by
  have hlength : ∀ m ∈ List.range' 1 (month - 1), daysInMonth year m = monthLength year m := by
    intro m hm
    rw [List.mem_range'_1] at hm
    exact daysInMonth_eq ⟨hm.1, by omega⟩ year
  rw [daysBefore, ← List.map_congr_left hlength, List.sum_eq_foldl, List.foldl_map]

theorem number_eq_ordinal {d : Day} (h : d.InCalendar) : d.number = d.ordinal := by
  obtain ⟨⟨-, h12⟩, h1, -⟩ := h
  simp only [number, ordinal, daysBefore_eq h12]
  omega

theorem daysBefore_succ {month : ℕ} (h : 1 ≤ month) (year : ℤ) :
    daysBefore year (month + 1) = daysBefore year month + daysInMonth year month := by
  obtain ⟨k, rfl⟩ := Nat.exists_eq_add_of_le' h
  rw [daysBefore, daysBefore, Nat.add_sub_cancel, Nat.add_sub_cancel, List.range'_1_concat,
    List.foldl_append, Nat.add_comm k 1]
  rfl

theorem daysBefore_december (year : ℤ) :
    daysBefore year 12 = 334 + if LeapYear year then 1 else 0 := by
  rw [daysBefore_eq (by decide)]
  simp [monthLength, monthLengths, List.range']
  split <;> rfl

/-- **The days are numbered one by one.** -/
theorem number_next {d : Day} (h : d.InCalendar) : d.next.number = d.number + 1 := by
  obtain ⟨hmonth, hfirst, hlast⟩ := h
  rw [← daysInMonth_eq hmonth] at hlast
  rw [next]
  split_ifs with hday hyear
  · -- not the last day of its month
    simp only [number]
    omega
  · -- the last day of a month that is not the last of its year
    simp only [number, daysBefore_succ hmonth.1]
    omega
  · -- the last day of a year, which has one day more if it is a leap year
    have hdecember : d.month = 12 := by
      have := hmonth.2
      omega
    have hlength : daysInMonth d.year 12 = 31 := rfl
    have hjanuary : daysBefore (d.year + 1) 1 = 0 := rfl
    rw [hdecember, hlength] at hlast hday
    simp only [number, hdecember, hjanuary, daysBefore_december]
    split_ifs with hleap
    · simp only [LeapYear] at hleap
      omega
    · simp only [LeapYear] at hleap
      omega

end Day

/-! ## Written fields -/

/-- Two digits and their number. -/
def IsTwoDigits (cs : List Char) (n : ℕ) : Prop :=
  cs.length = 2 ∧ IsDigits cs ∧ wholeValue cs = n

/-- **A written year:** at least four digits after an optional minus sign, where more than four do
not start with a zero. -/
inductive IsYear : List Char → ℤ → Prop
  | intro {negative : Bool} {ds : List Char} (digits : IsDigits ds) (long : 4 ≤ ds.length)
    (lead : 4 < ds.length → ds.head? ≠ some '0') :
    IsYear ((if negative then ['-'] else []) ++ ds)
      (if negative then -wholeValue ds else wholeValue ds)

/-- **A written day.** -/
inductive IsDay : List Char → Day → Prop
  | intro {d : Day} {year month day : List Char} (hyear : IsYear year d.year)
    (hmonth : IsTwoDigits month d.month) (hday : IsTwoDigits day d.day)
    (valid : d.InCalendar) : IsDay (year ++ '-' :: (month ++ '-' :: day)) d

/-- **Written seconds,** in units of `10 ^ -18`: two digits and an optional fraction. -/
inductive IsSecond : List Char → ℕ → Prop
  | whole {ds : List Char} {n : ℕ} (digits : IsTwoDigits ds n) : IsSecond ds (n * 10 ^ 18)
  | fraction {ds fs : List Char} {n units : ℕ} (digits : IsTwoDigits ds n) (places : IsDigits fs)
    (value : fractionValue fs = units / 10 ^ 18) :
    IsSecond (ds ++ '.' :: fs) (n * 10 ^ 18 + units)

/-- **A written time of day.** Midnight can also be the end of the day. -/
inductive IsClock : List Char → Clock → Prop
  | intro {c : Clock} {hour minute second : List Char} (hhour : IsTwoDigits hour c.hour)
    (hminute : IsTwoDigits minute c.minute) (hsecond : IsSecond second c.second)
    (minutes : c.minute ≤ 59) (seconds : c.second < 60 * 10 ^ 18)
    (hours : c.hour ≤ 23 ∨ c.hour = 24 ∧ c.minute = 0 ∧ c.second = 0) :
    IsClock (hour ++ ':' :: (minute ++ ':' :: second)) c

/-- **A written zone,** which may be missing: the offset is at most fourteen hours. -/
inductive IsZone : List Char → Option Zone → Prop
  | missing : IsZone [] none
  | utc : IsZone ['Z'] (some ⟨0⟩)
  | offset {negative : Bool} {hour minute : List Char} {h m : ℕ} (hhour : IsTwoDigits hour h)
    (hminute : IsTwoDigits minute m) (limit : h ≤ 13 ∧ m ≤ 59 ∨ h = 14 ∧ m = 0) :
    IsZone ((if negative then '-' else '+') :: (hour ++ ':' :: minute))
      (some ⟨if negative then -(h * 60 + m) else h * 60 + m⟩)

/-! ## Reading fields -/

section Fields

variable {cs rest : List Char} {n : ℕ}

theorem expect?_eq_some_iff {c : Char} : expect? c cs = some rest ↔ cs = c :: rest := by
  cases cs with
  | nil => simp [expect?]
  | cons d ds =>
    rw [expect?]
    split
    next hd => simp [hd]
    next hd => simp [hd]

theorem twoDigits?_eq_some_iff :
    twoDigits? cs = some (n, rest) ↔ ∃ ds, IsTwoDigits ds n ∧ cs = ds ++ rest := by
  constructor
  · intro h
    unfold twoDigits? at h
    split at h
    next a b cs =>
      obtain ⟨k, hk, he⟩ := Option.map_eq_some_iff.1 h
      obtain ⟨rfl, rfl⟩ := Prod.mk.inj he
      obtain ⟨hne, hdigits, hvalue⟩ := natural?_eq_some_iff.1 hk
      exact ⟨[a, b], ⟨rfl, ⟨hne, hdigits⟩, (wholeValue_eq _).trans hvalue⟩, rfl⟩
    next => cases h
  · rintro ⟨ds, ⟨hlength, hdigits, hvalue⟩, rfl⟩
    obtain ⟨a, b, rfl⟩ := List.length_eq_two.1 hlength
    have hnatural : natural? [a, b] = some n :=
      natural?_eq_some_iff.2 ⟨hdigits.1, hdigits.2, (wholeValue_eq _).symm.trans hvalue⟩
    simp [twoDigits?, hnatural]

/-- What is read as a year is one. -/
theorem Day.exists_of_readYear? {y : ℤ} (h : Day.readYear? cs = some (y, rest)) :
    ∃ w, IsYear w y ∧ cs = w ++ rest := by
  unfold Day.readYear? at h
  split at h
  next negative ds hsign =>
    split at h
    next digits rest' hdigits =>
      split at h
      · cases h
      next hlong =>
        rw [not_or, not_lt, not_and] at hlong
        obtain ⟨hy, rfl⟩ := Prod.mk.inj (Option.some.inj h)
        obtain ⟨rfl, hall⟩ := splitDigits_eq hdigits
        have hne : digits ≠ [] := by
          rintro rfl
          exact absurd hlong.1 (by decide)
        refine ⟨(if negative then ['-'] else []) ++ digits, ?_, ?_⟩
        · rw [← hy, signed, ← wholeValue_eq]
          exact .intro ⟨hne, hall⟩ hlong.1 hlong.2
        · split at hsign <;> cases hsign <;> rfl

/-- A year is read up to its last digit. -/
theorem Day.readYear?_append {w : List Char} {y : ℤ} (h : IsYear w y)
    (hrest : ∀ c ∈ rest.head?, ¬ c.isDigit) : Day.readYear? (w ++ rest) = some (y, rest) := by
  obtain @⟨negative, ds, digits, long, lead⟩ := h
  have hlong : ¬ (ds.length < 4 ∨ 4 < ds.length ∧ ds.head? = some '0') := by
    rw [not_or, not_lt, not_and]
    exact ⟨long, lead⟩
  have hsplit := splitDigits_append digits.2 hrest
  cases negative with
  | true => simp [Day.readYear?, hsplit, hlong, signed, wholeValue_eq]
  | false =>
    unfold Day.readYear?
    split
    next negative cs hsign =>
      obtain ⟨rfl, rfl⟩ : negative = false ∧ cs = ds ++ rest := by
        split at hsign
        next he =>
          -- the first character would be a digit and a minus sign
          obtain ⟨d, ds, rfl⟩ := List.exists_cons_of_ne_nil digits.1
          obtain rfl := (List.cons.inj he).1
          exact absurd (digits.2 '-' List.mem_cons_self) (by decide)
        next =>
          cases hsign
          exact ⟨rfl, rfl⟩
      simp [hsplit, hlong, signed, wholeValue_eq]

/-- **Which texts start with a day.** -/
theorem Day.read?_eq_some_iff {d : Day} :
    Day.read? cs = some (d, rest) ↔ ∃ w, IsDay w d ∧ cs = w ++ rest := by
  simp only [Day.read?, Option.bind_eq_bind, Option.bind_eq_some_iff, expect?_eq_some_iff]
  constructor
  · rintro ⟨⟨year, cs₁⟩, hyear, _, rfl, ⟨month, cs₂⟩, hmonth, _, rfl, ⟨day, cs₃⟩, hday, h⟩
    split at h
    next hvalid =>
      obtain ⟨rfl, rfl⟩ := Prod.mk.inj (Option.some.inj h)
      obtain ⟨y, hy, rfl⟩ := Day.exists_of_readYear? hyear
      obtain ⟨m, hm, rfl⟩ := twoDigits?_eq_some_iff.1 hmonth
      obtain ⟨n, hn, rfl⟩ := twoDigits?_eq_some_iff.1 hday
      exact ⟨_, .intro hy hm hn (Day.isValid_iff.1 hvalid), by simp⟩
    next => cases h
  · rintro ⟨_, @⟨_, year, month, day, hyear, hmonth, hday, valid⟩, rfl⟩
    refine ⟨(d.year, '-' :: (month ++ '-' :: (day ++ rest))), ?_, _, rfl,
      (d.month, '-' :: (day ++ rest)), twoDigits?_eq_some_iff.2 ⟨month, hmonth, rfl⟩, _, rfl,
      (d.day, rest), twoDigits?_eq_some_iff.2 ⟨day, hday, rfl⟩, ?_⟩
    · have happend : Day.readYear? (year ++ '-' :: (month ++ '-' :: (day ++ rest))) = _ :=
        Day.readYear?_append hyear (by simp)
      simpa using happend
    · exact if_pos (Day.isValid_iff.2 valid)

/-- What is read as seconds is some. -/
theorem Clock.exists_of_readSecond? (h : Clock.readSecond? cs = some (n, rest)) :
    ∃ w, IsSecond w n ∧ cs = w ++ rest := by
  simp only [Clock.readSecond?, Option.bind_eq_bind, Option.bind_eq_some_iff] at h
  obtain ⟨⟨whole, cs'⟩, hwhole, h⟩ := h
  obtain ⟨ds, hds, rfl⟩ := twoDigits?_eq_some_iff.1 hwhole
  dsimp only at h
  split at h
  next fs =>
    split at h
    · cases h
    next hne =>
      obtain ⟨units, hunits, h⟩ := Option.bind_eq_some_iff.1 h
      obtain ⟨rfl, rfl⟩ := Prod.mk.inj (Option.some.inj h)
      -- the fraction goes up to the first character that is no digit
      have hsplit : splitDigits fs = ((splitDigits fs).1, (splitDigits fs).2) := rfl
      obtain ⟨hfs, hall⟩ := splitDigits_eq hsplit
      rw [List.isEmpty_iff] at hne
      refine ⟨ds ++ '.' :: (splitDigits fs).1, ?_, ?_⟩
      · exact .fraction hds ⟨hne, hall⟩ ((fraction?_eq_some_iff hall).1 hunits)
      · rw [List.append_assoc, List.cons_append, ← hfs]
  next =>
    obtain ⟨rfl, rfl⟩ := Prod.mk.inj (Option.some.inj h)
    exact ⟨ds, .whole hds, rfl⟩

/-- Seconds are read up to their last digit. -/
theorem Clock.readSecond?_append {w : List Char} (h : IsSecond w n)
    (hrest : ∀ c ∈ rest.head?, ¬ c.isDigit ∧ c ≠ '.') :
    Clock.readSecond? (w ++ rest) = some (n, rest) := by
  simp only [Clock.readSecond?, Option.bind_eq_bind, Option.bind_eq_some_iff]
  cases h with
  | whole digits =>
    refine ⟨_, twoDigits?_eq_some_iff.2 ⟨_, digits, rfl⟩, ?_⟩
    dsimp only
    split
    next => exact absurd rfl (hrest '.' rfl).2
    next => rfl
  | @fraction ds fs n units digits places value =>
    have hsplit : splitDigits (fs ++ rest) = (fs, rest) :=
      splitDigits_append places.2 fun c hc => (hrest c hc).1
    refine ⟨(n, '.' :: (fs ++ rest)), twoDigits?_eq_some_iff.2 ⟨_, digits, by simp⟩, ?_⟩
    have hfraction : fraction? decimalPlaces fs = some units :=
      (fraction?_eq_some_iff places.2).2 value
    simp only [hsplit, List.isEmpty_iff, places.1, hfraction]
    rfl

theorem Clock.isValid_iff {c : Clock} : c.isValid ↔ c.minute ≤ 59 ∧ c.second < 60 * 10 ^ 18 ∧
    (c.hour ≤ 23 ∨ c.hour = 24 ∧ c.minute = 0 ∧ c.second = 0) := by
  simp only [Clock.isValid, Bool.and_eq_true, Bool.or_eq_true, decide_eq_true_iff, and_assoc]
  rfl

/-- What is read as a time of day is one. -/
theorem Clock.exists_of_read? {c : Clock} (h : Clock.read? cs = some (c, rest)) :
    ∃ w, IsClock w c ∧ cs = w ++ rest := by
  simp only [Clock.read?, Option.bind_eq_bind, Option.bind_eq_some_iff, expect?_eq_some_iff] at h
  obtain ⟨⟨hour, cs₁⟩, hhour, _, rfl, ⟨minute, cs₂⟩, hminute, _, rfl, ⟨second, cs₃⟩, hsecond, h⟩ :=
    h
  split at h
  next hvalid =>
    obtain ⟨rfl, rfl⟩ := Prod.mk.inj (Option.some.inj h)
    obtain ⟨hs, hhs, rfl⟩ := twoDigits?_eq_some_iff.1 hhour
    obtain ⟨ms, hms, rfl⟩ := twoDigits?_eq_some_iff.1 hminute
    obtain ⟨ss, hss, rfl⟩ := Clock.exists_of_readSecond? hsecond
    obtain ⟨hminutes, hseconds, hhours⟩ := Clock.isValid_iff.1 hvalid
    exact ⟨_, .intro hhs hms hss hminutes hseconds hhours, by simp⟩
  next => cases h

/-- A time of day is read up to its last digit. -/
theorem Clock.read?_append {w : List Char} {c : Clock} (h : IsClock w c)
    (hrest : ∀ c ∈ rest.head?, ¬ c.isDigit ∧ c ≠ '.') :
    Clock.read? (w ++ rest) = some (c, rest) := by
  obtain @⟨_, hour, minute, second, hhour, hminute, hsecond, minutes, seconds, hours⟩ := h
  simp only [Clock.read?, Option.bind_eq_bind, Option.bind_eq_some_iff, expect?_eq_some_iff]
  refine ⟨(c.hour, ':' :: (minute ++ ':' :: (second ++ rest))),
    twoDigits?_eq_some_iff.2 ⟨hour, hhour, by simp⟩, _, rfl, (c.minute, ':' :: (second ++ rest)),
    twoDigits?_eq_some_iff.2 ⟨minute, hminute, rfl⟩, _, rfl, (c.second, rest),
    Clock.readSecond?_append hsecond hrest, if_pos ?_⟩
  exact Clock.isValid_iff.2 ⟨minutes, seconds, hours⟩

theorem Zone.offset?_eq_some_iff {negative : Bool} {z : Zone} :
    Zone.offset? negative cs = some z ↔ ∃ hour minute h m, IsTwoDigits hour h ∧
      IsTwoDigits minute m ∧ (h ≤ 13 ∧ m ≤ 59 ∨ h = 14 ∧ m = 0) ∧
      cs = hour ++ ':' :: minute ∧ z = ⟨signed negative (h * 60 + m)⟩ := by
  simp only [Zone.offset?, Option.bind_eq_bind, Option.bind_eq_some_iff, expect?_eq_some_iff]
  constructor
  · rintro ⟨⟨h, cs₁⟩, hhour, _, rfl, ⟨m, cs₂⟩, hminute, hz⟩
    split at hz
    next hlimit =>
      simp only [Bool.and_eq_true, Bool.or_eq_true, decide_eq_true_iff, List.isEmpty_iff] at hlimit
      obtain ⟨rfl, hlimit⟩ := hlimit
      obtain ⟨hour, hh, rfl⟩ := twoDigits?_eq_some_iff.1 hhour
      obtain ⟨minute, hm, rfl⟩ := twoDigits?_eq_some_iff.1 hminute
      exact ⟨hour, minute, h, m, hh, hm, hlimit, by simp, (Option.some.inj hz).symm⟩
    next => cases hz
  · rintro ⟨hour, minute, h, m, hh, hm, hlimit, rfl, rfl⟩
    refine ⟨(h, ':' :: minute), twoDigits?_eq_some_iff.2 ⟨hour, hh, rfl⟩, _, rfl, (m, []),
      twoDigits?_eq_some_iff.2 ⟨minute, hm, by simp⟩, if_pos ?_⟩
    simpa using hlimit

/-- **Which texts are zones.** -/
theorem Zone.read?_eq_some_iff {z : Option Zone} : Zone.read? cs = some z ↔ IsZone cs z := by
  -- what follows a sign is an offset or nothing that can be read
  have hoffset : ∀ {negative : Bool} {ds : List Char},
      (Zone.offset? negative ds).map some = some z ↔
        ∃ z', Zone.offset? negative ds = some z' ∧ some z' = z := Option.map_eq_some_iff
  constructor
  · intro h
    unfold Zone.read? at h
    split at h
    · cases h
      exact .missing
    · cases h
      exact .utc
    next ds =>
      obtain ⟨z', hz, rfl⟩ := hoffset.1 h
      obtain ⟨hour, minute, h, m, hh, hm, hlimit, rfl, rfl⟩ := Zone.offset?_eq_some_iff.1 hz
      exact @IsZone.offset false _ _ _ _ hh hm hlimit
    next ds =>
      obtain ⟨z', hz, rfl⟩ := hoffset.1 h
      obtain ⟨hour, minute, h, m, hh, hm, hlimit, rfl, rfl⟩ := Zone.offset?_eq_some_iff.1 hz
      exact @IsZone.offset true _ _ _ _ hh hm hlimit
    · cases h
  · intro h
    cases h with
    | missing => rfl
    | utc => rfl
    | @offset negative hour minute h m hhour hminute limit =>
      have hz : Zone.offset? negative (hour ++ ':' :: minute) = _ :=
        Zone.offset?_eq_some_iff.2 ⟨hour, minute, h, m, hhour, hminute, limit, rfl, rfl⟩
      cases negative with
      | false => exact hoffset.2 ⟨_, hz, rfl⟩
      | true => exact hoffset.2 ⟨_, hz, rfl⟩

/-- A zone does not go on with the digits before it. -/
theorem IsZone.head?_ne {z : Option Zone} (h : IsZone cs z) :
    ∀ c ∈ cs.head?, ¬ c.isDigit ∧ c ≠ '.' := by
  cases h with
  | missing => simp
  | utc => simp
  | @offset negative => cases negative <;> simp

end Fields

/-! ## Places in time -/

section Places

variable {cs : List Char} {d : Day} {c : Clock} {z : Option Zone} {v : Value}

/-- The whole minutes from the start of year one to a moment; one without a zone is counted as if
its zone had no offset. -/
def wholeMinutes (d : Day) (c : Clock) (z : Option Zone) : ℤ :=
  1440 * d.ordinal + 60 * c.hour + c.minute - z.elim 0 Zone.offset

/-- **The numbers of a signed word** with some bits beside the sign. -/
def IsWord (bits : ℕ) (z : ℤ) : Prop := -2 ^ bits ≤ z ∧ z ≤ 2 ^ bits - 1

/-- **The moments within reach:** in units of `10 ^ -18` seconds from the start of year one, both
the moment and the start of its minute are numbers of 128 bits. -/
def WithinReach (d : Day) (c : Clock) (z : Option Zone) : Prop :=
  IsWord 127 (60 * wholeMinutes d c z * 10 ^ 18) ∧
    IsWord 127 (60 * wholeMinutes d c z * 10 ^ 18 + c.second)

/-- **A written date.** -/
inductive IsDate : List Char → Day → Option Zone → Prop
  | intro {day zone : List Char} {d : Day} {z : Option Zone} (hday : IsDay day d)
    (hzone : IsZone zone z) (reach : WithinReach d .midnight z) : IsDate (day ++ zone) d z

/-- **A written moment.** -/
inductive IsDateTime : List Char → Day → Clock → Option Zone → Prop
  | intro {day clock zone : List Char} {d : Day} {c : Clock} {z : Option Zone} (hday : IsDay day d)
    (hclock : IsClock clock c) (hzone : IsZone zone z) (reach : WithinReach d c z) :
    IsDateTime (day ++ 'T' :: (clock ++ zone)) d c z

/-- **A written time of day,** with its zone. -/
inductive IsTime : List Char → Clock → Option Zone → Prop
  | intro {clock zone : List Char} {c : Clock} {z : Option Zone} (hclock : IsClock clock c)
    (hzone : IsZone zone z) : IsTime (clock ++ zone) c z

theorem IsDay.inCalendar (h : IsDay cs d) : d.InCalendar := by
  cases h with
  | intro _ _ _ valid => exact valid

/-- The end of a day has no minutes and seconds after it. -/
theorem IsClock.eq_zero_of_hour (h : IsClock cs c) (hour : c.hour = 24) :
    c.minute = 0 ∧ c.second = 0 := by
  cases h with
  | intro _ _ _ _ _ hours => omega

theorem onTimeLine_iff : onTimeLine d c z ↔
    IsWord 127 (minuteInstant d c z) ∧ IsWord 127 (instant d c z) := by
  rw [onTimeLine, Bool.and_eq_true, fitsWord_iff, fitsWord_iff]
  rfl

theorem minuteInstant_eq (h : d.InCalendar) :
    minuteInstant d c z = 60 * wholeMinutes d c z * 10 ^ 18 := by
  have hzone : (z.map Zone.offset).getD 0 = z.elim 0 Zone.offset := by
    cases z with
    | none => rfl
    | some z => rfl
  rw [minuteInstant, wholeMinutes, Day.number_eq_ordinal h, hzone]
  rfl

theorem onTimeLine_iff_withinReach (h : d.InCalendar) : onTimeLine d c z ↔ WithinReach d c z := by
  rw [onTimeLine_iff, instant, minuteInstant_eq h]
  rfl

/-- The start of the next day is the end of a day. -/
theorem onTimeLine_next (h : d.InCalendar) (hour : c.hour = 24)
    (hzero : c.minute = 0 ∧ c.second = 0) :
    onTimeLine d.next .midnight z ↔ WithinReach d c z := by
  have hminute : minuteInstant d.next .midnight z = minuteInstant d c z := by
    simp only [minuteInstant, Day.number_next h, Clock.midnight, hour, hzero.1]
    congr 2
    push_cast
    ring
  rw [← onTimeLine_iff_withinReach h, onTimeLine_iff, onTimeLine_iff, instant, instant, hminute,
    hzero.2]
  rfl

/-- **Which texts are read as dates.** -/
theorem date?_eq_some_iff : date? cs = some v ↔ ∃ d z, IsDate cs d z ∧ v = .date d z := by
  simp only [date?, Option.bind_eq_bind, Option.bind_eq_some_iff, Prod.exists]
  constructor
  · rintro ⟨d, rest, hread, z, hzone, h⟩
    obtain ⟨day, hday, rfl⟩ := Day.read?_eq_some_iff.1 hread
    split at h
    next hline =>
      have hreach := (onTimeLine_iff_withinReach hday.inCalendar).1 hline
      exact ⟨d, z, .intro hday (Zone.read?_eq_some_iff.1 hzone) hreach, (Option.some.inj h).symm⟩
    next => cases h
  · rintro ⟨d, z, @⟨day, zone, _, _, hday, hzone, reach⟩, rfl⟩
    refine ⟨d, zone, Day.read?_eq_some_iff.2 ⟨day, hday, rfl⟩, z,
      Zone.read?_eq_some_iff.2 hzone, ?_⟩
    exact if_pos ((onTimeLine_iff_withinReach hday.inCalendar).2 reach)

/-- **Which texts are read as moments.** The end of a day becomes the start of the next one. -/
theorem dateTime?_eq_some_iff : dateTime? cs = some v ↔ ∃ d c z, IsDateTime cs d c z ∧
    v = .dateTime (if c.hour = 24 then d.next else d) (if c.hour = 24 then .midnight else c) z := by
  simp only [dateTime?, Option.bind_eq_bind, Option.bind_eq_some_iff, Prod.exists,
    expect?_eq_some_iff]
  constructor
  · rintro ⟨d, _, hreadDay, rest, rfl, c, rest', hreadClock, z, hreadZone, h⟩
    obtain ⟨day, hday, rfl⟩ := Day.read?_eq_some_iff.1 hreadDay
    obtain ⟨clock, hclock, rfl⟩ := Clock.exists_of_read? hreadClock
    have hzone := Zone.read?_eq_some_iff.1 hreadZone
    -- the end of a day is looked up as the start of the next one, which is the same moment
    by_cases hour : c.hour = 24
    · simp only [hour, if_true, Option.ite_none_right_eq_some] at h
      have hreach := (onTimeLine_next hday.inCalendar hour (hclock.eq_zero_of_hour hour)).1 h.1
      refine ⟨d, c, z, .intro hday hclock hzone hreach, ?_⟩
      rw [if_pos hour, if_pos hour]
      exact (Option.some.inj h.2).symm
    · simp only [hour, if_false, Option.ite_none_right_eq_some] at h
      have hreach := (onTimeLine_iff_withinReach hday.inCalendar).1 h.1
      refine ⟨d, c, z, .intro hday hclock hzone hreach, ?_⟩
      rw [if_neg hour, if_neg hour]
      exact (Option.some.inj h.2).symm
  · rintro ⟨d, c, z, @⟨day, clock, zone, _, _, _, hday, hclock, hzone, reach⟩, rfl⟩
    refine ⟨d, 'T' :: (clock ++ zone), Day.read?_eq_some_iff.2 ⟨day, hday, rfl⟩, _, rfl, c, zone,
      Clock.read?_append hclock hzone.head?_ne, z, Zone.read?_eq_some_iff.2 hzone, ?_⟩
    by_cases hour : c.hour = 24
    · simp only [hour, if_true]
      exact if_pos ((onTimeLine_next hday.inCalendar hour (hclock.eq_zero_of_hour hour)).2 reach)
    · simp only [hour, if_false]
      exact if_pos ((onTimeLine_iff_withinReach hday.inCalendar).2 reach)

/-- **Which texts are read as times of day.** The end of a day becomes its start. -/
theorem time?_eq_some_iff : time? cs = some v ↔ ∃ c z, IsTime cs c z ∧
    v = .time (if c.hour = 24 then .midnight else c) z := by
  simp only [time?, Option.bind_eq_bind, Option.bind_eq_some_iff, Prod.exists]
  constructor
  · rintro ⟨c, rest, hread, z, hzone, h⟩
    obtain ⟨clock, hclock, rfl⟩ := Clock.exists_of_read? hread
    exact ⟨c, z, .intro hclock (Zone.read?_eq_some_iff.1 hzone), (Option.some.inj h).symm⟩
  · rintro ⟨c, z, @⟨clock, zone, _, _, hclock, hzone⟩, rfl⟩
    exact ⟨c, zone, Clock.read?_append hclock hzone.head?_ne, z,
      Zone.read?_eq_some_iff.2 hzone, rfl⟩

end Places

end ShapeRules.Value
