import ShapeRules.Value.Exact

/-!
# Days, clocks and time zones

Days follow the Gregorian calendar, extended to all years, with a year zero before year one. A
clock counts its seconds in units of `10 ^ -18`. A zone is an offset of whole minutes. Midnight at
the end of a day, `24:00:00`, is the start of the next one.

## Main definitions

* `Day`, `Clock`, `Zone`: the parts of a moment
* `Day.read?`, `Clock.read?`, `Zone.read?`: reading one at the start of a text
* `Day.text`, `Clock.text`, `Zone.text`: the written forms
* `instant`: the place of a moment on the time line
* `momentText`: the written form of a moment
-/

namespace ShapeRules.Value

/-- **A day of the calendar.** -/
structure Day where
  year : Int
  month : Nat
  day : Nat
  deriving DecidableEq, Repr

/-- **A time of day,** with the seconds in units of `10 ^ -18`. -/
structure Clock where
  hour : Nat
  minute : Nat
  second : Nat
  deriving DecidableEq, Repr

/-- **A time zone,** as an offset in minutes. -/
structure Zone where
  offset : Int
  deriving DecidableEq, Repr

/-- The number of two digits at the start of a text, and what follows. -/
def twoDigits? : List Char → Option (Nat × List Char)
  | a :: b :: cs => (natural? [a, b]).map (·, cs)
  | _ => none

/-- What follows a character at the start of a text. -/
def expect? (c : Char) : List Char → Option (List Char)
  | d :: cs => if d = c then some cs else none
  | [] => none

namespace Day

/-- Whether a year has a leap day. -/
def isLeap (year : Int) : Bool :=
  year % 4 = 0 && (year % 100 != 0 || year % 400 = 0)

/-- The number of days of a month. -/
def daysInMonth (year : Int) (month : Nat) : Nat :=
  if month = 2 then (if isLeap year then 29 else 28)
  else if month ∈ [4, 6, 9, 11] then 30
  else 31

/-- Whether a day is in the calendar. -/
def isValid (d : Day) : Bool :=
  1 ≤ d.month && d.month ≤ 12 && 1 ≤ d.day && d.day ≤ daysInMonth d.year d.month

/-- The day after a day. -/
def next (d : Day) : Day :=
  if d.day < daysInMonth d.year d.month then { d with day := d.day + 1 }
  else if d.month < 12 then { d with month := d.month + 1, day := 1 }
  else ⟨d.year + 1, 1, 1⟩

/-- The number of days of a year before a month. -/
def daysBefore (year : Int) (month : Nat) : Nat :=
  (List.range' 1 (month - 1)).foldl (fun n m => n + daysInMonth year m) 0

/-- The number of days from the first day of year one. -/
def number (d : Day) : Int :=
  let y := d.year - 1
  365 * y + y / 4 - y / 100 + y / 400 + daysBefore d.year d.month + (d.day - 1 : Nat)

/-- The year at the start of a text: an optional minus sign and at least four digits, where more
than four do not start with a zero. -/
def readYear? (cs : List Char) : Option (Int × List Char) :=
  let (negative, cs) :=
    match cs with
    | '-' :: cs => (true, cs)
    | cs => (false, cs)
  let (digits, rest) := splitDigits cs
  if digits.length < 4 ∨ (4 < digits.length ∧ digits.head? = some '0') then none
  else some (signed negative (natOfDigits digits), rest)

/-- The day at the start of a text. -/
def read? (cs : List Char) : Option (Day × List Char) := do
  let (year, cs) ← readYear? cs
  let (month, cs) ← twoDigits? (← expect? '-' cs)
  let (day, cs) ← twoDigits? (← expect? '-' cs)
  let d : Day := ⟨year, month, day⟩
  if d.isValid then some (d, cs) else none

/-- The written form of a day. -/
def text (d : Day) : List Char :=
  (if d.year < 0 then ['-'] else []) ++ padded 4 d.year.natAbs ++
    '-' :: padded 2 d.month ++ '-' :: padded 2 d.day

end Day

namespace Clock

/-- The start of a day. -/
def midnight : Clock := ⟨0, 0, 0⟩

/-- The seconds at the start of a text: two digits, then an optional point and digits. -/
def readSecond? (cs : List Char) : Option (Nat × List Char) := do
  let (whole, cs) ← twoDigits? cs
  match cs with
  | '.' :: cs =>
    let (digits, rest) := splitDigits cs
    if digits.isEmpty then none
    else
      let units ← fraction? decimalPlaces digits
      some (whole * tenTo decimalPlaces + units, rest)
  | _ => some (whole * tenTo decimalPlaces, cs)

/-- Whether a clock shows a time of the day, or midnight at its end. -/
def isValid (c : Clock) : Bool :=
  c.minute ≤ 59 && c.second < 60 * tenTo decimalPlaces &&
    (c.hour ≤ 23 || (c.hour = 24 && c.minute = 0 && c.second = 0))

/-- The time of day at the start of a text. -/
def read? (cs : List Char) : Option (Clock × List Char) := do
  let (hour, cs) ← twoDigits? cs
  let (minute, cs) ← twoDigits? (← expect? ':' cs)
  let (second, cs) ← readSecond? (← expect? ':' cs)
  let c : Clock := ⟨hour, minute, second⟩
  if c.isValid then some (c, cs) else none

/-- The written form of a time of day. -/
def text (c : Clock) : List Char :=
  padded 2 c.hour ++ ':' :: padded 2 c.minute ++ ':' ::
    padded 2 (c.second / tenTo decimalPlaces) ++
    fractionText decimalPlaces (c.second % tenTo decimalPlaces)

end Clock

namespace Zone

/-- The offset of hours and minutes: at most fourteen hours. -/
def offset? (negative : Bool) (cs : List Char) : Option Zone := do
  let (hour, cs) ← twoDigits? cs
  let (minute, cs) ← twoDigits? (← expect? ':' cs)
  if cs.isEmpty && ((hour ≤ 13 && minute ≤ 59) || (hour = 14 && minute = 0)) then
    some ⟨signed negative (hour * 60 + minute)⟩
  else none

/-- The optional zone that ends a text; anything else is refused. -/
def read? : List Char → Option (Option Zone)
  | [] => some none
  | ['Z'] => some (some ⟨0⟩)
  | '+' :: cs => (offset? false cs).map some
  | '-' :: cs => (offset? true cs).map some
  | _ => none

/-- The written form of a zone. -/
def text (z : Zone) : List Char :=
  if z.offset = 0 then ['Z']
  else
    (if z.offset < 0 then '-' else '+') ::
      padded 2 (z.offset.natAbs / 60) ++ ':' :: padded 2 (z.offset.natAbs % 60)

end Zone

/-- The place of the minute of a moment on the time line, in units of `10 ^ -18` seconds from the
start of year one; a moment without a zone is placed as if its zone had no offset. -/
def minuteInstant (d : Day) (c : Clock) (z : Option Zone) : Int :=
  60 * (1440 * d.number + 60 * c.hour + c.minute - (z.map Zone.offset).getD 0) *
    tenTo decimalPlaces

/-- The place of a moment on the time line. -/
def instant (d : Day) (c : Clock) (z : Option Zone) : Int :=
  minuteInstant d c z + c.second

/-- Whether a moment and the start of its minute both fit the word of a decimal. -/
def onTimeLine (d : Day) (c : Clock) (z : Option Zone) : Bool :=
  fitsWord 128 (minuteInstant d c z) && fitsWord 128 (instant d c z)

/-- The minute after a minute, with the same seconds. -/
def nextMinute (d : Day) (c : Clock) : Day × Clock :=
  if c.minute < 59 then (d, { c with minute := c.minute + 1 })
  else if c.hour < 23 then (d, ⟨c.hour + 1, 0, c.second⟩)
  else (d.next, ⟨0, 0, c.second⟩)

/-- The day and clock that a moment is shown with. The minute shown is the one that the moment falls
into when cut to whole seconds towards the start of year one, so that before it, the last fraction
of a minute is counted with the next. -/
def shown (d : Day) (c : Clock) (z : Option Zone) : Day × Clock :=
  if instant d c z < 0 ∧ 59 * tenTo decimalPlaces < c.second then nextMinute d c else (d, c)

/-- The written form of an optional zone. -/
def zoneText (z : Option Zone) : List Char :=
  (z.map Zone.text).getD []

/-- The written form of a moment. -/
def momentText (d : Day) (c : Clock) (z : Option Zone) : List Char :=
  let (day, clock) := shown d c z
  day.text ++ 'T' :: clock.text ++ zoneText z

end ShapeRules.Value
