import Biblio.Text.Scan

/-! Dates of the Gregorian calendar, extended to all years.

    A date is written as year, month and day with hyphens between them. The years 0 to 9999 have
    four digits; all others have a sign and at least four digits. Blanks may stand around the parts
    of a text that is read, and leading zeros may be missing. -/

namespace Biblio

namespace Date

/-- Years divisible by four, but of the centuries only those divisible by 400. -/
def isLeapYear (year : Int) : Bool := year % 4 == 0 && (year % 100 != 0 || year % 400 == 0)

/-- The number of days of a month, zero for a month that does not exist. -/
def daysInMonth (year : Int) (month : Nat) : Nat :=
  match month with
  | 2 => if isLeapYear year then 29 else 28
  | 4 | 6 | 9 | 11 => 30
  | 1 | 3 | 5 | 7 | 8 | 10 | 12 => 31
  | _ => 0

/-- The first year of the calendar. -/
def firstYear : Int := -262143

/-- The last year of the calendar. -/
def lastYear : Int := 262142

/-- The calendar has this day. -/
def Exists (year : Int) (month day : Nat) : Prop :=
  firstYear ≤ year ∧ year ≤ lastYear ∧ 1 ≤ day ∧ day ≤ daysInMonth year month

instance (year : Int) (month day : Nat) : Decidable (Exists year month day) :=
  inferInstanceAs (Decidable (_ ∧ _))

end Date

/-- A day of the calendar. -/
structure Date where
  year : Int
  month : Nat
  day : Nat
  exist : Date.Exists year month day
  deriving DecidableEq, Repr

namespace Date

/-- The day of these numbers, if the calendar has it. -/
def of? (year : Int) (month day : Nat) : Option Date :=
  if h : Exists year month day then some ⟨year, month, day, h⟩ else none

/-- A day is found by its numbers. -/
theorem of?_self (d : Date) : of? d.year d.month d.day = some d := by
  simp [of?, d.exist]

/-- The next day, unless this is the last one. -/
def next? (d : Date) : Option Date :=
  if d.day < daysInMonth d.year d.month then of? d.year d.month (d.day + 1)
  else if d.month < 12 then of? d.year (d.month + 1) 1
  else of? (d.year + 1) 1 1

/-- The day before, unless this is the first one. -/
def previous? (d : Date) : Option Date :=
  if 1 < d.day then of? d.year d.month (d.day - 1)
  else if 1 < d.month then of? d.year (d.month - 1) (daysInMonth d.year (d.month - 1))
  else of? (d.year - 1) 12 31

/-! ### Text -/

/-- The text of a year. -/
def yearChars (year : Int) : List Char :=
  if 0 ≤ year ∧ year ≤ 9999 then Text.decimalPadded 4 year.natAbs
  else (if year < 0 then '-' else '+') :: Text.decimalPadded 4 year.natAbs

/-- The text of a day. -/
def chars (d : Date) : List Char :=
  yearChars d.year ++ '-' :: Text.decimalPadded 2 d.month ++ '-' :: Text.decimalPadded 2 d.day

/-- The text of a day. -/
def text (d : Date) : String := String.ofList d.chars

/-- A year: with a sign any number of digits, without one at most four. -/
def scanYear : Text.Scan Int
  | '-' :: rest => (Text.allDigits rest).map fun (n, after) => (-n, after)
  | '+' :: rest => (Text.allDigits rest).map fun (n, after) => (n, after)
  | cs => (Text.someDigits 4 cs).map fun (n, after) => (n, after)

/-- A hyphen that may have blanks in front. -/
def scanHyphen : Text.Scan Unit := Text.behindBlanks (Text.literal '-')

/-- A day with blanks wherever there may be some, but not behind it. -/
def scan : Text.Scan Date := fun cs => do
  let (year, cs) ← Text.behindBlanks scanYear cs
  let (_, cs) ← scanHyphen cs
  let (month, cs) ← Text.behindBlanks (Text.someDigits 2) cs
  let (_, cs) ← scanHyphen cs
  let (day, cs) ← Text.behindBlanks (Text.someDigits 2) cs
  let d ← of? year month day
  return (d, cs)

/-- The day that a text stands for. -/
def parse? (s : String) : Option Date := do
  let (d, rest) ← scan s.toList
  if Text.trimStart rest = [] then some d else none

end Date

end Biblio
