import Biblio.Calendar.Instant

/-! The texts of instants.

    An instant is written as date and time of day with `T` between them and the zone behind: `Z`, or
    `+00:00` where the catalog stores it. The fraction of the second has 0, 3, 6 or 9 digits, the
    fewest that lose nothing. `Timestamp.parse?` reads this form with any zone and any number of
    digits; `Timestamp.parseLoosely?` lets blanks stand between the parts besides. -/

namespace Biblio

namespace Instant

/-- The digits of a fraction of a second behind a point, the fewest of 0, 3, 6 and 9. -/
def fractionChars (nano : Nat) : List Char :=
  if nano = 0 then []
  else if nano % 1000000 = 0 then '.' :: Text.decimalPadded 3 (nano / 1000000)
  else if nano % 1000 = 0 then '.' :: Text.decimalPadded 6 (nano / 1000)
  else '.' :: Text.decimalPadded 9 nano

/-- The second of the minute; 60 in a leap second. -/
def secondOfMinute (t : Instant) : Nat :=
  t.second % 60 + if 1000000000 ≤ t.nano then 1 else 0

/-- Hours, minutes and seconds with colons between them. -/
def clockChars (t : Instant) : List Char :=
  Text.decimalPadded 2 (t.second / 3600) ++ ':' :: Text.decimalPadded 2 (t.second / 60 % 60)
    ++ ':' :: Text.decimalPadded 2 t.secondOfMinute

/-- Date and time of day, without a zone. -/
def localChars (t : Instant) : List Char :=
  t.date.chars ++ 'T' :: t.clockChars ++ fractionChars (t.nano % 1000000000)

/-- The text that the catalog stores. -/
def storedText (t : Instant) : String := String.ofList (t.localChars ++ "+00:00".toList)

/-- The text with `Z` for the zone. -/
def text (t : Instant) : String := String.ofList (t.localChars ++ ['Z'])

/-- Date and time of day to the second, with a blank between them. -/
def plainText (t : Instant) : String := String.ofList (t.date.chars ++ ' ' :: t.clockChars)

end Instant

namespace Timestamp

/-- The nanoseconds of a fraction: digits behind the ninth do not count. -/
def scanFraction : Text.Scan Nat
  | '.' :: rest =>
    let ds := rest.takeWhile Text.isAsciiDigit
    if ds.isEmpty then none
    else
      let kept := ds.take 9
      some (Text.ofDigits 10 (kept.map Text.digitValue) * Nat.pow 10 (9 - kept.length),
        rest.drop ds.length)
  | cs => some (0, cs)

/-- Whether a sign of a zone points behind universal time. -/
def scanSign : Text.Scan Bool
  | '+' :: rest => some (false, rest)
  | '-' :: rest => some (true, rest)
  | '−' :: rest => some (true, rest)
  | _ => none

/-- The second of the day and the nanosecond of a clock reading; the second 60 is a leap second. -/
def clock? (hour minute second nano : Nat) : Option (Nat × Nat) :=
  if hour < 24 ∧ minute < 60 ∧ second ≤ 60 then
    let s := hour * 3600 + minute * 60
    if second = 60 then some (s + 59, nano + 1000000000) else some (s + second, nano)
  else none

/-- The seconds by which a zone is ahead of universal time; less than a day either way. -/
def ahead? (behind : Bool) (hours minutes : Nat) : Option Int :=
  if minutes < 60 ∧ hours < 24 then
    let s : Int := hours * 3600 + minutes * 60
    some (if behind then -s else s)
  else none

/-- A zone, with `colon` between hours and minutes. -/
def scanZone (colon : Text.Scan Unit) : Text.Scan Int
  | 'Z' :: rest => some (0, rest)
  | 'z' :: rest => some (0, rest)
  | cs => do
    let (behind, cs) ← scanSign cs
    let (hours, cs) ← Text.fixedDigits 2 cs
    let (_, cs) ← colon cs
    let (minutes, cs) ← Text.fixedDigits 2 cs
    let s ← ahead? behind hours minutes
    return (s, cs)

/-- What stands between date and time. -/
def scanDivider : Text.Scan Unit
  | 'T' :: rest => some ((), rest)
  | 't' :: rest => some ((), rest)
  | ' ' :: rest => some ((), rest)
  | _ => none

/-- A date of fixed width. -/
def scanDate : Text.Scan Date := fun cs => do
  let (year, cs) ← Text.fixedDigits 4 cs
  let (_, cs) ← Text.literal '-' cs
  let (month, cs) ← Text.fixedDigits 2 cs
  let (_, cs) ← Text.literal '-' cs
  let (day, cs) ← Text.fixedDigits 2 cs
  let d ← Date.of? year month day
  return (d, cs)

/-- A time of day of fixed width, and its fraction. -/
def scanClock : Text.Scan (Nat × Nat) := fun cs => do
  let (hour, cs) ← Text.fixedDigits 2 cs
  let (_, cs) ← Text.literal ':' cs
  let (minute, cs) ← Text.fixedDigits 2 cs
  let (_, cs) ← Text.literal ':' cs
  let (second, cs) ← Text.fixedDigits 2 cs
  let (nano, cs) ← scanFraction cs
  let c ← clock? hour minute second nano
  return (c, cs)

/-- The instant of a text in the strict form. -/
def parse? (s : String) : Option Instant := do
  let (date, cs) ← scanDate s.toList
  let (_, cs) ← scanDivider cs
  let ((second, nano), cs) ← scanClock cs
  let ahead ← Text.whole (scanZone (Text.literal ':')) cs
  Instant.ofLocal? date second nano ahead

/-- A time of day with blanks wherever there may be some, and its fraction. -/
def scanClockLoosely : Text.Scan (Nat × Nat) := fun cs => do
  let (hour, cs) ← Text.behindBlanks (Text.someDigits 2) cs
  let (_, cs) ← Text.behindBlanks (Text.literal ':') cs
  let (minute, cs) ← Text.behindBlanks (Text.someDigits 2) cs
  let (_, cs) ← Text.behindBlanks (Text.literal ':') cs
  let (second, cs) ← Text.behindBlanks (Text.someDigits 2) cs
  let (nano, cs) ← scanFraction cs
  let c ← clock? hour minute second nano
  return (c, cs)

/-- Colons and blanks, any number of them. -/
def skipColons : Text.Scan Unit := fun cs =>
  some ((), cs.dropWhile fun c => c = ':' || Text.isBlank c)

/-- A zone, which may be called `UTC` in any case. -/
def scanZoneLoosely : Text.Scan Int := fun cs =>
  if (cs.take 3).map Char.toUpper = "UTC".toList then some (0, cs.drop 3)
  else scanZone skipColons cs

/-- The instant of a text in the loose form. -/
def parseLoosely? (s : String) : Option Instant := do
  let (date, cs) ← Date.scan s.toList
  let (_, cs) ← scanDivider cs
  let ((second, nano), cs) ← scanClockLoosely cs
  let (ahead, cs) ← Text.behindBlanks scanZoneLoosely cs
  if Text.trimStart cs = [] then Instant.ofLocal? date second nano ahead else none

end Timestamp

end Biblio
