import Biblio.Calendar.Instant

/-! Instants counted in seconds from the beginning of the year 1970.

    Years are counted from March here, so that a leap day is the last day of its year, and in eras
    of 400 years, which all have the same number of days. -/

namespace Biblio

namespace Date

/-- The number of days of 400 years. -/
def eraDays : Int := 146097

/-- The number of days from the first of March of the year 0 to the beginning of 1970. -/
def epochDay : Int := 719468

/-- The day that lies so many days behind the beginning of 1970. -/
def ofEpochDay? (days : Int) : Option Date :=
  let era := (days + epochDay).fdiv eraDays
  let dayOfEra := (days + epochDay - era * eraDays).toNat
  let yearOfEra := (dayOfEra - dayOfEra / 1460 + dayOfEra / 36524 - dayOfEra / 146096) / 365
  let dayOfYear := dayOfEra - (365 * yearOfEra + yearOfEra / 4 - yearOfEra / 100)
  let monthFromMarch := (5 * dayOfYear + 2) / 153
  let day := dayOfYear - (153 * monthFromMarch + 2) / 5 + 1
  let month := if monthFromMarch < 10 then monthFromMarch + 3 else monthFromMarch - 9
  let year := era * 400 + yearOfEra
  of? (if month ≤ 2 then year + 1 else year) month day

end Date

/-- The moment so many seconds behind the beginning of 1970. -/
def Instant.ofEpoch? (seconds : Int) (nano : Nat) : Option Instant :=
  (Date.ofEpochDay? (seconds.fdiv 86400)).bind fun d => of? d (seconds.fmod 86400).toNat nano

end Biblio
