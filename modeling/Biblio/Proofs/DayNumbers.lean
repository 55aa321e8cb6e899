import Biblio.Calendar.Instant
import Biblio.Proofs.Spelling
import Mathlib.Tactic.IntervalCases
import Mathlib.Tactic.Ring

/-! Days and seconds that are counted.

    The days are numbered along the calendar, so that the day behind another one has the next
    number. Local time is universal time a number of seconds later, over midnight and over the end
    of a year. Of two moments the earlier one is told by its seconds and nanoseconds, or by the
    parts of its date and its time of day. -/

namespace Biblio

namespace Date

/-! ### Days -/

/-- The days of the years before this one, from the year 1 on. -/
def daysBeforeYear (year : Int) : Int :=
  365 * (year - 1) + (year - 1) / 4 - (year - 1) / 100 + (year - 1) / 400

/-- The days of a year before a month of it. -/
def daysBeforeMonth (year : Int) : Nat → Nat
  | 0 => 0
  | month + 1 => daysBeforeMonth year month + daysInMonth year month

/-- The number of a day; the first day of the year 1 has the number one. -/
def dayNumber (d : Date) : Int := daysBeforeYear d.year + daysBeforeMonth d.year d.month + d.day

/-- One date stands before another one if it does in the first part that differs. -/
def Precedes (d e : Date) : Prop :=
  d.year < e.year ∨ d.year = e.year ∧ (d.month < e.month ∨ d.month = e.month ∧ d.day < e.day)

section Days
variable {d e : Date} {year year' : Int} {month month' day : Nat}

theorem month_pos (d : Date) : 0 < d.month := by
  obtain ⟨-, -, pos, le⟩ := d.exist
  rcases Nat.eq_zero_or_pos d.month with zero | pos'
  · rw [zero] at le
    exact absurd (Nat.le_trans pos le) (Nat.not_succ_le_zero 0)
  · exact pos'

theorem month_le_twelve (d : Date) : d.month ≤ 12 :=
  month_le (Nat.lt_of_lt_of_le d.exist.2.2.1 d.exist.2.2.2)

theorem daysInMonth_pos (year : Int) (pos : 0 < month) (le : month ≤ 12) :
    0 < daysInMonth year month := by
  interval_cases month <;> simp [daysInMonth]
  split <;> decide

/-- A year has all the days of its twelve months. -/
theorem daysBeforeMonth_thirteen (year : Int) :
    daysBeforeMonth year 13 = if isLeapYear year then 366 else 365 := by
  simp only [daysBeforeMonth, daysInMonth]
  split <;> rfl

theorem daysBeforeMonth_mono (le : month ≤ month') :
    daysBeforeMonth year month ≤ daysBeforeMonth year month' := by
  induction le with
  | refl => exact Nat.le_refl _
  | step _ ih => exact Nat.le_trans ih (Nat.le_add_right _ _)

/-- The first day of a year comes behind all days of the year before. -/
theorem daysBeforeYear_succ (year : Int) :
    daysBeforeYear (year + 1) = daysBeforeYear year + daysBeforeMonth year 13 := by
  rw [daysBeforeMonth_thirteen]
  simp only [daysBeforeYear]
  split <;> rename_i leap <;> simp [isLeapYear] at leap <;> omega

theorem daysBeforeYear_mono (le : year ≤ year') : daysBeforeYear year ≤ daysBeforeYear year' := by
  obtain ⟨n, rfl⟩ := Int.le.dest le
  induction n with
  | zero => simp
  | succ n ih =>
    have next := daysBeforeYear_succ (year + n)
    have := ih (by omega)
    push_cast
    rw [← add_assoc, next]
    omega

/-- A day is no later than the last one of its month. -/
theorem dayNumber_le (d : Date) :
    d.dayNumber ≤ daysBeforeYear d.year + daysBeforeMonth d.year (d.month + 1) := by
  have := d.exist.2.2.2
  simp only [dayNumber, daysBeforeMonth]
  omega

theorem dayNumber_lt_of_precedes (h : d.Precedes e) : d.dayNumber < e.dayNumber := by
  have last := d.dayNumber_le
  have first : 0 < e.day := e.exist.2.2.1
  have number : e.dayNumber = daysBeforeYear e.year + daysBeforeMonth e.year e.month + e.day := rfl
  rcases h with year | ⟨year, month | ⟨month, day⟩⟩
  · have within : daysBeforeMonth d.year (d.month + 1) ≤ daysBeforeMonth d.year 13 :=
      daysBeforeMonth_mono (Nat.succ_le_succ d.month_le_twelve)
    have next := daysBeforeYear_succ d.year
    have years : daysBeforeYear (d.year + 1) ≤ daysBeforeYear e.year := daysBeforeYear_mono year
    omega
  · have months : daysBeforeMonth e.year (d.month + 1) ≤ daysBeforeMonth e.year e.month :=
      daysBeforeMonth_mono month
    rw [year] at last
    omega
  · simp only [dayNumber, year, month]
    omega

theorem precedes_or (d e : Date) : d.Precedes e ∨ d = e ∨ e.Precedes d := by
  by_cases same : d.year = e.year ∧ d.month = e.month ∧ d.day = e.day
  · obtain ⟨year, month, day, exist⟩ := d
    obtain ⟨rfl, rfl, rfl⟩ := same
    exact .inr (.inl rfl)
  · simp only [Precedes]
    omega

/-- Days are numbered in the order of their dates. -/
theorem dayNumber_lt_iff : d.dayNumber < e.dayNumber ↔ d.Precedes e := by
  refine ⟨fun lt => ?_, dayNumber_lt_of_precedes⟩
  rcases precedes_or d e with before | rfl | behind
  · exact before
  · exact absurd lt (lt_irrefl _)
  · exact absurd (dayNumber_lt_of_precedes behind) (not_lt_of_gt lt)

theorem eq_of_dayNumber (h : d.dayNumber = e.dayNumber) : d = e := by
  rcases precedes_or d e with before | same | behind
  · exact absurd h (ne_of_lt (dayNumber_lt_of_precedes before))
  · exact same
  · exact absurd h (ne_of_gt (dayNumber_lt_of_precedes behind))

/-- The day of a date that exists is found. -/
theorem exists_of (h : Exists year month day) : ∃ e, of? year month day = some e ∧
    e.dayNumber = daysBeforeYear year + daysBeforeMonth year month + day :=
  ⟨⟨year, month, day, h⟩, dif_pos h, rfl⟩

/-- The next day has the next number. -/
theorem exists_next (year : d.year < lastYear) :
    ∃ e, d.next? = some e ∧ e.dayNumber = d.dayNumber + 1 := by
  obtain ⟨ge, le, pos, day⟩ := d.exist
  have month := d.month_le_twelve
  unfold next?
  split
  · have exist : Exists d.year d.month (d.day + 1) := ⟨ge, le, by omega, by omega⟩
    obtain ⟨e, he, number⟩ := exists_of exist
    refine ⟨e, he, ?_⟩
    rw [number, dayNumber]
    push_cast
    ring
  have last : d.day = daysInMonth d.year d.month := by omega
  split
  · have exist : Exists d.year (d.month + 1) 1 :=
      ⟨ge, le, by omega, daysInMonth_pos d.year (by omega) (by omega)⟩
    obtain ⟨e, he, number⟩ := exists_of exist
    refine ⟨e, he, ?_⟩
    rw [number, dayNumber, daysBeforeMonth, ← last]
    push_cast
    ring
  · have exist : Exists (d.year + 1) 1 1 :=
      ⟨by omega, by omega, by omega, daysInMonth_pos (d.year + 1) (by omega) (by omega)⟩
    obtain ⟨e, he, number⟩ := exists_of exist
    refine ⟨e, he, ?_⟩
    have december : d.month = 12 := by omega
    have year' : daysBeforeMonth d.year 13 = daysBeforeMonth d.year 12 + d.day := by
      rw [last, december]
      rfl
    have first : daysBeforeMonth (d.year + 1) 1 = 0 := rfl
    rw [number, dayNumber, daysBeforeYear_succ, year', december, first]
    push_cast
    ring

/-- The day before has the number before. -/
theorem exists_previous (year : firstYear < d.year) :
    ∃ e, d.previous? = some e ∧ e.dayNumber = d.dayNumber - 1 := by
  obtain ⟨ge, le, pos, day⟩ := d.exist
  have month := d.month_le_twelve
  have month' := d.month_pos
  unfold previous?
  split
  · have exist : Exists d.year d.month (d.day - 1) := ⟨ge, le, by omega, by omega⟩
    obtain ⟨e, he, number⟩ := exists_of exist
    refine ⟨e, he, ?_⟩
    rw [number, dayNumber]
    omega
  split
  · have exist : Exists d.year (d.month - 1) (daysInMonth d.year (d.month - 1)) :=
      ⟨ge, le, daysInMonth_pos d.year (by omega) (by omega), Nat.le_refl _⟩
    obtain ⟨e, he, number⟩ := exists_of exist
    refine ⟨e, he, ?_⟩
    obtain ⟨before, hbefore⟩ : ∃ before, d.month = before + 1 := ⟨d.month - 1, by omega⟩
    rw [number, dayNumber, hbefore, Nat.add_sub_cancel, daysBeforeMonth]
    omega
  · have exist : Exists (d.year - 1) 12 31 := ⟨by omega, by omega, by omega, Nat.le_refl _⟩
    obtain ⟨e, he, number⟩ := exists_of exist
    refine ⟨e, he, ?_⟩
    have january : d.month = 1 := by omega
    have years := daysBeforeYear_succ (d.year - 1)
    have year' : daysBeforeMonth (d.year - 1) 13 = daysBeforeMonth (d.year - 1) 12 + 31 := rfl
    rw [sub_add_cancel] at years
    rw [number, dayNumber, january, years, year']
    simp [daysBeforeMonth, daysInMonth]
    omega

end Days

end Date

namespace Instant

/-! ### Seconds -/

/-- The seconds of universal time up to a moment, a leap second not counted. -/
def seconds (t : Instant) : Int := t.date.dayNumber * 86400 + t.second

/-- One moment is earlier than another one. -/
def IsBefore (t u : Instant) : Prop :=
  t.seconds < u.seconds ∨ t.seconds = u.seconds ∧ t.nano < u.nano

instance (t u : Instant) : Decidable (t.IsBefore u) := inferInstanceAs (Decidable (_ ∨ _))

section Seconds
variable {t u : Instant}

/-- There is a moment with these numbers. -/
theorem exists_of {d : Date} {second nano : Nat} (h : second < 86400) (nano_lt : nano < 2000000000)
    (leap : 1000000000 ≤ nano → second % 60 = 59) :
    ∃ t, of? d second nano = some t ∧ t.date = d ∧ t.second = second ∧ t.nano = nano :=
  ⟨_, dif_pos ⟨h, nano_lt, leap⟩, rfl, rfl, rfl⟩

/-- Earlier is what has the earlier date, or on the same day the earlier time of day. -/
theorem isBefore_iff : t.IsBefore u ↔ t.date.Precedes u.date ∨ t.date = u.date ∧
    (t.second < u.second ∨ t.second = u.second ∧ t.nano < u.nano) := by
  have ht := t.second_lt
  have hu := u.second_lt
  rw [← Date.dayNumber_lt_iff]
  have same : t.date = u.date ↔ t.date.dayNumber = u.date.dayNumber :=
    ⟨congrArg _, Date.eq_of_dayNumber⟩
  simp only [IsBefore, seconds, same]
  omega

/-- The number that grows with time does so exactly. -/
theorem ordinal_lt_iff : t.ordinal < u.ordinal ↔ t.IsBefore u := by
  have ht := t.second_lt
  have hu := u.second_lt
  have ht' := t.nano_lt
  have hu' := u.nano_lt
  have days : t.date.day ≤ 31 := t.date.exist.2.2.2.trans (Date.daysInMonth_le _ _)
  have days' : u.date.day ≤ 31 := u.date.exist.2.2.2.trans (Date.daysInMonth_le _ _)
  have months := t.date.month_le_twelve
  have months' := u.date.month_le_twelve
  have same : t.date = u.date ↔ t.date.year = u.date.year ∧ t.date.month = u.date.month ∧
      t.date.day = u.date.day := by
    rcases t.date.precedes_or u.date with before | eq | behind
    · simp only [Date.Precedes] at before
      exact ⟨fun eq => by simp [eq], fun eq => by omega⟩
    · simp [eq]
    · simp only [Date.Precedes] at behind
      exact ⟨fun eq => by simp [eq], fun eq => by omega⟩
  simp only [isBefore_iff, same, ordinal, Date.Precedes]
  omega

theorem eq_of_seconds (seconds : t.seconds = u.seconds) (nano : t.nano = u.nano) : t = u := by
  have ht := t.second_lt
  have hu := u.second_lt
  have parts : t.date.dayNumber = u.date.dayNumber ∧ t.second = u.second := by
    simp only [Instant.seconds] at seconds
    omega
  have date := Date.eq_of_dayNumber parts.1
  obtain ⟨-, second⟩ := parts
  cases t
  cases u
  simp only at date second nano
  subst date second nano
  rfl

theorem isBefore_or (t u : Instant) : t.IsBefore u ∨ t = u ∨ u.IsBefore t := by
  by_cases same : t.seconds = u.seconds ∧ t.nano = u.nano
  · exact .inr (.inl (eq_of_seconds same.1 same.2))
  · simp only [IsBefore]
    omega

/-- A local time that is ahead of universal time by whole minutes, and by less than a day, is that
    of a moment so many seconds earlier. -/
theorem exists_ofLocal {d : Date} {second nano : Nat} {ahead : Int}
    (year : Date.firstYear < d.year ∧ d.year < Date.lastYear) (second_lt : second < 86400)
    (nano_lt : nano < 2000000000) (leap : 1000000000 ≤ nano → second % 60 = 59)
    (less : -86400 < ahead ∧ ahead < 86400) (minutes : ahead % 60 = 0) :
    ∃ t, ofLocal? d second nano ahead = some t ∧
      t.seconds = d.dayNumber * 86400 + second - ahead ∧ t.nano = nano := by
  simp only [ofLocal?]
  split
  · obtain ⟨e, he, number⟩ := Date.exists_previous year.1
    have day : ((second : Int) - ahead + 86400).toNat < 86400 := by omega
    obtain ⟨t, ht, date, seconds, nano⟩ := exists_of (d := e) day nano_lt (by omega)
    refine ⟨t, by rw [he]; exact ht, ?_, nano⟩
    simp only [Instant.seconds, date, seconds, number]
    omega
  split
  · have day : ((second : Int) - ahead).toNat < 86400 := by omega
    obtain ⟨t, ht, date, seconds, nano⟩ := exists_of (d := d) day nano_lt (by omega)
    refine ⟨t, ht, ?_, nano⟩
    simp only [Instant.seconds, date, seconds]
    omega
  · obtain ⟨e, he, number⟩ := Date.exists_next year.2
    have day : ((second : Int) - ahead - 86400).toNat < 86400 := by omega
    obtain ⟨t, ht, date, seconds, nano⟩ := exists_of (d := e) day nano_lt (by omega)
    refine ⟨t, by rw [he]; exact ht, ?_, nano⟩
    simp only [Instant.seconds, date, seconds, number]
    omega

end Seconds

end Instant

end Biblio
