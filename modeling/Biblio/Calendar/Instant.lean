import Biblio.Calendar.Date

/-! Instants of universal time, to the nanosecond.

    The last second of a minute may be followed by a leap second, whose nanoseconds are counted on
    from a whole second. -/

namespace Biblio

/-- A moment of universal time. -/
structure Instant where
  date : Date
  /-- Whole seconds since midnight. -/
  second : Nat
  /-- Nanoseconds since then; a billion or more of them lie in a leap second. -/
  nano : Nat
  second_lt : second < 86400 := by omega
  nano_lt : nano < 2000000000 := by omega
  leap_last : 1000000000 ≤ nano → second % 60 = 59 := by omega
  deriving DecidableEq, Repr

namespace Instant

/-- The moment of these numbers, if there is one. -/
def of? (date : Date) (second nano : Nat) : Option Instant :=
  if h : second < 86400 ∧ nano < 2000000000 ∧ (1000000000 ≤ nano → second % 60 = 59) then
    some { date, second, nano, second_lt := h.1, nano_lt := h.2.1, leap_last := h.2.2 }
  else none

/-- A moment is found by its numbers. -/
theorem of?_self (t : Instant) : of? t.date t.second t.nano = some t := by
  obtain ⟨date, second, nano, h₁, h₂, h₃⟩ := t
  simp only [of?]
  rw [dif_pos ⟨h₁, h₂, h₃⟩]

/-- A number that grows with time. -/
def ordinal (t : Instant) : Int :=
  (((t.date.year * 13 + t.date.month) * 32 + t.date.day) * 86400 + t.second) * 2000000000 + t.nano

/-- The moment whose local time, ahead of universal time by so many seconds, is the given one. -/
def ofLocal? (date : Date) (second nano : Nat) (ahead : Int) : Option Instant :=
  let s : Int := second - ahead
  if s < 0 then date.previous?.bind fun d => of? d (s + 86400).toNat nano
  else if s < 86400 then of? date s.toNat nano
  else date.next?.bind fun d => of? d (s - 86400).toNat nano

/-- Local time in no other zone than this is universal time. -/
theorem ofLocal?_zero (t : Instant) : ofLocal? t.date t.second t.nano 0 = some t := by
  have h := t.second_lt
  simp only [ofLocal?, Int.sub_zero]
  rw [if_neg (by omega), if_pos (by omega), Int.toNat_natCast]
  exact of?_self t

end Instant

end Biblio
