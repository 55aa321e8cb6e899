import Biblio.Proofs.TextOrder

/-! The texts that are read as times.

    A written time has the parts of RFC 3339: a date with a year of four digits, a time of day whose
    second may be a leap second, a fraction with any number of digits, and a zone. The moment it
    denotes is told by the parts alone. `Timestamp.parse?` reads such a text as this moment, and it
    reads no other text; the stored text of a moment is one of them. -/

namespace Biblio

namespace Text

section Scans
variable {width n : Nat} {c : Char} {u : Unit} {cs rest : List Char}

/-- A number of fixed width is read where its digits stand in front. -/
theorem fixedDigits_eq_some (pos : 0 < width) : fixedDigits width cs = some (n, rest) ↔
    n < 10 ^ width ∧ cs = decimalPadded width n ++ rest := by
  constructor
  · intro h
    simp only [fixedDigits] at h
    split at h
    · rename_i front
      obtain ⟨rfl, rfl⟩ := Prod.mk.inj (Option.some.inj h)
      obtain ⟨length, digits⟩ := front
      rw [List.all_eq_true] at digits
      have some : cs.take width ≠ [] := by
        rw [← List.length_pos_iff_ne_nil, length]
        exact pos
      have small := map_digitValue_lt digits
      have fits := ofDigits_lt small
      have front := eq_padded digits some
      rw [List.length_map] at fits
      rw [length] at fits front
      exact ⟨fits, by rw [← front, List.take_append_drop]⟩
    · exact absurd h (by simp)
  · rintro ⟨fits, rfl⟩
    have length := length_padded pos fits
    have digits : (decimalPadded width n).all isAsciiDigit = true :=
      List.all_eq_true.2 fun c => isAsciiDigit_of_mem_padded
    simp only [fixedDigits]
    rw [List.take_left' length, List.drop_left' length, if_pos ⟨length, digits⟩, ofDigits_padded]

theorem literal_eq_some : literal c cs = some (u, rest) ↔ cs = c :: rest := by
  cases cs with
  | nil => simp [literal]
  | cons d cs =>
    simp only [literal, List.cons.injEq]
    split <;> simp [*]

end Scans

end Text

theorem Date.of?_eq_some {d : Date} {year : Int} {month day : Nat} :
    of? year month day = some d ↔ d.year = year ∧ d.month = month ∧ d.day = day := by
  constructor
  · intro h
    simp only [of?] at h
    split at h
    · obtain rfl := Option.some.inj h
      exact ⟨rfl, rfl, rfl⟩
    · exact absurd h (by simp)
  · rintro ⟨rfl, rfl, rfl⟩
    exact of?_self d

namespace Timestamp

/-! ### Written times -/

/-- A fraction of a second behind its point; without digits there is no point. -/
def pointed : List Char → List Char
  | [] => []
  | digits => '.' :: digits

/-- The whole nanoseconds of a fraction with these digits. -/
def nanosOf (digits : List Char) : Nat :=
  Text.ofDigits 10 (digits.map Text.digitValue) * 10 ^ 9 / 10 ^ digits.length

/-- A zone. -/
inductive Zone
  /-- The letter of universal time. -/
  | letter (c : Char) (h : c ∈ ['Z', 'z'])
  /-- So much ahead of universal time, or behind it; minus is written in one of two ways. -/
  | offset (sign : Char) (hours minutes : Nat)
      (h : sign ∈ ['+', '-', '−'] ∧ hours < 24 ∧ minutes < 60)

namespace Zone

/-- The text of a zone. -/
def chars : Zone → List Char
  | .letter c _ => [c]
  | .offset sign hours minutes _ =>
    sign :: (Text.decimalPadded 2 hours ++ ':' :: Text.decimalPadded 2 minutes)

/-- The seconds by which local time is ahead of universal time. -/
def ahead : Zone → Int
  | .letter _ _ => 0
  | .offset sign hours minutes _ =>
    if sign = '+' then hours * 3600 + minutes * 60 else -(hours * 3600 + minutes * 60)

end Zone

/-- A time of day, to the second or to some digits behind it. -/
structure TimeOfDay where
  hour : Nat
  minute : Nat
  /-- The second of the minute; 60 is a leap second. -/
  second : Nat
  exist : hour < 24 ∧ minute < 60 ∧ second ≤ 60
  /-- The digits behind the point. -/
  fraction : List Char
  digits : ∀ c ∈ fraction, Text.isAsciiDigit c = true

namespace TimeOfDay

/-- The text of a time of day. -/
def chars (k : TimeOfDay) : List Char :=
  Text.decimalPadded 2 k.hour ++ ':' :: (Text.decimalPadded 2 k.minute ++
    ':' :: (Text.decimalPadded 2 k.second ++ pointed k.fraction))

/-- The second of the day; a leap second still counts as the second before. -/
def secondOfDay (k : TimeOfDay) : Nat := k.hour * 3600 + k.minute * 60 + min k.second 59

/-- The nanoseconds since then. -/
def nano (k : TimeOfDay) : Nat := nanosOf k.fraction + if k.second = 60 then 1000000000 else 0

end TimeOfDay

/-- A time as RFC 3339 writes it. -/
structure Written where
  date : Date
  plain : 0 ≤ date.year ∧ date.year ≤ 9999
  divider : Char
  divides : divider ∈ ['T', 't', ' ']
  clock : TimeOfDay
  zone : Zone

namespace Written

/-- The text of a written time. -/
def text (w : Written) : String :=
  String.ofList (w.date.chars ++ w.divider :: (w.clock.chars ++ w.zone.chars))

/-- The time is that of this moment. -/
def Denotes (w : Written) (t : Instant) : Prop :=
  t.seconds = w.date.dayNumber * 86400 + w.clock.secondOfDay - w.zone.ahead ∧
    t.nano = w.clock.nano

/-- The time is written as the database keeps it: in universal time, and with the fewest of 0, 3, 6
    and 9 digits that lose nothing. -/
structure IsStored (w : Written) : Prop where
  divider : w.divider = 'T'
  zone : w.zone.chars = "+00:00".toList
  digits : w.clock.fraction.length ∈ [0, 3, 6, 9]
  fewest : ∀ ds, (∀ c ∈ ds, Text.isAsciiDigit c = true) → ds.length ∈ [0, 3, 6, 9] →
    nanosOf ds = nanosOf w.clock.fraction → w.clock.fraction.length ≤ ds.length

end Written

/-! ### Reading them -/

section Reading
variable {cs ds rest : List Char} {u : Unit} {a : Int} {n second nano : Nat}

theorem scanDate_eq_some {d : Date} : scanDate cs = some (d, rest) ↔
    (0 ≤ d.year ∧ d.year ≤ 9999) ∧ cs = d.chars ++ rest := by
  have two : 0 < 2 := by decide
  simp only [scanDate, Option.bind_eq_bind, Option.bind_eq_some_iff, Prod.exists,
    Text.fixedDigits_eq_some (show 0 < 4 by decide), Text.fixedDigits_eq_some two,
    Text.literal_eq_some, Date.of?_eq_some]
  constructor
  · rintro ⟨year, _, ⟨fits, rfl⟩, -, _, rfl, month, _, ⟨-, rfl⟩, -, _, rfl, day, _, ⟨-, rfl⟩,
      e, ⟨hy, rfl, rfl⟩, h⟩
    obtain ⟨rfl, rfl⟩ := Prod.mk.inj (Option.some.inj h)
    have plain : 0 ≤ e.year ∧ e.year ≤ 9999 := by omega
    refine ⟨plain, ?_⟩
    rw [Date.chars_append plain, hy, Int.natAbs_natCast]
  · rintro ⟨plain, rfl⟩
    have day : d.day ≤ 31 := d.exist.2.2.2.trans (Date.daysInMonth_le _ _)
    have month := d.month_le_twelve
    exact ⟨d.year.natAbs, _, ⟨by omega, Date.chars_append plain rest⟩, (), _, rfl, d.month, _,
      ⟨by omega, rfl⟩, (), _, rfl, d.day, _, ⟨by omega, rfl⟩, d, ⟨by omega, rfl, rfl⟩, rfl⟩

theorem scanDivider_eq_some :
    scanDivider cs = some (u, rest) ↔ ∃ c ∈ ['T', 't', ' '], cs = c :: rest := by
  unfold scanDivider
  split <;> simp_all

/-- Up to nine digits lose nothing. -/
theorem nanosOf_of_length_le (le : ds.length ≤ 9) :
    nanosOf ds = Text.ofDigits 10 (ds.map Text.digitValue) * 10 ^ (9 - ds.length) := by
  have power : 10 ^ 9 = 10 ^ (9 - ds.length) * 10 ^ ds.length := by
    rw [← Nat.pow_add, Nat.sub_add_cancel le]
  rw [nanosOf, power, ← Nat.mul_assoc, Nat.mul_div_cancel _ (Nat.pow_pos (by decide))]

/-- Digits behind the ninth do not count. -/
theorem nanosOf_eq (digits : ∀ c ∈ ds, Text.isAsciiDigit c = true) :
    Text.ofDigits 10 ((ds.take 9).map Text.digitValue) * Nat.pow 10 (9 - (ds.take 9).length) =
      nanosOf ds := by
  rcases Nat.le_total ds.length 9 with le | ge
  · rw [List.take_of_length_le le]
    exact (nanosOf_of_length_le le).symm
  · have length : (ds.take 9).length = 9 := by simp [ge]
    have behind : ∀ c ∈ ds.drop 9, Text.isAsciiDigit c = true :=
      fun c hc => digits c (List.mem_of_mem_drop hc)
    have small := Text.map_digitValue_lt behind
    have split : Text.ofDigits 10 (ds.map Text.digitValue) =
        ((ds.drop 9).map Text.digitValue).foldl (fun n d => n * 10 + d)
          (Text.ofDigits 10 ((ds.take 9).map Text.digitValue)) := by
      rw [Text.ofDigits, Text.ofDigits, ← List.foldl_append, ← List.map_append,
        List.take_append_drop]
    have power : 10 ^ ds.length = 10 ^ (ds.length - 9) * 10 ^ 9 := by
      rw [← Nat.pow_add, Nat.sub_add_cancel ge]
    have most := Text.foldl_digits_lt (n := Text.ofDigits 10 ((ds.take 9).map Text.digitValue))
      small
    have least := Text.le_foldl_digits (Text.ofDigits 10 ((ds.take 9).map Text.digitValue))
      ((ds.drop 9).map Text.digitValue)
    rw [List.length_map, List.length_drop] at most least
    rw [length, nanosOf, split, power, Nat.mul_div_mul_right _ _ (Nat.pow_pos (by decide))]
    exact (Nat.mul_one _).trans (Nat.div_eq_of_lt_le least most).symm

/-- A fraction that is read is written so. -/
theorem of_scanFraction (h : scanFraction cs = some (n, rest)) :
    ∃ ds, (∀ c ∈ ds, Text.isAsciiDigit c = true) ∧ cs = pointed ds ++ rest ∧ n = nanosOf ds := by
  unfold scanFraction at h
  split at h
  · rename_i behind
    dsimp only at h
    split at h
    · exact absurd h (by simp)
    · rename_i some
      have digits : ∀ c ∈ behind.takeWhile Text.isAsciiDigit, Text.isAsciiDigit c = true :=
        fun c hc => List.mem_takeWhile_imp hc
      obtain ⟨rfl, rfl⟩ := Prod.mk.inj (Option.some.inj h)
      refine ⟨_, digits, ?_, nanosOf_eq digits⟩
      have whole := List.prefix_iff_eq_append.1
        (List.takeWhile_prefix Text.isAsciiDigit (l := behind))
      cases front : behind.takeWhile Text.isAsciiDigit with
      | nil => simp [front] at some
      | cons d ds =>
        rw [front] at whole
        exact congrArg ('.' :: ·) whole.symm
  · obtain ⟨rfl, rfl⟩ := Prod.mk.inj (Option.some.inj h)
    exact ⟨[], by simp, rfl, rfl⟩

theorem scanFraction_pointed (digits : ∀ c ∈ ds, Text.isAsciiDigit c = true)
    (ends : ∀ c cs, rest = c :: cs → c ≠ '.' ∧ Text.isAsciiDigit c = false) :
    scanFraction (pointed ds ++ rest) = some (nanosOf ds, rest) := by
  cases ds with
  | nil =>
    unfold scanFraction
    split
    · rename_i behind heq
      exact absurd rfl (ends _ _ heq).1
    · rfl
  | cons d ds =>
    have taken : ((d :: ds) ++ rest).takeWhile Text.isAsciiDigit = d :: ds := by
      have none : rest.takeWhile Text.isAsciiDigit = [] := by
        cases rest with
        | nil => rfl
        | cons c cs => simp [(ends c cs rfl).2]
      rw [List.takeWhile_append_of_pos digits, none, List.append_nil]
    simp only [pointed, List.cons_append, scanFraction] at taken ⊢
    rw [taken, nanosOf_eq digits]
    simp

theorem clock?_eq_some {hour minute sec : Nat} : clock? hour minute sec n = some (second, nano) ↔
    (hour < 24 ∧ minute < 60 ∧ sec ≤ 60) ∧ second = hour * 3600 + minute * 60 + min sec 59 ∧
      nano = n + if sec = 60 then 1000000000 else 0 := by
  unfold clock?
  split
  · split <;> simp_all <;> omega
  · simp_all

/-- A time of day that is read is written so. -/
theorem of_scanClock (h : scanClock cs = some ((second, nano), rest)) :
    ∃ k : TimeOfDay, cs = k.chars ++ rest ∧ second = k.secondOfDay ∧ nano = k.nano := by
  have two : 0 < 2 := by decide
  simp only [scanClock, Option.bind_eq_bind, Option.bind_eq_some_iff, Prod.exists,
    Text.fixedDigits_eq_some two, Text.literal_eq_some, clock?_eq_some] at h
  obtain ⟨hour, _, ⟨-, rfl⟩, -, _, rfl, minute, _, ⟨-, rfl⟩, -, _, rfl, sec, _, ⟨-, rfl⟩, n, _,
    fraction, s, m, ⟨exist, hs, hm⟩, h⟩ := h
  obtain ⟨ds, digits, rfl, rfl⟩ := of_scanFraction fraction
  obtain ⟨clock, rfl⟩ := Prod.mk.inj (Option.some.inj h)
  obtain ⟨rfl, rfl⟩ := Prod.mk.inj clock
  refine ⟨⟨hour, minute, sec, exist, ds, digits⟩, ?_, hs, hm⟩
  simp [TimeOfDay.chars]

theorem scanClock_chars (k : TimeOfDay)
    (ends : ∀ c cs, rest = c :: cs → c ≠ '.' ∧ Text.isAsciiDigit c = false) :
    scanClock (k.chars ++ rest) = some ((k.secondOfDay, k.nano), rest) := by
  have two : 0 < 2 := by decide
  have exist := k.exist
  simp only [scanClock, Option.bind_eq_bind, Option.bind_eq_some_iff, Prod.exists,
    Text.fixedDigits_eq_some two, Text.literal_eq_some, clock?_eq_some]
  refine ⟨k.hour, _, ⟨by omega, ?_⟩, (), _, rfl, k.minute, _, ⟨by omega, rfl⟩, (), _, rfl,
    k.second, _, ⟨by omega, rfl⟩, _, _, scanFraction_pointed k.digits ends, _, _,
    ⟨exist, rfl, rfl⟩, rfl⟩
  simp [TimeOfDay.chars]

theorem scanSign_eq_some {behind : Bool} : scanSign cs = some (behind, rest) ↔
    ∃ sign ∈ ['+', '-', '−'], cs = sign :: rest ∧ behind = decide (sign ≠ '+') := by
  unfold scanSign
  split <;> simp_all [eq_comm, and_comm]

theorem ahead?_eq_some {behind : Bool} {hours minutes : Nat} :
    ahead? behind hours minutes = some a ↔ (hours < 24 ∧ minutes < 60) ∧
      a = if behind then -(hours * 3600 + minutes * 60 : Int) else hours * 3600 + minutes * 60 := by
  unfold ahead?
  split <;> simp_all [eq_comm]
  omega

/-- A zone is read where one is written, and nowhere else. -/
theorem scanZone_eq_some : scanZone (Text.literal ':') cs = some (a, rest) ↔
    ∃ z : Zone, cs = z.chars ++ rest ∧ a = z.ahead := by
  have two : 0 < 2 := by decide
  constructor
  · intro h
    unfold scanZone at h
    split at h
    · obtain ⟨rfl, rfl⟩ := Prod.mk.inj (Option.some.inj h)
      exact ⟨.letter 'Z' (by simp), rfl, rfl⟩
    · obtain ⟨rfl, rfl⟩ := Prod.mk.inj (Option.some.inj h)
      exact ⟨.letter 'z' (by simp), rfl, rfl⟩
    · simp only [Option.bind_eq_bind, Option.bind_eq_some_iff, Prod.exists,
        Text.fixedDigits_eq_some two, Text.literal_eq_some, scanSign_eq_some,
        ahead?_eq_some] at h
      obtain ⟨_, _, ⟨sign, signs, rfl, rfl⟩, hours, _, ⟨-, rfl⟩, -, _, rfl, minutes, _, ⟨-, rfl⟩,
        _, ⟨exist, rfl⟩, h⟩ := h
      obtain ⟨rfl, rfl⟩ := Prod.mk.inj (Option.some.inj h)
      refine ⟨.offset sign hours minutes ⟨signs, exist⟩, by simp [Zone.chars], ?_⟩
      by_cases plus : sign = '+' <;> simp [Zone.ahead, plus]
  · rintro ⟨z, rfl, rfl⟩
    cases z with
    | letter c h =>
      simp at h
      rcases h with rfl | rfl <;> rfl
    | offset sign hours minutes h =>
      obtain ⟨signs, exist⟩ := h
      unfold scanZone
      split
      · rename_i heq
        obtain rfl := (List.cons.inj heq).1
        exact absurd signs (by decide)
      · rename_i heq
        obtain rfl := (List.cons.inj heq).1
        exact absurd signs (by decide)
      · simp only [Option.bind_eq_bind, Option.bind_eq_some_iff, Prod.exists,
          Text.fixedDigits_eq_some two, Text.literal_eq_some, scanSign_eq_some, ahead?_eq_some]
        refine ⟨_, _, ⟨sign, signs, rfl, rfl⟩, hours, _, ⟨by omega, ?_⟩, (), _, rfl, minutes, rest,
          ⟨by omega, rfl⟩, _, ⟨exist, rfl⟩, ?_⟩
        · simp
        · by_cases plus : sign = '+' <;> simp [Zone.ahead, plus]

theorem whole_eq_some {α : Type} {scan : Text.Scan α} {x : α} :
    Text.whole scan cs = some x ↔ scan cs = some (x, []) := by
  unfold Text.whole
  split <;> simp_all

/-- A zone begins with neither a point nor a digit. -/
theorem Zone.ends (z : Zone) :
    ∀ c cs, z.chars = c :: cs → c ≠ '.' ∧ Text.isAsciiDigit c = false := by
  intro c cs heq
  cases z with
  | letter d h =>
    obtain rfl := (List.cons.inj heq).1
    simp at h
    rcases h with rfl | rfl <;> decide
  | offset sign hours minutes h =>
    obtain rfl := (List.cons.inj heq).1
    have signs := h.1
    simp at signs
    rcases signs with rfl | rfl | rfl <;> decide

theorem secondOfDay_lt (k : TimeOfDay) : k.secondOfDay < 86400 := by
  have exist := k.exist
  unfold TimeOfDay.secondOfDay
  omega

theorem nanosOf_lt (digits : ∀ c ∈ ds, Text.isAsciiDigit c = true) : nanosOf ds < 1000000000 := by
  have small := Text.map_digitValue_lt digits
  have fits := Text.ofDigits_lt small
  rw [List.length_map] at fits
  rw [nanosOf, Nat.div_lt_iff_lt_mul (Nat.pow_pos (by decide)), Nat.mul_comm]
  exact Nat.mul_lt_mul_of_pos_left fits (by decide)

theorem leap_last (k : TimeOfDay) (leap : 1000000000 ≤ k.nano) : k.secondOfDay % 60 = 59 := by
  have less := nanosOf_lt k.digits
  unfold TimeOfDay.nano at leap
  unfold TimeOfDay.secondOfDay
  split at leap <;> omega

theorem Zone.less (z : Zone) : (-86400 < z.ahead ∧ z.ahead < 86400) ∧ z.ahead % 60 = 0 := by
  cases z with
  | letter c h => simp [Zone.ahead]
  | offset sign hours minutes h =>
    have exist := h.2
    simp only [Zone.ahead]
    split <;> omega

/-- A written time denotes a moment and is read as this moment. -/
theorem Written.exists_parse (w : Written) : ∃ t, parse? w.text = some t ∧ w.Denotes t := by
  have plain := w.plain
  have nano : w.clock.nano < 2000000000 := by
    have less := nanosOf_lt w.clock.digits
    unfold TimeOfDay.nano
    split <;> omega
  have year : Date.firstYear < w.date.year ∧ w.date.year < Date.lastYear := by
    unfold Date.firstYear Date.lastYear
    omega
  obtain ⟨less, minutes⟩ := w.zone.less
  obtain ⟨t, ht, denotes⟩ := Instant.exists_ofLocal year (secondOfDay_lt w.clock) nano
    (leap_last w.clock) less minutes
  refine ⟨t, ?_, denotes⟩
  have zone : scanZone (Text.literal ':') w.zone.chars = some (w.zone.ahead, []) :=
    scanZone_eq_some.2 ⟨w.zone, by simp, rfl⟩
  simp only [parse?, Option.bind_eq_bind, Option.bind_eq_some_iff, Prod.exists, scanDate_eq_some,
    scanDivider_eq_some, whole_eq_some, text, String.toList_ofList]
  exact ⟨w.date, _, ⟨plain, rfl⟩, (), _, ⟨w.divider, w.divides, rfl⟩, _, _, _,
    scanClock_chars w.clock w.zone.ends, _, zone, ht⟩

/-- A text that is read is a written time. -/
theorem exists_written {s : String} {t : Instant} (h : parse? s = some t) :
    ∃ w : Written, s = w.text := by
  simp only [parse?, Option.bind_eq_bind, Option.bind_eq_some_iff, Prod.exists, scanDate_eq_some,
    scanDivider_eq_some, whole_eq_some, scanZone_eq_some] at h
  obtain ⟨date, _, ⟨plain, date_eq⟩, -, _, ⟨divider, divides, rfl⟩, second, nano, _, clock, _,
    ⟨zone, rfl, rfl⟩, -⟩ := h
  obtain ⟨k, rfl, -, -⟩ := of_scanClock clock
  refine ⟨⟨date, plain, divider, divides, k, zone⟩, ?_⟩
  rw [← s.ofList_toList, date_eq]
  simp [Written.text]

/-- A text is read as a moment if and only if it is a written time that denotes this moment. -/
theorem parse?_eq_some_iff {s : String} {t : Instant} :
    parse? s = some t ↔ ∃ w : Written, s = w.text ∧ w.Denotes t := by
  constructor
  · intro h
    obtain ⟨w, rfl⟩ := exists_written h
    obtain ⟨u, hu, denotes⟩ := w.exists_parse
    obtain rfl := Option.some.inj (h.symm.trans hu)
    exact ⟨w, rfl, denotes⟩
  · rintro ⟨w, rfl, denotes⟩
    obtain ⟨u, hu, denotes'⟩ := w.exists_parse
    have same : t = u := Instant.eq_of_seconds (denotes.1.trans denotes'.1.symm)
      (denotes.2.trans denotes'.2.symm)
    rw [hu, same]

end Reading

end Timestamp

namespace Instant

/-! ### Texts of moments -/

open Timestamp

section Texts
variable {n : Nat} {rest : List Char}

/-- The time of day of a moment. -/
def timeOfDay (t : Instant) : TimeOfDay where
  hour := t.second / 3600
  minute := t.second / 60 % 60
  second := t.secondOfMinute
  exist := by
    have second := t.second_lt
    unfold secondOfMinute
    refine ⟨by omega, by omega, ?_⟩
    split <;> omega
  fraction := (fractionChars (t.nano % 1000000000)).tail
  digits := by
    rcases fractionChars_cases (Nat.mod_lt t.nano (show 0 < 1000000000 by decide)) with
      ⟨-, heq⟩ | ⟨-, ds, k, heq, -, -, digits, -⟩
    · rw [heq]
      exact fun c hc => absurd hc List.not_mem_nil
    · rw [heq]
      exact digits

theorem pointed_tail (h : n < 1000000000) : pointed (fractionChars n).tail = fractionChars n := by
  rcases fractionChars_cases h with ⟨-, heq⟩ | ⟨-, ds, k, heq, -, lengths, -, -⟩
  · rw [heq]
    rfl
  · cases ds with
    | nil => simp at lengths
    | cons d ds => rw [heq]; rfl

/-- The fraction that is written is that of the nanoseconds. -/
theorem nanosOf_tail (h : n < 1000000000) : nanosOf (fractionChars n).tail = n := by
  rcases fractionChars_cases h with ⟨zero, heq⟩ | ⟨-, ds, k, heq, same, -, digits, zeros⟩
  · rw [heq, zero]
    rfl
  · have value : Text.ofDigits 10 (ds.map Text.digitValue) * 10 ^ k = n := by
      have whole := congrArg (fun cs => Text.ofDigits 10 (cs.map Text.digitValue)) zeros
      rw [Text.ofDigits_padded, List.map_append, List.map_replicate,
        show Text.digitValue '0' = 0 from rfl, Text.ofDigits, Text.foldl_digits_append_zeros]
        at whole
      exact whole
    have behind : 9 - ds.length = k := by omega
    rw [heq, List.tail_cons, nanosOf_of_length_le (by omega), behind, value]

theorem length_tail (h : n < 1000000000) : (fractionChars n).tail.length ∈ [0, 3, 6, 9] := by
  rcases fractionChars_cases h with ⟨-, heq⟩ | ⟨-, ds, k, heq, -, lengths, -, -⟩
  · rw [heq]
    decide
  · rw [heq]
    exact List.mem_cons_of_mem 0 lengths

/-- Where the last digits are zeros, they are not written. -/
theorem length_tail_le {k : Nat} (h : n < 1000000000) (hk : k ∈ [0, 3, 6, 9])
    (zeros : n % 10 ^ (9 - k) = 0) : (fractionChars n).tail.length ≤ k := by
  have three : n / 1000000 < 10 ^ 3 := by omega
  have six : n / 1000 < 10 ^ 6 := by omega
  have lengths := length_tail h
  simp only [List.mem_cons, List.not_mem_nil, or_false] at hk lengths
  rcases hk with rfl | rfl | rfl | rfl
  · have : n = 0 := by omega
    simp [fractionChars, this]
  · have zeros : n % 1000000 = 0 := zeros
    unfold fractionChars
    split
    · exact Nat.zero_le _
    · exact Nat.le_of_eq (Text.length_padded (by decide) three)
  · have zeros : n % 1000 = 0 := zeros
    unfold fractionChars
    split
    · exact Nat.zero_le _
    split
    · exact (Nat.le_of_eq (Text.length_padded (by decide) three)).trans (by decide)
    · exact Nat.le_of_eq (Text.length_padded (by decide) six)
  · omega

theorem nanosOf_mod {ds : List Char} (le : ds.length ≤ 9) :
    nanosOf ds % 10 ^ (9 - ds.length) = 0 := by
  rw [nanosOf_of_length_le le]
  exact Nat.mul_mod_left _ _

theorem timeOfDay_chars (t : Instant) :
    t.timeOfDay.chars = t.clockChars ++ fractionChars (t.nano % 1000000000) := by
  simp [TimeOfDay.chars, timeOfDay, clockChars, pointed_tail (Nat.mod_lt t.nano (by decide))]

theorem timeOfDay_secondOfDay (t : Instant) : t.timeOfDay.secondOfDay = t.second := by
  have leap := t.leap_last
  simp only [TimeOfDay.secondOfDay, timeOfDay, secondOfMinute]
  split <;> omega

theorem timeOfDay_nano (t : Instant) : t.timeOfDay.nano = t.nano := by
  have nano := t.nano_lt
  have leap := t.leap_last
  simp only [TimeOfDay.nano, timeOfDay, nanosOf_tail (Nat.mod_lt t.nano (by decide)),
    secondOfMinute]
  split <;> split <;> omega

/-- The stored text of a moment, as a written time. -/
def written (t : Instant) (plain : t.HasPlainYear) : Written where
  date := t.date
  plain := plain
  divider := 'T'
  divides := by simp
  clock := t.timeOfDay
  zone := .offset '+' 0 0 (by decide)

theorem written_text (t : Instant) (plain : t.HasPlainYear) :
    (t.written plain).text = t.storedText := by
  simp [Written.text, written, storedText, localChars, timeOfDay_chars, Zone.chars]
  rfl

theorem written_denotes (t : Instant) (plain : t.HasPlainYear) : (t.written plain).Denotes t := by
  refine ⟨?_, (timeOfDay_nano t).symm⟩
  simp [written, seconds, timeOfDay_secondOfDay, Zone.ahead]

theorem written_isStored (t : Instant) (plain : t.HasPlainYear) : (t.written plain).IsStored where
  divider := rfl
  zone := rfl
  digits := length_tail (Nat.mod_lt t.nano (by decide))
  fewest ds _ lengths same := by
    have small : t.nano % 1000000000 < 1000000000 := Nat.mod_lt t.nano (by decide)
    have le : ds.length ≤ 9 := by
      simp only [List.mem_cons, List.not_mem_nil, or_false] at lengths
      omega
    have same : nanosOf ds = t.nano % 1000000000 := same.trans (nanosOf_tail small)
    exact length_tail_le small lengths (same ▸ nanosOf_mod le)

/-- The stored text of a moment is read as this moment. -/
theorem parse?_storedText {t : Instant} (plain : t.HasPlainYear) : parse? t.storedText = some t :=
  parse?_eq_some_iff.2 ⟨t.written plain, (written_text t plain).symm, written_denotes t plain⟩

/-- The middle of a leap second. -/
def leapSecond : Instant :=
  { date := ⟨2016, 12, 31, by decide⟩, second := 86399, nano := 1500000000 }

example : leapSecond.storedText = "2016-12-31T23:59:60.500+00:00" := by decide +kernel

/-- A time of day is read as well where blanks may stand between its parts. -/
theorem scanClockLoosely_chars (k : TimeOfDay)
    (ends : ∀ c cs, rest = c :: cs → c ≠ '.' ∧ Text.isAsciiDigit c = false) :
    scanClockLoosely (k.chars ++ rest) = some ((k.secondOfDay, k.nano), rest) := by
  have exist := k.exist
  have colon := Text.endsDigits_cons (d := ':') (by decide)
  have behind : ∀ c cs, pointed k.fraction ++ rest = c :: cs → Text.isAsciiDigit c = false := by
    intro c cs heq
    cases fraction : k.fraction with
    | nil =>
      rw [fraction] at heq
      exact (ends c cs heq).2
    | cons d ds =>
      rw [fraction] at heq
      obtain rfl := (List.cons.inj heq).1
      decide
  have literal : ∀ rest, Text.behindBlanks (Text.literal ':') (':' :: rest) = some ((), rest) :=
    fun _ => rfl
  have clock : clock? k.hour k.minute k.second (nanosOf k.fraction) =
      some (k.secondOfDay, k.nano) := clock?_eq_some.2 ⟨exist, rfl, rfl⟩
  have hour : k.hour < 100 := by omega
  have minute : k.minute < 100 := by omega
  have second : k.second < 100 := by omega
  simp only [scanClockLoosely, TimeOfDay.chars, List.append_assoc, List.cons_append,
    Date.scan_two hour (colon _), Date.scan_two minute (colon _), Date.scan_two second behind,
    literal, scanFraction_pointed k.digits ends, clock, Option.bind_eq_bind, Option.bind_some]
  rfl

/-- The text of a moment is read as this moment, in every year. -/
theorem parseLoosely?_text (t : Instant) : parseLoosely? t.text = some t := by
  have divider := Text.endsDigits_cons (d := 'T') (by decide)
  have zone : ∀ c cs, ['Z'] = c :: cs → c ≠ '.' ∧ Text.isAsciiDigit c = false := by
    rintro _ _ ⟨⟩
    decide
  have chars : t.text.toList = t.date.chars ++ 'T' :: (t.timeOfDay.chars ++ ['Z']) := by
    rw [text, String.toList_ofList, timeOfDay_chars]
    simp [localChars]
  have universal : Text.behindBlanks scanZoneLoosely ['Z'] = some (0, []) := by decide
  have nothing : Text.trimStart [] = [] := rfl
  have whole : (if Text.trimStart [] = [] then ofLocal? t.date t.second t.nano 0 else none) =
      some t := by
    rw [if_pos nothing, ofLocal?_zero t]
  have clock := scanClockLoosely_chars t.timeOfDay zone
  rw [timeOfDay_secondOfDay, timeOfDay_nano] at clock
  simp only [parseLoosely?, Option.bind_eq_bind, Option.bind_eq_some_iff, Prod.exists, chars]
  exact ⟨t.date, _, t.date.scan_chars (divider _), (), _, rfl, t.second, t.nano, _, clock, 0, [],
    universal, whole⟩

end Texts

end Instant

end Biblio
