import Biblio.Calendar.Timestamp
import Biblio.Proofs.DayNumbers
import Biblio.Proofs.Tokens

/-! The order of the texts of times.

    The database compares texts byte by byte. The parts of a stored time have a fixed width, except
    for the fraction, which loses zeros at its end. Where one fraction ends and another one goes on,
    the sign of the zone meets a point or a digit, and it is less than either of them. So the texts
    of the years 0 to 9999 stand in the order of time. -/

namespace Biblio

namespace Text

/-! ### Bytes -/

/-- The bytes of a text. -/
def bytes (s : String) : List UInt8 := s.toUTF8.data.toList

/-- A text of ASCII. -/
def IsAscii (cs : List Char) : Prop := ∀ c ∈ cs, c.toNat < 128

section Bytes
variable {c : Char} {cs ds : List Char}

theorem isAscii_append : IsAscii (cs ++ ds) ↔ IsAscii cs ∧ IsAscii ds := List.forall_mem_append

theorem isAscii_cons : IsAscii (c :: cs) ↔ c.toNat < 128 ∧ IsAscii cs := List.forall_mem_cons

theorem utf8EncodeChar_of_lt (h : c.toNat < 128) :
    String.utf8EncodeChar c = [c.toNat.toUInt8] := by
  have size : c.utf8Size = 1 := by
    rw [Char.utf8Size_eq_one_iff, UInt32.le_iff_toNat_le]
    exact Nat.le_of_lt_succ h
  rw [String.utf8EncodeChar_eq_singleton size]
  rfl

theorem bytes_ofList (ascii : IsAscii cs) :
    bytes (String.ofList cs) = cs.map fun c => c.toNat.toUInt8 := by
  rw [bytes, String.toUTF8_eq_toByteArray, String.toByteArray_ofList, List.utf8Encode,
    List.toList_data_toByteArray]
  induction cs with
  | nil => rfl
  | cons c cs ih =>
    obtain ⟨first, others⟩ := isAscii_cons.1 ascii
    rw [List.flatMap_cons, utf8EncodeChar_of_lt first, ih others]
    rfl

/-- The bytes of texts of ASCII are in the order of the characters. -/
theorem bytes_lt (ascii : IsAscii cs) (ascii' : IsAscii ds) (lt : cs < ds) :
    bytes (String.ofList cs) < bytes (String.ofList ds) := by
  rw [bytes_ofList ascii, bytes_ofList ascii']
  induction cs generalizing ds with
  | nil =>
    cases ds with
    | nil => exact absurd lt (List.not_lt_nil _)
    | cons d ds => exact List.nil_lt_cons _ _
  | cons c cs ih =>
    cases ds with
    | nil => exact absurd lt (List.not_lt_nil _)
    | cons d ds =>
      obtain ⟨first, others⟩ := isAscii_cons.1 ascii
      obtain ⟨first', others'⟩ := isAscii_cons.1 ascii'
      rcases List.cons_lt_cons_iff.1 lt with less | ⟨rfl, less⟩
      · refine List.cons_lt_cons_iff.2 (.inl ?_)
        have less : c.toNat < d.toNat := less
        rw [UInt8.lt_iff_toNat_lt]
        simp
        omega
      · exact List.cons_lt_cons_iff.2 (.inr ⟨rfl, ih others others' less⟩)

theorem isAscii_of_digits (digits : ∀ c ∈ cs, isAsciiDigit c = true) : IsAscii cs := by
  intro c hc
  have digit := isAsciiDigit_iff.1 (digits c hc)
  omega

theorem isAscii_padded (width n : Nat) : IsAscii (decimalPadded width n) :=
  isAscii_of_digits fun _ => isAsciiDigit_of_mem_padded

end Bytes

/-! ### Digits -/

section Padded
variable {width a b : Nat} {cs ds rest rest' : List Char}

theorem digitChar_digitValue {c : Char} (h : isAsciiDigit c = true) :
    digitChar (digitValue c) = c := by
  rw [digitChar, digitValue, Nat.add_sub_cancel' (isAsciiDigit_iff.1 h).1, Char.ofNat_toNat]

theorem digitValue_lt {c : Char} (h : isAsciiDigit c = true) : digitValue c < 10 := by
  have digit := isAsciiDigit_iff.1 h
  rw [digitValue]
  omega

theorem map_digitValue_lt (digits : ∀ c ∈ cs, isAsciiDigit c = true) :
    ∀ d ∈ cs.map digitValue, d < 10 := by
  intro d hd
  obtain ⟨c, hc, rfl⟩ := List.mem_map.1 hd
  exact digitValue_lt (digits c hc)

theorem map_digitChar_digitValue (digits : ∀ c ∈ cs, isAsciiDigit c = true) :
    (cs.map digitValue).map digitChar = cs := by
  have same : ∀ c ∈ cs, (digitChar ∘ digitValue) c = id c :=
    fun c hc => digitChar_digitValue (digits c hc)
  rw [List.map_map, List.map_congr_left same, List.map_id]

theorem padded_eq_positional (pos : 0 < width) (fits : a < 10 ^ width) :
    decimalPadded width a = (positional 10 width a).map digitChar := by
  have digits : ∀ c ∈ decimalPadded width a, isAsciiDigit c = true :=
    fun c => isAsciiDigit_of_mem_padded
  have small := map_digitValue_lt digits
  have values := positional_ofDigits small
  rw [ofDigits_padded, List.length_map, length_padded pos fits] at values
  rw [values, map_digitChar_digitValue digits]

/-- Digits are those of the number that they stand for. -/
theorem eq_padded (digits : ∀ c ∈ cs, isAsciiDigit c = true) (some : cs ≠ []) :
    cs = decimalPadded cs.length (ofDigits 10 (cs.map digitValue)) := by
  have small := map_digitValue_lt digits
  have values := positional_ofDigits small
  have fits := ofDigits_lt small
  rw [List.length_map] at values fits
  rw [padded_eq_positional (List.length_pos_of_ne_nil some) fits, values,
    map_digitChar_digitValue digits]

/-- A text that goes on with a lower text is lower. -/
theorem append_lt_append (same : cs.length = ds.length) (h : cs < ds ∨ cs = ds ∧ rest < rest') :
    cs ++ rest < ds ++ rest' := by
  rcases h with lt | ⟨rfl, lt⟩
  · induction cs generalizing ds with
    | nil =>
      rw [List.eq_nil_of_length_eq_zero same.symm] at lt
      exact absurd lt (List.not_lt_nil _)
    | cons c cs ih =>
      cases ds with
      | nil => exact absurd lt (List.not_lt_nil _)
      | cons d ds =>
        rcases List.cons_lt_cons_iff.1 lt with less | ⟨rfl, less⟩
        · exact List.cons_lt_cons_iff.2 (.inl less)
        · exact List.cons_lt_cons_iff.2 (.inr ⟨rfl, ih (Nat.succ.inj same) less⟩)
  · exact List.append_left_lt lt

theorem not_lt_zeros {n : Nat} (digits : ∀ c ∈ cs, isAsciiDigit c = true) (same : cs.length = n) :
    ¬ cs < List.replicate n '0' := by
  induction cs generalizing n with
  | nil =>
    subst same
    exact List.not_lt_nil _
  | cons c cs ih =>
    obtain ⟨digit, digits⟩ := List.forall_mem_cons.1 digits
    subst same
    intro lt
    rw [List.length_cons, List.replicate_succ] at lt
    rcases List.cons_lt_cons_iff.1 lt with less | ⟨-, less⟩
    · have ge := (isAsciiDigit_iff.1 digit).1
      have less : c.toNat < 48 := less
      omega
    · exact ih digits rfl less

theorem plus_lt_of_digit {c : Char} (h : isAsciiDigit c = true) : '+' < c := by
  have digit := isAsciiDigit_iff.1 h
  change 43 < c.toNat
  omega

/-- Digits with a sign behind them are in the order that they have with zeros behind them. -/
theorem append_plus_lt {j k : Nat} (digits : ∀ c ∈ cs, isAsciiDigit c = true)
    (digits' : ∀ c ∈ ds, isAsciiDigit c = true) (same : cs.length + j = ds.length + k)
    (lt : cs ++ List.replicate j '0' < ds ++ List.replicate k '0') :
    cs ++ '+' :: rest < ds ++ '+' :: rest' := by
  induction cs generalizing ds with
  | nil =>
    cases ds with
    | nil =>
      have : j = k := by simpa using same
      rw [this] at lt
      exact absurd lt (List.lt_irrefl _)
    | cons d ds => exact List.cons_lt_cons_iff.2 (.inl (plus_lt_of_digit (digits' d (by simp))))
  | cons c cs ih =>
    cases ds with
    | nil =>
      have same : (c :: cs ++ List.replicate j '0').length = k := by
        rw [List.length_append, List.length_replicate, same, List.length_nil, Nat.zero_add]
      refine absurd lt (not_lt_zeros ?_ same)
      intro e he
      rcases List.mem_append.1 he with he | he
      · exact digits e he
      · rw [List.eq_of_mem_replicate he]
        decide
    | cons d ds =>
      have others := (List.forall_mem_cons.1 digits).2
      have others' := (List.forall_mem_cons.1 digits').2
      simp only [List.length_cons] at same
      rcases List.cons_lt_cons_iff.1 lt with less | ⟨rfl, less⟩
      · exact List.cons_lt_cons_iff.2 (.inl less)
      · exact List.cons_lt_cons_iff.2 (.inr ⟨rfl, ih others others' (by omega) less⟩)

theorem digitChar_lt_digitChar {d e : Nat} (lt : d < e) (h : e < 10) :
    digitChar d < digitChar e := by
  have : ∀ d e : Fin 10, d < e → digitChar d < digitChar e := by decide
  exact this ⟨d, lt.trans h⟩ ⟨e, h⟩ lt

theorem width_pos (lt : a < b) (fits : b < 10 ^ width) : 0 < width := by
  rcases Nat.eq_zero_or_pos width with rfl | pos
  · simp at fits
    omega
  · exact pos

/-- The lower number has the lower text, if the texts have the same width. -/
theorem padded_lt_padded (lt : a < b) (fits : b < 10 ^ width) :
    decimalPadded width a < decimalPadded width b := by
  have pos := width_pos lt fits
  rw [padded_eq_positional pos (lt.trans fits), padded_eq_positional pos fits]
  clear pos
  induction width generalizing a b with
  | zero => exact absurd (width_pos lt fits) (Nat.lt_irrefl 0)
  | succ width ih =>
    rw [Nat.pow_succ] at fits
    simp only [positional, List.map_append, List.map_singleton]
    refine append_lt_append (by simp) ?_
    rcases Nat.lt_or_ge (a / 10) (b / 10) with less | ge
    · exact .inl (ih less (by omega))
    · have same : a / 10 = b / 10 := by omega
      refine .inr ⟨by rw [same], List.cons_lt_cons_iff.2 (.inl ?_)⟩
      exact digitChar_lt_digitChar (by omega) (by omega)

/-- Of texts that begin with numbers of one width, the one with the lower number is lower. -/
theorem padded_append_lt (pos : 0 < width) (fits : a < 10 ^ width) (fits' : b < 10 ^ width)
    (h : a < b ∨ a = b ∧ rest < rest') :
    decimalPadded width a ++ rest < decimalPadded width b ++ rest' := by
  refine append_lt_append (by rw [length_padded pos fits, length_padded pos fits']) ?_
  rcases h with lt | ⟨rfl, lt⟩
  · exact .inl (padded_lt_padded lt fits')
  · exact .inr ⟨rfl, lt⟩

theorem padded_cons_lt {c : Char} (pos : 0 < width) (fits : a < 10 ^ width)
    (fits' : b < 10 ^ width) (h : a < b ∨ a = b ∧ rest < rest') :
    decimalPadded width a ++ c :: rest < decimalPadded width b ++ c :: rest' :=
  padded_append_lt pos fits fits'
    (h.imp_right (And.imp_right fun lt => List.cons_lt_cons_iff.2 (.inr ⟨rfl, lt⟩)))

/-- Zeros behind a number make it greater. -/
theorem padded_append_zeros (pos : 0 < width) (fits : a < 10 ^ width) (k : Nat) :
    decimalPadded width a ++ List.replicate k '0' = decimalPadded (width + k) (a * 10 ^ k) := by
  have digits : ∀ c ∈ decimalPadded width a ++ List.replicate k '0', isAsciiDigit c = true := by
    intro c hc
    rcases List.mem_append.1 hc with hc | hc
    · exact isAsciiDigit_of_mem_padded hc
    · rw [List.eq_of_mem_replicate hc]
      decide
  have some : decimalPadded width a ++ List.replicate k '0' ≠ [] := by
    obtain ⟨c, cs, heq, -⟩ := padded_eq_cons width a
    rw [heq]
    simp
  have value : ofDigits 10 ((decimalPadded width a ++ List.replicate k '0').map digitValue) =
      a * 10 ^ k := by
    rw [List.map_append, List.map_replicate, show digitValue '0' = 0 from rfl, ofDigits,
      foldl_digits_append_zeros]
    exact congrArg (· * 10 ^ k) ofDigits_padded
  have heq := eq_padded digits some
  rw [value, List.length_append, length_padded pos fits, List.length_replicate] at heq
  exact heq

end Padded

end Text

/-! ### Times -/

/-- The parts of a day from left to right, in a year that is written with four digits. -/
theorem Date.chars_append {d : Date} (plain : 0 ≤ d.year ∧ d.year ≤ 9999) (rest : List Char) :
    d.chars ++ rest = Text.decimalPadded 4 d.year.natAbs ++ '-' :: (Text.decimalPadded 2 d.month ++
      '-' :: (Text.decimalPadded 2 d.day ++ rest)) := by
  have year : yearChars d.year = Text.decimalPadded 4 d.year.natAbs := if_pos plain
  simp [chars, year]

namespace Instant

section Fraction
variable {n m : Nat} {rest rest' : List Char}

/-- A fraction has 3, 6 or 9 of the nine digits of the nanoseconds, and the others are zeros. -/
theorem fractionChars_cases (h : n < 1000000000) : n = 0 ∧ fractionChars n = [] ∨
    0 < n ∧ ∃ ds k, fractionChars n = '.' :: ds ∧ ds.length + k = 9 ∧ ds.length ∈ [3, 6, 9] ∧
      (∀ c ∈ ds, Text.isAsciiDigit c = true) ∧
      ds ++ List.replicate k '0' = Text.decimalPadded 9 n := by
  have piece : ∀ {width a k : Nat}, 0 < width → a < 10 ^ width → width + k = 9 →
      width ∈ [3, 6, 9] → a * 10 ^ k = n → ∃ ds k, '.' :: Text.decimalPadded width a = '.' :: ds ∧
        ds.length + k = 9 ∧ ds.length ∈ [3, 6, 9] ∧ (∀ c ∈ ds, Text.isAsciiDigit c = true) ∧
        ds ++ List.replicate k '0' = Text.decimalPadded 9 n := by
    intro width a k pos fits sum widths value
    have length := Text.length_padded pos fits
    refine ⟨_, k, rfl, by rw [length, sum], by rw [length]; exact widths,
      fun c => Text.isAsciiDigit_of_mem_padded, ?_⟩
    rw [Text.padded_append_zeros pos fits, sum, value]
  unfold fractionChars
  split
  · exact .inl ⟨‹_›, rfl⟩
  refine .inr ⟨by omega, ?_⟩
  split
  · exact piece (by decide) (by omega) rfl (by decide) (k := 6) (by omega)
  split
  · exact piece (by decide) (by omega) rfl (by decide) (k := 3) (by omega)
  · exact piece (by decide) (by omega) rfl (by decide) (k := 0) (by omega)

/-- The lower fraction has the lower text, whatever the lengths. -/
theorem fractionChars_lt (lt : n < m) (fits : m < 1000000000) :
    fractionChars n ++ '+' :: rest < fractionChars m ++ '+' :: rest' := by
  rcases fractionChars_cases fits with ⟨zero, -⟩ | ⟨-, ds', k', heq', same', -, digits', zeros'⟩
  · omega
  rw [heq']
  rcases fractionChars_cases (lt.trans fits) with
    ⟨-, heq⟩ | ⟨-, ds, k, heq, same, -, digits, zeros⟩
  · rw [heq]
    exact List.cons_lt_cons_iff.2 (.inl (by decide))
  · rw [heq]
    have lt : ds ++ List.replicate k '0' < ds' ++ List.replicate k' '0' := by
      rw [zeros, zeros']
      exact Text.padded_lt_padded lt fits
    refine List.cons_lt_cons_iff.2 (.inr ⟨rfl, ?_⟩)
    exact Text.append_plus_lt digits digits' (same.trans same'.symm) lt

end Fraction

/-- The year is one of those that are written with four digits and no sign. -/
def HasPlainYear (t : Instant) : Prop := 0 ≤ t.date.year ∧ t.date.year ≤ 9999

instance (t : Instant) : Decidable t.HasPlainYear := inferInstanceAs (Decidable (_ ∧ _))

/-- The characters of the stored text. -/
def storedChars (t : Instant) : List Char := t.localChars ++ "+00:00".toList

section Stored
variable {t u : Instant}

/-- The parts of the stored text from left to right. -/
theorem storedChars_eq (h : t.HasPlainYear) : t.storedChars =
    Text.decimalPadded 4 t.date.year.natAbs ++ '-' :: (Text.decimalPadded 2 t.date.month ++
      '-' :: (Text.decimalPadded 2 t.date.day ++ 'T' :: (Text.decimalPadded 2 (t.second / 3600) ++
        ':' :: (Text.decimalPadded 2 (t.second / 60 % 60) ++
          ':' :: (Text.decimalPadded 2 t.secondOfMinute ++
            (fractionChars (t.nano % 1000000000) ++ '+' :: "00:00".toList)))))) := by
  simp [storedChars, localChars, clockChars, Date.chars_append h]

theorem secondOfMinute_lt (t : Instant) : t.secondOfMinute < 100 := by
  unfold secondOfMinute
  split <;> omega

theorem isAscii_fractionChars {n : Nat} (h : n < 1000000000) : Text.IsAscii (fractionChars n) := by
  rcases fractionChars_cases h with ⟨-, heq⟩ | ⟨-, ds, k, heq, -, -, digits, -⟩
  · simp [heq, Text.IsAscii]
  · rw [heq, Text.isAscii_cons]
    exact ⟨by decide, Text.isAscii_of_digits digits⟩

theorem isAscii_storedChars (h : t.HasPlainYear) : Text.IsAscii t.storedChars := by
  have fraction : Text.IsAscii (fractionChars (t.nano % 1000000000)) :=
    isAscii_fractionChars (Nat.mod_lt _ (by decide))
  have zone : Text.IsAscii "00:00".toList := by simp [Text.IsAscii]
  rw [storedChars_eq h]
  simp only [Text.isAscii_append, Text.isAscii_cons, Text.isAscii_padded, fraction, zone]
  decide

/-- Two moments differ first in the part that tells which one is earlier. -/
theorem IsBefore.parts (before : t.IsBefore u) : t.date.year < u.date.year ∨
    t.date.year = u.date.year ∧ (t.date.month < u.date.month ∨ t.date.month = u.date.month ∧
      (t.date.day < u.date.day ∨ t.date.day = u.date.day ∧
        (t.second / 3600 < u.second / 3600 ∨ t.second / 3600 = u.second / 3600 ∧
          (t.second / 60 % 60 < u.second / 60 % 60 ∨ t.second / 60 % 60 = u.second / 60 % 60 ∧
            (t.secondOfMinute < u.secondOfMinute ∨ t.secondOfMinute = u.secondOfMinute ∧
              t.nano % 1000000000 < u.nano % 1000000000))))) := by
  rcases isBefore_iff.1 before with date | ⟨date, clock⟩
  · rcases date with year | ⟨year, month | ⟨month, day⟩⟩
    · exact .inl year
    · exact .inr ⟨year, .inl month⟩
    · exact .inr ⟨year, .inr ⟨month, .inl day⟩⟩
  · refine .inr ⟨by rw [date], .inr ⟨by rw [date], .inr ⟨by rw [date], ?_⟩⟩⟩
    have ht := t.nano_lt
    have hu := u.nano_lt
    have leap := t.leap_last
    have leap' := u.leap_last
    unfold secondOfMinute
    split <;> split <;> omega

/-- The earlier moment has the lower text. -/
theorem storedChars_lt (ht : t.HasPlainYear) (hu : u.HasPlainYear) (before : t.IsBefore u) :
    t.storedChars < u.storedChars := by
  have day : t.date.day ≤ 31 := t.date.exist.2.2.2.trans (Date.daysInMonth_le _ _)
  have day' : u.date.day ≤ 31 := u.date.exist.2.2.2.trans (Date.daysInMonth_le _ _)
  have month := t.date.month_le_twelve
  have month' := u.date.month_le_twelve
  have second := t.second_lt
  have second' := u.second_lt
  have minute := t.secondOfMinute_lt
  have minute' := u.secondOfMinute_lt
  have year := ht
  have year' := hu
  simp only [HasPlainYear] at year year'
  have parts := before.parts
  have years : t.date.year.natAbs < u.date.year.natAbs ∨
      t.date.year.natAbs = u.date.year.natAbs ∧ _ :=
    parts.imp (fun lt => by omega) (And.imp_left fun eq => by rw [eq])
  have two : 0 < 2 := by decide
  rw [storedChars_eq ht, storedChars_eq hu]
  refine Text.padded_cons_lt (by decide) (by omega) (by omega) (years.imp_right (And.imp_right ?_))
  intro months
  refine Text.padded_cons_lt two (by omega) (by omega) (months.imp_right (And.imp_right ?_))
  intro days
  refine Text.padded_cons_lt two (by omega) (by omega) (days.imp_right (And.imp_right ?_))
  intro hours
  refine Text.padded_cons_lt two (by omega) (by omega) (hours.imp_right (And.imp_right ?_))
  intro minutes
  refine Text.padded_cons_lt two (by omega) (by omega) (minutes.imp_right (And.imp_right ?_))
  intro seconds
  refine Text.padded_append_lt two minute minute' (seconds.imp_right (And.imp_right ?_))
  intro nanos
  exact fractionChars_lt nanos (Nat.mod_lt _ (by decide))

/-- The stored texts are in the order of time, byte by byte. -/
theorem storedText_lt_iff (ht : t.HasPlainYear) (hu : u.HasPlainYear) :
    Text.bytes t.storedText < Text.bytes u.storedText ↔ t.IsBefore u := by
  have lower : ∀ {t u : Instant}, t.HasPlainYear → u.HasPlainYear → t.IsBefore u →
      Text.bytes t.storedText < Text.bytes u.storedText := fun ht hu before =>
    Text.bytes_lt (isAscii_storedChars ht) (isAscii_storedChars hu) (storedChars_lt ht hu before)
  refine ⟨fun lt => ?_, lower ht hu⟩
  rcases t.isBefore_or u with before | rfl | behind
  · exact before
  · exact absurd lt (List.lt_irrefl _)
  · exact absurd lt (List.lt_asymm (lower hu ht behind))

end Stored

end Instant

end Biblio
