import Biblio.Calendar.Date
import Biblio.Ident.Basic
import Biblio.Proofs.Reading

/-! The texts of identifiers and days.

    A token is read back as the identifier that it names, and the text of a day as the day, in every
    year of the calendar: a year of four digits has no sign, all others have one. -/

namespace Biblio

theorem mapM_map_of_inverse {α β : Type} {f : β → Option α} {g : α → β} {as : List α}
    (h : ∀ a ∈ as, f (g a) = some a) : (as.map g).mapM f = some as := by
  induction as with
  | nil => rfl
  | cons a as ih =>
    rw [List.map_cons, List.mapM_cons, h a List.mem_cons_self,
      ih fun b hb => h b (List.mem_cons_of_mem a hb)]
    rfl

/-! ### Identifiers -/

namespace Token

/-- A token is read back. -/
theorem decode?_encode (u : Uuid) : decode? (encode u) = some u := by
  have digits : (encode u).mapM digitValue? = some (Text.positional 32 length (u.bits.toNat * 4)) :=
    mapM_map_of_inverse fun d hd => digitValue?_digitChar (Text.positional_lt (by decide) hd)
  have fits : u.bits.toNat * 4 < Nat.pow 32 length := by
    have := u.bits.isLt
    change u.bits.toNat * 4 < 32 ^ 26
    omega
  have count : (encode u).length = length := by simp [encode]
  rw [decode?, if_pos count, digits]
  simp only [Text.ofDigits_positional fits]
  rw [if_pos (Nat.mul_mod_left _ _), Nat.mul_div_cancel _ (by decide), BitVec.ofNat_toNat,
    BitVec.setWidth_eq]

end Token

namespace Uuid

/-- Groups are split where they were joined. -/
theorem splitGroups_joinGroups {widths : List Nat} {cs : List Char} (sum : cs.length = widths.sum) :
    splitGroups widths (joinGroups widths cs) = some cs := by
  induction widths generalizing cs with
  | nil =>
    rw [List.eq_nil_of_length_eq_zero sum]
    rfl
  | cons n widths ih =>
    cases widths with
    | nil =>
      have length : cs.length = n := by simpa using sum
      rw [joinGroups, List.take_of_length_le (Nat.le_of_eq length), splitGroups, if_pos length]
    | cons m widths =>
      rw [List.sum_cons] at sum
      have front : (cs.take n).length = n := by
        rw [List.length_take]
        omega
      have behind : splitGroups (m :: widths) (joinGroups (m :: widths) (cs.drop n)) =
          some (cs.drop n) := ih (by rw [List.length_drop]; omega)
      rw [joinGroups, splitGroups, List.drop_left' front, List.take_left' front]
      simp only [behind, Option.map_some, List.take_append_drop]

theorem length_digits (u : Uuid) : u.digits.length = 32 := by simp [digits]

/-- The 32 digits are those of the identifier. -/
theorem ofDigits?_digits (u : Uuid) : ofDigits? u.digits = some u := by
  have values : u.digits.mapM Text.hexValue? = some (Text.positional 16 32 u.bits.toNat) :=
    mapM_map_of_inverse fun d hd => Text.hexValue?_hexChar (Text.positional_lt (by decide) hd)
  have fits : u.bits.toNat < Nat.pow 16 32 := u.bits.isLt
  rw [ofDigits?, if_pos u.length_digits, values, Option.map_some, Text.ofDigits_positional fits,
    BitVec.ofNat_toNat, BitVec.setWidth_eq]

/-- The canonical text begins with a digit. -/
theorem chars_eq_cons (u : Uuid) : ∃ d cs, d < 16 ∧ u.chars = Text.hexChar d :: cs := by
  have length := u.length_digits
  cases h : Text.positional 16 32 u.bits.toNat with
  | nil => simp [digits, h] at length
  | cons d ds =>
    have small : d < 16 := Text.positional_lt (by decide) (h ▸ List.mem_cons_self)
    exact ⟨d, _, small, by simp [chars, digits, h, groupWidths, joinGroups]; rfl⟩

/-- The canonical text is read back. -/
theorem parse?_chars (u : Uuid) : parse? u.chars = some u := by
  obtain ⟨d, cs, small, first⟩ := u.chars_eq_cons
  have other : ∀ d : Fin 16, (Text.hexChar d).toLower ≠ '{' ∧ (Text.hexChar d).toLower ≠ 'u' := by
    decide
  obtain ⟨brace, scheme⟩ := other ⟨d, small⟩
  have unbraced : inBraces? u.chars = none := by
    rw [first]
    simp [inBraces?, behind?, brace]
  have unschemed : behind? "urn:uuid:".toList u.chars = none := by
    rw [first]
    simp [behind?, scheme]
  have split : splitGroups groupWidths u.chars = some u.digits :=
    splitGroups_joinGroups u.length_digits
  have grouped : ofDigits? u.chars = none := by
    have length : u.chars.length = 36 := by
      simp [chars, groupWidths, joinGroups, u.length_digits]
    rw [ofDigits?, if_neg (by rw [length]; decide)]
  rw [parse?, unbraced, unschemed]
  simp only [Option.or, grouped, split, Option.bind_some, ofDigits?_digits]

end Uuid

/-- The text of an identifier that is not a token names it, too. -/
theorem Ident.parse?_text_of_bits {kind : IdentKind} (named : kind.usesToken = false)
    (id : Ident kind) : Ident.parse? kind id.text = some id := by
  have other : ¬kind.usesToken = true := by simp [named]
  rw [parse?, text, String.toList_ofList, chars, if_neg other, if_neg other, Uuid.parse?_chars]
  rfl

/-- The text of an identifier that is a token names it. -/
theorem Ident.parse?_text {kind : IdentKind} (named : kind.usesToken = true) (id : Ident kind) :
    Ident.parse? kind id.text = some id := by
  rw [parse?, text, String.toList_ofList, chars, if_pos named, if_pos named, Token.decode?_encode]
  rfl

/-! ### Numbers of some width -/

namespace Text

theorem length_decimalDigitsWithin {width fuel n : Nat} (h : n ≤ fuel) (pos : 0 < width)
    (fits : n < 10 ^ width) : (decimalDigitsWithin fuel n).length ≤ width := by
  induction fuel generalizing n width with
  | zero => exact pos
  | succ fuel ih =>
    rw [decimalDigitsWithin]
    split
    · exact pos
    · obtain ⟨width, rfl⟩ := Nat.exists_eq_add_of_le' pos
      have small : n / 10 < 10 ^ width := by
        rw [Nat.pow_succ] at fits
        omega
      have pos' : 0 < width := by
        rcases Nat.eq_zero_or_pos width with rfl | pos'
        · omega
        · exact pos'
      have := ih (n := n / 10) (by omega) pos' small
      simp
      omega

theorem length_decimal {width n : Nat} (pos : 0 < width) (fits : n < 10 ^ width) :
    (decimal n).length ≤ width := by
  rw [decimal, List.length_map]
  exact length_decimalDigitsWithin (Nat.le_refl n) pos fits

theorem isAsciiDigit_iff {c : Char} :
    isAsciiDigit c = true ↔ 0x30 ≤ c.toNat ∧ c.toNat < 0x3A := by
  rw [isAsciiDigit, Bool.and_eq_true, decide_eq_true_eq, decide_eq_true_eq]

theorem isAsciiDigit_digitChar {d : Nat} (h : d < 10) : isAsciiDigit (digitChar d) = true := by
  have : ∀ d : Fin 10, isAsciiDigit (digitChar d) = true := by decide
  exact this ⟨d, h⟩

section Padded
variable {width n : Nat}

theorem isAsciiDigit_of_mem_padded {c : Char} (hc : c ∈ decimalPadded width n) :
    isAsciiDigit c = true := by
  rcases List.mem_append.1 hc with hc | hc
  · rw [List.eq_of_mem_replicate hc]
    decide
  · obtain ⟨d, hd, rfl⟩ := List.mem_map.1 hc
    exact isAsciiDigit_digitChar (decimalDigits_lt hd)

/-- Zeros in front make no difference. -/
theorem ofDigits_padded : ofDigits 10 ((decimalPadded width n).map digitValue) = n := by
  have zeros : ∀ k, (List.replicate k 0).foldl (fun n d => n * 10 + d) 0 = 0 := fun k => by
    induction k with
    | zero => rfl
    | succ k ih => rw [List.replicate_succ, List.foldl_cons, ih]
  rw [decimalPadded, List.map_append, List.map_replicate, map_digitValue_decimal, ofDigits,
    List.foldl_append, show digitValue '0' = 0 from rfl, zeros]
  exact ofDigits_decimalDigits n

theorem length_padded (pos : 0 < width) (fits : n < 10 ^ width) :
    (decimalPadded width n).length = width := by
  have := length_decimal pos fits
  simp [decimalPadded]
  omega

/-- A number of some width begins with a digit. -/
theorem padded_eq_cons (width n : Nat) :
    ∃ c cs, decimalPadded width n = c :: cs ∧ isAsciiDigit c = true := by
  cases h : decimalPadded width n with
  | nil =>
    obtain ⟨d, ds, digits, -⟩ := decimalDigits_cases n
    simp [decimalPadded, decimal, digits] at h
  | cons c cs => exact ⟨c, cs, rfl, isAsciiDigit_of_mem_padded (h ▸ List.mem_cons_self)⟩

/-- A number is scanned up to where its digits end, if there are no more of them than allowed. -/
theorem someDigits_padded {most : Nat} {rest : List Char}
    (fits : (decimalPadded width n).length ≤ most)
    (ends : ∀ c cs, rest = c :: cs → isAsciiDigit c = false) :
    someDigits most (decimalPadded width n ++ rest) = some (n, rest) := by
  have digits : ∀ c ∈ decimalPadded width n, isAsciiDigit c = true :=
    fun c => isAsciiDigit_of_mem_padded
  have none : (rest.take (most - (decimalPadded width n).length)).takeWhile isAsciiDigit = [] := by
    cases rest with
    | nil => simp
    | cons c cs =>
      cases most - (decimalPadded width n).length with
      | zero => rfl
      | succ k => simp [ends c cs rfl]
  have taken : ((decimalPadded width n ++ rest).take most).takeWhile isAsciiDigit =
      decimalPadded width n := by
    rw [List.take_append, List.take_of_length_le fits, List.takeWhile_append_of_pos digits, none,
      List.append_nil]
  obtain ⟨c, cs, heq, -⟩ := padded_eq_cons width n
  have some : (decimalPadded width n).isEmpty = false := by rw [heq]; rfl
  simp only [someDigits, taken, some, Bool.false_eq_true, if_false, ofDigits_padded,
    List.drop_left]

end Padded

theorem isBlank_of_isAsciiDigit {c : Char} (h : isAsciiDigit c = true) : isBlank c = false := by
  obtain ⟨ge, lt⟩ := isAsciiDigit_iff.1 h
  simp [isBlank]
  omega

/-- Digits end in front of a character that is not a digit. -/
theorem endsDigits_cons {d : Char} (h : isAsciiDigit d = false) (rest : List Char) :
    ∀ c cs, d :: rest = c :: cs → isAsciiDigit c = false := by
  rintro c cs heq
  obtain rfl := (List.cons.inj heq).1
  exact h

theorem behindBlanks_cons {α : Type} (scan : Scan α) {c : Char} (h : isBlank c = false)
    (cs : List Char) : behindBlanks scan (c :: cs) = scan (c :: cs) := by
  simp [behindBlanks, trimStart, h]

end Text

/-! ### Days -/

namespace Date

theorem daysInMonth_le (year : Int) (month : Nat) : daysInMonth year month ≤ 31 := by
  unfold daysInMonth
  split
  · split <;> decide
  all_goals decide

theorem month_le {year : Int} {month : Nat} (h : 0 < daysInMonth year month) : month ≤ 12 := by
  unfold daysInMonth at h
  split at h <;> omega

theorem scanHyphen_hyphen (rest : List Char) : scanHyphen ('-' :: rest) = some ((), rest) := rfl

/-- A month or a day of a month is scanned. -/
theorem scan_two {n : Nat} (fits : n < 100) {rest : List Char}
    (ends : ∀ c cs, rest = c :: cs → Text.isAsciiDigit c = false) :
    Text.behindBlanks (Text.someDigits 2) (Text.decimalPadded 2 n ++ rest) = some (n, rest) := by
  obtain ⟨c, cs, heq, digit⟩ := Text.padded_eq_cons 2 n
  have length : (Text.decimalPadded 2 n).length = 2 := Text.length_padded (by decide) (by omega)
  have scanned := Text.someDigits_padded (Nat.le_of_eq length) ends
  rw [heq, List.cons_append] at scanned ⊢
  rw [Text.behindBlanks_cons _ (Text.isBlank_of_isAsciiDigit digit), scanned]

theorem yearChars_eq_cons (year : Int) :
    ∃ c cs, yearChars year = c :: cs ∧ Text.isBlank c = false := by
  unfold yearChars
  split
  · obtain ⟨c, cs, heq, digit⟩ := Text.padded_eq_cons 4 year.natAbs
    exact ⟨c, cs, heq, Text.isBlank_of_isAsciiDigit digit⟩
  · exact ⟨_, _, rfl, by split <;> decide⟩

/-- A year is scanned: where it has no sign, it has four digits. -/
theorem scanYear_yearChars (year : Int) (rest : List Char) :
    scanYear (yearChars year ++ '-' :: rest) = some (year, '-' :: rest) := by
  have ends := Text.endsDigits_cons (d := '-') (by decide) rest
  have all : Text.allDigits (Text.decimalPadded 4 year.natAbs ++ '-' :: rest) =
      some (year.natAbs, '-' :: rest) := by
    refine Text.someDigits_padded ?_ ends
    rw [List.length_append]
    omega
  rw [yearChars]
  split
  · rename_i h
    have four : Text.someDigits 4 (Text.decimalPadded 4 year.natAbs ++ '-' :: rest) =
        some (year.natAbs, '-' :: rest) :=
      Text.someDigits_padded (Nat.le_of_eq (Text.length_padded (by decide) (by omega))) ends
    obtain ⟨c, cs, heq, digit⟩ := Text.padded_eq_cons 4 year.natAbs
    have same : (year.natAbs : Int) = year := by omega
    rw [heq, List.cons_append] at four ⊢
    rw [scanYear, four]
    · simp only [Option.map_some, same]
    · rintro r h
      obtain rfl := (List.cons.inj h).1
      cases digit
    · rintro r h
      obtain rfl := (List.cons.inj h).1
      cases digit
  · by_cases negative : year < 0
    · have same : -(year.natAbs : Int) = year := by omega
      rw [if_pos negative, List.cons_append, scanYear, all]
      simp only [Option.map_some, same]
    · have same : (year.natAbs : Int) = year := by omega
      rw [if_neg negative, List.cons_append, scanYear, all]
      simp only [Option.map_some, same]

/-- A day is scanned where no digit stands behind it. -/
theorem scan_chars (d : Date) {rest : List Char}
    (ends : ∀ c cs, rest = c :: cs → Text.isAsciiDigit c = false) :
    scan (d.chars ++ rest) = some (d, rest) := by
  obtain ⟨-, -, pos, le⟩ := d.exist
  have month := month_le (Nat.lt_of_lt_of_le pos le)
  have day := Nat.le_trans le (daysInMonth_le d.year d.month)
  have hyphen := Text.endsDigits_cons (d := '-') (by decide)
  have year : ∀ rest, Text.behindBlanks scanYear (yearChars d.year ++ '-' :: rest) =
      some (d.year, '-' :: rest) := fun rest => by
    have scanned := scanYear_yearChars d.year rest
    obtain ⟨c, cs, heq, visible⟩ := yearChars_eq_cons d.year
    rw [heq, List.cons_append] at scanned ⊢
    rw [Text.behindBlanks_cons _ visible, scanned]
  have last := scan_two (show d.day < 100 by omega) ends
  simp [scan, chars, year, scanHyphen_hyphen, scan_two (n := d.month) (by omega) (hyphen _), last,
    of?_self]

/-- The text of a day is read back. -/
theorem parse?_text (d : Date) : parse? d.text = some d := by
  have scanned : scan (d.chars ++ []) = some (d, []) := d.scan_chars fun _ _ h => nomatch h
  rw [List.append_nil] at scanned
  rw [parse?, text, String.toList_ofList, scanned]
  rfl

end Date

end Biblio
