import Biblio.Json.Printer
import Biblio.Json.Reader
import Biblio.Proofs.Rounding
import Mathlib.Data.List.TakeWhile
import Mathlib.Tactic.Common

/-! Reading numbers that were printed.

    An integer is read as itself. A double is printed with its shortest digits, and what is read
    need not be the same double, for reading rounds three times; but it is a double again: the
    digits lie so near to what they stand for that rounding does not lead beyond all of them. -/

namespace Biblio

/-! ### Digits -/

namespace Text

theorem decimalDigitsWithin_lt {fuel n d : Nat} (h : n ≤ fuel)
    (hd : d ∈ decimalDigitsWithin fuel n) : d < 10 := by
  induction fuel generalizing n with
  | zero =>
    simp only [decimalDigitsWithin, List.mem_singleton] at hd
    omega
  | succ fuel ih =>
    rw [decimalDigitsWithin] at hd
    split at hd
    · rw [List.mem_singleton.1 hd]
      assumption
    · rcases List.mem_append.1 hd with hd | hd
      · exact ih (by omega) hd
      · rw [List.mem_singleton.1 hd]
        omega

theorem decimalDigits_lt {n d : Nat} (hd : d ∈ decimalDigits n) : d < 10 :=
  decimalDigitsWithin_lt (Nat.le_refl n) hd

/-- The first digit is not zero, unless it is the only one. -/
theorem decimalDigitsWithin_cases {fuel n : Nat} (h : n ≤ fuel) :
    ∃ d ds, decimalDigitsWithin fuel n = d :: ds ∧ (d = 0 → ds = []) := by
  induction fuel generalizing n with
  | zero => exact ⟨n % 10, [], rfl, fun _ => rfl⟩
  | succ fuel ih =>
    rw [decimalDigitsWithin]
    split
    · exact ⟨n, [], rfl, fun _ => rfl⟩
    · obtain ⟨d, ds, heq, zero⟩ := ih (n := n / 10) (by omega)
      refine ⟨d, ds ++ [n % 10], by rw [heq]; rfl, ?_⟩
      rintro rfl
      -- then all of `n / 10` would be the digit zero
      have value : ofDigits 10 (decimalDigitsWithin fuel (n / 10)) = n / 10 :=
        ofDigits_decimalDigitsWithin (by omega)
      rw [heq, zero rfl] at value
      simp [ofDigits] at value
      omega

theorem decimalDigits_cases (n : Nat) :
    ∃ d ds, decimalDigits n = d :: ds ∧ (d = 0 → ds = []) :=
  decimalDigitsWithin_cases (Nat.le_refl n)

theorem isDigit_digitChar {d : Nat} (h : d < 10) : (digitChar d).isDigit = true := by
  have : ∀ d : Fin 10, (digitChar d).isDigit = true := by decide
  exact this ⟨d, h⟩

/-- Digits are read back from their characters. -/
theorem map_digitValue_decimal (n : Nat) : (decimal n).map digitValue = decimalDigits n := by
  have same : ∀ d ∈ decimalDigits n, (digitValue ∘ digitChar) d = id d :=
    fun d hd => digitValue_digitChar (decimalDigits_lt hd)
  rw [decimal, List.map_map, List.map_congr_left same, List.map_id]

theorem foldl_digits_append_zeros (n k : Nat) (ds : List Nat) :
    (ds ++ List.replicate k 0).foldl (fun n d => n * 10 + d) n =
      ds.foldl (fun n d => n * 10 + d) n * 10 ^ k := by
  rw [List.foldl_append]
  generalize ds.foldl (fun n d => n * 10 + d) n = m
  induction k generalizing m with
  | zero => simp
  | succ k ih =>
    rw [List.replicate_succ, List.foldl_cons, ih]
    ring

theorem le_foldl_digits (n : Nat) (ds : List Nat) :
    n * 10 ^ ds.length ≤ ds.foldl (fun n d => n * 10 + d) n := by
  induction ds generalizing n with
  | nil => simp
  | cons d ds ih =>
    rw [List.length_cons, List.foldl_cons]
    calc n * 10 ^ (ds.length + 1) = n * 10 * 10 ^ ds.length := by ring
      _ ≤ (n * 10 + d) * 10 ^ ds.length := Nat.mul_le_mul_right _ (Nat.le_add_right _ _)
      _ ≤ _ := ih (n * 10 + d)

theorem foldl_digits_lt {base n : Nat} {ds : List Nat} (h : ∀ d ∈ ds, d < base) :
    ds.foldl (fun n d => n * base + d) n < (n + 1) * base ^ ds.length := by
  induction ds generalizing n with
  | nil => simp
  | cons d ds ih =>
    have small := h d List.mem_cons_self
    rw [List.length_cons, List.foldl_cons]
    calc ds.foldl (fun n d => n * base + d) (n * base + d)
        < (n * base + d + 1) * base ^ ds.length := ih fun c hc => h c (List.mem_cons_of_mem d hc)
      _ ≤ (n + 1) * base * base ^ ds.length := Nat.mul_le_mul_right _ (by linarith)
      _ = (n + 1) * base ^ (ds.length + 1) := by ring

theorem ofDigits_lt {base : Nat} {ds : List Nat} (h : ∀ d ∈ ds, d < base) :
    ofDigits base ds < base ^ ds.length := by
  simpa [ofDigits] using foldl_digits_lt (n := 0) h

end Text

/-! ### Numerals -/

namespace Decimal

section Extend
variable {n : Nat} {ds : List Nat}

/-- No digit is left over of a number that fits. -/
theorem extend_of_lt (h : ds.foldl (fun n d => n * 10 + d) n < 0x10000000000000000) :
    extend n ds = (ds.foldl (fun n d => n * 10 + d) n, []) := by
  induction ds generalizing n with
  | nil => rfl
  | cons d ds ih =>
    rw [List.foldl_cons] at h ⊢
    have := Nat.le_trans (Nat.le_mul_of_pos_right (n * 10 + d) (Nat.pow_pos (by decide)))
      (Text.le_foldl_digits (n * 10 + d) ds)
    rw [extend, if_pos (by omega), ih h]

theorem extend_decimalDigits (h : n < 0x10000000000000000) :
    extend 0 (Text.decimalDigits n) = (n, []) := by
  have value := Text.ofDigits_decimalDigits n
  rw [Text.ofDigits] at value
  rw [extend_of_lt (by rw [value]; exact h), value]

theorem extend_fst_lt (h : n < 0x10000000000000000) (ds : List Nat) :
    (extend n ds).1 < 0x10000000000000000 := by
  induction ds generalizing n with
  | nil => exact h
  | cons d ds ih =>
    rw [extend]
    split
    · exact ih ‹_›
    · exact h

/-- Digits that are left over make a number no larger. -/
theorem extend_fst_le (n : Nat) (ds : List Nat) :
    (extend n ds).1 * 10 ^ (extend n ds).2.length ≤ ds.foldl (fun n d => n * 10 + d) n := by
  induction ds generalizing n with
  | nil => simp [extend]
  | cons d ds ih =>
    rw [extend]
    split
    · exact ih _
    · exact Text.le_foldl_digits n (d :: ds)

theorem length_extend_snd_le (n : Nat) (ds : List Nat) : (extend n ds).2.length ≤ ds.length := by
  induction ds generalizing n with
  | nil => exact Nat.le_refl 0
  | cons d ds ih =>
    rw [extend]
    split
    · exact Nat.le_succ_of_le (ih _)
    · exact Nat.le_refl _

end Extend

/-- The integer of a numeral without fraction and exponent. -/
theorem number?_decimalDigits (n : WideInt) :
    Numeral.number? ⟨decide (n.val < 0), Text.decimalDigits n.val.natAbs, [], none, false⟩ =
      some (.integer n) := by
  have lower := n.lower
  have upper := n.upper
  have extended := extend_decimalDigits (n := n.val.natAbs) (by omega)
  by_cases negative : n.val < 0
  · have value : -(n.val.natAbs : Int) = n.val := by omega
    simp only [Numeral.number?, extended, negative, decide_true, Option.isNone_none,
      List.isEmpty_nil, Bool.not_true, Bool.not_false, Bool.and_self, if_true, if_false,
      Bool.false_eq_true]
    rw [if_neg (by omega), if_pos (by omega), value, WideInt.clamp_val_self]
  · have value : (n.val.natAbs : Int) = n.val := by omega
    simp [Numeral.number?, extended, negative, value]

/-- The double, if the number is one. -/
def Number.double? : Number → Option Double
  | .double d => some d
  | .integer _ => none

theorem Number.eq_double {n : Number} {d : Double} (h : n.double? = some d) : n = .double d := by
  cases n with
  | double d' => rw [Option.some.inj h]
  | integer n => cases h

namespace Numeral

/-- The power of ten that a numeral is written with. -/
def power (x : Numeral) : Int :=
  match x.exponent with
  | none => 0
  | some (below, ds) => if below then -Text.ofDigits 10 ds else Text.ofDigits 10 ds

/-- The magnitude that a numeral is written for. -/
def value (x : Numeral) : ℚ :=
  Text.ofDigits 10 (x.whole ++ x.fraction) * 10 ^ (x.power - x.fraction.length)

/-- A numeral with a fraction or an exponent, that lies below all that would be rounded to no
    double. -/
structure IsDouble (x : Numeral) : Prop where
  marked : x.hasFraction = true ∨ x.exponent.isSome = true
  digits : ∀ d ∈ x.whole, d < 10
  short : x.whole.length ≤ 19
  power : x.power ≤ maxExponent
  small : x.value * (1 + 1 / 2 ^ 53) ^ 2 < Double.limit

variable {x : Numeral}

/-- A numeral is written for less than the power of ten in front of its digits. -/
theorem value_lt (whole : ∀ d ∈ x.whole, d < 10) (fraction : ∀ d ∈ x.fraction, d < 10) :
    x.value < 10 ^ (x.power + x.whole.length) := by
  have all : ∀ d ∈ x.whole ++ x.fraction, d < 10 := List.forall_mem_append.2 ⟨whole, fraction⟩
  have digits := Text.ofDigits_lt all
  have digits : (Text.ofDigits 10 (x.whole ++ x.fraction) : ℚ) <
      10 ^ (x.whole.length + x.fraction.length) := by
    rw [← List.length_append]
    exact_mod_cast digits
  rw [value]
  calc (Text.ofDigits 10 (x.whole ++ x.fraction) : ℚ) * 10 ^ (x.power - x.fraction.length)
      < 10 ^ (x.whole.length + x.fraction.length) * 10 ^ (x.power - x.fraction.length) := by
        gcongr
    _ = 10 ^ (x.power + x.whole.length) := by
        rw [← zpow_natCast, ← zpow_add₀ (by norm_num)]
        congr 1
        push_cast
        ring

/-- What a numeral without a large power of ten is written for is far below the limit. -/
theorem small_of_power_le (whole : ∀ d ∈ x.whole, d < 10) (fraction : ∀ d ∈ x.fraction, d < 10)
    (h : x.power + x.whole.length ≤ 17) :
    x.value * (1 + 1 / 2 ^ 53) ^ 2 < Double.limit := by
  calc x.value * (1 + 1 / 2 ^ 53) ^ 2 ≤ 10 ^ (17 : Int) * (1 + 1 / 2 ^ 53) ^ 2 := by
        gcongr
        exact le_trans (value_lt whole fraction).le (zpow_le_zpow_right₀ (by norm_num) h)
    _ ≤ 2 ^ 70 := by norm_num
    _ < Double.limit := two_pow_lt_limit (by norm_num)

theorem double?_of_lt (negative : Bool) {m : Nat} {e : Int}
    (h : scale 3 (Double.rankOf m 1) e < Double.ranks) : ∃ d, double? negative m e = some d :=
  ⟨_, dif_pos h⟩

/-- The digits that are read of a numeral stand for no more than all of them. -/
theorem extend_le_value {m : Nat} {unread : List Nat}
    (read : extend (Text.ofDigits 10 x.whole) x.fraction = (m, unread)) :
    (m * 10 ^ (x.power - (x.fraction.length - unread.length : Nat)) : ℚ) ≤ x.value := by
  have less := extend_fst_le (Text.ofDigits 10 x.whole) x.fraction
  have fewer := length_extend_snd_le (Text.ofDigits 10 x.whole) x.fraction
  rw [read] at less fewer
  have power : x.power - ((x.fraction.length - unread.length : Nat) : Int) =
      unread.length + (x.power - x.fraction.length) := by
    dsimp only at fewer
    omega
  rw [value, Text.ofDigits, List.foldl_append, power, zpow_add₀ (by norm_num), zpow_natCast,
    ← mul_assoc]
  gcongr
  exact_mod_cast less

namespace IsDouble

/-- All digits in front of the point are read. -/
theorem extend_whole (h : x.IsDouble) :
    extend 0 x.whole = (Text.ofDigits 10 x.whole, []) ∧
      Text.ofDigits 10 x.whole < 0x10000000000000000 := by
  have fits : Text.ofDigits 10 x.whole < 0x10000000000000000 := by
    calc Text.ofDigits 10 x.whole < 10 ^ x.whole.length := Text.ofDigits_lt h.digits
      _ ≤ 10 ^ 19 := Nat.pow_le_pow_right (by decide) h.short
      _ < 0x10000000000000000 := by decide
  exact ⟨extend_of_lt fits, fits⟩

/-- The digits that are read are rounded to a double. -/
theorem double? (h : x.IsDouble) {m : Nat} {unread : List Nat}
    (read : extend (Text.ofDigits 10 x.whole) x.fraction = (m, unread)) : ∃ d,
      Decimal.double? x.negative m (x.power - (x.fraction.length - unread.length : Nat)) =
        some d := by
  have fits := extend_fst_lt h.extend_whole.2 x.fraction
  rw [read] at fits
  refine double?_of_lt x.negative (scale_lt fits (lt_of_le_of_lt ?_ h.small))
  exact mul_le_mul_of_nonneg_right (extend_le_value read) (by positivity)

/-- Such a numeral stands for a double. -/
theorem number? (h : x.IsDouble) : ∃ d, x.number? = some (.double d) := by
  have marked : (!x.hasFraction && x.exponent.isNone && ([] : List Nat).isEmpty) = false := by
    rcases h.marked with mark | mark
    · simp [mark]
    · obtain ⟨p, exponent⟩ := Option.isSome_iff_exists.1 mark
      simp [exponent]
  obtain ⟨m, unread, read⟩ : ∃ m unread,
      extend (Text.ofDigits 10 x.whole) x.fraction = (m, unread) := ⟨_, _, rfl⟩
  rw [Numeral.number?, h.extend_whole.1]
  simp only [marked, read, Bool.false_eq_true, if_false]
  have finite : ∀ e : Int, e = x.power - (x.fraction.length - unread.length : Nat) →
      ∃ d, (Decimal.double? x.negative m e).map Number.double = some (.double d) := by
    rintro e rfl
    obtain ⟨d, hd⟩ := h.double? read
    exact ⟨d, by rw [hd]; rfl⟩
  have power := h.power
  unfold Numeral.power at finite power
  cases exponent : x.exponent with
  | none =>
    simp only [exponent] at finite ⊢
    exact finite _ (by simp)
  | some p =>
    obtain ⟨below, ds⟩ := p
    simp only [exponent] at finite power ⊢
    split
    · cases below with
      | true => exact ⟨Double.zero x.negative, by simp⟩
      | false =>
        simp only [Bool.false_eq_true, if_false] at power
        omega
    · refine finite _ ?_
      cases below <;> simp <;> omega

end IsDouble

end Numeral

/-! ### Shortest digits -/

section Shortest
variable {i : Interval} {count : Nat} {place : Int}

theorem Interval.holds_of_nearest? (h : i.nearest? place = some count) :
    i.holds count place = true := by
  rw [nearest?] at h
  grind

theorem Interval.le_high (h : i.holds count place = true) :
    count * Nat.pow 10 place.toNat * i.den ≤ i.high * Nat.pow 10 (-place).toNat := by
  rw [holds] at h
  split at h <;> simp only [Bool.and_eq_true, decide_eq_true_eq] at h <;> omega

theorem interval_low_pos {rank : Nat} (h : 0 < rank) : 0 < (interval rank).low := by
  have bits : 0 < Double.mantissa rank := by
    rw [Double.mantissa]
    split
    · exact h
    · exact Nat.lt_of_lt_of_le (by decide) (Nat.le_add_right _ _)
  refine Nat.mul_pos (Nat.sub_pos_of_lt ?_) (Nat.pow_pos (by decide))
  split <;> omega

theorem interval_high_div_den (rank : Nat) : ((interval rank).high / (interval rank).den : ℚ) =
    (2 * Double.mantissa rank + 1) * 2 ^ (Double.exponent rank - 1) := by
  rw [show Double.exponent rank - 1 = Double.exponent rank - 2 + 1 by ring,
    zpow_add_one₀ two_ne_zero, zpow_eq_div]
  simp only [interval]
  push_cast [Nat.pow_eq]
  ring

/-- A decimal in the interval of a rank does not lie above its end. -/
theorem mul_pow_le_of_holds {rank : Nat} (h : (interval rank).holds count place = true) :
    (count * 10 ^ place : ℚ) ≤
      (2 * Double.mantissa rank + 1) * 2 ^ (Double.exponent rank - 1) := by
  have high : (count * 10 ^ place.toNat * (interval rank).den : ℚ) ≤
      (interval rank).high * 10 ^ (-place).toNat := by
    exact_mod_cast Interval.le_high h
  have pos : (0 : ℚ) < (interval rank).den := by
    exact_mod_cast (Nat.pow_pos (by decide) : 0 < (interval rank).den)
  rw [← interval_high_div_den, zpow_eq_div, le_div_iff₀ pos, mul_div_assoc', div_mul_eq_mul_div,
    div_le_iff₀ (by positivity)]
  exact high

/-- Zero lies in no interval of a magnitude. -/
theorem count_pos {rank : Nat} (h : 0 < rank) (holds : (interval rank).holds count place = true) :
    0 < count := by
  have low := interval_low_pos h
  rw [Nat.pos_iff_ne_zero]
  rintro rfl
  have : 0 < (interval rank).low * Nat.pow 10 (-place).toNat :=
    Nat.mul_pos low (Nat.pow_pos (by decide))
  rw [Interval.holds] at holds
  split at holds
  · simp at holds
    omega
  · simp at holds

/-- What the digits stand for that are found for a rank does not lie above its interval. -/
theorem shortest_cases {rank : Nat} (h : 0 < rank) :
    shortest rank = ⟨[], 0⟩ ∨ ∃ (count : Nat) (place : Int), 0 < count ∧
      shortest rank = ⟨stripZeros (Text.decimalDigits count),
        place + (Text.decimalDigits count).length - 1⟩ ∧
      (count * 10 ^ place : ℚ) ≤
        (2 * Double.mantissa rank + 1) * 2 ^ (Double.exponent rank - 1) := by
  simp only [shortest]
  cases found : (List.range 17).findSome? fun (n : Nat) =>
      ((interval rank).nearest? (floorLog10 (interval rank).mid (interval rank).den - n)).map
        fun count => (count, floorLog10 (interval rank).mid (interval rank).den - (n : Int)) with
  | none => exact .inl rfl
  | some p =>
    obtain ⟨count, place⟩ := p
    obtain ⟨n, -, hn⟩ := List.exists_of_findSome?_eq_some found
    obtain ⟨_, nearest, heq⟩ := Option.map_eq_some_iff.1 hn
    obtain ⟨rfl, rfl⟩ := Prod.mk.inj heq
    have holds := Interval.holds_of_nearest? nearest
    exact .inr ⟨_, _, count_pos h holds, rfl, mul_pow_le_of_holds holds⟩

theorem ofDigits_cons (d : Nat) (ds : List Nat) :
    Text.ofDigits 10 (d :: ds) = ds.foldl (fun n d => n * 10 + d) d := by
  simp [Text.ofDigits]

/-- Without the zeros at their end digits are fewer, by as much as the power of ten is larger. -/
theorem stripZeros_append (ds : List Nat) :
    ∃ k, ds = stripZeros ds ++ List.replicate k 0 := by
  refine ⟨(ds.reverse.takeWhile (· == 0)).length, ?_⟩
  have zeros : ds.reverse.takeWhile (· == 0) =
      List.replicate (ds.reverse.takeWhile (· == 0)).length 0 :=
    List.eq_replicate_of_mem fun d hd => by simpa using List.mem_takeWhile_imp hd
  calc ds = (ds.reverse.takeWhile (· == 0) ++ ds.reverse.dropWhile (· == 0)).reverse := by
        rw [List.takeWhile_append_dropWhile, List.reverse_reverse]
    _ = stripZeros ds ++ (ds.reverse.takeWhile (· == 0)).reverse := by
        rw [List.reverse_append, stripZeros]
    _ = _ := by rw [zeros, List.reverse_replicate, List.length_replicate]

/-- The digits of a number above zero begin with one that is not zero, also without the zeros at
    their end. -/
theorem stripZeros_decimalDigits {n : Nat} (h : 0 < n) :
    ∃ d ds k, stripZeros (Text.decimalDigits n) = d :: ds ∧ d ≠ 0 ∧ (∀ c ∈ d :: ds, c < 10) ∧
      (Text.decimalDigits n).length = ds.length + 1 + k ∧
      n = Text.ofDigits 10 (d :: ds) * 10 ^ k := by
  obtain ⟨k, append⟩ := stripZeros_append (Text.decimalDigits n)
  obtain ⟨d, ds, digits, zero⟩ := Text.decimalDigits_cases n
  have value := Text.ofDigits_decimalDigits n
  have first : d ≠ 0 := by
    rintro rfl
    rw [digits, zero rfl] at value
    simp [Text.ofDigits] at value
    omega
  cases stripped : stripZeros (Text.decimalDigits n) with
  | nil =>
    rw [stripped, List.nil_append, digits] at append
    exact absurd (List.eq_of_mem_replicate (append ▸ List.mem_cons_self)) first
  | cons c cs =>
    rw [stripped] at append
    have same : c = d := by
      rw [digits] at append
      exact (List.cons.inj append).1.symm
    refine ⟨c, cs, k, rfl, same ▸ first, fun b hb => ?_, ?_, ?_⟩
    · exact Text.decimalDigits_lt (append ▸ List.mem_append_left _ hb)
    · rw [append, List.length_append, List.length_cons, List.length_replicate]
    · conv_lhs => rw [← value, append]
      exact Text.foldl_digits_append_zeros 0 k (c :: cs)

end Shortest

end Decimal

/-! ### Numbers -/

namespace Json

/-- Nothing stands here, or what separates or closes values. -/
def Stops (rest : List Char) : Prop :=
  ∀ c cs, rest = c :: cs → c = ',' ∨ c = ']' ∨ c = '}'

theorem stops_nil : Stops [] := fun _ _ h => nomatch h

theorem stops_comma (cs : List Char) : Stops (',' :: cs) := by
  rintro _ _ ⟨⟩
  exact .inl rfl

theorem stops_bracket (cs : List Char) : Stops (']' :: cs) := by
  rintro _ _ ⟨⟩
  exact .inr (.inl rfl)

theorem stops_brace (cs : List Char) : Stops ('}' :: cs) := by
  rintro _ _ ⟨⟩
  exact .inr (.inr rfl)

/-- There is no digit in front. -/
def EndsDigits (rest : List Char) : Prop := ∀ c cs, rest = c :: cs → c.isDigit = false

section Numbers
variable {rest : List Char} {whole fraction : List Nat} {negative : Bool}

theorem Stops.endsDigits (h : Stops rest) : EndsDigits rest := by
  rintro c cs rfl
  rcases h c cs rfl with rfl | rfl | rfl <;> rfl

/-- Digits are taken up to where they end. -/
theorem takeDigits_map (digits : ∀ d ∈ whole, d < 10) (ends : EndsDigits rest) :
    takeDigits (whole.map Text.digitChar ++ rest) = (whole, rest) := by
  have chars : ∀ c ∈ whole.map Text.digitChar, c.isDigit = true :=
    List.forall_mem_map.2 fun d hd => Text.isDigit_digitChar (digits d hd)
  have take : rest.takeWhile Char.isDigit = [] ∧ rest.dropWhile Char.isDigit = rest := by
    cases rest with
    | nil => exact ⟨rfl, rfl⟩
    | cons c cs =>
      have digit := ends c cs rfl
      exact ⟨List.takeWhile_cons_of_neg (by simp [digit]),
        List.dropWhile_cons_of_neg (by simp [digit])⟩
  have same : ∀ d ∈ whole, (Text.digitValue ∘ Text.digitChar) d = id d :=
    fun d hd => Text.digitValue_digitChar (digits d hd)
  rw [takeDigits, List.takeWhile_append_of_pos chars, List.dropWhile_append_of_pos chars, take.1,
    take.2, List.append_nil, List.map_map, List.map_congr_left same, List.map_id]

/-- Digits in front of a point or an exponent: there are some, and the first one is not zero unless
    it is the only one. -/
structure IsWhole (ds : List Nat) : Prop where
  digits : ∀ d ∈ ds, d < 10
  leads : ∃ d rest, ds = d :: rest ∧ (d = 0 → rest = [])

theorem isWhole_decimalDigits (n : Nat) : IsWhole (Text.decimalDigits n) :=
  ⟨fun _ => Text.decimalDigits_lt, Text.decimalDigits_cases n⟩

/-- The sign in front of a number, if it has one. -/
def signChars (negative : Bool) : List Char := if negative then ['-'] else []

/-- What a number is read as whose digits in front are given. -/
def readBehind (negative : Bool) (whole : List Nat) (rest : List Char) : Reading :=
  match rest with
  | '.' :: rest =>
    match takeDigits rest with
    | ([], _) => missingDigit rest
    | (fraction, after) => readExponent ⟨negative, whole, fraction, none, true⟩ after
  | rest => readExponent ⟨negative, whole, [], none, false⟩ rest

theorem readNumber_whole (negative : Bool) (h : IsWhole whole) (ends : EndsDigits rest) :
    readNumber (signChars negative ++ (whole.map Text.digitChar ++ rest)) =
      readBehind negative whole rest := by
  obtain ⟨d, ds, rfl, zero⟩ := h.leads
  have taken := takeDigits_map h.digits ends
  have unsigned : ∀ cs, (d :: ds).map Text.digitChar ++ rest ≠ '-' :: cs := fun cs same => by
    have digit := Text.isDigit_digitChar (h.digits d List.mem_cons_self)
    rw [(List.cons.inj same).1] at digit
    cases digit
  cases negative
  on_goal 2 => rw [signChars, if_pos rfl, List.cons_append, List.nil_append, readNumber, taken]
  on_goal 1 =>
    rw [signChars, if_neg Bool.false_ne_true, List.nil_append, readNumber, taken]
    on_goal 2 => exact fun cs => unsigned cs
  -- behind the sign both are read alike
  all_goals
    split
    case h_1 heq => cases heq
    case h_2 heq =>
      cases heq
      cases zero rfl
    case h_3 heq =>
      cases heq
      rfl
    case h_4 other heq =>
      cases heq
      rw [readBehind]
      exact fun cs => other cs

theorem readExponent_of_stops (x : Decimal.Numeral) (stops : Stops rest) :
    readExponent x rest = (numberDocument x, some rest) := by
  cases rest with
  | nil => rfl
  | cons c cs => rcases stops c cs rfl with rfl | rfl | rfl <;> rfl

theorem readBehind_of_stops (stops : Stops rest) : readBehind negative whole rest =
    (numberDocument ⟨negative, whole, [], none, false⟩, some rest) := by
  rw [readBehind]
  · exact readExponent_of_stops _ stops
  · rintro cs rfl
    rcases stops '.' cs rfl with h | h | h <;> cases h

/-- An integer is read from its text. -/
theorem readNumber_decimalInt (n : WideInt) (stops : Stops rest) :
    readNumber (Text.decimalInt n.val ++ rest) = (.int n, some rest) := by
  have numeral := Decimal.number?_decimalDigits n
  have printed : Text.decimalInt n.val ++ rest = signChars (decide (n.val < 0)) ++
      ((Text.decimalDigits n.val.natAbs).map Text.digitChar ++ rest) := by
    rw [Text.decimalInt, signChars]
    by_cases negative : n.val < 0 <;> simp [negative, Text.decimal]
  rw [printed, readNumber_whole _ (isWhole_decimalDigits _) stops.endsDigits,
    readBehind_of_stops stops, numberDocument, numeral]

/-- Behind a point the digits of the fraction are read. -/
theorem readBehind_point (digits : ∀ d ∈ fraction, d < 10) (some : fraction ≠ [])
    (ends : EndsDigits rest) :
    readBehind negative whole ('.' :: (fraction.map Text.digitChar ++ rest)) =
      readExponent ⟨negative, whole, fraction, none, true⟩ rest := by
  rw [readBehind, takeDigits_map digits ends]
  split
  · cases ‹_›
    exact absurd rfl some
  · cases ‹_›
    rfl

/-- Behind the sign of an exponent its digits are read. -/
theorem readExponent_marked (x : Decimal.Numeral) (below : Bool) (k : Nat) (stops : Stops rest) :
    readExponent x ('e' :: (if below then '-' else '+') :: (Text.decimal k ++ rest)) =
      (numberDocument { x with exponent := some (below, Text.decimalDigits k) }, some rest) := by
  have digits : ∀ d ∈ Text.decimalDigits k, d < 10 := fun _ => Text.decimalDigits_lt
  have taken := takeDigits_map digits stops.endsDigits
  obtain ⟨d, ds, digits, -⟩ := Text.decimalDigits_cases k
  rw [← Text.decimal, digits] at taken
  cases below <;> simp [readExponent, taken, digits]

end Numbers

/-! ### Doubles -/

section Printed
variable {ds : List Nat} {rest : List Char} {negative : Bool}

/-- The digits in front of the point. -/
def frontDigits (ds : List Nat) (whole : Nat) : List Nat :=
  if whole = 0 then [0] else ds.take whole ++ List.replicate (whole - ds.length) 0

/-- The digits behind the point. -/
def backDigits (ds : List Nat) (whole : Nat) : List Nat :=
  if (ds.drop whole).isEmpty then [0] else ds.drop whole

theorem pointed_map (ds : List Nat) (whole : Nat) :
    pointed (ds.map Text.digitChar) whole = (frontDigits ds whole).map Text.digitChar ++
      '.' :: (backDigits ds whole).map Text.digitChar := by
  have zero : Text.digitChar 0 = '0' := rfl
  simp only [pointed, frontDigits, backDigits, List.length_map]
  congr 1
  · split <;> simp [zero]
  · rw [← List.map_drop, List.isEmpty_map]
    split <;> simp [zero]

/-- The numeral of digits with a point behind so many of them. -/
def pointedNumeral (negative : Bool) (ds : List Nat) (whole : Nat) : Decimal.Numeral :=
  ⟨negative, frontDigits ds whole, backDigits ds whole, none, true⟩

theorem backDigits_lt (digits : ∀ d ∈ ds, d < 10) (whole : Nat) :
    ∀ d ∈ backDigits ds whole, d < 10 := by
  rw [backDigits]
  split
  · simp
  · exact fun d hd => digits d (List.mem_of_mem_drop hd)

theorem readNumber_pointed {whole : Nat} (digits : ∀ d ∈ ds, d < 10)
    (front : IsWhole (frontDigits ds whole)) (stops : Stops rest) :
    readNumber (signChars negative ++ (pointed (ds.map Text.digitChar) whole ++ rest)) =
      (numberDocument (pointedNumeral negative ds whole), some rest) := by
  have nonempty : backDigits ds whole ≠ [] := by
    rw [backDigits]
    split
    · simp
    · simpa using ‹¬(ds.drop whole).isEmpty = true›
  rw [pointed_map, List.append_assoc, List.cons_append, readNumber_whole _ front
    (by rintro _ _ ⟨⟩; rfl), readBehind_point (backDigits_lt digits whole) nonempty
    stops.endsDigits, readExponent_of_stops _ stops]
  rfl

theorem isWhole_frontDigits {d : Nat} (digits : ∀ c ∈ d :: ds, c < 10) (first : d ≠ 0)
    (whole : Nat) : IsWhole (frontDigits (d :: ds) whole) := by
  cases whole with
  | zero => exact ⟨by simp [frontDigits], 0, [], rfl, fun _ => rfl⟩
  | succ n =>
    refine ⟨fun c hc => ?_, d, _, by rw [frontDigits, if_neg (Nat.succ_ne_zero n)]; rfl,
      fun zero => absurd zero first⟩
    rw [frontDigits, if_neg (Nat.succ_ne_zero n)] at hc
    rcases List.mem_append.1 hc with hc | hc
    · exact digits c (List.mem_of_mem_take hc)
    · rw [(List.mem_replicate.1 hc).2]
      decide

/-- The numeral of digits with a point behind the first and a power of ten. -/
def exponentNumeral (negative : Bool) (ds : List Nat) (e : Int) : Decimal.Numeral :=
  ⟨negative, ds.take 1, ds.drop 1, some (decide (e < 0), Text.decimalDigits e.natAbs),
    decide (1 < ds.length)⟩

theorem readNumber_exponent {d : Nat} (digits : ∀ c ∈ d :: ds, c < 10) (e : Int)
    (stops : Stops rest) :
    readNumber (signChars negative ++ (exponentChars ((d :: ds).map Text.digitChar) e ++ rest)) =
      (numberDocument (exponentNumeral negative (d :: ds) e), some rest) := by
  have front : IsWhole [d] := by
    refine ⟨fun c hc => digits c ?_, d, [], rfl, fun _ => rfl⟩
    exact List.mem_singleton.1 hc ▸ List.mem_cons_self
  have mark : (if e < 0 then "e-".toList else "e+".toList) =
      ['e', if decide (e < 0) then '-' else '+'] := by
    by_cases negative : e < 0 <;> simp [negative]
  have marked := fun x => readExponent_marked x (decide (e < 0)) e.natAbs stops
  rw [exponentChars, mark]
  cases ds with
  | nil =>
    have ends : EndsDigits ('e' :: (if decide (e < 0) then '-' else '+') ::
        (Text.decimal e.natAbs ++ rest)) := by
      rintro _ _ ⟨⟩
      rfl
    have read := readNumber_whole negative front ends
    have behind : ∀ cs, readBehind negative [d] ('e' :: cs) =
      readExponent ⟨negative, [d], [], none, false⟩ ('e' :: cs) := fun _ => rfl
    rw [behind, marked] at read
    simpa [exponentNumeral] using read
  | cons c cs =>
    have ends : EndsDigits ('.' :: ((c :: cs).map Text.digitChar ++
        ('e' :: (if decide (e < 0) then '-' else '+') :: (Text.decimal e.natAbs ++ rest)))) := by
      rintro _ _ ⟨⟩
      rfl
    have read := readNumber_whole negative front ends
    rw [readBehind_point (fun c hc => digits c (List.mem_cons_of_mem d hc)) (List.cons_ne_nil c cs)
      (by rintro _ _ ⟨⟩; rfl), marked] at read
    simpa [exponentNumeral] using read

theorem length_frontDigits_le (ds : List Nat) (whole : Nat) :
    (frontDigits ds whole).length ≤ whole + 1 := by
  rw [frontDigits]
  split
  · simp
  · simp only [List.length_append, List.length_take, List.length_replicate]
    omega

theorem pointedNumeral_isDouble (negative : Bool) {whole : Nat} (digits : ∀ c ∈ ds, c < 10)
    (front : IsWhole (frontDigits ds whole)) (short : whole ≤ 16) :
    (pointedNumeral negative ds whole).IsDouble where
  marked := .inl rfl
  digits := front.digits
  short := Nat.le_trans (length_frontDigits_le ds whole) (by omega)
  power := Int.natCast_nonneg _
  small := by
    refine Decimal.Numeral.small_of_power_le front.digits (backDigits_lt digits whole) ?_
    have := length_frontDigits_le ds whole
    simp only [pointedNumeral, Decimal.Numeral.power]
    omega

@[simp] theorem power_exponentNumeral (e : Int) : (exponentNumeral negative ds e).power = e := by
  simp only [exponentNumeral, Decimal.Numeral.power, Text.ofDigits_decimalDigits]
  split
  · have : e < 0 := by simpa using ‹decide (e < 0) = true›
    omega
  · have : ¬e < 0 := by simpa using ‹¬decide (e < 0) = true›
    omega

theorem value_exponentNumeral (e : Int) : (exponentNumeral negative ds e).value =
    Text.ofDigits 10 ds * 10 ^ (e - (ds.length - 1 : Nat)) := by
  rw [Decimal.Numeral.value, power_exponentNumeral]
  simp only [exponentNumeral, List.take_append_drop, List.length_drop]

/-- A numeral whose first digit is not zero is written for no less than its power of ten. -/
theorem ten_zpow_le_value {d : Nat} (first : d ≠ 0) (e : Int) :
    (10 : ℚ) ^ e ≤ (exponentNumeral negative (d :: ds) e).value := by
  have digits : 10 ^ ds.length ≤ Text.ofDigits 10 (d :: ds) := by
    rw [Decimal.ofDigits_cons]
    exact Nat.le_trans (Nat.le_mul_of_pos_left _ (Nat.pos_iff_ne_zero.2 first))
      (Text.le_foldl_digits d ds)
  have digits : (10 ^ ds.length : ℚ) ≤ Text.ofDigits 10 (d :: ds) := by exact_mod_cast digits
  rw [value_exponentNumeral, List.length_cons, Nat.add_sub_cancel]
  calc (10 : ℚ) ^ e = 10 ^ ds.length * 10 ^ (e - ds.length) := by
        rw [← zpow_natCast, ← zpow_add₀ (by norm_num)]
        congr 1
        ring
    _ ≤ _ := by gcongr

theorem exponentNumeral_isDouble {d : Nat} {e : Int} (digits : ∀ c ∈ d :: ds, c < 10)
    (first : d ≠ 0) (small : 0 ≤ e →
      (exponentNumeral negative (d :: ds) e).value * (1 + 1 / 2 ^ 53) ^ 2 < Double.limit) :
    (exponentNumeral negative (d :: ds) e).IsDouble where
  marked := .inr rfl
  digits c hc := digits c (List.mem_of_mem_take hc)
  short := Nat.le_trans (List.length_take_le 1 _) (by decide)
  power := by
    rw [power_exponentNumeral]
    by_contra large
    have high : (309 : Int) ≤ e := Int.le_of_lt (lt_of_le_of_lt (by decide) (not_le.1 large))
    obtain ⟨k, rfl⟩ := Int.eq_ofNat_of_zero_le (by omega : 0 ≤ e)
    -- so large a power of ten alone is beyond the limit
    have beyond := Decimal.limit_lt_ten_pow (k := k) (by omega)
    have leading : (10 : ℚ) ^ k ≤ (exponentNumeral negative (d :: ds) k).value := by
      rw [← zpow_natCast]
      exact ten_zpow_le_value first k
    have grows : (exponentNumeral negative (d :: ds) k).value * 1 ≤
        (exponentNumeral negative (d :: ds) k).value * (1 + 1 / 2 ^ 53) ^ 2 := by
      gcongr
      · exact le_trans (by positivity) leading
      · norm_num
    linarith [small (by omega)]
  small := by
    rcases le_or_gt 0 e with h | h
    · exact small h
    · refine Decimal.Numeral.small_of_power_le (fun c hc => digits c (List.mem_of_mem_take hc))
        (fun c hc => digits c (List.mem_of_mem_drop hc)) ?_
      rw [power_exponentNumeral]
      simp [exponentNumeral]
      omega

/-- With a mantissa short of the largest two, the end of the interval is below the limit also where
    the exponent is the largest. -/
theorem high_lt_limit_of_top {m : Nat} (bits : m + 3 ≤ 2 ^ 53) :
    (2 * m + 1) * 2 ^ (970 : Int) * (1 + 1 / 2 ^ 53) ^ 2 < Double.limit := by
  have bits : (m : ℚ) ≤ 2 ^ 53 - 3 := by
    rw [le_sub_iff_add_le]
    exact_mod_cast bits
  rw [Double.limit]
  calc (2 * m + 1 : ℚ) * 2 ^ (970 : Int) * (1 + 1 / 2 ^ 53) ^ 2
      ≤ (2 * (2 ^ 53 - 3) + 1) * 2 ^ (970 : Int) * (1 + 1 / 2 ^ 53) ^ 2 := by gcongr
    _ = (2 * (2 ^ 53 - 3) + 1) * (1 + 1 / 2 ^ 53) ^ 2 * 2 ^ (970 : Int) := by ring
    _ < (2 ^ 54 - 1) * 2 ^ (970 : Int) := by
      gcongr
      norm_num

/-- With a smaller exponent it is below the limit for every mantissa. -/
theorem high_lt_limit_of_exponent {m : Nat} {e : Int} (bits : m < 2 ^ 53) (he : e ≤ 969) :
    (2 * m + 1) * 2 ^ e * (1 + 1 / 2 ^ 53) ^ 2 < Double.limit := by
  have bits : (2 * m + 1 : ℚ) ≤ 2 ^ 54 := by
    have : 2 * m + 1 ≤ 2 ^ 54 := by omega
    exact_mod_cast this
  have low : (2 : ℚ) ^ e ≤ 2 ^ (969 : Int) := zpow_le_zpow_right₀ (by norm_num) he
  rw [Double.limit, show (970 : Int) = 969 + 1 by norm_num, zpow_add_one₀ two_ne_zero]
  calc (2 * m + 1 : ℚ) * 2 ^ e * (1 + 1 / 2 ^ 53) ^ 2
      ≤ 2 ^ 54 * 2 ^ (969 : Int) * (1 + 1 / 2 ^ 53) ^ 2 := by gcongr
    _ = 2 ^ 54 * (1 + 1 / 2 ^ 53) ^ 2 * 2 ^ (969 : Int) := by ring
    _ < (2 ^ 54 - 1) * 2 * 2 ^ (969 : Int) :=
      mul_lt_mul_of_pos_right (by norm_num) (by positivity)
    _ = (2 ^ 54 - 1) * (2 ^ (969 : Int) * 2) := by ring

/-- But for the two largest magnitudes, the end of an interval is so far below the limit that
    rounding does not lead beyond it. -/
theorem high_lt_limit {rank : Nat} (h : rank + 2 < Double.ranks) :
    (2 * Double.mantissa rank + 1) * 2 ^ (Double.exponent rank - 1) * (1 + 1 / 2 ^ 53) ^ 2 <
      Double.limit := by
  have bit : Double.hiddenBit = 2 ^ 52 := rfl
  have last : Double.ranks = 2047 * 2 ^ 52 := rfl
  by_cases top : 970 < Double.exponent rank
  · have large : ¬rank < 2 ^ 52 := by
      rw [Double.exponent, bit] at top
      split at top <;> omega
    have exact : Double.exponent rank = 971 := by
      rw [Double.exponent, bit, if_neg large] at top ⊢
      omega
    have bits : Double.mantissa rank + 3 ≤ 2 ^ 53 := by
      rw [Double.exponent, bit, if_neg large] at exact
      rw [Double.mantissa, bit, if_neg large]
      omega
    rw [exact]
    exact high_lt_limit_of_top bits
  · have bits : Double.mantissa rank < 2 ^ 53 := by
      rw [Double.mantissa, bit]
      split <;> omega
    exact high_lt_limit_of_exponent bits (by omega)

/-- What is printed without an exponent is read as a double. -/
theorem readNumber_positional {e : Int} (digits : ∀ c ∈ ds, c < 10)
    (leads : ds = [] ∧ e = 0 ∨ ∃ d rest, ds = d :: rest ∧ d ≠ 0) (short : e ≤ 15) :
    ∃ d, ∀ rest, Stops rest → readNumber (signChars negative ++
      (positionalChars (ds.map Text.digitChar) e ++ rest)) = (.real d, some rest) := by
  have zero : Text.digitChar 0 = '0' := rfl
  obtain ⟨ds', whole, printed, digits', front, few⟩ : ∃ (ds' : List Nat) (whole : Nat),
      positionalChars (ds.map Text.digitChar) e = pointed (ds'.map Text.digitChar) whole ∧
      (∀ c ∈ ds', c < 10) ∧ IsWhole (frontDigits ds' whole) ∧ whole ≤ 16 := by
    rw [positionalChars]
    split
    · refine ⟨ds, e.toNat + 1, rfl, digits, ?_, by omega⟩
      rcases leads with ⟨rfl, rfl⟩ | ⟨d, rest, rfl, first⟩
      · exact ⟨by decide, 0, [], rfl, fun _ => rfl⟩
      · exact isWhole_frontDigits digits first _
    · refine ⟨List.replicate ((-e).toNat - 1) 0 ++ ds, 0, by simp [zero], ?_,
        ⟨by simp [frontDigits], 0, [], rfl, fun _ => rfl⟩, by decide⟩
      refine List.forall_mem_append.2 ⟨fun c hc => ?_, digits⟩
      rw [(List.mem_replicate.1 hc).2]
      decide
  obtain ⟨d, hd⟩ := (pointedNumeral_isDouble negative digits' front few).number?
  refine ⟨d, fun rest stops => ?_⟩
  rw [printed, readNumber_pointed digits' front stops, numberDocument, hd]

/-- What the digits of a magnitude with an exponent are read as is a double. -/
theorem exponentNumeral_shortest (negative : Bool) {rank d : Nat}
    (finite : rank < Double.ranks) (pos : 0 < rank)
    (leads : (Decimal.shortest rank).digits = d :: ds) :
    ∃ d, (exponentNumeral negative (Decimal.shortest rank).digits
      (Decimal.shortest rank).exponent).number? = some (.double d) := by
  rcases Nat.lt_or_ge (rank + 2) Double.ranks with small | large
  · rcases Decimal.shortest_cases pos with none | ⟨count, place, some, heq, high⟩
    · rw [none] at leads
      cases leads
    · obtain ⟨c, cs, k, stripped, first, digits, length, value⟩ :=
        Decimal.stripZeros_decimalDigits some
      rw [heq, stripped]
      refine (exponentNumeral_isDouble digits first fun _ => ?_).number?
      have exact : (exponentNumeral negative (c :: cs)
          (place + (Text.decimalDigits count).length - 1)).value = count * 10 ^ place := by
        rw [value_exponentNumeral, length, List.length_cons, Nat.add_sub_cancel,
          show place + ((cs.length + 1 + k : Nat) : Int) - 1 - (cs.length : Nat) = k + place by
            push_cast; ring, zpow_add₀ (by norm_num), zpow_natCast, ← mul_assoc]
        conv_rhs => rw [value]
        push_cast
        rfl
      rw [exact]
      exact lt_of_le_of_lt (mul_le_mul_of_nonneg_right high (by positivity)) (high_lt_limit small)
  · -- the two largest magnitudes are tried
    have either : rank = 2047 * 2 ^ 52 - 2 ∨ rank = 2047 * 2 ^ 52 - 1 := by
      have : Double.ranks = 2047 * 2 ^ 52 := rfl
      omega
    have tried : ∀ rank ∈ [2047 * 2 ^ 52 - 2, 2047 * 2 ^ 52 - 1], ∀ negative : Bool,
        ((exponentNumeral negative (Decimal.shortest rank).digits
          (Decimal.shortest rank).exponent).number?.bind (·.double?)).isSome = true := by
      decide +kernel
    obtain ⟨d, hd⟩ := Option.isSome_iff_exists.1 (tried rank (by simpa using either) negative)
    obtain ⟨n, hn, double⟩ := Option.bind_eq_some_iff.1 hd
    exact ⟨d, by rw [hn, Decimal.Number.eq_double double]⟩

/-- What is printed of a double behind its sign. -/
def magnitudeChars (rank : Nat) : List Char :=
  if rank = 0 then "0.0".toList
  else
    let x := Decimal.shortest rank
    let ds := x.digits.map Text.digitChar
    if doubleFormat.least ≤ x.exponent ∧ x.exponent ≤ doubleFormat.greatest then
      positionalChars ds x.exponent
    else exponentChars ds x.exponent

theorem doubleChars_eq (d : Double) :
    doubleChars d = signChars d.negative ++ magnitudeChars d.rank := by
  rw [doubleChars, magnitudeChars, signChars]
  by_cases zero : d.rank = 0
  · simp only [if_pos zero]
  · simp only [if_neg zero]

theorem shortest_digits {rank : Nat} (pos : 0 < rank) :
    (∀ c ∈ (Decimal.shortest rank).digits, c < 10) ∧
      ((Decimal.shortest rank).digits = [] ∧ (Decimal.shortest rank).exponent = 0 ∨
        ∃ c cs, (Decimal.shortest rank).digits = c :: cs ∧ c ≠ 0) := by
  rcases Decimal.shortest_cases pos with none | ⟨count, place, some, heq, -⟩
  · rw [none]
    exact ⟨fun _ h => (nomatch h), .inl ⟨rfl, rfl⟩⟩
  · obtain ⟨c, cs, -, stripped, first, digits, -⟩ := Decimal.stripZeros_decimalDigits some
    rw [heq, stripped]
    exact ⟨digits, .inr ⟨c, cs, rfl, first⟩⟩

/-- What is printed of a double is read as a double. -/
theorem exists_readNumber_doubleChars (d : Double) :
    ∃ d', ∀ rest, Stops rest → readNumber (doubleChars d ++ rest) = (.real d', some rest) := by
  simp only [doubleChars_eq, List.append_assoc, magnitudeChars]
  by_cases zero : d.rank = 0
  · simp only [if_pos zero]
    have none : ∀ c ∈ ([] : List Nat), c < 10 := fun _ h => nomatch h
    exact readNumber_positional none (.inl ⟨rfl, rfl⟩) (by decide)
  simp only [if_neg zero]
  have pos := Nat.pos_iff_ne_zero.2 zero
  obtain ⟨digits, leads⟩ := shortest_digits pos
  by_cases range : doubleFormat.least ≤ (Decimal.shortest d.rank).exponent ∧
      (Decimal.shortest d.rank).exponent ≤ doubleFormat.greatest
  · simp only [if_pos range]
    exact readNumber_positional digits leads range.2
  · simp only [if_neg range]
    rcases leads with ⟨-, none⟩ | ⟨c, cs, leads, -⟩
    · rw [none] at range
      exact absurd ⟨by decide, by decide⟩ range
    · obtain ⟨d', hd⟩ := exponentNumeral_shortest d.negative d.finite pos leads
      refine ⟨d', fun rest stops => ?_⟩
      rw [leads] at digits hd ⊢
      rw [readNumber_exponent digits _ stops, numberDocument, hd]

end Printed

/-- The double that is read where a double was printed. -/
def rereadDouble (d : Double) : Double :=
  match readNumber (doubleChars d) with
  | (.real d', _) => d'
  | _ => d

theorem readNumber_doubleChars (d : Double) {rest : List Char} (stops : Stops rest) :
    readNumber (doubleChars d ++ rest) = (.real (rereadDouble d), some rest) := by
  obtain ⟨d', hd⟩ := exists_readNumber_doubleChars d
  have alone := hd [] stops_nil
  rw [List.append_nil] at alone
  rw [hd rest stops, rereadDouble, alone]

/-- What is read as a number begins with a sign or a digit. -/
theorem eq_cons_of_readNumber {cs after : List Char} {d : Document}
    (h : readNumber cs = (d, some after)) :
    ∃ c rest, cs = c :: rest ∧ (c = '-' ∨ c.isDigit = true) := by
  cases cs with
  | nil => cases h
  | cons c rest =>
    refine ⟨c, rest, rfl, ?_⟩
    by_contra other
    rw [not_or] at other
    have none : takeDigits (c :: rest) = ([], c :: rest) := by
      simp [takeDigits, other.2]
    rw [readNumber, none] at h
    · cases h
    · exact fun cs same => other.1 (List.cons.inj same).1

theorem decimalInt_eq_cons (n : WideInt) :
    ∃ c cs, Text.decimalInt n.val = c :: cs ∧ (c = '-' ∨ c.isDigit = true) := by
  have read := readNumber_decimalInt n stops_nil
  rw [List.append_nil] at read
  exact eq_cons_of_readNumber read

theorem doubleChars_eq_cons (d : Double) :
    ∃ c cs, doubleChars d = c :: cs ∧ (c = '-' ∨ c.isDigit = true) := by
  have read := readNumber_doubleChars d stops_nil
  rw [List.append_nil] at read
  exact eq_cons_of_readNumber read

end Json

end Biblio
