import Biblio.Decimal.Numeral
import Mathlib.Algebra.Order.Field.Power
import Mathlib.Algebra.Order.Ring.Rat
import Mathlib.Tactic.FieldSimp
import Mathlib.Tactic.GCongr
import Mathlib.Tactic.Linarith
import Mathlib.Tactic.NormNum
import Mathlib.Tactic.Positivity
import Mathlib.Tactic.Ring

/-! How far rounding leads.

    A rank stands for a rational number. Rounding a quotient leads at most half a unit of the last
    place above it, and to a finite rank if the quotient is below the last one that does not
    overflow. Reading a numeral rounds three times: its significand, a power of ten, and what comes
    of the two. So the numeral has a finite double if it is by a little smaller than that. -/

namespace Biblio

/-- A power with a sign is a quotient of two without. -/
theorem zpow_eq_div (b : ℚ) (z : Int) : b ^ z = b ^ z.toNat / b ^ (-z).toNat := by
  rcases Int.le_total 0 z with h | h
  · obtain ⟨n, rfl⟩ := Int.eq_ofNat_of_zero_le h
    simp
  · obtain ⟨n, hn⟩ := Int.eq_ofNat_of_zero_le (Int.neg_nonneg_of_nonpos h)
    obtain rfl : z = -(n : Int) := by omega
    simp

namespace Double

/-- The magnitude that a rank stands for. -/
def value (rank : Nat) : ℚ := mantissa rank * 2 ^ exponent rank

/-- The first magnitude that is rounded to none. -/
def limit : ℚ := (2 ^ 54 - 1) * 2 ^ (970 : Int)

theorem limit_eq : limit = 2 ^ (1024 : Int) - 2 ^ (970 : Int) := by
  have : (2 : ℚ) ^ (1024 : Int) = 2 ^ 54 * 2 ^ (970 : Int) := by
    rw [show (1024 : Int) = (54 : Nat) + 970 by norm_num, zpow_add₀ two_ne_zero, zpow_natCast]
  rw [this, limit]
  ring

theorem value_eq_div (rank : Nat) : value rank = numerator rank / denominator rank := by
  rw [value, numerator, denominator, zpow_eq_div 2, Nat.cast_mul, mul_div_assoc]
  simp

theorem denominator_pos (rank : Nat) : 0 < denominator rank := Nat.pow_pos (by decide)

theorem value_nonneg (rank : Nat) : 0 ≤ value rank := by
  rw [value]
  positivity

/-! ### Rounding a quotient -/

section Quotient
variable {num den : Nat}

theorem pow_le_div_iff (hd : 0 < den) (k : Int) :
    (2 : ℚ) ^ k ≤ num / den ↔ den * Nat.pow 2 k.toNat ≤ num * Nat.pow 2 (-k).toNat := by
  have hd : (0 : ℚ) < den := by exact_mod_cast hd
  rw [zpow_eq_div 2, div_le_div_iff₀ (by positivity) hd, mul_comm]
  exact_mod_cast Iff.rfl

theorem floorLog2_spec (hn : 0 < num) (hd : 0 < den) :
    (2 : ℚ) ^ floorLog2 num den ≤ num / den ∧ (num / den : ℚ) < 2 ^ (floorLog2 num den + 1) := by
  have numLow : (2 : ℚ) ^ (num.log2 : Int) ≤ num := by
    exact_mod_cast Nat.log2_self_le (Nat.pos_iff_ne_zero.1 hn)
  have numHigh : (num : ℚ) < 2 ^ ((num.log2 : Int) + 1) := by
    exact_mod_cast Nat.lt_log2_self (n := num)
  have denLow : (2 : ℚ) ^ (den.log2 : Int) ≤ den := by
    exact_mod_cast Nat.log2_self_le (Nat.pos_iff_ne_zero.1 hd)
  have denHigh : (den : ℚ) < 2 ^ ((den.log2 : Int) + 1) := by
    exact_mod_cast Nat.lt_log2_self (n := den)
  have hd' : (0 : ℚ) < den := by exact_mod_cast hd
  rw [floorLog2]
  generalize (num.log2 : Int) = a at numLow numHigh
  generalize (den.log2 : Int) = b at denLow denHigh
  have high : (num / den : ℚ) < 2 ^ (a - b + 1) := by
    rw [show a - b + 1 = a + 1 - b by ring, zpow_sub₀ two_ne_zero]
    gcongr
  have low : (2 : ℚ) ^ (a - b - 1) ≤ num / den := by
    rw [show a - b - 1 = a - (b + 1) by ring, zpow_sub₀ two_ne_zero]
    gcongr
  simp only [← pow_le_div_iff hd]
  split
  case isTrue h => exact ⟨h, high⟩
  case isFalse h => exact ⟨low, by simpa using h⟩

theorem roundDiv_le (hd : 0 < den) : (roundDiv num den : ℚ) ≤ num / den + 1 / 2 := by
  have close : 2 * (roundDiv num den * den) ≤ 2 * num + den := by
    have whole := Nat.div_add_mod num den
    rw [roundDiv]
    generalize num / den = q at whole ⊢
    generalize num % den = r at whole ⊢
    split_ifs <;> nlinarith
  have hd : (0 : ℚ) < den := by exact_mod_cast hd
  have close : 2 * ((roundDiv num den : ℚ) * den) ≤ 2 * num + den := by exact_mod_cast close
  rw [← sub_nonneg]
  have : (num / den + 1 / 2 - roundDiv num den : ℚ) =
      (2 * num + den - 2 * (roundDiv num den * den)) / (2 * den) := by field_simp
  rw [this]
  exact div_nonneg (by linarith) (by positivity)

theorem div_le_roundDiv (num den : Nat) : num / den ≤ roundDiv num den := by
  simp only [roundDiv]
  split_ifs <;> omega

/-- The power of two on whose multiples a quotient is rounded. -/
def grid (num den : Nat) : Int := max (floorLog2 num den - 52) (-1074)

/-- The multiple that a quotient is rounded to. -/
def multiple (num den : Nat) : Nat :=
  roundDiv (num * Nat.pow 2 (-grid num den).toNat) (den * Nat.pow 2 (grid num den).toNat)

theorem rankOf_eq (hn : num ≠ 0) :
    rankOf num den = (grid num den + 1074).toNat * hiddenBit + multiple num den := by
  rw [rankOf, if_neg hn]
  rfl

theorem scaled_eq (z : Int) :
    ((num * Nat.pow 2 (-z).toNat : Nat) / (den * Nat.pow 2 z.toNat : Nat) : ℚ) =
      num / den / 2 ^ z := by
  rw [zpow_eq_div 2]
  push_cast [Nat.pow_eq]
  field_simp

theorem scaled_pos (hd : 0 < den) (z : Int) : 0 < den * Nat.pow 2 z.toNat :=
  Nat.mul_pos hd (Nat.pow_pos (by decide))

theorem multiple_le (num : Nat) (hd : 0 < den) :
    (multiple num den : ℚ) ≤ num / den / 2 ^ grid num den + 1 / 2 := by
  rw [← scaled_eq]
  exact roundDiv_le (scaled_pos hd _)

theorem multiple_le_two_pow (hn : 0 < num) (hd : 0 < den) : multiple num den ≤ 2 ^ 53 := by
  have high := (floorLog2_spec hn hd).2
  have coarse : floorLog2 num den + 1 ≤ grid num den + 53 := by
    rw [grid]
    omega
  have below : (num / den / 2 ^ grid num den : ℚ) < 2 ^ 53 := by
    rw [div_lt_iff₀ (by positivity)]
    calc (num / den : ℚ) < 2 ^ (floorLog2 num den + 1) := high
      _ ≤ 2 ^ (grid num den + 53) := zpow_le_zpow_right₀ (by norm_num) coarse
      _ = 2 ^ 53 * 2 ^ grid num den := by
        rw [zpow_add₀ two_ne_zero, mul_comm]
        norm_num
  have near := multiple_le num hd
  have : (multiple num den : ℚ) < (2 ^ 53 + 1 : Nat) := by
    push_cast
    linarith
  exact Nat.lt_succ_iff.1 (by exact_mod_cast this)

/-- Only on the finest grid does a multiple have less than 53 bits. -/
theorem two_pow_le_multiple (hn : 0 < num) (hd : 0 < den) (h : grid num den ≠ -1074) :
    2 ^ 52 ≤ multiple num den := by
  have low := (floorLog2_spec hn hd).1
  have exact : floorLog2 num den = grid num den + 52 := by
    rw [grid] at h ⊢
    omega
  rw [exact, zpow_add₀ two_ne_zero] at low
  have above : (2 ^ 52 : ℚ) ≤ num / den / 2 ^ grid num den := by
    rw [le_div_iff₀ (by positivity), mul_comm]
    exact_mod_cast low
  rw [← scaled_eq, le_div_iff₀ (by exact_mod_cast scaled_pos hd _)] at above
  refine Nat.le_trans ((Nat.le_div_iff_mul_le (scaled_pos hd _)).2 ?_) (div_le_roundDiv _ _)
  exact_mod_cast above

/-- The magnitude of a rank that is put together from a grid and a multiple. -/
theorem value_of_parts {j q : Nat} (high : q ≤ 2 ^ 53) (low : j = 0 ∨ 2 ^ 52 ≤ q) :
    value (j * hiddenBit + q) = q * 2 ^ ((j : Int) - 1074) := by
  have bit : hiddenBit = 2 ^ 52 := rfl
  rcases Nat.lt_or_ge q (2 ^ 52) with small | large
  · obtain rfl : j = 0 := low.resolve_right (by omega)
    simp only [value, mantissa, exponent, bit, zero_mul, zero_add, small, if_true, Nat.cast_zero,
      zero_sub]
  obtain ⟨t, rfl⟩ := Nat.exists_eq_add_of_le large
  have notSmall : ¬j * 2 ^ 52 + (2 ^ 52 + t) < 2 ^ 52 := by omega
  rcases Nat.lt_or_ge t (2 ^ 52) with inside | outside
  · have quotient : (j * 2 ^ 52 + (2 ^ 52 + t)) / 2 ^ 52 = j + 1 := by omega
    have rest : (j * 2 ^ 52 + (2 ^ 52 + t)) % 2 ^ 52 = t := by omega
    simp only [value, mantissa, exponent, bit, notSmall, if_false, ← Int.natCast_div, quotient,
      rest]
    rw [show ((j + 1 : Nat) : Int) - 1075 = (j : Int) - 1074 by push_cast; ring]
  · -- the multiple is the first of the next grid
    obtain rfl : t = 2 ^ 52 := by omega
    have quotient : (j * 2 ^ 52 + (2 ^ 52 + 2 ^ 52)) / 2 ^ 52 = j + 2 := by omega
    have rest : (j * 2 ^ 52 + (2 ^ 52 + 2 ^ 52)) % 2 ^ 52 = 0 := by omega
    simp only [value, mantissa, exponent, bit, notSmall, if_false, ← Int.natCast_div, quotient,
      rest]
    rw [show ((j + 2 : Nat) : Int) - 1075 = (j : Int) - 1074 + 1 by push_cast; ring,
      zpow_add_one₀ two_ne_zero]
    push_cast
    ring

/-- What a quotient is rounded to is a multiple of the power of two of its grid. -/
theorem value_rankOf (hn : 0 < num) (hd : 0 < den) :
    value (rankOf num den) = multiple num den * 2 ^ grid num den := by
  have fine : -1074 ≤ grid num den := le_max_right _ _
  rw [rankOf_eq (Nat.pos_iff_ne_zero.1 hn), value_of_parts (multiple_le_two_pow hn hd)]
  · congr 2
    omega
  · by_cases h : grid num den = -1074
    · exact .inl (by omega)
    · exact .inr (two_pow_le_multiple hn hd h)

theorem value_zero : value 0 = 0 := by
  simp [value, mantissa, hiddenBit]

/-- Rounding leads at most half a multiple up. -/
theorem value_rankOf_le (hn : 0 < num) (hd : 0 < den) :
    value (rankOf num den) ≤ num / den + 2 ^ grid num den / 2 := by
  have near := multiple_le num hd
  have pos : (0 : ℚ) < 2 ^ grid num den := by positivity
  rw [value_rankOf hn hd]
  calc (multiple num den : ℚ) * 2 ^ grid num den
      ≤ (num / den / 2 ^ grid num den + 1 / 2) * 2 ^ grid num den := by gcongr
    _ = num / den + 2 ^ grid num den / 2 := by field_simp

/-- A quotient of at least one keeps 53 bits. -/
theorem value_rankOf_le_of_one_le (hn : 0 < num) (hd : 0 < den) (h : den ≤ num) :
    value (rankOf num den) ≤ num / den * (1 + 1 / 2 ^ 53) := by
  have low := (floorLog2_spec hn hd).1
  have large : 0 ≤ floorLog2 num den := by
    have one : (1 : ℚ) ≤ num / den := by
      rw [le_div_iff₀ (by exact_mod_cast hd)]
      exact_mod_cast (by omega : 1 * den ≤ num)
    have := lt_of_le_of_lt one (floorLog2_spec hn hd).2
    rw [← zpow_zero (2 : ℚ), zpow_lt_zpow_iff_right₀ (by norm_num)] at this
    omega
  have exact : grid num den = floorLog2 num den - 52 := max_eq_left (by omega)
  have near := value_rankOf_le hn hd
  rw [exact, zpow_sub₀ two_ne_zero] at near
  norm_num at near ⊢
  linarith

/-- However small a quotient is, rounding does not lead far up. -/
theorem value_rankOf_le_two_mul (hn : 0 < num) (hd : 0 < den) :
    value (rankOf num den) ≤ 2 * (num / den) + 1 := by
  have low := (floorLog2_spec hn hd).1
  have near := value_rankOf_le hn hd
  have pos : (0 : ℚ) ≤ num / den := by positivity
  have small : (2 : ℚ) ^ grid num den ≤ num / den + 1 := by
    rcases le_total (floorLog2 num den - 52) (-1074) with h | h
    · rw [grid, max_eq_right h]
      have : (2 : ℚ) ^ (-1074 : Int) ≤ 1 := zpow_le_one_of_nonpos₀ (by norm_num) (by norm_num)
      linarith
    · rw [grid, max_eq_left h]
      have : (2 : ℚ) ^ (floorLog2 num den - 52) ≤ 2 ^ floorLog2 num den :=
        zpow_le_zpow_right₀ (by norm_num) (by omega)
      linarith
  linarith

/-- A quotient of at least a power of two is rounded to at least that. -/
theorem le_value_rankOf {k : Int} (hn : 0 < num) (hd : 0 < den) (hk : 0 ≤ k)
    (h : (2 : ℚ) ^ k ≤ num / den) : 2 ^ k ≤ value (rankOf num den) := by
  have large : k ≤ floorLog2 num den := by
    have := lt_of_le_of_lt h (floorLog2_spec hn hd).2
    rw [zpow_lt_zpow_iff_right₀ (by norm_num)] at this
    omega
  have exact : grid num den = floorLog2 num den - 52 := max_eq_left (by omega)
  have bits : (2 ^ 52 : ℚ) ≤ multiple num den := by
    exact_mod_cast two_pow_le_multiple hn hd (by omega)
  rw [value_rankOf hn hd, exact, zpow_sub₀ two_ne_zero]
  calc (2 : ℚ) ^ k ≤ 2 ^ floorLog2 num den := zpow_le_zpow_right₀ (by norm_num) large
    _ = 2 ^ 52 * (2 ^ floorLog2 num den / 2 ^ (52 : Int)) := by
      norm_num
      ring
    _ ≤ multiple num den * (2 ^ floorLog2 num den / 2 ^ (52 : Int)) := by gcongr

/-- A quotient below the limit is rounded to a finite magnitude. -/
theorem rankOf_lt_ranks (hd : 0 < den) (h : (num / den : ℚ) < limit) : rankOf num den < ranks := by
  rcases Nat.eq_zero_or_pos num with rfl | hn
  · simp [rankOf, ranks, hiddenBit]
  have small : floorLog2 num den ≤ 1023 := by
    have : (2 : ℚ) ^ floorLog2 num den < 2 ^ (1024 : Int) :=
      lt_of_le_of_lt (floorLog2_spec hn hd).1
        (lt_trans h (limit_eq ▸ sub_lt_self _ (by positivity)))
    rw [zpow_lt_zpow_iff_right₀ (by norm_num)] at this
    omega
  have high := multiple_le_two_pow hn hd
  have bit : hiddenBit = 2 ^ 52 := rfl
  have last : ranks = 2047 * 2 ^ 52 := rfl
  rw [rankOf_eq (Nat.pos_iff_ne_zero.1 hn), last, bit]
  rcases Int.lt_or_le (grid num den) 971 with fine | coarse
  · have : (grid num den + 1074).toNat ≤ 2044 := by omega
    omega
  · -- on the coarsest grid the limit is half a multiple behind the last one
    have exact : grid num den = 971 := by
      rw [grid] at coarse ⊢
      omega
    have near := multiple_le num hd
    have below : (multiple num den : ℚ) < (2 ^ 53 : Nat) := by
      rw [exact] at near
      have : (num / den / 2 ^ (971 : Int) : ℚ) < (2 ^ 54 - 1) / 2 := by
        rw [div_lt_iff₀ (by positivity), show (971 : Int) = 970 + 1 by norm_num,
          zpow_add_one₀ two_ne_zero]
        rw [limit] at h
        linarith
      push_cast
      linarith
    have below : multiple num den < 2 ^ 53 := by exact_mod_cast below
    rw [exact]
    omega

end Quotient

/-! ### Products and quotients of ranks -/

section Ranks
variable {a b : Nat}

theorem mulRank_lt_ranks (h : value a * value b < limit) : mulRank a b < ranks := by
  refine rankOf_lt_ranks (Nat.mul_pos (denominator_pos a) (denominator_pos b)) ?_
  rwa [Nat.cast_mul, Nat.cast_mul, ← div_mul_div_comm, ← value_eq_div, ← value_eq_div]

theorem numerator_pos (h : 0 < value b) : 0 < numerator b := by
  rw [Nat.pos_iff_ne_zero]
  intro zero
  rw [value_eq_div, zero, Nat.cast_zero, zero_div] at h
  exact lt_irrefl _ h

theorem quotient_eq (a b : Nat) :
    ((numerator a * denominator b : Nat) / (denominator a * numerator b : Nat) : ℚ) =
      value a / value b := by
  rw [Nat.cast_mul, Nat.cast_mul, value_eq_div, value_eq_div, div_div_div_eq]

theorem divRank_lt_ranks (hb : 0 < value b) (h : value a / value b < limit) :
    divRank a b < ranks := by
  refine rankOf_lt_ranks (Nat.mul_pos (denominator_pos a) (numerator_pos hb)) ?_
  rwa [quotient_eq]

theorem value_divRank_le (hb : 0 < value b) :
    value (divRank a b) ≤ 2 * (value a / value b) + 1 := by
  rw [divRank]
  rcases Nat.eq_zero_or_pos (numerator a * denominator b) with zero | pos
  · rw [zero, rankOf, if_pos rfl, value_zero]
    have := value_nonneg a
    positivity
  · rw [← quotient_eq]
    exact value_rankOf_le_two_mul pos (Nat.mul_pos (denominator_pos a) (numerator_pos hb))

end Ranks

end Double

/-! ### Numerals -/

namespace Decimal

open Double

theorem value_rankOf_nat_le (m : Nat) : value (rankOf m 1) ≤ m * (1 + 1 / 2 ^ 53) := by
  rcases Nat.eq_zero_or_pos m with rfl | pos
  · simp [rankOf, value_zero]
  · simpa using value_rankOf_le_of_one_le pos Nat.one_pos pos

theorem value_powerOfTen_le (k : Nat) : value (powerOfTen k) ≤ 10 ^ k * (1 + 1 / 2 ^ 53) := by
  simpa [powerOfTen] using value_rankOf_nat_le (Nat.pow 10 k)

theorem le_value_powerOfTen {n k : Nat} (h : 2 ^ n ≤ 10 ^ k) : 2 ^ n ≤ value (powerOfTen k) := by
  have reached : (2 : ℚ) ^ (n : Int) ≤ (Nat.pow 10 k : Nat) / (1 : Nat) := by
    rw [zpow_natCast, Nat.cast_one, div_one]
    exact_mod_cast h
  have := le_value_rankOf (Nat.pow_pos (by decide)) Nat.one_pos (Int.natCast_nonneg n) reached
  rwa [zpow_natCast] at this

theorem one_le_value_powerOfTen (k : Nat) : 1 ≤ value (powerOfTen k) := by
  simpa using le_value_powerOfTen (n := 0) (k := k) (Nat.one_le_pow _ _ (by decide))

theorem four_le_value_powerOfTen {k : Nat} (h : 0 < k) : 4 ≤ value (powerOfTen k) := by
  have := le_value_powerOfTen (n := 2) (k := k)
    (Nat.le_trans (by decide : 2 ^ 2 ≤ 10 ^ 1) (Nat.pow_le_pow_right (by decide) h))
  linarith

theorem two_pow_lt_limit {n : Nat} (h : n ≤ 970) : (2 : ℚ) ^ n < limit := by
  calc (2 : ℚ) ^ n ≤ 2 ^ 970 := pow_le_pow_right₀ (by norm_num) h
    _ < (2 ^ 54 - 1) * 2 ^ 970 := lt_mul_of_one_lt_left (by positivity) (by norm_num)
    _ = limit := by rw [limit, ← zpow_natCast]; rfl

theorem limit_lt_ten_pow {k : Nat} (h : 309 ≤ k) : limit < 10 ^ k := by
  have digits : 2 ^ 1024 ≤ 10 ^ 309 := by decide +kernel
  calc limit < 2 ^ (1024 : Int) := limit_eq ▸ sub_lt_self _ (by positivity)
    _ = 2 ^ 1024 := zpow_natCast 2 1024
    _ ≤ 10 ^ 309 := by exact_mod_cast digits
    _ ≤ 10 ^ k := pow_le_pow_right₀ (by norm_num) h

theorem scale_of_near (fuel rank : Nat) {e : Int} (near : e.natAbs ≤ 308) :
    scale fuel rank e =
      if 0 ≤ e then mulRank rank (powerOfTen e.natAbs) else divRank rank (powerOfTen e.natAbs) := by
  unfold scale
  rw [if_pos near]

theorem scale_lt_of_near {fuel rank : Nat} {e : Int} (near : e.natAbs ≤ 308) (he : e ≤ 0)
    (h : value rank ≤ 2 ^ 70) : scale fuel rank e < ranks := by
  have small := two_pow_lt_limit (n := 71) (by norm_num)
  have one := one_le_value_powerOfTen e.natAbs
  rw [scale_of_near _ _ near]
  split
  · obtain rfl : e = 0 := by omega
    have unit := value_powerOfTen_le 0
    refine mulRank_lt_ranks (lt_of_le_of_lt ?_ small)
    calc value rank * value (powerOfTen 0) ≤ 2 ^ 70 * 2 := by
          gcongr
          norm_num at unit ⊢
          linarith
      _ = 2 ^ 71 := by norm_num
  · refine divRank_lt_ranks (by linarith) (lt_of_le_of_lt ?_ small)
    calc value rank / value (powerOfTen e.natAbs) ≤ value rank :=
          div_le_self (value_nonneg rank) one
      _ ≤ 2 ^ 71 := by linarith

/-- Powers of ten below one make no magnitude too large. -/
theorem scale_lt_of_nonpos {fuel rank : Nat} {e : Int} (he : e ≤ 0) (h : value rank ≤ 2 ^ 70) :
    scale fuel rank e < ranks := by
  have finite : (0 : Nat) < ranks := by decide
  by_cases near : e.natAbs ≤ 308
  · exact scale_lt_of_near near he h
  have negative : ¬0 ≤ e := by omega
  induction fuel generalizing rank e with
  | zero =>
    simp only [scale, near, negative, if_false]
    split <;> exact finite
  | succ fuel ih =>
    have four := four_le_value_powerOfTen (k := 308) (by decide)
    -- each step makes the magnitude smaller, but for what rounding adds
    have smaller : value (divRank rank (powerOfTen 308)) ≤ 2 ^ 70 := by
      refine le_trans (value_divRank_le (by linarith)) ?_
      have : value rank / value (powerOfTen 308) ≤ 2 ^ 70 / 4 := by gcongr
      linarith
    have step : scale fuel (divRank rank (powerOfTen 308)) (e + 308) < ranks := by
      by_cases near' : (e + 308).natAbs ≤ 308
      · exact scale_lt_of_near near' (by omega) smaller
      · exact ih (by omega) smaller near' (by omega)
    simp only [scale, near, negative, if_false]
    split
    · exact finite
    · exact step

/-- A number that lies below the limit by as much as rounding twice may lead up has a finite
    rank. -/
theorem scale_lt {m : Nat} {e : Int} (hm : m < 2 ^ 64)
    (h : (m * 10 ^ e : ℚ) * (1 + 1 / 2 ^ 53) ^ 2 < limit) : scale 3 (rankOf m 1) e < ranks := by
  have finite : (0 : Nat) < ranks := by decide
  have rounded := value_rankOf_nat_le m
  rcases le_or_gt e 0 with he | he
  · refine scale_lt_of_nonpos he (le_trans rounded ?_)
    have : (m : ℚ) ≤ 2 ^ 64 := by exact_mod_cast hm.le
    calc (m * (1 + 1 / 2 ^ 53) : ℚ) ≤ 2 ^ 64 * (1 + 1 / 2 ^ 53) := by gcongr
      _ ≤ 2 ^ 70 := by norm_num
  obtain ⟨k, rfl⟩ := Int.eq_ofNat_of_zero_le he.le
  rw [zpow_natCast] at h
  by_cases near : (k : Int).natAbs ≤ 308
  · rw [scale_of_near _ _ near, if_pos he.le]
    refine mulRank_lt_ranks (lt_of_le_of_lt ?_ h)
    have power := value_powerOfTen_le k
    calc value (rankOf m 1) * value (powerOfTen (k : Int).natAbs)
        ≤ (m * (1 + 1 / 2 ^ 53)) * (10 ^ k * (1 + 1 / 2 ^ 53)) := by
          rw [Int.natAbs_natCast]
          gcongr
          exact value_nonneg _
      _ = m * 10 ^ k * (1 + 1 / 2 ^ 53) ^ 2 := by ring
  · -- only zero is below the limit with so large a power of ten
    have zero : m = 0 := by
      by_contra pos
      have one : (1 : ℚ) ≤ m := by exact_mod_cast Nat.pos_iff_ne_zero.2 pos
      have large := limit_lt_ten_pow (show 309 ≤ k by omega)
      have : (10 : ℚ) ^ k ≤ m * 10 ^ k * (1 + 1 / 2 ^ 53) ^ 2 := by
        calc (10 : ℚ) ^ k = 1 * 10 ^ k * 1 ^ 2 := by ring
          _ ≤ m * 10 ^ k * (1 + 1 / 2 ^ 53) ^ 2 := by
            gcongr
            norm_num
      linarith
    subst zero
    simp only [scale, near, rankOf, if_false, if_true]
    exact finite

end Decimal

end Biblio
