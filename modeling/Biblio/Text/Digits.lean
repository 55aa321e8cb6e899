/-! Numbers as digits.

    `positional base width n` writes `n` in exactly `width` digits, the highest first, and
    `ofDigits` reads digits back; `decimal` writes a number in as many decimal digits as it needs.
    Main statements: each writing reads back as the number it came from. -/

namespace Biblio.Text

/-- The number with these digits, the highest first. -/
def ofDigits (base : Nat) (ds : List Nat) : Nat := ds.foldl (fun n d => n * base + d) 0

/-- The lowest `width` digits of a number, the highest first. -/
def positional (base : Nat) : Nat → Nat → List Nat
  | 0, _ => []
  | width + 1, n => positional base width (n / base) ++ [n % base]

@[simp] theorem positional_length (base width n : Nat) :
    (positional base width n).length = width := by
  induction width generalizing n with
  | zero => rfl
  | succ width ih => simp [positional, ih]

theorem positional_lt {base : Nat} (h : 0 < base) {width n d : Nat}
    (hd : d ∈ positional base width n) : d < base := by
  induction width generalizing n with
  | zero => simp [positional] at hd
  | succ width ih =>
    simp only [positional, List.mem_append, List.mem_singleton] at hd
    rcases hd with hd | rfl
    · exact ih hd
    · exact Nat.mod_lt _ h

theorem ofDigits_append (base : Nat) (ds : List Nat) (d : Nat) :
    ofDigits base (ds ++ [d]) = ofDigits base ds * base + d := by
  simp [ofDigits]

/-- A number that fits the width is read back from its digits. -/
theorem ofDigits_positional {base width n : Nat} (h : n < Nat.pow base width) :
    ofDigits base (positional base width n) = n := by
  induction width generalizing n with
  | zero => simp at h; simp [h, positional, ofDigits]
  | succ width ih =>
    have hdiv : n / base < Nat.pow base width := by
      apply Nat.div_lt_of_lt_mul
      rw [Nat.mul_comm]
      exact h
    rw [positional, ofDigits_append, ih hdiv, Nat.mul_comm]
    exact Nat.div_add_mod n base

/-- The character of a decimal digit. -/
def digitChar (d : Nat) : Char := Char.ofNat (0x30 + d)

/-- The value of a decimal digit of ASCII. -/
def digitValue (c : Char) : Nat := c.toNat - 0x30

/-- The character of a hexadecimal digit, in lower case. -/
def hexChar (d : Nat) : Char := if d < 10 then Char.ofNat (0x30 + d) else Char.ofNat (0x57 + d)

/-- The value of a hexadecimal digit in either case. -/
def hexValue? (c : Char) : Option Nat :=
  let n := c.toNat
  if 0x30 ≤ n ∧ n ≤ 0x39 then some (n - 0x30)
  else if 0x61 ≤ n ∧ n ≤ 0x66 then some (n - 0x57)
  else if 0x41 ≤ n ∧ n ≤ 0x46 then some (n - 0x37)
  else none

/-- Each hexadecimal digit is read back from its character. -/
theorem hexValue?_hexChar {d : Nat} (h : d < 16) : hexValue? (hexChar d) = some d := by
  have : ∀ d : Fin 16, hexValue? (hexChar d) = some d.val := by decide
  exact this ⟨d, h⟩

/-- Each decimal digit is read back from its character. -/
theorem digitValue_digitChar {d : Nat} (h : d < 10) : digitValue (digitChar d) = d := by
  have : ∀ d : Fin 10, digitValue (digitChar d) = d.val := by decide
  exact this ⟨d, h⟩

/-- The decimal digits of a number after at most `fuel` divisions by ten. -/
def decimalDigitsWithin : Nat → Nat → List Nat
  | 0, n => [n % 10]
  | fuel + 1, n => if n < 10 then [n] else decimalDigitsWithin fuel (n / 10) ++ [n % 10]

/-- The decimal digits of a number, without leading zeros. -/
def decimalDigits (n : Nat) : List Nat := decimalDigitsWithin n n

theorem ofDigits_decimalDigitsWithin {fuel n : Nat} (h : n ≤ fuel) :
    ofDigits 10 (decimalDigitsWithin fuel n) = n := by
  induction fuel generalizing n with
  | zero => simp_all [decimalDigitsWithin, ofDigits]
  | succ fuel ih =>
    rw [decimalDigitsWithin]
    split
    · simp [ofDigits]
    · rw [ofDigits_append, ih (by omega)]
      omega

/-- A number is read back from its decimal digits. -/
theorem ofDigits_decimalDigits (n : Nat) : ofDigits 10 (decimalDigits n) = n :=
  ofDigits_decimalDigitsWithin (Nat.le_refl n)

/-- The decimal text of a number. -/
def decimal (n : Nat) : List Char := (decimalDigits n).map digitChar

/-- The decimal text of an integer, with a minus sign below zero. -/
def decimalInt (n : Int) : List Char :=
  if n < 0 then '-' :: decimal n.natAbs else decimal n.natAbs

/-- The decimal text of a number in at least `width` digits. -/
def decimalPadded (width n : Nat) : List Char :=
  List.replicate (width - (decimal n).length) '0' ++ decimal n

/-- The number an ASCII decimal text stands for, if it is one. -/
def ofDecimal? (cs : List Char) : Option Nat :=
  if cs ≠ [] ∧ cs.all (fun c => 0x30 ≤ c.toNat && c.toNat ≤ 0x39) then
    some (ofDigits 10 (cs.map digitValue))
  else none

end Biblio.Text
