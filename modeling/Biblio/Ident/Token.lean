import Biblio.Ident.Uuid

/-! Tokens: identifiers in 26 characters of base 32.

    The digits are the letters and `2` to `7`, written in lower case and read in either case. The
    130 bits of 26 digits are the 128 bits of the identifier and two zero bits behind them; a text
    whose last two bits are not zero is no token. -/

namespace Biblio.Token

/-- The number of characters of every token. -/
def length : Nat := 26

/-- The character of a digit. -/
def digitChar (d : Nat) : Char := if d < 26 then Char.ofNat (0x61 + d) else Char.ofNat (0x18 + d)

/-- The value of a digit in either case. -/
def digitValue? (c : Char) : Option Nat :=
  let n := c.toNat
  if 0x61 ≤ n ∧ n ≤ 0x7A then some (n - 0x61)
  else if 0x41 ≤ n ∧ n ≤ 0x5A then some (n - 0x41)
  else if 0x32 ≤ n ∧ n ≤ 0x37 then some (n - 0x18)
  else none

/-- Each digit is read back from its character. -/
theorem digitValue?_digitChar {d : Nat} (h : d < 32) : digitValue? (digitChar d) = some d := by
  have : ∀ d : Fin 32, digitValue? (digitChar d) = some d.val := by decide
  exact this ⟨d, h⟩

/-- The token of an identifier. -/
def encode (u : Uuid) : List Char :=
  (Text.positional 32 length (u.bits.toNat * 4)).map digitChar

/-- The identifier of a token. -/
def decode? (cs : List Char) : Option Uuid :=
  if cs.length = length then
    match cs.mapM digitValue? with
    | some ds =>
      let n := Text.ofDigits 32 ds
      if n % 4 = 0 then some ⟨BitVec.ofNat 128 (n / 4)⟩ else none
    | none => none
  else none

end Biblio.Token
