/-! Finite binary64 numbers, kept exactly.

    A double is a sign and a rank: the place of its magnitude among all finite magnitudes, zero
    being the first. A rank stands for `mantissa * 2 ^ exponent`, and rounding a quotient picks the
    nearest rank, a tie going to the even one. All of it is arithmetic on `Nat` and `Int`. -/

namespace Biblio

/-- The bit in front of the 52 stored ones, which all but the smallest magnitudes have. -/
def Double.hiddenBit : Nat := 0x10000000000000

/-- The number of finite magnitudes. -/
def Double.ranks : Nat := 2047 * hiddenBit

/-- A finite binary64 number. -/
structure Double where
  negative : Bool
  rank : Nat
  finite : rank < Double.ranks := by decide
  deriving DecidableEq, Repr

namespace Double

/-- The zero with this sign. -/
def zero (negative : Bool) : Double := ⟨negative, 0, by decide⟩

/-- The mantissa of a rank: below the hidden bit for the smallest magnitudes only. -/
def mantissa (rank : Nat) : Nat :=
  if rank < hiddenBit then rank else hiddenBit + rank % hiddenBit

/-- The power of two that the mantissa of a rank is multiplied by. -/
def exponent (rank : Nat) : Int :=
  if rank < hiddenBit then -1074 else rank / hiddenBit - 1075

/-- The magnitude of a rank as a quotient. -/
def numerator (rank : Nat) : Nat := mantissa rank * Nat.pow 2 (exponent rank).toNat

/-- The other half of the quotient: a power of two. -/
def denominator (rank : Nat) : Nat := Nat.pow 2 (-exponent rank).toNat

/-- The integer nearest to a quotient, the even one of two equally near. -/
def roundDiv (num den : Nat) : Nat :=
  let q := num / den
  let r := num % den
  if 2 * r < den then q
  else if den < 2 * r then q + 1
  else if q % 2 = 0 then q else q + 1

/-- The power of two that a quotient lies at or just above. -/
def floorLog2 (num den : Nat) : Int :=
  let k : Int := (num.log2 : Int) - den.log2
  if den * Nat.pow 2 k.toNat ≤ num * Nat.pow 2 (-k).toNat then k else k - 1

/-- The rank nearest to a quotient; at least `ranks` when the quotient is too large. -/
def rankOf (num den : Nat) : Nat :=
  if num = 0 then 0
  else
    let e := max (floorLog2 num den - 52) (-1074)
    (e + 1074).toNat * hiddenBit
      + roundDiv (num * Nat.pow 2 (-e).toNat) (den * Nat.pow 2 e.toNat)

/-- The double of this sign and rank, unless the rank is too large. -/
def ofRank? (negative : Bool) (rank : Nat) : Option Double :=
  if h : rank < ranks then some ⟨negative, rank, h⟩ else none

/-- The rank nearest to the product of two magnitudes. -/
def mulRank (a b : Nat) : Nat :=
  rankOf (numerator a * numerator b) (denominator a * denominator b)

/-- The rank nearest to the quotient of two magnitudes. -/
def divRank (a b : Nat) : Nat :=
  rankOf (numerator a * denominator b) (denominator a * numerator b)

end Double

end Biblio
