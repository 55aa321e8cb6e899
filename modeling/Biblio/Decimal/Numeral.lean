import Biblio.Decimal.Double
import Biblio.Decimal.WideInt
import Biblio.Text.Digits

/-! Decimal numerals and the numbers they stand for.

    A numeral without fraction and exponent that lies in the signed or unsigned 64-bit range is an
    integer, `-0` excepted. Every other numeral is a double: its significand, the leading digits as
    far as they fit in 64 bits, is rounded, and then multiplied or divided once by a rounded power
    of ten. So the double is not always the nearest one, and a numeral whose double would be
    infinite stands for no number. -/

namespace Biblio.Decimal

/-- A decimal numeral, digit by digit. -/
structure Numeral where
  negative : Bool
  whole : List Nat
  fraction : List Nat
  /-- Whether the exponent is below zero, and its digits. -/
  exponent : Option (Bool × List Nat)
  hasFraction : Bool
  deriving DecidableEq, Repr

/-- The number a numeral stands for. -/
inductive Number where
  | integer (n : WideInt)
  | double (d : Double)
  deriving DecidableEq, Repr

/-- Reads on digits while the number stays below `2 ^ 64`; answers the digits left over too. -/
def extend (n : Nat) : List Nat → Nat × List Nat
  | [] => (n, [])
  | d :: ds => if n * 10 + d < 0x10000000000000000 then extend (n * 10 + d) ds else (n, d :: ds)

/-- The rank of a power of ten. -/
def powerOfTen (k : Nat) : Nat := Double.rankOf (Nat.pow 10 k) 1

/-- The rank of a magnitude scaled by a power of ten, in at most `fuel` steps of `10 ^ -308` before
    the last one; three such steps reach zero from every 64-bit number. -/
def scale : Nat → Nat → Int → Nat
  | fuel, rank, e =>
    if e.natAbs ≤ 308 then
      if 0 ≤ e then Double.mulRank rank (powerOfTen e.natAbs)
      else Double.divRank rank (powerOfTen e.natAbs)
    else if rank = 0 then 0
    else if 0 ≤ e then Double.ranks
    else match fuel with
      | 0 => 0
      | fuel + 1 => scale fuel (Double.divRank rank (powerOfTen 308)) (e + 308)

/-- The double of a significand and a power of ten, unless it would be infinite. -/
def double? (negative : Bool) (significand : Nat) (e : Int) : Option Double :=
  Double.ofRank? negative (scale 3 (Double.rankOf significand 1) e)

/-- The largest exponent that is taken at its word. -/
def maxExponent : Nat := 0x7FFFFFFF

/-- The number a numeral stands for, if it is finite. -/
def Numeral.number? (x : Numeral) : Option Number :=
  let (n, dropped) := extend 0 x.whole
  if !x.hasFraction && x.exponent.isNone && dropped.isEmpty then
    if !x.negative then some (.integer (.clamp n))
    else if n = 0 then some (.double (Double.zero true))
    else if n ≤ 0x8000000000000000 then some (.integer (.clamp (-n)))
    else (double? true n 0).map .double
  else
    let (m, unread) := extend n x.fraction
    let e : Int := (dropped.length : Int) - (x.fraction.length - unread.length : Nat)
    match x.exponent with
    | none => (double? x.negative m e).map .double
    | some (below, ds) =>
      let k := Text.ofDigits 10 ds
      if maxExponent < k then
        if m ≠ 0 ∧ !below then none else some (.double (Double.zero x.negative))
      else (double? x.negative m (if below then e - k else e + k)).map .double

end Biblio.Decimal
