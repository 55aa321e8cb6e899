import Biblio.Decimal.Double
import Biblio.Text.Digits

/-! The shortest decimal that stands for a double.

    A magnitude stands for every real nearer to it than to its neighbours; the two ends of that
    interval belong to it when its mantissa is even. Of the decimals in the interval the one with
    the fewest digits is taken, of two with as few the nearer one, and of two equally near the even
    one. -/

namespace Biblio.Decimal

/-- The reals that round to a magnitude, over one denominator: `low`, the magnitude itself, `high`,
    and whether the ends belong to it. -/
structure Interval where
  low : Nat
  mid : Nat
  high : Nat
  den : Nat
  closed : Bool

/-- The interval of a rank above zero. Below a power of two the neighbour is twice as near. -/
def interval (rank : Nat) : Interval :=
  let m := Double.mantissa rank
  let e := Double.exponent rank - 2
  let up := Nat.pow 2 e.toNat
  let below := if m = Double.hiddenBit ∧ e ≠ -1076 then 1 else 2
  { low := (4 * m - below) * up
    mid := 4 * m * up
    high := (4 * m + 2) * up
    den := Nat.pow 2 (-e).toNat
    closed := m % 2 == 0 }

/-- The decimal `count * 10 ^ place` lies in the interval. -/
def Interval.holds (i : Interval) (count : Nat) (place : Int) : Bool :=
  let x := count * Nat.pow 10 place.toNat * i.den
  let scale := Nat.pow 10 (-place).toNat
  if i.closed then i.low * scale ≤ x && x ≤ i.high * scale
  else i.low * scale < x && x < i.high * scale

/-- The power of ten that a quotient above zero lies at or just above. -/
def floorLog10 (num den : Nat) : Int :=
  let guess := (((num.log2 : Int) - den.log2) * 30103).fdiv 100000
  let atLeast (k : Int) : Bool := den * Nat.pow 10 k.toNat ≤ num * Nat.pow 10 (-k).toNat
  if atLeast (guess + 1) then guess + 1
  else if atLeast guess then guess
  else guess - 1

/-- The better of the two decimals next to the magnitude on the grid of `10 ^ place`, if one of
    them lies in the interval. -/
def Interval.nearest? (i : Interval) (place : Int) : Option Nat :=
  let num := i.mid * Nat.pow 10 (-place).toNat
  let den := i.den * Nat.pow 10 place.toNat
  let down := num / den
  let rest := num % den
  match i.holds down place, i.holds (down + 1) place with
  | false, false => none
  | true, false => some down
  | false, true => some (down + 1)
  | true, true =>
    if 2 * rest < den then some down
    else if den < 2 * rest then some (down + 1)
    else if down % 2 = 0 then some down else some (down + 1)

/-- The digits without the zeros at their end. -/
def stripZeros (ds : List Nat) : List Nat := (ds.reverse.dropWhile (· == 0)).reverse

/-- A decimal above zero: its digits, the first and the last of them not zero, and the power of ten
    of the first. -/
structure Scientific where
  digits : List Nat
  exponent : Int
  deriving DecidableEq, Repr

/-- The decimal of at most 17 digits that stands for a rank above zero. -/
def shortest (rank : Nat) : Scientific :=
  let i := interval rank
  let top := floorLog10 i.mid i.den
  let found := (List.range 17).findSome? fun (n : Nat) =>
    (i.nearest? (top - n)).map fun count => (count, top - (n : Int))
  let (count, place) := found.getD (0, 0)
  let ds := Text.decimalDigits count
  { digits := stripZeros ds, exponent := place + ds.length - 1 }

end Biblio.Decimal
