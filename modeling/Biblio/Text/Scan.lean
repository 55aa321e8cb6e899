import Biblio.Text.Blank
import Biblio.Text.DecimalDigit
import Biblio.Text.Digits

/-! Reading a text from its front.

    A scan answers what it read and the characters behind it, or nothing when the front is not what
    it reads. -/

namespace Biblio.Text

/-- A way to read something from the front of a text. -/
abbrev Scan (α : Type) := List Char → Option (α × List Char)

/-- Exactly this character. -/
def literal (c : Char) : Scan Unit
  | [] => none
  | d :: rest => if d = c then some ((), rest) else none

/-- Exactly `width` digits of ASCII. -/
def fixedDigits (width : Nat) : Scan Nat := fun cs =>
  let ds := cs.take width
  if ds.length = width ∧ ds.all isAsciiDigit then
    some (ofDigits 10 (ds.map digitValue), cs.drop width)
  else none

/-- As many digits of ASCII as there are, but no more than `most`, and at least one. -/
def someDigits (most : Nat) : Scan Nat := fun cs =>
  let ds := (cs.take most).takeWhile isAsciiDigit
  if ds.isEmpty then none else some (ofDigits 10 (ds.map digitValue), cs.drop ds.length)

/-- All digits of ASCII in front, and at least one. -/
def allDigits : Scan Nat := fun cs => someDigits cs.length cs

/-- The same scan behind blanks. -/
def behindBlanks {α : Type} (scan : Scan α) : Scan α := fun cs => scan (trimStart cs)

/-- The value of a scan that leaves nothing over. -/
def whole {α : Type} (scan : Scan α) (cs : List Char) : Option α :=
  match scan cs with
  | some (a, []) => some a
  | _ => none

end Biblio.Text
