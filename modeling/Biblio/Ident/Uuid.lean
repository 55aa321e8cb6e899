import Biblio.Text.Digits

/-! Universally unique identifiers: 128 bits and their hexadecimal text.

    The canonical text is in lower case, in five groups of digits with hyphens between them. Read
    are, in either case of the letters: the canonical form, that form in braces or behind
    `urn:uuid:`, and the 32 digits alone. -/

namespace Biblio

/-- A 128-bit identifier. -/
structure Uuid where
  bits : BitVec 128
  deriving DecidableEq, Repr, Inhabited

namespace Uuid

/-- The numbers of digits between the hyphens. -/
def groupWidths : List Nat := [8, 4, 4, 4, 12]

/-- Digits in groups of these widths with hyphens between them. -/
def joinGroups : List Nat → List Char → List Char
  | [], _ => []
  | [n], cs => cs.take n
  | n :: m :: ns, cs => cs.take n ++ '-' :: joinGroups (m :: ns) (cs.drop n)

/-- The digits of groups of exactly these widths with hyphens between them. -/
def splitGroups : List Nat → List Char → Option (List Char)
  | [], cs => if cs.isEmpty then some [] else none
  | [n], cs => if cs.length = n then some cs else none
  | n :: m :: ns, cs =>
    match cs.drop n with
    | '-' :: rest => (splitGroups (m :: ns) rest).map (cs.take n ++ ·)
    | _ => none

/-- The 32 hexadecimal digits. -/
def digits (u : Uuid) : List Char := (Text.positional 16 32 u.bits.toNat).map Text.hexChar

/-- The identifier with these 32 hexadecimal digits. -/
def ofDigits? (cs : List Char) : Option Uuid :=
  if cs.length = 32 then
    (cs.mapM Text.hexValue?).map fun ds => ⟨BitVec.ofNat 128 (Text.ofDigits 16 ds)⟩
  else none

/-- The canonical text. -/
def chars (u : Uuid) : List Char := joinGroups groupWidths u.digits

/-- The canonical text. -/
def text (u : Uuid) : String := String.ofList u.chars

/-- The characters behind the first ones, if the text begins with those in either case. -/
def behind? (start : List Char) (cs : List Char) : Option (List Char) :=
  if (cs.take start.length).map Char.toLower = start then some (cs.drop start.length) else none

/-- The characters between braces. -/
def inBraces? (cs : List Char) : Option (List Char) :=
  match behind? ['{'] cs with
  | some rest => if rest.getLast? = some '}' then some rest.dropLast else none
  | none => none

/-- The identifier that a text names in one of its forms. -/
def parse? (cs : List Char) : Option Uuid :=
  match (inBraces? cs).or (behind? "urn:uuid:".toList cs) with
  | some inner => (splitGroups groupWidths inner).bind ofDigits?
  | none => (ofDigits? cs).or ((splitGroups groupWidths cs).bind ofDigits?)

end Uuid

end Biblio
