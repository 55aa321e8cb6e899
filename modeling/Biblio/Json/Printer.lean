import Biblio.Decimal.Shortest
import Biblio.Json.Basic

/-! The text of a JSON value, without blanks or indented.

    In a string only the quote, the backslash and the control characters are escaped. A double is
    written with its shortest digits, always with a point or an exponent, so that it never looks
    like an integer. -/

namespace Biblio.Json

/-- How doubles are written: positionally when the first digit has one of these powers of ten, and
    with an exponent otherwise. -/
structure DoubleFormat where
  least : Int
  greatest : Int

/-- From `0.00001` up to `1000000000000000.0` a double is written positionally. -/
def doubleFormat : DoubleFormat := ⟨-5, 15⟩

/-- The digits with a point behind the first `whole` of them, and a zero where a side is empty. -/
def pointed (ds : List Char) (whole : Nat) : List Char :=
  let front := if whole = 0 then ['0'] else ds.take whole ++ List.replicate (whole - ds.length) '0'
  let back := ds.drop whole
  front ++ '.' :: (if back.isEmpty then ['0'] else back)

/-- A decimal written positionally. -/
def positionalChars (ds : List Char) (e : Int) : List Char :=
  if 0 ≤ e then pointed ds (e.toNat + 1)
  else pointed (List.replicate ((-e).toNat - 1) '0' ++ ds) 0

/-- A decimal written with an exponent, which always has a sign. -/
def exponentChars (ds : List Char) (e : Int) : List Char :=
  let mark := if e < 0 then "e-".toList else "e+".toList
  ds.take 1 ++ (if ds.length ≤ 1 then [] else '.' :: ds.drop 1) ++ mark ++ Text.decimal e.natAbs

/-- The text of a double. -/
def doubleChars (d : Double) : List Char :=
  let sign := if d.negative then ['-'] else []
  if d.rank = 0 then sign ++ "0.0".toList
  else
    let x := Decimal.shortest d.rank
    let ds := x.digits.map Text.digitChar
    sign ++ (if doubleFormat.least ≤ x.exponent ∧ x.exponent ≤ doubleFormat.greatest
      then positionalChars ds x.exponent else exponentChars ds x.exponent)

/-- The escape of a character inside a string, or the character itself. -/
def escape (c : Char) : List Char :=
  if c = '"' then ['\\', '"']
  else if c = '\\' then ['\\', '\\']
  else if 0x20 ≤ c.toNat then [c]
  else if c.toNat = 0x08 then ['\\', 'b']
  else if c.toNat = 0x09 then ['\\', 't']
  else if c.toNat = 0x0A then ['\\', 'n']
  else if c.toNat = 0x0C then ['\\', 'f']
  else if c.toNat = 0x0D then ['\\', 'r']
  else '\\' :: 'u' :: (Text.positional 16 4 c.toNat).map Text.hexChar

/-- The text of a string, in quotes. -/
def quote (s : String) : List Char := '"' :: s.toList.flatMap escape ++ ['"']

mutual

/-- The text of a value without blanks. -/
def compact : Json → List Char
  | .null => "null".toList
  | .bool b => if b then "true".toList else "false".toList
  | .int n => Text.decimalInt n.val
  | .real d => doubleChars d
  | .str s => quote s
  | .arr items => '[' :: compactItems items ++ [']']
  | .obj members => '{' :: compactMembers members ++ ['}']

/-- The texts of values with commas between them. -/
def compactItems : List Json → List Char
  | [] => []
  | item :: items => compact item ++ (if items.isEmpty then [] else [',']) ++ compactItems items

/-- The texts of members with commas between them. -/
def compactMembers : List (String × Json) → List Char
  | [] => []
  | (key, value) :: members =>
    quote key ++ ':' :: compact value ++ (if members.isEmpty then [] else [','])
      ++ compactMembers members

end

/-- The text of a value without blanks. -/
def text (j : Json) : String := String.ofList j.compact

/-- A new line with blanks in front: two for each level. -/
def newLine (level : Nat) : List Char := '\n' :: List.replicate (2 * level) ' '

mutual

/-- The text of a value inside `level` others, each member and item on a line of its own. -/
def indented (level : Nat) : Json → List Char
  | .null => "null".toList
  | .bool b => if b then "true".toList else "false".toList
  | .int n => Text.decimalInt n.val
  | .real d => doubleChars d
  | .str s => quote s
  | .arr items =>
    if items.isEmpty then ['[', ']']
    else '[' :: indentedItems (level + 1) items ++ newLine level ++ [']']
  | .obj members =>
    if members.isEmpty then ['{', '}']
    else '{' :: indentedMembers (level + 1) members ++ newLine level ++ ['}']

/-- Values on lines of their own with commas between them. -/
def indentedItems (level : Nat) : List Json → List Char
  | [] => []
  | item :: items =>
    newLine level ++ indented level item ++ (if items.isEmpty then [] else [','])
      ++ indentedItems level items

/-- Members on lines of their own with commas between them. -/
def indentedMembers (level : Nat) : List (String × Json) → List Char
  | [] => []
  | (key, value) :: members =>
    newLine level ++ quote key ++ ':' :: ' ' :: indented level value
      ++ (if members.isEmpty then [] else [',']) ++ indentedMembers level members

end

/-- The indented text of a value. -/
def pretty (j : Json) : String := String.ofList (j.indented 0)

end Biblio.Json
