/-! Blank characters, and text with the blanks around it taken off.

    A character is blank when it has the Unicode property White_Space: 25 characters, among them
    the no-break space and the ideographic space, but not the zero-width space or the byte-order
    mark. -/

namespace Biblio.Text

/-- The characters of the property White_Space. -/
def isBlank (c : Char) : Bool :=
  let n := c.toNat
  (9 ≤ n && n ≤ 13) || n == 0x20 || n == 0x85 || n == 0xA0 || n == 0x1680 ||
    (0x2000 ≤ n && n ≤ 0x200A) || n == 0x2028 || n == 0x2029 || n == 0x202F || n == 0x205F ||
    n == 0x3000

/-- The text without the blanks it begins with. -/
def trimStart (cs : List Char) : List Char := cs.dropWhile isBlank

/-- The text without the blanks it begins and ends with. -/
def trim (cs : List Char) : List Char := (trimStart (trimStart cs).reverse).reverse

/-- Nothing but blanks, or nothing at all. -/
def isBlankText (s : String) : Bool := s.toList.all isBlank

/-- The pieces between the separators; a list without one is its own single piece. -/
def splitOn {α : Type} [BEq α] (sep : α) : List α → List (List α)
  | [] => [[]]
  | c :: cs =>
    if c == sep then [] :: splitOn sep cs
    else match splitOn sep cs with
      | [] => [[c]]
      | piece :: rest => (c :: piece) :: rest

end Biblio.Text
