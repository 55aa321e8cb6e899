import Biblio.Decimal.Numeral
import Biblio.Json.Document

/-! Reading a JSON text into a document.

    Every function answers what it read and the characters behind it, or no characters when the text
    broke on the way. Strings are read in two steps: into code units, then into characters, because
    a surrogate pair is two escapes. -/

namespace Biblio.Json

/-- The characters without the blanks in front: JSON knows four. -/
def skipBlanks (cs : List Char) : List Char :=
  cs.dropWhile fun c => c = ' ' || c = '\n' || c = '\t' || c = '\r'

/-- A document and the characters behind it. -/
abbrev Reading := Document × Option (List Char)

/-- The text breaks here, for every reader alike. -/
def breaks (f : Fault) : Reading := (.broken (.same f), none)

/-- The text breaks inside a value that is no string. -/
def breaksInside (read skip : Fault) : Reading := (.broken ⟨read, skip, .malformed⟩, none)

/-- A document whose remaining letters are given. -/
def readWord (d : Document) : List Char → List Char → Reading
  | [], rest => (d, some rest)
  | _ :: _, [] => breaksInside .truncated .truncated
  | w :: ws, c :: rest => if c = w then readWord d ws rest else breaks .malformed

/-! ### Strings -/

/-- A character of a string as it is written: itself, or an escaped 16-bit code unit. -/
inductive CodeUnit where
  | char (c : Char)
  | escaped (n : Nat)
  deriving DecidableEq, Repr

/-- The number that four hexadecimal digits stand for. -/
def hexUnit? (a b c d : Char) : Option Nat :=
  ([a, b, c, d].mapM Text.hexValue?).map (Text.ofDigits 16)

/-- The character that a letter behind a backslash stands for. -/
def unescape? (c : Char) : Option Char :=
  if c = '"' ∨ c = '\\' ∨ c = '/' then some c
  else if c = 'b' then some (Char.ofNat 0x08)
  else if c = 'f' then some (Char.ofNat 0x0C)
  else if c = 'n' then some (Char.ofNat 0x0A)
  else if c = 'r' then some (Char.ofNat 0x0D)
  else if c = 't' then some (Char.ofNat 0x09)
  else none

/-- How a string ends: with its quote and the characters behind it, or with a fault. -/
inductive StringEnd where
  | closed (rest : List Char)
  | broken (f : Fault)

/-- The length in UTF-8. -/
def byteCount (cs : List Char) : Nat := cs.foldr (fun c n => c.utf8Size + n) 0

/-- The code units of a string whose opening quote was read. -/
def readUnits : List Char → List CodeUnit × StringEnd
  | [] => ([], .broken .truncated)
  | '"' :: rest => ([], .closed rest)
  | '\\' :: 'u' :: a :: b :: c :: d :: rest =>
    match hexUnit? a b c d with
    | some n => let (us, e) := readUnits rest; (.escaped n :: us, e)
    | none => ([], .broken .malformed)
  | '\\' :: 'u' :: rest => ([], .broken (if byteCount rest < 4 then .truncated else .malformed))
  | '\\' :: c :: rest =>
    match unescape? c with
    | some x => let (us, e) := readUnits rest; (.char x :: us, e)
    | none => ([], .broken .malformed)
  | ['\\'] => ([], .broken .truncated)
  | c :: rest =>
    if c.toNat < 0x20 then ([], .broken .malformed)
    else let (us, e) := readUnits rest; (.char c :: us, e)

/-- The first half of a surrogate pair. -/
def isHighSurrogate (n : Nat) : Bool := 0xD800 ≤ n && n ≤ 0xDBFF

/-- The second half of a surrogate pair. -/
def isLowSurrogate (n : Nat) : Bool := 0xDC00 ≤ n && n ≤ 0xDFFF

/-- The characters of code units, unless half a surrogate pair stands alone. -/
def characters? : List CodeUnit → Option (List Char)
  | [] => some []
  | .char c :: us => (characters? us).map (c :: ·)
  | .escaped n :: us =>
    if isLowSurrogate n then none
    else if isHighSurrogate n then
      match us with
      | .escaped m :: us' =>
        if isLowSurrogate m then
          (characters? us').map (Char.ofNat (0x10000 + (n - 0xD800) * 0x400 + (m - 0xDC00)) :: ·)
        else none
      | _ => none
    else (characters? us).map (Char.ofNat n :: ·)

/-- The code units without a high surrogate that the end of the text may have cut off. -/
def dropOpenPair (us : List CodeUnit) : List CodeUnit :=
  match us.getLast? with
  | some (.escaped n) => if isHighSurrogate n then us.dropLast else us
  | _ => us

/-- A string, read behind its opening quote. -/
inductive StringReading where
  | text (s : String) (rest : List Char)
  | unreadable (rest : List Char)
  | broken (b : Break)

/-- Reads a string behind its opening quote. -/
def readString (cs : List Char) : StringReading :=
  match readUnits cs with
  | (us, .closed rest) =>
    match characters? us with
    | some chars => .text (String.ofList chars) rest
    | none => .unreadable rest
  | (_, .broken .malformed) => .broken (.same .malformed)
  | (us, .broken f) =>
    let read := if (characters? (dropOpenPair us)).isSome then f else .malformed
    .broken ⟨read, f, read⟩

/-! ### Numbers -/

/-- The decimal digits in front, and the characters behind them. -/
def takeDigits (cs : List Char) : List Nat × List Char :=
  ((cs.takeWhile Char.isDigit).map Text.digitValue, cs.dropWhile Char.isDigit)

/-- A digit is missing: at the end of the text one who skips does not see that more could come. -/
def missingDigit (rest : List Char) : Reading :=
  breaksInside (if rest.isEmpty then .truncated else .malformed) .malformed

/-- The document of a numeral that is complete. -/
def numberDocument (x : Decimal.Numeral) : Document :=
  match x.number? with
  | some (.integer n) => .int n
  | some (.double d) => .real d
  | none => .unreadable

/-- Reads the exponent of a numeral, if there is one, and completes it. -/
def readExponent (x : Decimal.Numeral) (cs : List Char) : Reading :=
  match cs with
  | c :: rest =>
    if c = 'e' ∨ c = 'E' then
      let (below, rest) := match rest with
        | '-' :: r => (true, r)
        | '+' :: r => (false, r)
        | r => (false, r)
      match takeDigits rest with
      | ([], _) => missingDigit rest
      | (ds, after) => (numberDocument { x with exponent := some (below, ds) }, some after)
    else (numberDocument x, some cs)
  | [] => (numberDocument x, some cs)

/-- Reads a number from its sign or first digit on. -/
def readNumber (cs : List Char) : Reading :=
  let (negative, cs) := match cs with
    | '-' :: r => (true, r)
    | r => (false, r)
  match takeDigits cs with
  | ([], _) => missingDigit cs
  | (0 :: _ :: _, _) => breaks .malformed
  | (whole, '.' :: rest) =>
    match takeDigits rest with
    | ([], _) => missingDigit rest
    | (fraction, after) => readExponent ⟨negative, whole, fraction, none, true⟩ after
  | (whole, rest) => readExponent ⟨negative, whole, [], none, false⟩ rest

/-! ### Values -/

mutual

/-- Reads a value; each level of nesting takes two steps of fuel. -/
def readValue : Nat → List Char → Reading
  | 0, _ => breaks .truncated
  | fuel + 1, cs =>
    match skipBlanks cs with
    | [] => breaks .truncated
    | 'n' :: rest => readWord .null "ull".toList rest
    | 't' :: rest => readWord (.bool true) "rue".toList rest
    | 'f' :: rest => readWord (.bool false) "alse".toList rest
    | '"' :: rest =>
      match readString rest with
      | .text s after => (.str s, some after)
      | .unreadable after => (.unreadable, some after)
      | .broken b => (.broken b, none)
    | '[' :: rest =>
      match skipBlanks rest with
      | [] => (.arr [] (some (.same .truncated)), none)
      | ']' :: after => (.arr [] none, some after)
      | rest =>
        let (items, stop, after) := readItems fuel rest
        (.arr items stop, after)
    | '{' :: rest =>
      match skipBlanks rest with
      | [] => (.obj [] (some (.same .truncated)), none)
      | '}' :: after => (.obj [] none, some after)
      | rest =>
        let (members, stop, after) := readMembers fuel rest
        (.obj members stop, after)
    | c :: rest =>
      if c = '-' ∨ c.isDigit then readNumber (c :: rest) else breaks .malformed

/-- Reads the items of an array from the next one on, and its bracket. -/
def readItems : Nat → List Char → List Document × Option Break × Option (List Char)
  | 0, _ => ([], some (.same .truncated), none)
  | fuel + 1, cs =>
    match readValue fuel cs with
    | (item, none) => ([item], none, none)
    | (item, some after) =>
      match skipBlanks after with
      | [] => ([item], some (.same .truncated), none)
      | ']' :: rest => ([item], none, some rest)
      | ',' :: rest =>
        let (items, stop, after) := readItems fuel rest
        (item :: items, stop, after)
      | _ => ([item], some (.same .malformed), none)

/-- Reads the members of an object from the next one on, and its brace. -/
def readMembers : Nat → List Char → List (Key × Document) × Option Break × Option (List Char)
  | 0, _ => ([], some (.same .truncated), none)
  | fuel + 1, cs =>
    match skipBlanks cs with
    | [] => ([(.broken (.same .truncated), .null)], none, none)
    | '"' :: rest =>
      match readString rest with
      | .broken b => ([(.broken b, .null)], none, none)
      | .text s after => readMember fuel (.name s) after
      | .unreadable after => readMember fuel .unreadable after
    | _ => ([(.stray, .null)], none, none)

/-- Reads the colon and the value of a member, and the members behind it. -/
def readMember : Nat → Key → List Char → List (Key × Document) × Option Break × Option (List Char)
  | 0, key, _ => ([(key, .broken (.same .truncated))], none, none)
  | fuel + 1, key, cs =>
    match skipBlanks cs with
    | [] => ([(key, .broken (.same .truncated))], none, none)
    | ':' :: rest =>
      match readValue fuel rest with
      | (value, none) => ([(key, value)], none, none)
      | (value, some after) =>
        match skipBlanks after with
        | [] => ([(key, value)], some (.same .truncated), none)
        | '}' :: rest => ([(key, value)], none, some rest)
        | ',' :: rest =>
          let (members, stop, after) := readMembers fuel rest
          ((key, value) :: members, stop, after)
        | _ => ([(key, value)], some (.same .malformed), none)
    | _ => ([(key, .broken (.same .malformed))], none, none)

end

/-- A whole text: its document, and the fault of what stands behind it. -/
def Document.ofText (s : String) : Document × Option Fault :=
  let cs := s.toList
  match readValue (3 * cs.length + 3) cs with
  | (d, none) => (d, none)
  | (d, some rest) => (d, if (skipBlanks rest).isEmpty then none else some .malformed)

end Biblio.Json
