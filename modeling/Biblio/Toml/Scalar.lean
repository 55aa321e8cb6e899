import Biblio.Calendar.Timestamp
import Biblio.Toml.Value

/-! The single values of TOML: strings in four forms, numbers, truth values, dates and times. -/

namespace Biblio.Toml

open Text

/-- Blanks inside a line. -/
def isSpace (c : Char) : Bool := c == ' ' || c == '\t'

/-- The characters without the blanks in front. -/
def skipSpaces (cs : List Char) : List Char := cs.dropWhile isSpace

/-- Characters that may stand in a comment: no control characters but the tabulator. -/
def isPlain (c : Char) : Bool := c == '\t' || (0x20 ≤ c.toNat && c.toNat != 0x7F)

/-! ### Strings -/

/-- The character of so many hexadecimal digits. -/
def scanCodePoint (width : Nat) : Scan Char := fun cs => do
  let ds ← (cs.take width).mapM hexValue?
  let n := ofDigits 16 ds
  if ds.length = width ∧ n.isValidChar then some (Char.ofNat n, cs.drop width) else none

/-- The character that a letter behind a backslash stands for. -/
def unescape? : Char → Option Char
  | 'b' => some '\x08'
  | 't' => some '\t'
  | 'n' => some '\n'
  | 'f' => some '\x0C'
  | 'r' => some '\r'
  | '"' => some '"'
  | '\\' => some '\\'
  | _ => none

/-- An escape, read behind its backslash. -/
def scanEscape : Scan Char
  | 'u' :: cs => scanCodePoint 4 cs
  | 'U' :: cs => scanCodePoint 8 cs
  | c :: cs => (unescape? c).map (·, cs)
  | [] => none

/-- A string with escapes on one line, read behind its quote in at most `fuel` characters. -/
def scanBasic : Nat → Scan (List Char)
  | 0, _ => none
  | fuel + 1, cs =>
    match cs with
    | '"' :: rest => some ([], rest)
    | '\\' :: rest => do
      let (c, rest) ← scanEscape rest
      let (s, rest) ← scanBasic fuel rest
      return (c :: s, rest)
    | c :: rest => do
      if isPlain c then
        let (s, rest) ← scanBasic fuel rest
        return (c :: s, rest)
      else none
    | [] => none

/-- A string without escapes on one line, read behind its quote. -/
def scanLiteral : Scan (List Char)
  | '\'' :: rest => some ([], rest)
  | c :: rest => if isPlain c then (scanLiteral rest).map fun (s, r) => (c :: s, r) else none
  | [] => none

/-- A string ends with three quotes; up to two more in front of those belong to it. -/
def scanClosing (quote : Char) (cs : List Char) : Option (List Char × List Char) :=
  let n := (cs.takeWhile (· == quote)).length
  if n < 3 then none else
    let kept := min (n - 3) 2
    some (List.replicate kept quote, cs.drop (kept + 3))

/-- A line break, written `\n` or `\r\n`. -/
def scanLineBreak : Scan Unit
  | '\n' :: rest => some ((), rest)
  | '\r' :: '\n' :: rest => some ((), rest)
  | _ => none

/-- The characters without the blanks and line breaks in front. -/
def skipLines : List Char → List Char
  | '\r' :: '\n' :: rest => skipLines rest
  | c :: rest => if isSpace c || c == '\n' then skipLines rest else c :: rest
  | [] => []

/-- A string over several lines, read behind its quotes in at most `fuel` characters. A backslash at
    the end of a line takes the line break and all blanks behind it away. -/
def scanLines (quote : Char) (escapes : Bool) : Nat → Scan (List Char)
  | 0, _ => none
  | fuel + 1, cs =>
    match scanClosing quote cs with
    | some (kept, rest) => some (kept, rest)
    | none =>
      match scanLineBreak cs with
      | some (_, rest) => (scanLines quote escapes fuel rest).map fun (s, r) => ('\n' :: s, r)
      | none =>
        match cs with
        | [] => none
        | c :: rest =>
          if c == '\\' && escapes then
            if (scanLineBreak (skipSpaces rest)).isSome then
              scanLines quote escapes fuel (skipLines rest)
            else do
              let (x, rest) ← scanEscape rest
              let (s, rest) ← scanLines quote escapes fuel rest
              return (x :: s, rest)
          else if isPlain c then
            (scanLines quote escapes fuel rest).map fun (s, r) => (c :: s, r)
          else none

/-- The characters without a line break in front. -/
def skipLineBreak (cs : List Char) : List Char :=
  match scanLineBreak cs with
  | some (_, rest) => rest
  | none => cs

/-- A string in any of its forms. -/
def scanString (cs : List Char) : Option (List Char × List Char) :=
  let fuel := cs.length + 1
  match cs with
  | '"' :: '"' :: '"' :: rest => scanLines '"' true fuel (skipLineBreak rest)
  | '\'' :: '\'' :: '\'' :: rest => scanLines '\'' false fuel (skipLineBreak rest)
  | '"' :: rest => scanBasic fuel rest
  | '\'' :: rest => scanLiteral rest
  | _ => none

/-! ### Numbers, truth values, dates and times -/

/-- The digits of a numeral, which may have single underscores between them. -/
def digits? (value? : Char → Option Nat) (cs : List Char) : Option (List Nat) :=
  let parts := splitOn '_' cs
  if parts.all (!·.isEmpty) then parts.flatten.mapM value? else none

/-- The value of a digit below the base. -/
def digitBelow (base : Nat) (c : Char) : Option Nat :=
  (hexValue? c).bind fun d => if d < base then some d else none

/-- The digits of a decimal numeral without needless zeros in front. -/
def wholeDigits? (cs : List Char) : Option (List Nat) :=
  (digits? (digitBelow 10) cs).bind fun ds =>
    if ds.length ≥ 2 ∧ ds.head? = some 0 then none else some ds

/-- Whether there is a minus sign in front, and the characters behind the sign. -/
def splitSign : List Char → Bool × List Char
  | '-' :: rest => (true, rest)
  | '+' :: rest => (false, rest)
  | cs => (false, cs)

/-- An integer of the signed 64-bit range. -/
def signed64? (n : Int) : Option Int :=
  if -0x8000000000000000 ≤ n ∧ n < 0x8000000000000000 then some n else none

/-- An integer in decimal, hexadecimal, octal or binary digits. -/
def integer? : List Char → Option Int
  | '0' :: 'x' :: cs => (digits? (digitBelow 16) cs).bind fun ds => signed64? (ofDigits 16 ds)
  | '0' :: 'o' :: cs => (digits? (digitBelow 8) cs).bind fun ds => signed64? (ofDigits 8 ds)
  | '0' :: 'b' :: cs => (digits? (digitBelow 2) cs).bind fun ds => signed64? (ofDigits 2 ds)
  | cs =>
    let (negative, cs) := splitSign cs
    (wholeDigits? cs).bind fun ds =>
      let n : Int := ofDigits 10 ds
      signed64? (if negative then -n else n)

/-- The characters in front of the first one of a class, and those behind it. -/
def splitAtFirst (p : Char → Bool) (cs : List Char) : List Char × Option (List Char) :=
  match cs.dropWhile (!p ·) with
  | [] => (cs, none)
  | _ :: rest => (cs.takeWhile (!p ·), some rest)

/-- The least number that is too great for a double: halfway behind the greatest one. -/
def tooGreat : Nat := Nat.pow 2 1024 - Nat.pow 2 970

/-- Whether a number in decimal digits with an exponent is too great for a double. -/
def overflows (ds : List Nat) (e : Int) : Bool :=
  let n := ofDigits 10 ds
  let place : Int := (decimalDigits n).length + e
  if n = 0 ∨ place < 309 then false
  else if 309 < place then true
  else if 0 ≤ e then tooGreat ≤ n * Nat.pow 10 e.toNat
  else tooGreat * Nat.pow 10 (-e).toNat ≤ n

/-- A float: a fraction or an exponent is there. One that is too great is refused, unless it has a
    minus sign. -/
def isFloat (cs : List Char) : Bool :=
  let (negative, body) := splitSign cs
  if body = "inf".toList ∨ body = "nan".toList then true
  else
    let (mantissa, exponent) := splitAtFirst (fun c => c == 'e' || c == 'E') body
    let (whole, fraction) := splitAtFirst (· == '.') mantissa
    let exponentOf : Option Int := match exponent with
      | none => some 0
      | some cs =>
        let (below, cs) := splitSign cs
        (digits? (digitBelow 10) cs).map fun ds =>
          if below then -(ofDigits 10 ds : Int) else ofDigits 10 ds
    let fractionOf : Option (List Nat) := match fraction with
      | none => some []
      | some cs => digits? (digitBelow 10) cs
    match wholeDigits? whole, fractionOf, exponentOf with
    | some ws, some fs, some e =>
      (fraction.isSome || exponent.isSome) && (negative || !overflows (ws ++ fs) (e - fs.length))
    | _, _, _ => false

/-- A time of day, with a zone or without one. -/
def isClock (zoned : Bool) (cs : List Char) : Bool :=
  match Timestamp.scanClock cs with
  | none => false
  | some (_, []) => true
  | some (_, rest) => zoned && (whole (Timestamp.scanZone (literal ':')) rest).isSome

/-- A date, a date with a time, or a time. -/
def isDateOrTime (cs : List Char) : Bool :=
  match Timestamp.scanDate cs with
  | none => isClock false cs
  | some (_, []) => true
  | some (_, c :: rest) => (c == 'T' || c == 't' || c == ' ') && isClock true rest

/-- The characters of which numbers, truth values, dates and times are made. -/
def isTokenChar (c : Char) : Bool :=
  c.isAlphanum || c == '_' || c == '+' || c == '-' || c == '.' || c == ':'

/-- The characters of a value without quotes and brackets, and those behind it: between a date and
    its time there may be a blank. -/
def splitToken (cs : List Char) : List Char × List Char :=
  let token := cs.takeWhile isTokenChar
  let rest := cs.dropWhile isTokenChar
  match (whole Timestamp.scanDate token).isSome, rest with
  | true, ' ' :: d :: more =>
    if isAsciiDigit d then
      (token ++ ' ' :: (d :: more).takeWhile isTokenChar, (d :: more).dropWhile isTokenChar)
    else (token, rest)
  | _, _ => (token, rest)

/-- A value without quotes and brackets. -/
def scanToken : Scan Value := fun cs =>
  let (token, rest) := splitToken cs
  match integer? token with
  | some n => some (.integer n, rest)
  | none =>
    if token = "true".toList ∨ token = "false".toList ∨ isFloat token ∨ isDateOrTime token then
      some (.other, rest)
    else none

end Biblio.Toml
