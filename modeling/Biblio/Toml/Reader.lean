import Biblio.Toml.Scalar
import Biblio.Vocabulary

/-! Reading a TOML document. -/

namespace Biblio.Toml

open Text

/-- The greatest number of brackets around a value, and of parts of a key. -/
def maxDepth : Nat := 79

/-- A character of a key without quotes. -/
def isBareKeyChar (c : Char) : Bool :=
  Vocabulary.isUsernameChar c

/-- One part of a key. -/
def scanKeyPart (cs : List Char) : Option (String × List Char) :=
  match cs with
  | '"' :: rest => (scanBasic (rest.length + 1) rest).map fun (s, r) => (String.ofList s, r)
  | '\'' :: rest => (scanLiteral rest).map fun (s, r) => (String.ofList s, r)
  | cs =>
    let part := cs.takeWhile isBareKeyChar
    if part.isEmpty then none else some (String.ofList part, cs.drop part.length)

/-- The parts of a key in front of the last one, and the last one. -/
abbrev DottedKey := List String × String

/-- A key: parts with dots between them. -/
def scanKeyParts : Nat → Scan DottedKey
  | 0, _ => none
  | fuel + 1, cs => do
    let (part, cs) ← scanKeyPart (skipSpaces cs)
    match skipSpaces cs with
    | '.' :: rest =>
      let ((path, key), rest) ← scanKeyParts fuel rest
      return ((part :: path, key), rest)
    | rest => return (([], part), rest)

/-- A key that is not too long. -/
def scanKey : Scan DottedKey := scanKeyParts maxDepth

/-- The characters without the blanks, line breaks and comments in front. -/
def skipGaps (inComment : Bool) : List Char → List Char
  | [] => []
  | '\n' :: rest => skipGaps false rest
  | '\r' :: '\n' :: rest => skipGaps false rest
  | c :: rest =>
    if inComment then if isPlain c then skipGaps true rest else c :: rest
    else if c == '#' then skipGaps true rest
    else if isSpace c then skipGaps false rest
    else c :: rest

mutual

/-- Reads a value inside `depth` brackets. -/
def readValue : Nat → Nat → Scan Value
  | 0, _, _ => none
  | fuel + 1, depth, cs =>
    match cs with
    | '[' :: rest =>
      if depth < maxDepth then
        (readItems fuel (depth + 1) rest).map fun (items, r) => (.array items, r)
      else none
    | '{' :: rest =>
      if depth < maxDepth then
        match skipSpaces rest with
        | '}' :: r => some (.table .inline [], r)
        | r => (readPairs fuel (depth + 1) [] r).map fun (es, r) => (.table .inline es, r)
      else none
    | '"' :: _ | '\'' :: _ => (scanString cs).map fun (s, r) => (.text (String.ofList s), r)
    | cs => scanToken cs

/-- Reads the items of an array from the next one on, and its bracket. -/
def readItems : Nat → Nat → Scan (List Value)
  | 0, _, _ => none
  | fuel + 1, depth, cs =>
    match skipGaps false cs with
    | ']' :: rest => some ([], rest)
    | cs => do
      let (v, cs) ← readValue fuel depth cs
      match skipGaps false cs with
      | ']' :: rest => return ([v], rest)
      | ',' :: rest =>
        let (vs, rest) ← readItems fuel depth rest
        return (v :: vs, rest)
      | _ => none

/-- Reads the pairs of a table in braces from the next one on, and its brace. -/
def readPairs : Nat → Nat → Entries → Scan Entries
  | 0, _, _, _ => none
  | fuel + 1, depth, es, cs => do
    let ((path, key), cs) ← scanKey cs
    let (_, cs) ← literal '=' cs
    let (v, cs) ← readValue fuel depth (skipSpaces cs)
    let es ← insertPair path key v es
    match skipSpaces cs with
    | '}' :: rest => return (es, rest)
    | ',' :: rest => readPairs fuel depth es rest
    | _ => none

end

/-- The end of a line: blanks, perhaps a comment, and the line break or the end of the document. -/
def scanLineEnd : Scan Unit := fun cs =>
  let rest := match skipSpaces cs with
    | '#' :: comment => comment.dropWhile isPlain
    | rest => rest
  if rest.isEmpty then some ((), []) else scanLineBreak rest

/-- Reads the lines of a document; `current` is the table that is open. -/
def readLines : Nat → List String → Entries → List Char → Option Entries
  | 0, _, _, _ => none
  | fuel + 1, current, root, cs =>
    match skipSpaces cs with
    | [] => some root
    | '[' :: '[' :: rest => do
      let ((path, key), rest) ← scanKey rest
      let (_, rest) ← literal ']' rest
      let (_, rest) ← literal ']' rest
      let (_, rest) ← scanLineEnd rest
      readLines fuel (path ++ [key]) (← openNext path key root) rest
    | '[' :: rest => do
      let ((path, key), rest) ← scanKey rest
      let (_, rest) ← literal ']' rest
      let (_, rest) ← scanLineEnd rest
      readLines fuel (path ++ [key]) (← openTable path key root) rest
    | cs =>
      match scanLineEnd cs with
      | some (_, rest) => readLines fuel current root rest
      | none => do
        let ((path, key), rest) ← scanKey cs
        let (_, rest) ← literal '=' rest
        let rest := skipSpaces rest
        let (v, rest) ← readValue (3 * rest.length + 3) 0 rest
        let (_, rest) ← scanLineEnd rest
        readLines fuel current (← insertBelow current path key v root) rest

/-- The characters without a byte-order mark in front. -/
def skipMark : List Char → List Char
  | '\uFEFF' :: rest => rest
  | cs => cs

/-- The entries of a document, if it is one. -/
def parse? (s : String) : Option Entries :=
  let cs := skipMark s.toList
  readLines (cs.length + 1) [] [] cs

end Biblio.Toml
