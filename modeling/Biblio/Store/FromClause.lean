import Biblio.Error.Catalog
import Biblio.Store.Table
import Biblio.Text.Blank
import Biblio.Vocabulary

/-! Counting the rows that a query is about.

    A query names its tables behind `FROM`, with commas between them. A name is a bare word or
    stands in quotes or brackets; the part of the database may stand before it and another name
    behind it. Blanks and comments do not count, nor does anything behind a semicolon. Several
    tables have as many rows together as there are choices of one row from each. -/

namespace Biblio.FromClause

/-- What a clause is made of. -/
inductive Sign where
  | word (name : String)
  | quoted (name : String)
  | dot
  | comma
  | semicolon
  /-- Anything that no list of tables has. -/
  | other
  deriving DecidableEq, Repr

/-! ### Signs -/

/-- The blanks of queries. -/
def isSpace (c : Char) : Bool := [' ', '\t', '\n', '\r', Char.ofNat 0x0C].contains c

/-- The characters that may follow a blank as blanks: the vertical tab is one only there. -/
def isMoreSpace (c : Char) : Bool := isSpace c || c == Char.ofNat 0x0B

/-- A character that a word may begin with. -/
def isWordStart (c : Char) : Bool := Vocabulary.isLetter c || c == '_' || 0x80 ≤ c.toNat

/-- A character that a word may have behind its first one. -/
def isWordChar (c : Char) : Bool := isWordStart c || Text.isAsciiDigit c || c == '$'

/-- The text before a closing quote, and what is behind it. A doubled quote stands for one. -/
def untilQuote? (quote : Char) : List Char → Option (List Char × List Char)
  | [] => none
  | [c] => if c = quote then some ([], []) else none
  | c :: d :: rest =>
    if c ≠ quote then (untilQuote? quote (d :: rest)).map fun (name, behind) => (c :: name, behind)
    else if d = quote then (untilQuote? quote rest).map fun (name, behind) => (c :: name, behind)
    else some ([], d :: rest)

/-- The text before a closing bracket, and what is behind it. -/
def untilBracket? (cs : List Char) : Option (List Char × List Char) :=
  if cs.contains ']' then some (cs.takeWhile (· ≠ ']'), (cs.dropWhile (· ≠ ']')).drop 1) else none

/-- What is behind the end of a comment. -/
def behindComment : List Char → List Char
  | '*' :: '/' :: rest => rest
  | _ :: rest => behindComment rest
  | [] => []

/-- A name in quotes, or a quote that is never closed. -/
def quotedSign : Option (List Char × List Char) → Option Sign × List Char
  | some (name, behind) => (some (.quoted (String.ofList name)), behind)
  | none => (some .other, [])

/-- The first sign, unless it is a blank or a comment, and what is behind it. -/
def next : List Char → Option Sign × List Char
  | [] => (none, [])
  | '.' :: cs => (some .dot, cs)
  | ',' :: cs => (some .comma, cs)
  | ';' :: cs => (some .semicolon, cs)
  | '[' :: cs => quotedSign (untilBracket? cs)
  | '-' :: '-' :: cs => (none, cs.dropWhile (· ≠ '\n'))
  | '/' :: '*' :: c :: cs => (none, behindComment (c :: cs))
  | c :: cs =>
    if isSpace c then (none, cs.dropWhile isMoreSpace)
    else if ['\'', '"', Char.ofNat 0x60].contains c then quotedSign (untilQuote? c cs)
    else if isWordStart c then
      (some (.word (String.ofList (c :: cs.takeWhile isWordChar))), cs.dropWhile isWordChar)
    else (some .other, cs)

/-- The first signs, `fuel` of them at most. -/
def signsWithin : Nat → List Char → List Sign
  | 0, _ => []
  | _, [] => []
  | fuel + 1, c :: cs =>
    let (sign, behind) := next (c :: cs)
    sign.toList ++ signsWithin fuel behind

/-- The signs of a clause, which stands behind a blank and ends before a character of number
    zero. -/
def signs (text : String) : List Sign :=
  let cs := ' ' :: text.toList.takeWhile (· ≠ Char.ofNat 0)
  signsWithin cs.length cs

/-! ### Tables -/

/-- The words that are no names unless they are quoted. -/
def reserved : List String :=
  ["add", "all", "alter", "and", "as", "autoincrement", "between", "case", "check", "collate",
   "commit", "constraint", "create", "cross", "default", "deferrable", "delete", "distinct", "drop",
   "else", "escape", "except", "exists", "foreign", "from", "full", "group", "having", "in",
   "index", "indexed", "inner", "insert", "intersect", "into", "is", "isnull", "join", "left",
   "limit", "natural", "not", "nothing", "notnull", "null", "on", "or", "order", "outer", "primary",
   "references", "returning", "right", "select", "set", "table", "then", "to", "transaction",
   "union", "unique", "update", "using", "values", "when", "where"]

/-- A name in front, and the signs behind it. -/
def name? : List Sign → Option (String × List Sign)
  | .word name :: rest =>
    if reserved.contains (name.map Char.toLower) then none else some (name, rest)
  | .quoted name :: rest => some (name, rest)
  | _ => none

/-- Whether the signs are another name for a table, or nothing. -/
def isAlias : List Sign → Bool
  | [] => true
  | .word word :: rest =>
    let named := if word.map Char.toLower = "as" then rest else .word word :: rest
    (name? named).any (·.2.isEmpty)
  | signs => (name? signs).any (·.2.isEmpty)

/-- The table that the signs between two commas name. -/
def table? (signs : List Sign) : Option Table := do
  let (first, rest) ← name? signs
  let (table, rest) ← match rest with
    | .dot :: rest =>
      let (second, rest) ← name? rest
      pure (← Table.find? (some first) second, rest)
    | _ => pure (← Table.find? none first, rest)
  if isAlias rest then some table else none

/-- The tables of a clause. -/
def tables? (text : String) : Option (List Table) :=
  (Text.splitOn .comma ((signs text).takeWhile (· ≠ .semicolon))).mapM table?

end Biblio.FromClause

namespace Biblio

/-- The number of rows behind `FROM`. -/
def Store.countRows (s : Store) (text : String) : Except CatalogError Nat :=
  match FromClause.tables? text with
  | some tables => .ok ((tables.map s.rowCount).foldl (· * ·) 1)
  | none => .error (.storage .unknownTable)

end Biblio
