/-! The values of a TOML document, and the rules by which its tables grow.

    A document is written piece by piece: a header opens a table, and a pair with a dotted key adds
    to tables inside the open one. What may be added to a table depends on how the table came to
    be. -/

namespace Biblio.Toml

/-- How a table came to be. -/
inductive Role where
  /-- Written in braces; nothing is added to it later. -/
  | inline
  /-- Opened by a header of its own. -/
  | header
  /-- A header of a table inside it was there; its own may follow. -/
  | implied
  /-- Made by a dotted key. -/
  | dotted
  deriving DecidableEq, Repr

/-- A value. Of floats, truth values, dates and times only the syntax is known. -/
inductive Value where
  | text (s : String)
  | integer (n : Int)
  | other
  | array (items : List Value)
  | table (role : Role) (entries : List (String × Value))
  /-- Tables that are opened one after the other by the same header. -/
  | tables (items : List (List (String × Value)))

/-- The entries of a table. -/
abbrev Entries := List (String × Value)

/-- Whether one who makes tables of the first role on the way may go through a table. -/
def Role.enters : Role → Role → Bool
  | _, .inline => false
  | .dotted, .header => false
  | _, _ => true

/-- Puts a value in the place of the one under a key. -/
def replace (key : String) (value : Value) (es : Entries) : Entries :=
  es.map fun (k, v) => if k = key then (k, value) else (k, v)

/-- Changes the table at the end of a path. Tables that are missing on the way are made, and of
    tables with one header the last is meant. -/
def descend (made : Role) (change : Role → Entries → Option Entries) :
    List String → Role → Entries → Option Entries
  | [], role, es => change role es
  | key :: path, _, es =>
    match es.lookup key with
    | none => (descend made change path made []).map fun inner => es ++ [(key, .table made inner)]
    | some (.table role inner) =>
      if made.enters role then
        (descend made change path role inner).map fun inner => replace key (.table role inner) es
      else none
    | some (.tables items) =>
      match items.reverse with
      | [] => none
      | last :: earlier =>
        (descend made change path .header last).map fun inner =>
          replace key (.tables (inner :: earlier).reverse) es
    | some _ => none

/-- Adds an entry to an open table, or to a table that the dotted key made inside it. -/
def insertPair (path : List String) (key : String) (value : Value) (es : Entries) :
    Option Entries :=
  descend .dotted
    (fun role inner =>
      if !path.isEmpty && role ≠ .dotted then none
      else if (inner.lookup key).isSome then none
      else some (inner ++ [(key, value)]))
    path .header es

/-- Opens a table by its header. -/
def openTable (path : List String) (key : String) (root : Entries) : Option Entries :=
  descend .implied
    (fun _ es => match es.lookup key with
      | none => some (es ++ [(key, .table .header [])])
      | some (.table .implied inner) => some (replace key (.table .header inner) es)
      | some _ => none)
    path .header root

/-- Opens one more table of those with the same header. -/
def openNext (path : List String) (key : String) (root : Entries) : Option Entries :=
  descend .implied
    (fun _ es => match es.lookup key with
      | none => some (es ++ [(key, .tables [[]])])
      | some (.tables items) => some (replace key (.tables (items ++ [[]])) es)
      | some _ => none)
    path .header root

/-- Adds an entry below the table that is open. -/
def insertBelow (current path : List String) (key : String) (value : Value) (root : Entries) :
    Option Entries :=
  descend .implied (fun _ es => insertPair path key value es) current .header root

end Biblio.Toml
