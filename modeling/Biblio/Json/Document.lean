import Biblio.Json.Basic

/-! JSON texts as they are read: the values they hold, and where they stop being JSON.

    A document keeps everything in front of the first fault and a break where the fault is, so that
    whoever reads it meets the faults in the order of the text. Some faults depend on the reader: a
    number beyond all doubles or half a surrogate pair is a fault for one who needs the value, and
    none for one who skips it. One who needs the name of a case takes the first letter of any other
    value for the fault. -/

namespace Biblio.Json

/-- Why a text could not be read as wanted. -/
inductive Fault where
  /-- The JSON is sound but has another shape. -/
  | misfit
  /-- The text is no JSON, or nests too deeply. -/
  | malformed
  /-- The text ends too early. -/
  | truncated
  deriving DecidableEq, Repr

/-- A place where the text stops being JSON. -/
structure Break where
  /-- What one who needs the value finds. -/
  read : Fault
  /-- What one who skips it finds. -/
  skip : Fault
  /-- What one finds who needs the name of a case, and does not look into other values. -/
  asCase : Fault
  deriving DecidableEq, Repr

/-- The same fault for every reader. -/
def Break.same (f : Fault) : Break := ⟨f, f, f⟩

/-- What stands where a member's name should stand. -/
inductive Key where
  | name (s : String)
  /-- A string that can be skipped but not read. -/
  | unreadable
  /-- A string that breaks off. -/
  | broken (b : Break)
  /-- No string. -/
  | stray
  deriving DecidableEq, Repr

/-- A JSON text up to its first fault. -/
inductive Document where
  | null
  | bool (b : Bool)
  | int (n : WideInt)
  | real (d : Double)
  | str (s : String)
  /-- A number or string that can be skipped but not read. -/
  | unreadable
  /-- `stop` is a fault where a comma or the bracket should stand. -/
  | arr (items : List Document) (stop : Option Break)
  | obj (members : List (Key × Document)) (stop : Option Break)
  | broken (b : Break)

namespace Document

/-- What one who wants a value of another type finds. -/
def misfit : Document → Fault
  | .broken b => b.read
  | .unreadable => .malformed
  | _ => .misfit

mutual

/-- The document of a value, free of faults. -/
def ofJson : Json → Document
  | .null => .null
  | .bool b => .bool b
  | .int n => .int n
  | .real d => .real d
  | .str s => .str s
  | .arr items => .arr (ofItems items) none
  | .obj members => .obj (ofMembers members) none

/-- The documents of values. -/
def ofItems : List Json → List Document
  | [] => []
  | item :: items => ofJson item :: ofItems items

/-- The documents of members. -/
def ofMembers : List (String × Json) → List (Key × Document)
  | [] => []
  | (key, value) :: members => (.name key, ofJson value) :: ofMembers members

end

/-- Fails with the fault of a break for one who skips. -/
def skipStop : Option Break → Except Fault Unit
  | none => .ok ()
  | some b => .error b.skip

mutual

/-- Skips a document: only what breaks the text is a fault. -/
def skip : Document → Except Fault Unit
  | .broken b => .error b.skip
  | .arr items stop => do skipItems items; skipStop stop
  | .obj members stop => do skipMembers members; skipStop stop
  | .null | .bool _ | .int _ | .real _ | .str _ | .unreadable => .ok ()

/-- Skips documents one after the other. -/
def skipItems : List Document → Except Fault Unit
  | [] => .ok ()
  | item :: items => do skip item; skipItems items

/-- Skips members one after the other. -/
def skipMembers : List (Key × Document) → Except Fault Unit
  | [] => .ok ()
  | (.broken b, _) :: _ => .error b.skip
  | (.stray, _) :: _ => .error .malformed
  | (.name _, value) :: members | (.unreadable, value) :: members => do
    skip value
    skipMembers members

end

end Document

end Biblio.Json
