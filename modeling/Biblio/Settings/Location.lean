import Biblio.Json.Decoder
import Biblio.Text.FileUri
import Biblio.Toml.Value

/-! Where a catalog is kept.

    A location is a file or none. The name of a file may be a URI, whose parameters say how the file
    is used; some names stand for no file at all, and a catalog there is gone after its use. -/

namespace Biblio

/-- Where a catalog is kept. -/
inductive DatabaseLocation where
  | inMemory
  | file (path : String)
  deriving DecidableEq, Repr

/-- What a location comes to. -/
inductive Place where
  /-- Nothing of the catalog outlives its use. -/
  | memory
  /-- A file; if `mayCreate`, one that is missing is made. -/
  | file (path : String) (mayCreate : Bool)
  deriving DecidableEq, Repr

namespace Place

/-- The place of a file name that is no URI. -/
def ofPath (path : String) (mayCreate : Bool) : Place :=
  if path = "" ∨ path = ":memory:" then memory else file path mayCreate

/-- How a file may be used. -/
inductive Access where
  | read
  | write
  /-- To write, and to make what is missing. -/
  | create
  /-- To use no file. -/
  | memory
  deriving DecidableEq, Repr

/-- The access of a name. -/
def Access.ofName? : String → Option Access
  | "ro" => some read
  | "rw" => some write
  | "rwc" => some create
  | "memory" => some memory
  | _ => none

/-- How much an access allows. -/
def Access.rank : Access → Nat
  | read => 0
  | write => 1
  | create => 2
  | memory => 3

/-- One access may be narrowed to another one, or to no file. -/
def Access.allows (a b : Access) : Bool := b = memory || b.rank ≤ a.rank

/-- What the parameters of a URI ask for. -/
structure Usage where
  access : Access := .create
  system : String := "unix"

/-- The ways of locking files, and the one that uses no files. -/
def systems : List String := ["unix", "unix-dotfile", "unix-excl", "unix-none", "memdb"]

/-- What is asked for with one parameter more; parameters of other names do not count. -/
def Usage.with? (u : Usage) : String × String → Option Usage
  | ("mode", value) => do
    let a ← Access.ofName? value
    if u.access.allows a then some { u with access := a } else none
  | ("cache", value) => if value = "shared" ∨ value = "private" then some u else none
  | ("vfs", value) => some { u with system := value }
  | _ => some u

/-- The place of a URI. Where nothing can be written there is no place for a catalog. -/
def ofUri? (uri : FileUri) : Option Place := do
  let u ← uri.parameters.foldlM Usage.with? {}
  if !systems.contains u.system || u.access = .read then none
  else if u.access = .memory ∨ u.system = "memdb" then some memory
  else some (ofPath uri.path (u.access = .create))

/-- The place of a file name. -/
def ofName? (name : String) : Option Place :=
  let cs := name.toList
  if cs.contains (Char.ofNat 0) then none
  else if FileUri.scheme.isPrefixOf cs then
    (FileUri.parse? (cs.drop FileUri.scheme.length)).bind ofUri?
  else some (ofPath name true)

end Place

namespace DatabaseLocation

/-- What the location comes to, if a catalog can be there. -/
def place? : DatabaseLocation → Option Place
  | inMemory => some .memory
  | file path => Place.ofName? path

/-- A location as JSON. -/
def toJson : DatabaseLocation → Json
  | inMemory => .str "in_memory"
  | file path => .obj [("file", .str path)]

/-- A location from JSON. -/
def decoder : Json.Decoder DatabaseLocation :=
  Json.Decoder.choice
    [("in_memory", .bare inMemory), ("file", .carrying (Json.Decoder.string.map file))]

/-- A table or array without entries. -/
def isEmptyCollection : Toml.Value → Bool
  | .table _ es => es.isEmpty
  | .array items => items.isEmpty
  | .tables items => items.isEmpty
  | _ => false

/-- A location from TOML: its name, or a table with one entry. -/
def ofToml? : Toml.Value → Option DatabaseLocation
  | .text s => if s = "in_memory" then some inMemory else none
  | .table _ [(key, value)] =>
    if key = "file" then
      match value with
      | .text path => some (file path)
      | _ => none
    else if key = "in_memory" ∧ isEmptyCollection value then some inMemory
    else none
  | _ => none

/-- A location from the environment. -/
def ofVariable (value : String) : DatabaseLocation :=
  if value = ":memory:" then inMemory else file value

end DatabaseLocation

end Biblio
