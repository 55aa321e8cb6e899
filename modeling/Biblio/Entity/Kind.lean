/-! The five kinds of entity in a catalog. -/

namespace Biblio

/-- A kind of entity. -/
inductive EntityKind where
  | work
  | release
  | container
  | creator
  | file
  deriving DecidableEq, Repr

namespace EntityKind

/-- All kinds, in the order in which they are listed. -/
def all : List EntityKind := [.work, .release, .container, .creator, .file]

/-- The name of a kind. -/
def name : EntityKind → String
  | .work => "work"
  | .release => "release"
  | .container => "container"
  | .creator => "creator"
  | .file => "file"

/-- The kind of a name. -/
def ofName? (s : String) : Option EntityKind := all.find? fun k => k.name == s

end EntityKind

end Biblio
