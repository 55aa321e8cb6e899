import Biblio.Store.Basic

/-! The tables of a catalog by name.

    Names are known in either case of their letters. A name may be looked for in the part of the
    database that lasts, or in the part that ends with a connection, where no table is kept. -/

namespace Biblio

/-- A table. -/
inductive Table where
  | editor
  | editgroup
  | revision
  /-- One row for each reference of each revision. -/
  | relation
  /-- One row for each external identifier of each revision. -/
  | externalId
  | ident
  | edit
  | changelog
  /-- One row for each lasting table and each of their indexes. -/
  | layout
  /-- One row for each table that ends with the connection. -/
  | passingLayout
  deriving DecidableEq, Repr

namespace Table

/-- The tables that last. -/
def lasting : List (String × Table) :=
  [("editor", editor), ("editgroup", editgroup), ("revision", revision), ("rev_relation", relation),
   ("rev_extid", externalId), ("ident", ident), ("edit", edit), ("changelog", changelog),
   ("sqlite_master", layout), ("sqlite_schema", layout)]

/-- The tables that end with the connection. -/
def passing : List (String × Table) :=
  [("sqlite_temp_master", passingLayout), ("sqlite_temp_schema", passingLayout)]

/-- The names in one part of the database; without a part, those in both. -/
def namesIn : Option String → List (String × Table)
  | none => lasting ++ passing
  | some "main" => lasting
  | some "temp" => ("sqlite_master", passingLayout) :: ("sqlite_schema", passingLayout) :: passing
  | some _ => []

/-- The table of this name. -/
def find? (part : Option String) (name : String) : Option Table :=
  (namesIn (part.map (·.map Char.toLower))).lookup (name.map Char.toLower)

/-- The number of indexes of the lasting tables: 8 that are named, and one for each of the 8 keys
    that are texts. -/
def indexCount : Nat := 16

end Table

/-- The number of rows of a table. -/
def Store.rowCount (s : Store) : Table → Nat
  | .editor => s.editors.length
  | .editgroup => s.editgroups.length
  | .revision => s.revisions.length
  | .relation => (s.revisions.flatMap (·.relations)).length
  | .externalId => (s.revisions.flatMap (·.externalIds)).length
  | .ident => s.identities.length
  | .edit => s.edits.length
  | .changelog => s.changelog.length
  | .layout => 8 + Table.indexCount
  | .passingLayout => 0

end Biblio
