import Biblio.Entity.Relation
import Biblio.Record.Basic

/-! The tables of a catalog.

    Every table is a list of rows in the order in which they were inserted. Bodies and metadata are
    kept as JSON text, beside the references and external identifiers that a revision is found by.
    -/

namespace Biblio

/-- A stored editgroup: its header, with the metadata as text. -/
structure EditgroupRow where
  id : EditgroupId
  editor : EditorId
  status : EditgroupStatus
  description : Option String
  extra : Option String
  createdAt : Instant
  closedAt : Option Instant
  deriving DecidableEq

/-- A stored revision: the canonical text of its body, and what the revision is found by. -/
structure RevisionRow where
  id : RevisionId
  kind : EntityKind
  bodyText : String
  fingerprint : String
  createdAt : Instant
  relations : List Relation
  externalIds : List ExternalId
  deriving DecidableEq

/-- Everything that a catalog holds. -/
structure Store where
  editors : List Editor := []
  editgroups : List EditgroupRow := []
  revisions : List RevisionRow := []
  identities : List Identity := []
  /-- In the order of staging. -/
  edits : List Edit := []
  changelog : List ChangelogEntry := []
  deriving DecidableEq

namespace Store

/-- A catalog that holds nothing. -/
def empty : Store := {}

/-- The editor with this identifier. -/
def editor? (s : Store) (id : EditorId) : Option Editor := s.editors.find? (·.id == id)

/-- The editor with this name. -/
def editorNamed? (s : Store) (username : String) : Option Editor :=
  s.editors.find? (·.username == username)

/-- The stored editgroup with this identifier. -/
def editgroupRow? (s : Store) (id : EditgroupId) : Option EditgroupRow :=
  s.editgroups.find? (·.id == id)

/-- The stored revision with this identifier. -/
def revisionRow? (s : Store) (id : RevisionId) : Option RevisionRow :=
  s.revisions.find? (·.id == id)

/-- The identity with this identifier. -/
def identity? (s : Store) (id : EntityId) : Option Identity := s.identities.find? (·.id == id)

/-- The edit with this identifier. -/
def edit? (s : Store) (id : EditId) : Option Edit := s.edits.find? (·.id == id)

/-- The edit of an identity in an editgroup. -/
def pendingEdit? (s : Store) (group : EditgroupId) (ident : EntityId) : Option Edit :=
  s.edits.find? fun e => e.editgroup == group && e.ident == ident

/-- The edits of an editgroup in the order of staging. -/
def editsOf (s : Store) (group : EditgroupId) : List Edit := s.edits.filter (·.editgroup == group)

/-- The changelog entry with this number. -/
def changelogEntry? (s : Store) (seq : Int) : Option ChangelogEntry :=
  s.changelog.find? (·.seq == seq)

/-- The changelog entry of an editgroup. -/
def changelogOf? (s : Store) (group : EditgroupId) : Option ChangelogEntry :=
  s.changelog.find? (·.editgroup == group)

/-- The kind of a stored revision. -/
def kindOfRevision? (s : Store) (id : RevisionId) : Option EntityKind :=
  (s.revisionRow? id).map (·.kind)

end Store

end Biblio
