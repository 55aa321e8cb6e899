import Biblio.Record.Codec
import Biblio.Store.Basic

/-! Reading the records of a catalog by their identifiers.

    Stored text is decoded each time it is read. -/

namespace Biblio

/-- What was found, or the failure for want of it. -/
def found {α : Type} (what : Missing) : Option α → Except CatalogError α
  | some a => .ok a
  | none => .error (.notFound what)

/-- The value of a stored text. -/
def decodeStored {α : Type} (dec : Json.Decoder α) (text : String) : Except CatalogError α :=
  match dec.ofText text with
  | .ok a => .ok a
  | .error _ => .error (.storage .undecodable)

namespace Store

/-- The editor with this identifier. -/
def getEditor (id : EditorId) (s : Store) : Except CatalogError Editor :=
  found (.editor id) (s.editor? id)

/-- The editor with this name. -/
def getEditorNamed (username : String) (s : Store) : Except CatalogError Editor :=
  found (.editorNamed username) (s.editorNamed? username)

/-- The identity with this identifier. -/
def getIdentity (id : EntityId) (s : Store) : Except CatalogError Identity :=
  found (.identity id) (s.identity? id)

/-- The edit with this identifier. -/
def getEdit (id : EditId) (s : Store) : Except CatalogError Edit := found (.edit id) (s.edit? id)

/-- The changelog entry with this number. -/
def getChangelogEntry (seq : Int) (s : Store) : Except CatalogError ChangelogEntry :=
  found (.changelogEntry seq) (s.changelogEntry? seq)

/-- The header of a stored editgroup. -/
def headerOfRow (row : EditgroupRow) : Except CatalogError Editgroup := do
  let extra ← match row.extra with
    | none => pure .empty
    | some text => decodeStored Extra.decoder text
  return {
    id := row.id
    editor := row.editor
    status := row.status
    description := row.description
    extra
    createdAt := row.createdAt
    closedAt := row.closedAt
    edits := []
    changelog := none }

/-- The header of the editgroup with this identifier. -/
def getEditgroupHeader (id : EditgroupId) (s : Store) : Except CatalogError Editgroup := do
  headerOfRow (← found (.editgroup id) (s.editgroupRow? id))

/-- The editgroup with this identifier, with its edits and its changelog entry. -/
def getEditgroup (id : EditgroupId) (s : Store) : Except CatalogError Editgroup := do
  let header ← s.getEditgroupHeader id
  return { header with edits := s.editsOf id, changelog := s.changelogOf? id }

/-- The header of an editgroup that is neither accepted nor abandoned. -/
def requireOpen (id : EditgroupId) (s : Store) : Except CatalogError Editgroup := do
  let header ← s.getEditgroupHeader id
  if header.status = .pending then return header else throw (.notOpen id header.status)

/-- The editgroups of an editor, the newest first. -/
def editgroupsOfEditor (editor : EditorId) (s : Store) : Except CatalogError (List Editgroup) :=
  (((s.editgroups.filter (·.editor == editor)).reverse).mergeSort fun a b =>
    b.createdAt.ordinal ≤ a.createdAt.ordinal).mapM headerOfRow

/-- The revision with this identifier. -/
def getRevision (id : RevisionId) (s : Store) : Except CatalogError Revision := do
  let row ← found (.revision id) (s.revisionRow? id)
  let body ← decodeStored EntityBody.decoder row.bodyText
  return {
    id := row.id
    kind := row.kind
    body
    fingerprint := row.fingerprint
    createdAt := row.createdAt }

end Store

end Biblio
