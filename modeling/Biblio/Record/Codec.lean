import Biblio.Calendar.Timestamp
import Biblio.Entity.Codec
import Biblio.Record.Basic

/-! The JSON of the records of a catalog.

    Unset options are null. Timestamps are written in universal time with `Z` and read in any zone.
    -/

namespace Biblio

open Json.Decoder

/-- A timestamp as JSON. -/
def Instant.toJson (t : Instant) : Json := .str t.text

/-- A timestamp from JSON. -/
def Instant.decoder : Json.Decoder Instant := string.refine Timestamp.parseLoosely?

namespace ExternalId

/-- An external identifier as JSON, tagged with its registry. -/
def toJson (x : ExternalId) : Json := .obj [("kind", .str x.kind.name), ("value", .str x.value)]

/-- An external identifier from JSON, tagged with its registry. -/
def decoder : Json.Decoder ExternalId :=
  tagged "kind" "value" (ExternalIdKind.all.map fun k => (k.name, ⟨string.map (mk k), none⟩))

end ExternalId

namespace EntityState

/-- A state as JSON. -/
def toJson (s : EntityState) : Json := .str s.name

/-- A state from JSON. -/
def decoder : Json.Decoder EntityState := oneOf (all.map fun s => (s.name, s))

end EntityState

namespace EditgroupStatus

/-- A status as JSON. -/
def toJson (s : EditgroupStatus) : Json := .str s.name

/-- A status from JSON. -/
def decoder : Json.Decoder EditgroupStatus := oneOf (all.map fun s => (s.name, s))

end EditgroupStatus

namespace Identity

/-- An identity as JSON. -/
def toJson (x : Identity) : Json :=
  .obj [("id", x.id.toJson), ("entity_type", x.kind.toJson),
    ("revision", .ofOption Ident.toJson x.revision),
    ("redirect", .ofOption Ident.toJson x.redirect), ("is_live", .bool x.isLive),
    ("is_deleted", .bool x.isDeleted), ("created_at", x.createdAt.toJson)]

/-- An identity from JSON. -/
def decoder : Json.Decoder Identity := record <|
  mk <$> required "id" (Ident.decoder .entity) <*> required "entity_type" EntityKind.decoder
    <*> optional "revision" (Ident.decoder .revision)
    <*> optional "redirect" (Ident.decoder .entity) <*> required "is_live" bool
    <*> required "is_deleted" bool <*> required "created_at" Instant.decoder

end Identity

namespace EditAction

/-- An action as JSON; a deletion has no target. -/
def toJson : EditAction → Json
  | update rev => .obj [("action", .str "update"), ("target", rev.toJson)]
  | redirect target => .obj [("action", .str "redirect"), ("target", target.toJson)]
  | delete => .obj [("action", .str "delete")]

/-- An action from JSON. -/
def decoder : Json.Decoder EditAction :=
  tagged "action" "target"
    [("update", ⟨(Ident.decoder .revision).map update, none⟩),
     ("redirect", ⟨(Ident.decoder .entity).map redirect, none⟩),
     ("delete", ⟨null delete, some delete⟩)]

end EditAction

namespace Edit

/-- An edit as JSON. -/
def toJson (e : Edit) : Json :=
  .obj [("id", e.id.toJson), ("editgroup_id", e.editgroup.toJson), ("ident", e.ident.toJson),
    ("entity_type", e.kind.toJson),
    ("previous_revision", .ofOption Ident.toJson e.previousRevision),
    ("previous_redirect", .ofOption Ident.toJson e.previousRedirect), ("action", e.action.toJson),
    ("created_at", e.createdAt.toJson)]

/-- An edit from JSON. -/
def decoder : Json.Decoder Edit := record <|
  mk <$> required "id" (Ident.decoder .edit) <*> required "editgroup_id" (Ident.decoder .editgroup)
    <*> required "ident" (Ident.decoder .entity) <*> required "entity_type" EntityKind.decoder
    <*> optional "previous_revision" (Ident.decoder .revision)
    <*> optional "previous_redirect" (Ident.decoder .entity)
    <*> required "action" EditAction.decoder <*> required "created_at" Instant.decoder

end Edit

namespace ChangelogEntry

/-- A changelog entry as JSON. -/
def toJson (x : ChangelogEntry) : Json :=
  .obj [("seq", .ofInt x.seq), ("editgroup_id", x.editgroup.toJson),
    ("accepted_at", x.acceptedAt.toJson)]

/-- A changelog entry from JSON. -/
def decoder : Json.Decoder ChangelogEntry := record <|
  mk <$> required "seq" (int64.map (·.toInt)) <*> required "editgroup_id" (Ident.decoder .editgroup)
    <*> required "accepted_at" Instant.decoder

end ChangelogEntry

namespace Editgroup

/-- An editgroup as JSON. -/
def toJson (g : Editgroup) : Json :=
  .obj [("id", g.id.toJson), ("editor_id", g.editor.toJson), ("status", g.status.toJson),
    ("description", .ofOption .str g.description), ("extra", g.extra.toJson),
    ("created_at", g.createdAt.toJson), ("closed_at", .ofOption Instant.toJson g.closedAt),
    ("edits", .arr (g.edits.map Edit.toJson)),
    ("changelog", .ofOption ChangelogEntry.toJson g.changelog)]

/-- An editgroup from JSON. -/
def decoder : Json.Decoder Editgroup := record <|
  mk <$> required "id" (Ident.decoder .editgroup) <*> required "editor_id" (Ident.decoder .editor)
    <*> required "status" EditgroupStatus.decoder <*> optional "description" string
    <*> required "extra" Extra.decoder <*> required "created_at" Instant.decoder
    <*> optional "closed_at" Instant.decoder <*> required "edits" (list Edit.decoder)
    <*> optional "changelog" ChangelogEntry.decoder

end Editgroup

namespace Editor

/-- An editor as JSON. -/
def toJson (e : Editor) : Json :=
  .obj [("id", e.id.toJson), ("username", .str e.username), ("is_admin", .bool e.isAdmin),
    ("is_bot", .bool e.isBot), ("active_editgroup", .ofOption Ident.toJson e.activeEditgroup),
    ("created_at", e.createdAt.toJson)]

/-- An editor from JSON. -/
def decoder : Json.Decoder Editor := record <|
  mk <$> required "id" (Ident.decoder .editor) <*> required "username" string
    <*> required "is_admin" bool <*> required "is_bot" bool
    <*> optional "active_editgroup" (Ident.decoder .editgroup)
    <*> required "created_at" Instant.decoder

end Editor

/-- A revision as JSON. -/
def Revision.toJson (r : Revision) : Json :=
  .obj [("id", r.id.toJson), ("entity_type", r.kind.toJson), ("body", r.body.toJson),
    ("content_sha256", .str r.fingerprint), ("created_at", r.createdAt.toJson)]

end Biblio
