import Biblio.Record.Codec
import Biblio.Store.Basic

/-! The text that a catalog is kept as between uses: its tables as JSON. -/

namespace Biblio

open Json.Decoder

namespace Relation

/-- A reference as JSON. -/
def toJson (r : Relation) : Json :=
  .obj [("kind", .str r.kind.name), ("target", r.target.toJson), ("position", .ofInt r.position)]

/-- A reference from JSON. -/
def decoder : Json.Decoder Relation := record <|
  mk <$> required "kind" (string.refine RelationKind.ofName?)
    <*> required "target" (Ident.decoder .entity) <*> required "position" (uint64.map (·.toNat))

end Relation

namespace EditgroupRow

/-- A stored editgroup as JSON. -/
def toJson (g : EditgroupRow) : Json :=
  .obj [("id", g.id.toJson), ("editor_id", g.editor.toJson), ("status", g.status.toJson),
    ("description", .ofOption .str g.description), ("extra", .ofOption .str g.extra),
    ("created_at", g.createdAt.toJson), ("closed_at", .ofOption Instant.toJson g.closedAt)]

/-- A stored editgroup from JSON. -/
def decoder : Json.Decoder EditgroupRow := record <|
  mk <$> required "id" (Ident.decoder .editgroup) <*> required "editor_id" (Ident.decoder .editor)
    <*> required "status" EditgroupStatus.decoder <*> optional "description" string
    <*> optional "extra" string <*> required "created_at" Instant.decoder
    <*> optional "closed_at" Instant.decoder

end EditgroupRow

namespace RevisionRow

/-- A stored revision as JSON. -/
def toJson (r : RevisionRow) : Json :=
  .obj [("id", r.id.toJson), ("entity_type", r.kind.toJson), ("body", .str r.bodyText),
    ("content_sha256", .str r.fingerprint), ("created_at", r.createdAt.toJson),
    ("relations", .arr (r.relations.map Relation.toJson)),
    ("external_ids", .arr (r.externalIds.map ExternalId.toJson))]

/-- A stored revision from JSON. -/
def decoder : Json.Decoder RevisionRow := record <|
  mk <$> required "id" (Ident.decoder .revision) <*> required "entity_type" EntityKind.decoder
    <*> required "body" string <*> required "content_sha256" string
    <*> required "created_at" Instant.decoder <*> required "relations" (list Relation.decoder)
    <*> required "external_ids" (list ExternalId.decoder)

end RevisionRow

namespace Store

/-- A catalog as JSON. -/
def toJson (s : Store) : Json :=
  .obj [("editors", .arr (s.editors.map Editor.toJson)),
    ("editgroups", .arr (s.editgroups.map EditgroupRow.toJson)),
    ("revisions", .arr (s.revisions.map RevisionRow.toJson)),
    ("identities", .arr (s.identities.map Identity.toJson)),
    ("edits", .arr (s.edits.map Edit.toJson)),
    ("changelog", .arr (s.changelog.map ChangelogEntry.toJson))]

/-- A catalog from JSON. -/
def decoder : Json.Decoder Store := record <|
  mk <$> required "editors" (list Editor.decoder)
    <*> required "editgroups" (list EditgroupRow.decoder)
    <*> required "revisions" (list RevisionRow.decoder)
    <*> required "identities" (list Identity.decoder) <*> required "edits" (list Edit.decoder)
    <*> required "changelog" (list ChangelogEntry.decoder)

/-- The text that a catalog is kept as. -/
def snapshot (s : Store) : String := s.toJson.text

/-- The catalog that is kept as this text; an empty text is an empty catalog. -/
def ofSnapshot? (text : String) : Option Store :=
  if text.isEmpty then some .empty else (decoder.ofText text).toOption

end Store

end Biblio
