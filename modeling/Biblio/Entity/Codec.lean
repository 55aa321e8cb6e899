import Biblio.Digest.Sha256
import Biblio.Entity.Body
import Biblio.Json.Printer

/-! The JSON of entity bodies, and the fingerprint of a body.

    Fields without a value are left out. A body of any kind is tagged with its kind. The canonical
    text of a body has its keys in ascending order at every depth and no blanks; the fingerprint is
    the digest of that text. -/

namespace Biblio

open Json.Decoder

/-- An identifier from its text in JSON. -/
def Ident.decoder (kind : IdentKind) : Json.Decoder (Ident kind) :=
  string.refine (Ident.parse? kind)

/-- An identifier as JSON. -/
def Ident.toJson {kind : IdentKind} (id : Ident kind) : Json := .str id.text

/-- A day from its text in JSON. -/
def Date.decoder : Json.Decoder Date := string.refine Date.parse?

/-- A signed integer as JSON. -/
def Json.ofInt64 (n : Int64) : Json := .ofInt n.toInt

/-- An unsigned integer as JSON. -/
def Json.ofUInt64 (n : UInt64) : Json := .ofInt n.toNat

/-- A field for a text that may be left out. -/
def textField (name : String) : Fields (Option String) := optionalAnywhere name string

/-- A field for an integer that may be left out. -/
def integerField (name : String) : Fields (Option Int64) := optionalAnywhere name int64

/-- A field for an entity that may be left out. -/
def entityField (name : String) : Fields (Option EntityId) :=
  optionalAnywhere name (Ident.decoder .entity)

/-- A field for a list that may be left out. -/
def listField {α : Type} (name : String) (dec : Json.Decoder α) : Fields (List α) :=
  defaulted name (list dec) []

/-- The member of a text, left out without one. -/
def textMember? (key : String) (s : Option String) : List (String × Json) := Json.member? key .str s

namespace Work

/-- A work as JSON. -/
def toJson (w : Work) : Json :=
  .obj (textMember? "title" w.title ++ textMember? "work_type" w.workType ++ w.extra.member?)

/-- A work from JSON. -/
def decoder : Json.Decoder Work := record <|
  mk <$> textField "title" <*> textField "work_type" <*> Extra.field

end Work

namespace Contributor

/-- A contributor as JSON. -/
def toJson (c : Contributor) : Json :=
  .obj (Json.member? "index" .ofInt64 c.index ++ Json.member? "creator_id" Ident.toJson c.creatorId
    ++ textMember? "raw_name" c.rawName ++ textMember? "role" c.role ++ c.extra.member?)

/-- A contributor from JSON. -/
def decoder : Json.Decoder Contributor := record <|
  mk <$> integerField "index" <*> entityField "creator_id" <*> textField "raw_name"
    <*> textField "role" <*> Extra.field

end Contributor

namespace Reference

/-- A citation as JSON. -/
def toJson (r : Reference) : Json :=
  .obj (Json.member? "index" .ofInt64 r.index
    ++ Json.member? "target_release_id" Ident.toJson r.targetReleaseId ++ textMember? "key" r.key
    ++ Json.member? "year" .ofInt64 r.year ++ textMember? "container_name" r.containerName
    ++ textMember? "title" r.title ++ textMember? "locator" r.locator ++ r.extra.member?)

/-- A citation from JSON. -/
def decoder : Json.Decoder Reference := record <|
  mk <$> integerField "index" <*> entityField "target_release_id" <*> textField "key"
    <*> integerField "year" <*> textField "container_name" <*> textField "title"
    <*> textField "locator" <*> Extra.field

end Reference

namespace Abstract

/-- An abstract as JSON. -/
def toJson (a : Abstract) : Json :=
  .obj (("content", .str a.content) :: textMember? "mimetype" a.mimetype
    ++ textMember? "lang" a.lang)

/-- An abstract from JSON. -/
def decoder : Json.Decoder Abstract := record <|
  mk <$> required "content" string <*> textField "mimetype" <*> textField "lang"

end Abstract

namespace Release

/-- A release as JSON. -/
def toJson (r : Release) : Json :=
  .obj (("title", .str r.title) :: textMember? "release_type" r.releaseType
    ++ Json.member? "release_date" (fun d : Date => .str d.text) r.releaseDate
    ++ Json.member? "release_year" .ofInt64 r.releaseYear
    ++ Json.member? "work_id" Ident.toJson r.workId
    ++ Json.member? "container_id" Ident.toJson r.containerId
    ++ textMember? "doi" r.doi ++ textMember? "pmid" r.pmid ++ textMember? "pmcid" r.pmcid
    ++ textMember? "wikidata_qid" r.wikidataQid ++ textMember? "volume" r.volume
    ++ textMember? "issue" r.issue ++ textMember? "pages" r.pages
    ++ textMember? "publisher" r.publisher ++ textMember? "language" r.language
    ++ Json.listMember? "contribs" Contributor.toJson r.contribs
    ++ Json.listMember? "refs" Reference.toJson r.refs
    ++ Json.listMember? "abstracts" Abstract.toJson r.abstracts ++ r.extra.member?)

/-- A release from JSON. -/
def decoder : Json.Decoder Release := record <|
  mk <$> defaulted "title" string "" <*> textField "release_type"
    <*> optionalAnywhere "release_date" Date.decoder <*> integerField "release_year"
    <*> entityField "work_id" <*> entityField "container_id" <*> textField "doi"
    <*> textField "pmid" <*> textField "pmcid" <*> textField "wikidata_qid" <*> textField "volume"
    <*> textField "issue" <*> textField "pages" <*> textField "publisher" <*> textField "language"
    <*> listField "contribs" Contributor.decoder <*> listField "refs" Reference.decoder
    <*> listField "abstracts" Abstract.decoder <*> Extra.field

end Release

namespace Container

/-- A container as JSON. -/
def toJson (c : Container) : Json :=
  .obj (("name", .str c.name) :: textMember? "container_type" c.containerType
    ++ textMember? "publisher" c.publisher ++ textMember? "issnl" c.issnl
    ++ textMember? "wikidata_qid" c.wikidataQid ++ c.extra.member?)

/-- A container from JSON. -/
def decoder : Json.Decoder Container := record <|
  mk <$> required "name" string <*> textField "container_type" <*> textField "publisher"
    <*> textField "issnl" <*> textField "wikidata_qid" <*> Extra.field

end Container

namespace Creator

/-- A creator as JSON. -/
def toJson (c : Creator) : Json :=
  .obj (("display_name", .str c.displayName) :: textMember? "given_name" c.givenName
    ++ textMember? "surname" c.surname ++ textMember? "orcid" c.orcid
    ++ textMember? "wikidata_qid" c.wikidataQid ++ c.extra.member?)

/-- A creator from JSON. -/
def decoder : Json.Decoder Creator := record <|
  mk <$> required "display_name" string <*> textField "given_name" <*> textField "surname"
    <*> textField "orcid" <*> textField "wikidata_qid" <*> Extra.field

end Creator

namespace FileUrl

/-- A place as JSON. -/
def toJson (u : FileUrl) : Json := .obj [("url", .str u.url), ("rel", .str u.rel)]

/-- A place from JSON. -/
def decoder : Json.Decoder FileUrl := record <|
  mk <$> required "url" string <*> required "rel" string

end FileUrl

namespace File

/-- A file as JSON. -/
def toJson (f : File) : Json :=
  .obj (Json.member? "size" .ofUInt64 f.size ++ textMember? "md5" f.md5 ++ textMember? "sha1" f.sha1
    ++ textMember? "sha256" f.sha256 ++ textMember? "mimetype" f.mimetype
    ++ Json.listMember? "urls" FileUrl.toJson f.urls
    ++ Json.listMember? "release_ids" Ident.toJson f.releaseIds ++ f.extra.member?)

/-- A file from JSON. -/
def decoder : Json.Decoder File := record <|
  mk <$> optionalAnywhere "size" uint64 <*> textField "md5" <*> textField "sha1"
    <*> textField "sha256" <*> textField "mimetype" <*> listField "urls" FileUrl.decoder
    <*> listField "release_ids" (Ident.decoder .entity) <*> Extra.field

end File

namespace EntityKind

/-- A kind from its name in JSON. -/
def decoder : Json.Decoder EntityKind := oneOf (all.map fun k => (k.name, k))

/-- A kind as JSON. -/
def toJson (k : EntityKind) : Json := .str k.name

end EntityKind

namespace EntityBody

/-- The fields of a body as JSON. -/
def fieldsJson : EntityBody → Json
  | work w => w.toJson
  | release r => r.toJson
  | container c => c.toJson
  | creator c => c.toJson
  | file f => f.toJson

/-- A body as JSON, tagged with its kind. -/
def toJson (b : EntityBody) : Json := .obj [("entity_type", b.kind.toJson), ("body", b.fieldsJson)]

/-- The fields of a body of one kind from JSON. -/
def fieldsDecoder : EntityKind → Json.Decoder EntityBody
  | .work => Work.decoder.map work
  | .release => Release.decoder.map release
  | .container => Container.decoder.map container
  | .creator => Creator.decoder.map creator
  | .file => File.decoder.map file

/-- A body from JSON, tagged with its kind. -/
def decoder : Json.Decoder EntityBody :=
  tagged "entity_type" "body" (EntityKind.all.map fun k => (k.name, ⟨fieldsDecoder k, none⟩))

/-- The canonical text of a body. -/
def canonicalText (b : EntityBody) : String := b.toJson.canonical.text

/-- The fingerprint of a body. -/
def fingerprint (b : EntityBody) : String := Sha256.ofText b.canonicalText

end EntityBody

end Biblio
