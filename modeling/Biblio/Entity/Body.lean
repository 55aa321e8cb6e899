import Biblio.Calendar.Date
import Biblio.Entity.Extra
import Biblio.Entity.Kind
import Biblio.Ident.Basic
import Biblio.Vocabulary

/-! The bodies of entities: what a catalog says about works, releases, containers, creators and
    files.

    A body names other entities by their identifiers and never holds a copy of them. -/

namespace Biblio

/-- The abstract work that releases are versions of. -/
structure Work where
  title : Option String := none
  workType : Option String := none
  extra : Extra := .empty
  deriving DecidableEq

/-- Somebody who contributed to a release, linked to a creator or not. -/
structure Contributor where
  index : Option Int64 := none
  creatorId : Option EntityId := none
  rawName : Option String := none
  role : Option String := none
  extra : Extra := .empty
  deriving DecidableEq

/-- A citation, linked to the release it cites or not. -/
structure Reference where
  index : Option Int64 := none
  targetReleaseId : Option EntityId := none
  key : Option String := none
  year : Option Int64 := none
  containerName : Option String := none
  title : Option String := none
  locator : Option String := none
  extra : Extra := .empty
  deriving DecidableEq

/-- An abstract of a release. -/
structure Abstract where
  content : String
  mimetype : Option String := none
  lang : Option String := none
  deriving DecidableEq

/-- One published version of a work. -/
structure Release where
  title : String := ""
  releaseType : Option String := none
  releaseDate : Option Date := none
  releaseYear : Option Int64 := none
  workId : Option EntityId := none
  containerId : Option EntityId := none
  doi : Option String := none
  pmid : Option String := none
  pmcid : Option String := none
  wikidataQid : Option String := none
  volume : Option String := none
  issue : Option String := none
  pages : Option String := none
  publisher : Option String := none
  language : Option String := none
  contribs : List Contributor := []
  refs : List Reference := []
  abstracts : List Abstract := []
  extra : Extra := .empty
  deriving DecidableEq

/-- A journal, a book series, a conference: something that releases appear in. -/
structure Container where
  name : String
  containerType : Option String := none
  publisher : Option String := none
  issnl : Option String := none
  wikidataQid : Option String := none
  extra : Extra := .empty
  deriving DecidableEq

/-- A person or group that is credited on releases. -/
structure Creator where
  displayName : String
  givenName : Option String := none
  surname : Option String := none
  orcid : Option String := none
  wikidataQid : Option String := none
  extra : Extra := .empty
  deriving DecidableEq

/-- A place where a file can be fetched. -/
structure FileUrl where
  url : String
  rel : String
  deriving DecidableEq

/-- A digital artifact, named by digests of its content. -/
structure File where
  size : Option UInt64 := none
  md5 : Option String := none
  sha1 : Option String := none
  sha256 : Option String := none
  mimetype : Option String := none
  urls : List FileUrl := []
  /-- The releases that the file is a copy of. -/
  releaseIds : List EntityId := []
  extra : Extra := .empty
  deriving DecidableEq

/-- The body of an entity of any kind. -/
inductive EntityBody where
  | work (w : Work)
  | release (r : Release)
  | container (c : Container)
  | creator (c : Creator)
  | file (f : File)
  deriving DecidableEq

/-- A citation that is not linked to a release. -/
def Reference.isStub (r : Reference) : Bool := r.targetReleaseId.isNone

/-- A citation by title and year. -/
def Reference.stub (title : String) (year : Option Int64) : Reference :=
  { title := some title, year }

namespace Release

/-- A placeholder, which needs no title. -/
def isStub (r : Release) : Bool := r.releaseType == some Vocabulary.stubType

/-- A placeholder without a title. -/
def stub : Release := { releaseType := some Vocabulary.stubType }

/-- The creators that contributors are linked to, in the order of the contributors. -/
def creatorIds (r : Release) : List EntityId := r.contribs.filterMap (·.creatorId)

end Release

namespace EntityBody

/-- The kind of the entity. -/
def kind : EntityBody → EntityKind
  | work _ => .work
  | release _ => .release
  | container _ => .container
  | creator _ => .creator
  | file _ => .file

/-- The metadata beside the fields. -/
def extra : EntityBody → Extra
  | work w => w.extra
  | release r => r.extra
  | container c => c.extra
  | creator c => c.extra
  | file f => f.extra

/-- The release, of a release's body. -/
def release? : EntityBody → Option Release
  | release r => some r
  | _ => none

end EntityBody

end Biblio
