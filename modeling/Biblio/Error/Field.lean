import Biblio.Calendar.Date
import Biblio.Entity.Kind
import Biblio.ExternalId
import Biblio.Ident.Basic

/-! What can be wrong with one field of an entity or of a request. -/

namespace Biblio

/-- Why a field is refused. -/
inductive Problem where
  /-- A text that must be there is blank. -/
  | empty
  /-- A title that may be left out is blank. -/
  | blankTitle
  /-- Only placeholders may have a blank title. -/
  | untitled
  | unknownReleaseType (raw : String)
  | unknownRole (raw : String)
  | yearDiffers (year : Int64) (date : Date)
  | anonymous
  | emptyReference
  | noDigest
  | repeatedRelease (id : EntityId)
  | malformed (id : ExternalId)
  | badUsername (raw : String)
  | usernameTaken (username : String)
  | unknownKind (raw : String)
  | unknownTarget (expected : EntityKind) (target : EntityId)
  | wrongTarget (target : EntityId) (actual expected : EntityKind)
  | deletedTarget (expected : EntityKind) (target : EntityId)
  /-- A new identity can receive a revision and nothing else. -/
  | newWithoutRevision
  /-- A new identity has no base. -/
  | newWithBase
  /-- An edit of an identity that has a revision must name it. -/
  | baseMissing (ident : EntityId)
  | revisionOfOtherKind (revision : RevisionId) (actual expected : EntityKind)
  | redirectToOtherKind (source target : EntityKind)
  deriving DecidableEq, Repr

namespace Problem

/-- The problem in words. -/
def message : Problem → String
  | empty => "Required field is empty"
  | blankTitle => "Must be omitted or non-empty"
  | untitled => "Required unless release_type is 'stub'"
  | unknownReleaseType raw =>
    "not a valid release_type: '" ++ raw ++ "' (expected a CSL type, eg, 'article-journal', 'book')"
  | unknownRole raw =>
    "not a valid contrib role: '" ++ raw ++ "' (expected a CSL role, eg, 'author', 'editor')"
  | yearDiffers year date =>
    String.ofList (Text.decimalInt year.toInt) ++ " does not match release_date " ++ date.text
  | anonymous => "Needs creator_id or raw_name"
  | emptyReference => "Stub reference needs a title, key or extra"
  | noDigest => "At least one content hash (md5, sha1, sha256) is required"
  | repeatedRelease id => "duplicate release id " ++ id.text
  | malformed id => "not valid: '" ++ id.value ++ "' (expected " ++ id.kind.expected ++ ")"
  | badUsername raw => "not a valid username: '" ++ raw ++ "'"
  | usernameTaken username => "'" ++ username ++ "' is already taken"
  | unknownKind raw => "unknown entity type: '" ++ raw ++ "'"
  | unknownTarget expected target => "unknown " ++ expected.name ++ " identity " ++ target.text
  | wrongTarget target actual expected =>
    target.text ++ " is a " ++ actual.name ++ ", expected a " ++ expected.name
  | deletedTarget expected target => expected.name ++ " " ++ target.text ++ " is deleted"
  | newWithoutRevision => "a new identity can only receive a revision"
  | newWithBase => "a new identity has no previous revision"
  | baseMissing ident =>
    "identity " ++ ident.text ++ " has a current revision; name it as the base"
  | revisionOfOtherKind revision actual expected =>
    "revision " ++ revision.text ++ " is a " ++ actual.name ++ ", identity is a " ++ expected.name
  | redirectToOtherKind source target =>
    "cannot redirect a " ++ source.name ++ " to a " ++ target.name

end Problem

/-- A refused field: of which kind of thing, its name, and what is wrong with it. -/
structure FieldFault where
  entity : String
  field : String
  problem : Problem
  deriving DecidableEq, Repr

namespace FieldFault

/-- The problem in words. -/
def message (f : FieldFault) : String := f.problem.message

/-- The field and its problem in words. -/
def text (f : FieldFault) : String := "[" ++ f.entity ++ "] " ++ f.field ++ ": " ++ f.message

/-- The fault of an identifier that has not the syntax of its registry. -/
def ofExternalId? (entity : String) (id : ExternalId) : Option FieldFault :=
  if id.isWellFormed then none else some ⟨entity, id.kind.name, .malformed id⟩

/-- The fault of a text that must not be blank. -/
def ofRequired? (entity field value : String) : Option FieldFault :=
  if Text.isBlankText value then some ⟨entity, field, .empty⟩ else none

end FieldFault

end Biblio
