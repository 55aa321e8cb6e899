import Biblio.Entity.Relation
import Biblio.Error.Field

/-! The rules that bodies obey by themselves, whatever else a catalog holds.

    A body that breaks rules is refused with one fault for each rule and place, in the order of the
    checks below. -/

namespace Biblio

/-- The fault, where something is wrong. -/
def faultIf (wrong : Bool) (f : FieldFault) : List FieldFault :=
  if wrong then [f] else []

/-- The name of a place in a list. -/
def indexedField (list : String) (i : Nat) : String :=
  list ++ "[" ++ String.ofList (Text.decimal i) ++ "]"

/-- The fault of a release type that is not in the vocabulary. -/
def FieldFault.ofReleaseType? (entity raw : String) : Option FieldFault :=
  if Vocabulary.releaseTypes.contains raw then none
  else some ⟨entity, "release_type", .unknownReleaseType raw⟩

/-- The fault of a role that is not in the vocabulary. -/
def FieldFault.ofRole? (entity field raw : String) : Option FieldFault :=
  if Vocabulary.contributorRoles.contains raw then none else some ⟨entity, field, .unknownRole raw⟩

/-- The fault of a name that no account can have. -/
def FieldFault.ofUsername? (raw : String) : Option FieldFault :=
  if Vocabulary.isUsername raw then none else some ⟨"editor", "username", .badUsername raw⟩

namespace Work

/-- A title may be missing but not blank. -/
def faults (w : Work) : List FieldFault :=
  match w.title with
  | none => []
  | some title => faultIf (Text.isBlankText title) ⟨"work", "title", .blankTitle⟩

end Work

namespace Contributor

/-- The role is in the vocabulary, and there is a creator or a name. -/
def faults (c : Contributor) (i : Nat) : List FieldFault :=
  let place := indexedField "contribs" i
  (c.role.bind (FieldFault.ofRole? "release" (place ++ ".role"))).toList
    ++ faultIf (c.creatorId.isNone && c.rawName.isNone) ⟨"release", place, .anonymous⟩

end Contributor

namespace Reference

/-- A citation without a target says something about what it cites. -/
def faults (r : Reference) (i : Nat) : List FieldFault :=
  faultIf (r.isStub && r.title.isNone && r.key.isNone && r.extra.isEmpty)
    ⟨"release", indexedField "refs" i, .emptyReference⟩

end Reference

/-- The fault of a year that is not the year of the date. -/
def Release.yearFaults (r : Release) : List FieldFault :=
  match r.releaseDate, r.releaseYear with
  | some date, some year =>
    faultIf (date.year != year.toInt) ⟨"release", "release_year", .yearDiffers year date⟩
  | _, _ => []

/-- The rules of a release, but for its external identifiers. -/
def Release.faults (r : Release) : List FieldFault :=
  faultIf (Text.isBlankText r.title && !r.isStub) ⟨"release", "title", .untitled⟩
    ++ (r.releaseType.bind (FieldFault.ofReleaseType? "release")).toList
    ++ r.yearFaults
    ++ r.contribs.zipIdx.flatMap (fun (c, i) => c.faults i)
    ++ r.refs.zipIdx.flatMap (fun (c, i) => c.faults i)

/-- The faults of identifiers that stand earlier in the list too. -/
def File.repeatedFaults : List EntityId → List EntityId → List FieldFault
  | _, [] => []
  | seen, id :: ids =>
    faultIf (seen.contains id) ⟨"file", "release_ids", .repeatedRelease id⟩
      ++ repeatedFaults (id :: seen) ids

/-- The rules of a file, but for the syntax of its digests. -/
def File.faults (f : File) : List FieldFault :=
  faultIf (f.md5.isNone && f.sha1.isNone && f.sha256.isNone) ⟨"file", "sha1", .noDigest⟩
    ++ f.urls.zipIdx.flatMap (fun (u, i) =>
      (FieldFault.ofRequired? "file" (indexedField "urls" i ++ ".url") u.url).toList)
    ++ repeatedFaults [] f.releaseIds

namespace EntityBody

/-- The rules of one kind of body. -/
def ownFaults : EntityBody → List FieldFault
  | work w => w.faults
  | release r => r.faults
  | container c => (FieldFault.ofRequired? "container" "name" c.name).toList
  | creator c => (FieldFault.ofRequired? "creator" "display_name" c.displayName).toList
  | file f => f.faults

/-- Everything that is wrong with a body by itself. -/
def faults (b : EntityBody) : List FieldFault :=
  b.ownFaults ++ b.externalIds.filterMap (FieldFault.ofExternalId? b.kind.name)

end EntityBody

end Biblio
