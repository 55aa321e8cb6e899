import Biblio.Entity.Body
import Biblio.ExternalId

/-! The links from bodies to other entities, and the external identifiers that bodies carry. -/

namespace Biblio

/-- The ways in which a body refers to an entity. -/
inductive RelationKind where
  /-- A release belongs to a work. -/
  | work
  /-- A release appears in a container. -/
  | container
  /-- A creator contributed to a release. -/
  | contributor
  /-- A release cites a release. -/
  | citation
  /-- A file is a copy of a release. -/
  | copy
  deriving DecidableEq, Repr

namespace RelationKind

/-- All ways. -/
def all : List RelationKind := [.work, .container, .contributor, .citation, .copy]

/-- The name of a way. -/
def name : RelationKind → String
  | .work => "work"
  | .container => "container"
  | .contributor => "contrib"
  | .citation => "ref_target"
  | .copy => "release"

/-- The way of a name. -/
def ofName? (s : String) : Option RelationKind := all.find? fun k => k.name == s

/-- The kind of entity that is referred to. -/
def targetKind : RelationKind → EntityKind
  | .work => .work
  | .container => .container
  | .contributor => .creator
  | .citation | .copy => .release

/-- The field that holds the reference. -/
def field : RelationKind → String
  | .work => "work_id"
  | .container => "container_id"
  | .contributor => "contribs.creator_id"
  | .citation => "refs.target_release_id"
  | .copy => "release_ids"

end RelationKind

/-- A reference from a body, with its place in the list that holds it. -/
structure Relation where
  kind : RelationKind
  target : EntityId
  position : Nat
  deriving DecidableEq, Repr

namespace Relation

/-- The relation of a field that may be empty. -/
def ofField (kind : RelationKind) (id : Option EntityId) : List Relation :=
  (id.map fun target => ⟨kind, target, 0⟩).toList

/-- The relations of a list, each item with its place. -/
def ofItems {α : Type} (kind : RelationKind) (target? : α → Option EntityId) (xs : List α) :
    List Relation :=
  xs.zipIdx.filterMap fun (x, i) => (target? x).map fun target => ⟨kind, target, i⟩

end Relation

namespace EntityBody

/-- The references of a body, in the order of its fields. -/
def relations : EntityBody → List Relation
  | release r =>
    Relation.ofField .work r.workId ++ Relation.ofField .container r.containerId
      ++ Relation.ofItems .contributor (·.creatorId) r.contribs
      ++ Relation.ofItems .citation (·.targetReleaseId) r.refs
  | file f => Relation.ofItems .copy some f.releaseIds
  | work _ | container _ | creator _ => []

/-- The external identifier of a field that may be empty. -/
def externalId (kind : ExternalIdKind) (value : Option String) : List ExternalId :=
  (value.map (ExternalId.mk kind)).toList

/-- The external identifiers of a body, in the order in which they are checked. -/
def externalIds : EntityBody → List ExternalId
  | work _ => []
  | release r =>
    externalId .doi r.doi ++ externalId .pmid r.pmid ++ externalId .pmcid r.pmcid
      ++ externalId .wikidataQid r.wikidataQid
  | container c => externalId .issnl c.issnl ++ externalId .wikidataQid c.wikidataQid
  | creator c => externalId .orcid c.orcid ++ externalId .wikidataQid c.wikidataQid
  | file f => externalId .md5 f.md5 ++ externalId .sha1 f.sha1 ++ externalId .sha256 f.sha256

end EntityBody

end Biblio
