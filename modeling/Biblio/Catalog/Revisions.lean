import Biblio.Catalog.Records
import Biblio.Entity.Validation
import Biblio.Store.Write

/-! Creating revisions.

    A body becomes a revision when it breaks no rule of its own and every entity it refers to
    exists, is of the right kind and was not deleted. -/

namespace Biblio.Store

/-- What is wrong with one reference. -/
def relationFault? (s : Store) (entity : EntityKind) (r : Relation) : Option FieldFault :=
  let expected := r.kind.targetKind
  let problem : Option Problem := match s.identity? r.target with
    | none => some (.unknownTarget expected r.target)
    | some x =>
      if x.kind ≠ expected then some (.wrongTarget r.target x.kind expected)
      else if x.isDeleted then some (.deletedTarget expected r.target)
      else none
  problem.map fun p => ⟨entity.name, r.kind.field, p⟩

/-- Everything that is wrong with a body: by itself, and with its references. -/
def bodyFaults (s : Store) (body : EntityBody) : List FieldFault :=
  body.faults ++ body.relations.filterMap (s.relationFault? body.kind)

/-- A body without faults. -/
def checkBody (body : EntityBody) (s : Store) : Except CatalogError Unit :=
  match s.bodyFaults body with
  | [] => .ok ()
  | faults => .error (.validation faults)

/-- Creates a revision. -/
def createRevision (body : EntityBody) : Write RevisionId := do
  look (checkBody body)
  let id ← drawId .revision
  insertRevision {
    id
    kind := body.kind
    bodyText := body.canonicalText
    fingerprint := body.fingerprint
    createdAt := ← drawTime
    relations := body.relations
    externalIds := body.externalIds }
  return id

end Biblio.Store
