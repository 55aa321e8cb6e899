import Biblio.Catalog.Acceptance
import Biblio.Catalog.Editors
import Biblio.Catalog.Revisions
import Biblio.Catalog.Staging

/-! Creating, changing, deleting and merging entities: revision and edit in one step.

    A release that names no work gets a new one in the same editgroup. -/

namespace Biblio.Store

/-- Creates a revision and stages it as a new entity. -/
def stageNew (group : EditgroupId) (body : EntityBody) : Write Edit := do
  let rev ← createRevision body
  stageEdit group (.new body.kind) none (.update rev)

/-- The body of a new entity: a release without a work is given a new one. -/
def withWork (group : EditgroupId) (body : EntityBody) : Write EntityBody :=
  match body with
  | .release r => do
    if r.workId.isSome then return body
    let work ← stageNew group (.work {})
    return .release { r with workId := some work.ident }
  | body => pure body

/-- Stages a new entity. -/
def createEntity (group : EditgroupId) (body : EntityBody) : Write Edit := do
  stageNew group (← withWork group body)

/-- Stages a new revision of an entity, based on its current state. -/
def updateEntity (group : EditgroupId) (id : EntityId) (body : EntityBody) : Write Edit := do
  let x ← look (getIdentity id)
  let rev ← createRevision body
  stageEdit group (.existing id) x.revision (.update rev)

/-- Stages the deletion of an entity. -/
def deleteEntity (group : EditgroupId) (id : EntityId) : Write Edit := do
  let x ← look (getIdentity id)
  stageEdit group (.existing id) x.revision .delete

/-- Stages the merging of an entity into another one. -/
def redirectEntity (group : EditgroupId) (id target : EntityId) : Write Edit := do
  let x ← look (getIdentity id)
  stageEdit group (.existing id) x.revision (.redirect target)

/-- Creates an editgroup with a new entity in it. -/
def stageAlone (editor : EditorId) (body : EntityBody) : Write (EditgroupId × Edit) := do
  let group ← createEditgroup editor (some "autoaccept") .empty
  let e ← createEntity group body
  return (group, e)

/-- Creates an entity in an editgroup of its own and accepts that at once; if it cannot be accepted
    it is abandoned. -/
def autoaccept (editor : EditorId) (body : EntityBody) (src : Source) (c : Catalog) :
    Except CatalogError (EntityId × ChangelogEntry) × Catalog :=
  match (stageAlone editor body).run src c with
  | (.error e, c) => (.error e, c)
  | (.ok (group, edit), c) =>
    match (accept group).run src c with
    | (.ok entry, c) => (.ok (edit.ident, entry), c)
    | (.error e, c) =>
      match (abandon group).run src c with
      | (.ok _, c) => (.error e, c)
      | (.error e', c) => (.error e', c)

end Biblio.Store
