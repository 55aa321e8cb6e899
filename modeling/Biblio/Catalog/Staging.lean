import Biblio.Catalog.Redirection
import Biblio.Store.Write

/-! Staging edits in an open editgroup.

    An edit of an existing identity names the revision it is based on; an identity that redirects is
    recorded with its redirect instead. Staging changes nothing that readers see: of a new entity it
    only allocates the identity. -/

namespace Biblio

/-- What an edit is for. -/
inductive EditTarget where
  /-- A new identity of this kind. -/
  | new (kind : EntityKind)
  | existing (id : EntityId)
  deriving DecidableEq, Repr

/-- What is known of an identity when an edit of it is staged. -/
structure EditBase where
  /-- None for a new identity. -/
  ident : Option EntityId
  kind : EntityKind
  previousRedirect : Option EntityId
  deriving DecidableEq

/-- The failure of a request for an edit. -/
def badRequest (field : String) (problem : Problem) : CatalogError :=
  .validation [⟨"edit", field, problem⟩]

namespace Store

/-- Allocates an identity that is not live. -/
def allocate (kind : EntityKind) : Write EntityId := do
  let id ← drawId .entity
  insertIdentity {
    id, kind
    revision := none
    redirect := none
    isLive := false
    isDeleted := false
    createdAt := ← drawTime }
  return id

/-- The base of an edit of a new identity. -/
def newBase (kind : EntityKind) (previous : Option RevisionId) (action : EditAction) :
    Except CatalogError EditBase := do
  if action.revision?.isNone then throw (badRequest "action" .newWithoutRevision)
  if previous.isSome then throw (badRequest "previous_revision" .newWithBase)
  return ⟨none, kind, none⟩

/-- The base of an edit of an existing identity. -/
def existingBase (group : EditgroupId) (id : EntityId) (previous : Option RevisionId) (s : Store) :
    Except CatalogError EditBase := do
  let x ← s.getIdentity id
  if x.isDeleted then throw (.gone (.identity id))
  if !x.isLive then throw (.notFound (.unaccepted id))
  if (s.pendingEdit? group id).isSome then throw (.editConflict group id)
  if x.revision.isSome && previous.isNone then
    throw (badRequest "previous_revision" (.baseMissing id))
  return ⟨some id, x.kind, if previous.isNone then x.redirect else none⟩

/-- The base of an edit. -/
def editBase (group : EditgroupId) (target : EditTarget) (previous : Option RevisionId)
    (action : EditAction) (s : Store) : Except CatalogError EditBase :=
  match target with
  | .new kind => newBase kind previous action
  | .existing id => s.existingBase group id previous

/-- The kind of an identity that an editgroup is creating. -/
def createdIn? (group : EditgroupId) (id : EntityId) (s : Store) : Option EntityKind :=
  match s.identity? id with
  | some x =>
    if x.isLive then none
    else
      ((s.pendingEdit? group id).filter fun e => e.action.revision?.isSome).map (·.kind)
  | none => none

/-- The kind of what an identity is to redirect to: created in the same editgroup, or live. -/
def redirectTargetKind (group : EditgroupId) (source target : EntityId) (s : Store) :
    Except CatalogError EntityKind :=
  match s.createdIn? group target with
  | some kind => .ok kind
  | none => (s.checkRedirectTarget source target).map (·.kind)

/-- What an edit brings exists and is of the kind of its identity. -/
def checkAction (group : EditgroupId) (base : EditBase) (action : EditAction) (s : Store) :
    Except CatalogError Unit :=
  match action, base.ident with
  | .update rev, _ => do
    let kind ← found (.revision rev) (s.kindOfRevision? rev)
    if kind ≠ base.kind then
      throw (badRequest "new_revision" (.revisionOfOtherKind rev kind base.kind))
  | .redirect target, some source => do
    let kind ← s.redirectTargetKind group source target
    if kind ≠ base.kind then throw (badRequest "redirect" (.redirectToOtherKind base.kind kind))
  | .redirect _, none => .error (badRequest "action" .newWithoutRevision)
  | .delete, _ => .ok ()

/-- The revision that an edit is based on exists. -/
def checkPrevious (previous : Option RevisionId) (s : Store) : Except CatalogError Unit :=
  match previous with
  | none => .ok ()
  | some rev => (found (.revision rev) (s.kindOfRevision? rev)).map fun _ => ()

/-- Stages an edit. -/
def stageEdit (group : EditgroupId) (target : EditTarget) (previous : Option RevisionId)
    (action : EditAction) : Write Edit := do
  let _ ← look (requireOpen group)
  let base ← look (editBase group target previous action)
  look (checkAction group base action)
  look (checkPrevious previous)
  let ident ← match base.ident with
    | some id => pure id
    | none => allocate base.kind
  let e : Edit := {
    id := ← drawId .edit
    editgroup := group
    ident
    kind := base.kind
    previousRevision := previous
    previousRedirect := base.previousRedirect
    action
    createdAt := ← drawTime }
  insertEdit e
  return e

/-- Takes an edit out of an open editgroup. -/
def removeEdit (id : EditId) : Write Edit := do
  let e ← look (getEdit id)
  let _ ← look (requireOpen e.editgroup)
  deleteEdit id
  return e

end Store

end Biblio
