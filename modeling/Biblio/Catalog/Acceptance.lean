import Biblio.Catalog.Redirection
import Biblio.Store.Write

/-! Accepting an editgroup: all its edits take effect, or none.

    An edit takes effect only on an identity that still points where it did when the edit was
    staged. Redirects come last, so that they may lead to identities that the same editgroup
    creates. -/

namespace Biblio

namespace Identity

/-- How the identity differs from the base of an edit. -/
def staleness? (x : Identity) (revision : Option RevisionId) (redirect : Option EntityId) :
    Option Staleness :=
  if x.isDeleted then some .deleted
  else if x.redirect ≠ redirect then some (.redirect redirect x.redirect)
  else if x.revision ≠ revision then some (.revision revision x.revision)
  else none

/-- The identity after an edit. -/
def after (x : Identity) : EditAction → Identity
  | .update rev => { x with revision := some rev, redirect := none, isLive := true }
  | .redirect target => { x with revision := none, redirect := some target, isLive := true }
  | .delete => { x with revision := none, redirect := none, isLive := true, isDeleted := true }

end Identity

namespace Store

/-- Moves an identity if it still points where it is expected to point. -/
def moveIdentity (id : EntityId) (action : EditAction) (revision : Option RevisionId)
    (redirect : Option EntityId) : Write Unit := do
  let x ← look (getIdentity id)
  match x.staleness? revision redirect with
  | some how => throw (.conflict id how)
  | none => replaceIdentity (x.after action)

/-- No identity redirects to this one. -/
def checkNoInbound (id : EntityId) (s : Store) : Except CatalogError Unit :=
  if (s.inboundRedirects id).isEmpty then .ok () else .error (.redirectChain (.isTarget id))

/-- What a redirect needs besides a fresh base. -/
def checkRedirect (e : Edit) (s : Store) : Except CatalogError Unit :=
  match e.action with
  | .redirect target => do
    let _ ← s.checkRedirectTarget e.ident target
    s.checkNoInbound e.ident
  | _ => .ok ()

/-- Lets an edit take effect. -/
def applyEdit (e : Edit) : Write Unit := do
  look (checkRedirect e)
  moveIdentity e.ident e.action e.previousRevision e.previousRedirect

/-- The edits in the order in which they take effect. -/
def inApplicationOrder (edits : List Edit) : List Edit :=
  edits.filter (!·.action.isRedirect) ++ edits.filter (·.action.isRedirect)

/-- The number of the next changelog entry. -/
def nextSeq (s : Store) : Int := (s.changelog.map (·.seq)).foldl max 0 + 1

/-- Appends the changelog entry of an editgroup. -/
def appendChangelog (group : EditgroupId) : Write ChangelogEntry := do
  let x : ChangelogEntry := {
    seq := ← look fun s => .ok s.nextSeq
    editgroup := group
    acceptedAt := ← drawTime }
  insertChangelogEntry x
  return x

/-- Accepts an open editgroup. -/
def accept (id : EditgroupId) : Write ChangelogEntry := do
  let _ ← look (requireOpen id)
  let edits ← look fun s => .ok (s.editsOf id)
  (inApplicationOrder edits).forM applyEdit
  closeEditgroup id .accepted (← drawTime)
  appendChangelog id

end Store

end Biblio
