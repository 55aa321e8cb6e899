import Biblio.Calendar.Instant
import Biblio.Entity.Body
import Biblio.Error.Catalog

/-! The records of a catalog.

    An identity points at a revision, at another identity, or nowhere. Edits say how identities are
    to change; they are collected in editgroups, which belong to editors, and every accepted
    editgroup has one entry in the changelog. -/

namespace Biblio

/-- What readers make of an identity. -/
inductive EntityState where
  /-- Not accepted yet. -/
  | wip
  | active
  | redirect
  | deleted
  deriving DecidableEq, Repr

namespace EntityState

/-- All states. -/
def all : List EntityState := [.wip, .active, .redirect, .deleted]

/-- The name of a state. -/
def name : EntityState → String
  | .wip => "wip"
  | .active => "active"
  | .redirect => "redirect"
  | .deleted => "deleted"

end EntityState

/-- A permanent identity and where it points. -/
structure Identity where
  id : EntityId
  kind : EntityKind
  revision : Option RevisionId
  redirect : Option EntityId
  isLive : Bool
  isDeleted : Bool
  createdAt : Instant
  deriving DecidableEq

namespace Identity

/-- What readers make of the identity. -/
def state (x : Identity) : EntityState :=
  if !x.isLive then .wip
  else if x.isDeleted then .deleted
  else if x.redirect.isSome then .redirect
  else .active

/-- Live, not deleted and not redirecting. -/
def isActive (x : Identity) : Bool := x.state == .active

end Identity

/-- What an edit does to its identity. -/
inductive EditAction where
  /-- Points the identity at a revision. -/
  | update (revision : RevisionId)
  /-- Merges the identity into another one. -/
  | redirect (target : EntityId)
  | delete
  deriving DecidableEq, Repr

namespace EditAction

/-- Whether the action merges identities. -/
def isRedirect : EditAction → Bool
  | redirect _ => true
  | _ => false

/-- The revision that the action brings. -/
def revision? : EditAction → Option RevisionId
  | update rev => some rev
  | _ => none

/-- The identity that the action merges into. -/
def target? : EditAction → Option EntityId
  | redirect target => some target
  | _ => none

/-- The action in words. -/
def text : EditAction → String
  | update rev => "Update(RevisionId(" ++ rev.uuid.text ++ "))"
  | redirect target => "Redirect(EntityId(" ++ target.uuid.text ++ "))"
  | delete => "Delete"

end EditAction

/-- A change of one identity, proposed or accepted. -/
structure Edit where
  id : EditId
  editgroup : EditgroupId
  ident : EntityId
  kind : EntityKind
  /-- The revision that the edit is based on. -/
  previousRevision : Option RevisionId
  /-- Where the identity redirected when the edit was staged. -/
  previousRedirect : Option EntityId
  action : EditAction
  createdAt : Instant
  deriving DecidableEq

/-- The entry of an accepted editgroup. -/
structure ChangelogEntry where
  seq : Int
  editgroup : EditgroupId
  acceptedAt : Instant
  deriving DecidableEq

/-- A group of edits that are accepted or abandoned together. -/
structure Editgroup where
  id : EditgroupId
  editor : EditorId
  status : EditgroupStatus
  description : Option String
  extra : Extra
  createdAt : Instant
  /-- When the group was accepted or abandoned. -/
  closedAt : Option Instant
  /-- The edits in the order of staging; none in a mere header. -/
  edits : List Edit
  changelog : Option ChangelogEntry
  deriving DecidableEq

/-- An account that submits editgroups. -/
structure Editor where
  id : EditorId
  username : String
  isAdmin : Bool
  isBot : Bool
  /-- The editgroup that the editor is working on. -/
  activeEditgroup : Option EditgroupId
  createdAt : Instant
  deriving DecidableEq

/-- An unchanging body. -/
structure Revision where
  id : RevisionId
  kind : EntityKind
  body : EntityBody
  /-- The digest of the canonical text of the body. -/
  fingerprint : String
  createdAt : Instant
  deriving DecidableEq

end Biblio
