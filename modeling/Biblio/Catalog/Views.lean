import Biblio.Catalog.Redirection
import Biblio.Record.Codec
import Biblio.View.Flags

/-! What readers see of entities.

    Readers see accepted entities only. Of an entity that redirects they see the revision of its
    target, and of a deleted one neither revision nor body. -/

namespace Biblio

/-- An entity as readers see it. -/
structure EntityView where
  ident : EntityId
  kind : EntityKind
  state : EntityState
  /-- The current revision; for a redirect, that of its target. -/
  revision : Option RevisionId
  redirect : Option EntityId
  body : Option EntityBody
  deriving DecidableEq

namespace EntityView

/-- A view as JSON. -/
def toJson (v : EntityView) : Json :=
  .obj [("ident", v.ident.toJson), ("entity_type", v.kind.toJson), ("state", v.state.toJson),
    ("revision", .ofOption Ident.toJson v.revision),
    ("redirect", .ofOption Ident.toJson v.redirect),
    ("body", .ofOption EntityBody.toJson v.body)]

/-- The view with the hidden fields of its body emptied. -/
def hide (flags : HideFlags) (v : EntityView) : EntityView :=
  { v with body := v.body.map flags.apply }

/-- The release, of the view of a release. -/
def release? (v : EntityView) : Option Release := v.body.bind (·.release?)

end EntityView

/-- A release with the entities that are linked to it. -/
structure ReleaseExpansion where
  release : EntityView
  work : Option EntityView
  container : Option EntityView
  creators : List EntityView
  files : List EntityView
  deriving DecidableEq

/-- An expanded release as JSON. -/
def ReleaseExpansion.toJson (x : ReleaseExpansion) : Json :=
  .obj [("release", x.release.toJson), ("work", .ofOption EntityView.toJson x.work),
    ("container", .ofOption EntityView.toJson x.container),
    ("creators", .arr (x.creators.map EntityView.toJson)),
    ("files", .arr (x.files.map EntityView.toJson))]

namespace Store

/-- A revision and its body, if there is one. -/
def shownRevision (revision : Option RevisionId) (s : Store) :
    Except CatalogError (Option (RevisionId × EntityBody)) :=
  match revision with
  | none => .ok none
  | some rev => (s.getRevision rev).map fun r => some (rev, r.body)

/-- The revision and body that readers see of a redirecting identity. -/
def shownThroughRedirect (id : EntityId) (s : Store) :
    Except CatalogError (Option (RevisionId × EntityBody)) :=
  match s.resolve id with
  | .ok (.redirectsTo _ target) => s.shownRevision target.revision
  | .ok (.current _) => .ok none
  | .error (.gone _) => .ok none
  | .error e => .error e

/-- The revision and body that readers see of an identity. -/
def shown (x : Identity) (s : Store) : Except CatalogError (Option (RevisionId × EntityBody)) :=
  match x.state with
  | .wip => .error (.notFound (.identity x.id))
  | .deleted => .ok none
  | .active => s.shownRevision x.revision
  | .redirect => s.shownThroughRedirect x.id

/-- An identity as readers see it. -/
def viewOf (x : Identity) (s : Store) : Except CatalogError EntityView := do
  let shown ← s.shown x
  return {
    ident := x.id
    kind := x.kind
    state := x.state
    revision := shown.map (·.1)
    redirect := x.redirect
    body := shown.map (·.2) }

/-- An entity as readers see it. -/
def getEntity (id : EntityId) (s : Store) : Except CatalogError EntityView := do
  s.viewOf (← s.getIdentity id)

/-- An entity as readers see it, with fields left out. -/
def getEntityWith (id : EntityId) (flags : HideFlags) (s : Store) :
    Except CatalogError EntityView :=
  (s.getEntity id).map (·.hide flags)

/-- A linked entity; none if there is no link, or nothing for readers behind it. -/
def visible (id : Option EntityId) (s : Store) : Except CatalogError (Option EntityView) :=
  match id with
  | none => .ok none
  | some id => match s.getEntity id with
    | .ok v => .ok (some v)
    | .error (.notFound _) => .ok none
    | .error e => .error e

/-! ### Searching -/

/-- The identities that a search can find, with their revisions: live, not deleted, and pointing at
    a revision. -/
def current (s : Store) : List (Identity × RevisionRow) :=
  s.identities.filterMap fun x =>
    if x.isLive && !x.isDeleted then (x.revision.bind s.revisionRow?).map fun r => (x, r) else none

/-- Identities in the order of their creation, those of one instant in the order of their texts. -/
def byCreation (xs : List Identity) : List Identity :=
  xs.mergeSort fun a b => a.createdAt.ordinal < b.createdAt.ordinal
    || (a.createdAt.ordinal == b.createdAt.ordinal && a.id.text ≤ b.id.text)

/-- The identity that was created first of those whose revisions carry this identifier. -/
def findByExternalId? (x : ExternalId) (s : Store) : Option Identity :=
  (((s.current.filter fun (_, r) => r.externalIds.contains x).map (·.1)).mergeSort fun a b =>
    a.createdAt.ordinal ≤ b.createdAt.ordinal).head?

/-- The identities whose revisions refer to this one. -/
def referrers (kind : RelationKind) (target : EntityId) (s : Store) : List Identity :=
  byCreation <| (s.current.filter fun (_, r) =>
    r.relations.any fun l => l.kind == kind && l.target == target).map (·.1)

/-- The entities of one kind whose revisions refer to this one. -/
def referrersOfKind (relation : RelationKind) (target : EntityId) (kind : EntityKind) (s : Store) :
    Except CatalogError (List EntityView) :=
  ((s.referrers relation target).filter (·.kind == kind)).mapM fun x => s.viewOf x

/-- The releases of a work. -/
def releasesForWork (work : EntityId) (s : Store) : Except CatalogError (List EntityView) :=
  s.referrersOfKind .work work .release

/-- The files that are copies of a release. -/
def filesForRelease (release : EntityId) (s : Store) : Except CatalogError (List EntityView) :=
  s.referrersOfKind .copy release .file

/-- An identifier that can be looked up. -/
def checkExternalId (x : ExternalId) : Except CatalogError Unit :=
  match FieldFault.ofExternalId? "lookup" x with
  | some fault => .error (.validation [fault])
  | none => .ok ()

/-- The entity that carries this identifier. -/
def lookup (x : ExternalId) (s : Store) : Except CatalogError EntityView := do
  checkExternalId x
  s.viewOf (← found (.externalId x) (s.findByExternalId? x))

/-- The active identities of a kind. -/
def activeOfKind (kind : EntityKind) (s : Store) : List Identity :=
  s.identities.filter fun x => x.kind == kind && x.isLive && !x.isDeleted && x.revision.isSome

/-- One active entity of a kind; `choice` picks it. -/
def randomEntity (kind : EntityKind) (choice : Nat) (s : Store) :
    Except CatalogError EntityView := do
  let xs := s.activeOfKind kind
  s.viewOf (← found (.anyActive kind) xs[choice % xs.length]?)

/-- The number of identities of a kind, all or the live ones. -/
def countIdentities (kind : EntityKind) (liveOnly : Bool) (s : Store) : Nat :=
  s.identities.countP fun x => x.kind == kind && (!liveOnly || x.isLive)

/-- The number of live entities of a kind. -/
def countEntities (kind : EntityKind) (s : Store) : Nat := s.countIdentities kind true

/-! ### Expansion -/

/-- The entities linked to a release that readers want to see, in order; those that readers cannot
    see are left out. -/
def visibleAll (ids : List EntityId) (s : Store) : Except CatalogError (List EntityView) :=
  (ids.mapM fun id => s.visible (some id)).map (·.filterMap id)

/-- The entities linked to a release that a reader wants to see. -/
def expand (view : EntityView) (r : Release) (expand : ExpandFlags) (shown : EntityView)
    (s : Store) : Except CatalogError ReleaseExpansion := do
  let work ← if expand.work then s.visible r.workId else pure none
  let container ← if expand.container then s.visible r.containerId else pure none
  let creators ← if expand.creators then s.visibleAll r.creatorIds else pure []
  let files ← if expand.files then s.filesForRelease (view.redirect.getD view.ident) else pure []
  return { release := shown, work, container, creators, files }

/-- A release with the entities that are linked to it. -/
def expandedRelease (id : EntityId) (flags : ExpandFlags) (hidden : HideFlags) (s : Store) :
    Except CatalogError ReleaseExpansion := do
  let view ← s.getEntity id
  if view.kind ≠ .release then throw (.notFound (.release id))
  let shown := view.hide hidden
  match view.release? with
  | some r => s.expand view r flags shown
  | none =>
    return { release := shown, work := none, container := none, creators := [], files := [] }

end Store

end Biblio
