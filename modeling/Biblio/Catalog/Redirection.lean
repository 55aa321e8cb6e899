import Biblio.Catalog.Records

/-! Where identities lead.

    A redirect is followed for one hop; what it leads to must neither be deleted nor redirect
    itself. -/

namespace Biblio

/-- The outcome of following an identity. -/
inductive Resolution where
  /-- It does not redirect. -/
  | current (identity : Identity)
  | redirectsTo (source target : Identity)
  deriving DecidableEq

/-- The identity whose revision readers see. -/
def Resolution.effective : Resolution → Identity
  | current identity => identity
  | redirectsTo _ target => target

namespace Store

/-- Follows an identity for at most one hop. -/
def resolve (id : EntityId) (s : Store) : Except CatalogError Resolution := do
  let x ← s.getIdentity id
  if x.isDeleted then throw (.gone (.identity id))
  match x.redirect with
  | none => return .current x
  | some t =>
    let target ← s.getIdentity t
    if target.isDeleted then throw (.gone (.redirectOf id t))
    match target.redirect with
    | some next => throw (.redirectChain (.twoHops id t next))
    | none => return .redirectsTo x target

/-- What an identity may redirect to as things are now. -/
def checkRedirectTarget (source target : EntityId) (s : Store) : Except CatalogError Identity := do
  if source = target then throw (.redirectChain (.toItself source))
  let x ← s.getIdentity target
  if x.isDeleted then throw (.gone (.redirectTarget target))
  if !x.isLive then throw (.redirectChain (.targetNotLive target))
  match x.redirect with
  | some next => throw (.redirectChain (.targetRedirects target next))
  | none => return x

/-- The live identities that redirect to this one. -/
def inboundRedirects (id : EntityId) (s : Store) : List Identity :=
  s.identities.filter fun x => x.redirect == some id && x.isLive && !x.isDeleted

end Store

end Biblio
