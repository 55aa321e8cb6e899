import Biblio.Catalog.Records

/-! Reading the changelog: pages of it, its end, and the history of an entity. -/

namespace Biblio

/-- An accepted change of an identity. -/
structure HistoryEntry where
  edit : Edit
  /-- The header of the editgroup. -/
  editgroup : Editgroup
  changelog : ChangelogEntry
  deriving DecidableEq

/-- A change as JSON. -/
def HistoryEntry.toJson (h : HistoryEntry) : Json :=
  .obj [("edit", h.edit.toJson), ("editgroup", h.editgroup.toJson),
    ("changelog", h.changelog.toJson)]

namespace Store

/-- The changelog in ascending order. -/
def sortedChangelog (s : Store) : List ChangelogEntry :=
  s.changelog.mergeSort fun a b => a.seq ≤ b.seq

/-- The first entries from a number on, but no more than `limit`. -/
def readChangelog (start : Int) (limit : Nat) (s : Store) : List ChangelogEntry :=
  (s.sortedChangelog.filter fun x => start ≤ x.seq).take limit

/-- The last entry. -/
def latestChangelog? (s : Store) : Option ChangelogEntry := s.sortedChangelog.getLast?

/-- The accepted edits of an identity with their changelog entries, the newest first. -/
def acceptedEdits (id : EntityId) (s : Store) : List (Edit × ChangelogEntry) :=
  ((s.edits.filter (·.ident == id)).flatMap fun e =>
    (s.changelog.filter (·.editgroup == e.editgroup)).map fun x => (e, x)).mergeSort
      fun a b => b.2.seq ≤ a.2.seq

/-- An accepted edit with its editgroup and changelog entry. -/
def historyEntry (e : Edit) (s : Store) : Except CatalogError HistoryEntry := do
  let editgroup ← s.getEditgroupHeader e.editgroup
  let changelog ← found (.changelogEntryOf e.editgroup) (s.changelogOf? e.editgroup)
  return { edit := e, editgroup, changelog }

/-- The accepted changes of an entity, the newest first. -/
def history (id : EntityId) (s : Store) : Except CatalogError (List HistoryEntry) := do
  let _ ← s.getIdentity id
  (s.acceptedEdits id).mapM fun (e, _) => s.historyEntry e

end Store

end Biblio
