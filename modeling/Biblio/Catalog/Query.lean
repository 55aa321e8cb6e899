import Biblio.Catalog.Handle
import Biblio.Catalog.Views

/-! Everything that can be asked of a catalog. A question changes nothing. -/

namespace Biblio

/-- A question with its arguments; the answer has the type. -/
inductive Query : Type → Type where
  | editor (id : EditorId) : Query Editor
  | editorNamed (username : String) : Query Editor
  | editgroupsOfEditor (editor : EditorId) : Query (List Editgroup)
  | editgroup (id : EditgroupId) : Query Editgroup
  | revision (id : RevisionId) : Query Revision
  | editsOf (group : EditgroupId) : Query (List Edit)
  | resolution (id : EntityId) : Query Resolution
  | changelog (start : Int) (limit : Nat) : Query (List ChangelogEntry)
  | changelogEntry (seq : Int) : Query ChangelogEntry
  | latestChangelog : Query (Option ChangelogEntry)
  | changelogOf (group : EditgroupId) : Query (Option ChangelogEntry)
  | entity (id : EntityId) (hidden : HideFlags) : Query EntityView
  | lookup (x : ExternalId) : Query EntityView
  /-- `choice` picks one of the active entities. -/
  | anyEntity (kind : EntityKind) (choice : Nat) : Query EntityView
  | history (id : EntityId) : Query (List HistoryEntry)
  | expandedRelease (id : EntityId) (flags : ExpandFlags) (hidden : HideFlags) :
    Query ReleaseExpansion
  | releasesForWork (work : EntityId) : Query (List EntityView)
  | filesForRelease (release : EntityId) : Query (List EntityView)
  | countEntities (kind : EntityKind) : Query Nat

/-- The answer to a question, or the failure. Only the pages of the changelog depend on the
    handle. -/
def Query.answer {α : Type} (q : Query α) (h : Handle) (s : Store) : Except CatalogError α :=
  match q with
  | .editor id => s.getEditor id
  | .editorNamed username => s.getEditorNamed username
  | .editgroupsOfEditor id => s.editgroupsOfEditor id
  | .editgroup id => s.getEditgroup id
  | .revision id => s.getRevision id
  | .editsOf group => .ok (s.editsOf group)
  | .resolution id => s.resolve id
  | .changelog start limit => .ok (h.readChangelog start limit s)
  | .changelogEntry seq => s.getChangelogEntry seq
  | .latestChangelog => .ok s.latestChangelog?
  | .changelogOf group => .ok (s.changelogOf? group)
  | .entity id hidden => s.getEntityWith id hidden
  | .lookup x => s.lookup x
  | .anyEntity kind choice => s.randomEntity kind choice
  | .history id => s.history id
  | .expandedRelease id flags hidden => s.expandedRelease id flags hidden
  | .releasesForWork work => s.releasesForWork work
  | .filesForRelease release => s.filesForRelease release
  | .countEntities kind => .ok (s.countEntities kind)

end Biblio
