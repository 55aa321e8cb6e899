import Biblio.Catalog.Changelog
import Biblio.Catalog.Cursor
import Biblio.Catalog.Editors
import Biblio.Settings

/-! Catalogs that were opened.

    To open a catalog creates the editor of its settings, if there is none of that name. Several
    handles may belong to one catalog; each has settings of its own, of which the size of changelog
    pages is what reading depends on. -/

namespace Biblio

/-- A catalog as somebody opened it. -/
structure Handle where
  settings : Settings
  /-- The editor who is named in the settings. -/
  defaultEditor : EditorId
  deriving DecidableEq

namespace Handle

/-- Opens a catalog. -/
def openWith (settings : Settings) : Write Handle := do
  let e ← Store.ensureEditor settings.defaultEditor
  return { settings, defaultEditor := e.id }

/-- The greatest number of changelog entries on a page. -/
def page (h : Handle) : Nat := h.settings.changelogPage

/-- Pages have at least one entry. -/
theorem page_pos (h : Handle) : 0 < h.page := by
  simp only [page, Settings.changelogPage]; omega

/-- The first changelog entries from a number on: no more than `limit`, and no more than a page. -/
def readChangelog (h : Handle) (start : Int) (limit : Nat) (s : Store) : List ChangelogEntry :=
  s.readChangelog start (min limit h.page)

/-- A cursor in front of the changelog entry with this number. -/
def cursor (h : Handle) (start : Int) : Cursor := Cursor.start start h.page

/-- Moves a cursor on in the changelog as it is now. -/
def advance (h : Handle) (s : Store) (c : Cursor) : Option ChangelogEntry × Cursor :=
  c.next fun start limit => h.readChangelog start limit s

end Handle

end Biblio
