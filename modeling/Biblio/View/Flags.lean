import Biblio.Entity.Body
import Biblio.Text.Blank

/-! Which linked entities a reader of a release wants to see, and which fields not.

    Flags are given as names with commas between them. Blanks around a name do not count, and names
    without a meaning are passed over. -/

namespace Biblio

/-- The names in a list that is given as text. -/
def flagNames (s : String) : List String :=
  ((Text.splitOn ',' s.toList).map Text.trim).filterMap fun name =>
    if name.isEmpty then none else some (String.ofList name)

/-- The linked entities to show with a release. -/
structure ExpandFlags where
  work : Bool := false
  container : Bool := false
  creators : Bool := false
  files : Bool := false
  deriving DecidableEq, Repr

namespace ExpandFlags

/-- Nothing but the release. -/
def none : ExpandFlags := {}

/-- All linked entities. -/
def all : ExpandFlags := ⟨true, true, true, true⟩

/-- Whether nothing but the release is shown. -/
def isEmpty (f : ExpandFlags) : Bool := f == none

/-- The flags of these names; one of them stands for all. -/
def ofNames (names : List String) : ExpandFlags :=
  if names.contains "all" then all
  else
    { work := names.contains "work"
      container := names.contains "container"
      creators := names.contains "creators"
      files := names.contains "files" }

/-- The flags of a text. -/
def ofText (s : String) : ExpandFlags := ofNames (flagNames s)

end ExpandFlags

/-- The fields of a release to leave out. -/
structure HideFlags where
  abstracts : Bool := false
  refs : Bool := false
  contribs : Bool := false
  deriving DecidableEq, Repr

namespace HideFlags

/-- All fields stay. -/
def none : HideFlags := {}

/-- The flags of these names. -/
def ofNames (names : List String) : HideFlags where
  abstracts := names.contains "abstracts"
  refs := names.contains "refs"
  contribs := names.contains "contribs"

/-- The flags of a text. -/
def ofText (s : String) : HideFlags := ofNames (flagNames s)

/-- A release with the hidden lists emptied. -/
def applyRelease (f : HideFlags) (r : Release) : Release :=
  { r with
    abstracts := if f.abstracts then [] else r.abstracts
    refs := if f.refs then [] else r.refs
    contribs := if f.contribs then [] else r.contribs }

/-- A body with the hidden fields emptied; only releases have any. -/
def apply (f : HideFlags) : EntityBody → EntityBody
  | .release r => .release (f.applyRelease r)
  | b => b

/-- Without flags a body stays as it is. -/
@[simp] theorem apply_none (b : EntityBody) : none.apply b = b := by cases b <;> rfl

end HideFlags

end Biblio
