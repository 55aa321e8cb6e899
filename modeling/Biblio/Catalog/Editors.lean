import Biblio.Catalog.Records
import Biblio.Entity.Validation
import Biblio.Store.Write

/-! Editors and the editgroups they work on. -/

namespace Biblio.Store

/-- A name that an account can have and none has. -/
def checkUsername (username : String) (s : Store) : Except CatalogError Unit :=
  match FieldFault.ofUsername? username with
  | some fault => .error (.validation [fault])
  | none =>
    if (s.editorNamed? username).isSome then
      .error (.validation [⟨"editor", "username", .usernameTaken username⟩])
    else .ok ()

/-- Creates an editor. -/
def createEditor (username : String) (isAdmin isBot : Bool) : Write Editor := do
  look (checkUsername username)
  let e : Editor := {
    id := ← drawId .editor
    username, isAdmin, isBot
    activeEditgroup := none
    createdAt := ← drawTime }
  insertEditor e
  return e

/-- The editor with this name; one with all rights is created if there is none. -/
def ensureEditor (username : String) : Write Editor := do
  match ← look fun s => .ok (s.editorNamed? username) with
  | some e => return e
  | none => createEditor username true false

/-- Creates an editgroup of an editor. -/
def createEditgroup (editor : EditorId) (description : Option String) (extra : Extra) :
    Write EditgroupId := do
  let _ ← look (getEditor editor)
  let id ← drawId .editgroup
  insertEditgroup {
    id, editor
    status := .pending
    description
    extra := if extra.isEmpty then none else some extra.toJson.text
    createdAt := ← drawTime
    closedAt := none }
  return id

/-- The editgroup that an editor is working on, if it is open. -/
def openEditgroupOf (editor : Editor) (s : Store) : Except CatalogError (Option EditgroupId) :=
  match editor.activeEditgroup with
  | none => .ok none
  | some g => do
    let header ← s.getEditgroupHeader g
    return if header.status = .pending then some g else none

/-- The open editgroup that an editor is working on; one is created if there is none. -/
def activeEditgroup (editor : EditorId) : Write EditgroupId := do
  let e ← look (getEditor editor)
  match ← look (openEditgroupOf e) with
  | some g => return g
  | none =>
    let g ← createEditgroup editor none .empty
    setActiveEditgroup editor g
    return g

/-- Closes an open editgroup and changes nothing else. -/
def abandon (id : EditgroupId) : Write Unit := do
  let _ ← look (requireOpen id)
  closeEditgroup id .abandoned (← drawTime)

end Biblio.Store
