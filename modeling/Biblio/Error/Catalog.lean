import Biblio.Error.Field

/-! Why an operation on a catalog fails.

    Every cause is kept with the identifiers that belong to it; its words are in
    `CatalogError.message`. A failure is recoverable when the caller can mend it with other input or
    on a fresh base. -/

namespace Biblio

/-- The life of an editgroup. -/
inductive EditgroupStatus where
  | pending
  | accepted
  | abandoned
  deriving DecidableEq, Repr

namespace EditgroupStatus

/-- All statuses. -/
def all : List EditgroupStatus := [.pending, .accepted, .abandoned]

/-- The name of a status. -/
def name : EditgroupStatus → String
  | .pending => "open"
  | .accepted => "accepted"
  | .abandoned => "abandoned"

/-- The status of a name. -/
def ofName? (s : String) : Option EditgroupStatus := all.find? fun k => k.name == s

end EditgroupStatus

/-- Something that was looked for and is not there. -/
inductive Missing where
  | editor (id : EditorId)
  | editorNamed (username : String)
  | editgroup (id : EditgroupId)
  | revision (id : RevisionId)
  | identity (id : EntityId)
  /-- An identity that no accepted editgroup has made live. -/
  | unaccepted (id : EntityId)
  | edit (id : EditId)
  | changelogEntry (seq : Int)
  | changelogEntryOf (editgroup : EditgroupId)
  | release (id : EntityId)
  | anyActive (kind : EntityKind)
  | externalId (id : ExternalId)
  deriving DecidableEq, Repr

/-- Something that was deleted. -/
inductive Deleted where
  | identity (id : EntityId)
  /-- What an identity redirects to. -/
  | redirectOf (id target : EntityId)
  /-- What an identity was to redirect to. -/
  | redirectTarget (target : EntityId)
  deriving DecidableEq, Repr

/-- How an identity differs from the base of an edit. -/
inductive Staleness where
  | deleted
  | redirect (expected found : Option EntityId)
  | revision (expected found : Option RevisionId)
  deriving DecidableEq, Repr

/-- Why an identity may not redirect to another one. -/
inductive ChainFault where
  | toItself (id : EntityId)
  | targetNotLive (target : EntityId)
  | targetRedirects (target next : EntityId)
  | isTarget (id : EntityId)
  /-- A redirect that leads to a redirect. -/
  | twoHops (id target next : EntityId)
  deriving DecidableEq, Repr

/-- What the store does not let happen. -/
inductive Refusal where
  /-- A row refers to one that is not there. -/
  | danglingReference
  /-- A key or another unique value is there already. -/
  | duplicate
  /-- An identity points at a revision and redirects at once. -/
  | twoPointers
  /-- A stored value does not decode. -/
  | undecodable
  | unknownTable
  | cannotOpen
  deriving DecidableEq, Repr

/-- Why an operation fails. -/
inductive CatalogError where
  | notFound (what : Missing)
  | gone (what : Deleted)
  | validation (faults : List FieldFault)
  | editConflict (editgroup : EditgroupId) (ident : EntityId)
  | conflict (ident : EntityId) (how : Staleness)
  | notOpen (editgroup : EditgroupId) (status : EditgroupStatus)
  | redirectChain (fault : ChainFault)
  | invalidIdent (raw : String)
  | storage (refusal : Refusal)
  deriving DecidableEq, Repr

/-- What was looked for, in words. -/
def Missing.message : Missing → String
  | editor id => "editor " ++ id.text
  | editorNamed username => "editor '" ++ username ++ "'"
  | editgroup id => "editgroup " ++ id.text
  | revision id => "revision " ++ id.text
  | identity id => "identity " ++ id.text
  | unaccepted id => "identity " ++ id.text ++ " (not yet accepted)"
  | edit id => "edit " ++ id.text
  | changelogEntry seq => "changelog entry " ++ String.ofList (Text.decimalInt seq)
  | changelogEntryOf group => "changelog entry for " ++ group.text
  | release id => "release " ++ id.text
  | anyActive kind => "any active " ++ kind.name
  | externalId id => id.kind.name ++ " '" ++ id.value ++ "'"

/-- What was deleted, in words. -/
def Deleted.message : Deleted → String
  | identity id => "identity " ++ id.text
  | redirectOf id target => "identity " ++ id.text ++ " redirects to deleted " ++ target.text
  | redirectTarget target => "redirect target " ++ target.text

/-- An identifier in quotes, or the word for none. -/
def Ident.optionText {kind : IdentKind} : Option (Ident kind) → String
  | none => "None"
  | some id => "Some(\"" ++ id.text ++ "\")"

/-- The difference in words. -/
def Staleness.message : Staleness → String
  | deleted => "identity was deleted"
  | redirect expected found =>
    "stale base: expected redirect " ++ Ident.optionText expected ++ ", found "
      ++ Ident.optionText found
  | revision expected found =>
    "stale base: expected revision " ++ Ident.optionText expected ++ ", found "
      ++ Ident.optionText found

/-- The fault in words. -/
def ChainFault.message : ChainFault → String
  | toItself id => id.text ++ " cannot redirect to itself"
  | targetNotLive target => "redirect target " ++ target.text ++ " is not live"
  | targetRedirects target next =>
    "redirect target " ++ target.text ++ " itself redirects to " ++ next.text
  | isTarget id => id.text ++ " is itself a redirect target"
  | twoHops id target next => id.text ++ " -> " ++ target.text ++ " -> " ++ next.text

/-- The refusal in words. -/
def Refusal.message : Refusal → String
  | danglingReference => "a row refers to one that does not exist"
  | duplicate => "a unique value exists already"
  | twoPointers => "an identity has a revision and a redirect"
  | undecodable => "a stored value cannot be decoded"
  | unknownTable => "no such table"
  | cannotOpen => "the database cannot be opened"

/-- That something was not found, in words. -/
def notFoundMessage (what : String) : String := "not found: " ++ what

namespace CatalogError

/-- The failure in words. -/
def message : CatalogError → String
  | notFound what => notFoundMessage what.message
  | gone what => "gone (deleted): " ++ what.message
  | validation faults => "validation failed: " ++ "; ".intercalate (faults.map (·.text))
  | editConflict editgroup ident =>
    "edit conflict: identity " ++ ident.text ++ " already has a pending edit in editgroup "
      ++ editgroup.text
  | conflict ident how => "conflict on " ++ ident.text ++ ": " ++ how.message
  | notOpen editgroup status =>
    "editgroup " ++ editgroup.text ++ " is not open (status: " ++ status.name ++ ")"
  | redirectChain fault => "redirect chain: " ++ fault.message
  | invalidIdent raw => "invalid identifier: " ++ raw
  | storage refusal => "storage error: " ++ refusal.message

/-- The caller can mend it with other input or on a fresh base. -/
def isRecoverable : CatalogError → Bool
  | validation _ | editConflict .. | conflict .. | redirectChain _ => true
  | notFound _ | gone _ | notOpen .. | invalidIdent _ | storage _ => false

end CatalogError

end Biblio
