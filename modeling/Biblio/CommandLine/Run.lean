import Biblio.Catalog.Operation
import Biblio.Catalog.Views
import Biblio.CommandLine.Arguments

/-! Carrying out the commands of the command line.

    A command opens the catalog, which creates the default editor, and answers with what is to be
    printed. What it printed before a failure stays. -/

namespace Biblio.CommandLine

/-- The version of the program. -/
def version : String := "0.1.0"

/-- Why a command fails. -/
inductive Failure where
  | settings (e : SettingsError)
  /-- The catalog could not be opened. -/
  | opening (e : CatalogError)
  | catalog (e : CatalogError)
  | unknownKind (kind : String)
  /-- Writers are told to wait longer than they can. -/
  | waitTooLong
  deriving DecidableEq, Repr

/-- The failure in words. -/
def Failure.message : Failure → String
  | settings e => e.message
  | opening _ => "Failed to open catalog"
  | catalog e => e.message
  | unknownKind kind => "unknown identifier kind: " ++ kind
  | waitTooLong => "the wait is too long"

/-- The exit code of a failure. -/
def Failure.code : Failure → Nat
  | waitTooLong => 101
  | _ => 1

/-- What comes of a command: the lines to print and perhaps a failure behind them. -/
structure Outcome where
  lines : List String := []
  failure : Option Failure := none
  deriving DecidableEq, Repr

namespace Outcome

/-- A failure without anything printed. -/
def failed (f : Failure) : Outcome := { failure := some f }

/-- The same with lines printed before. -/
def after (lines : List String) (o : Outcome) : Outcome := { o with lines := lines ++ o.lines }

/-- What is printed. -/
def output (o : Outcome) : String := String.join (o.lines.map (· ++ "\n"))

/-- The exit code. -/
def code (o : Outcome) : Nat := (o.failure.map Failure.code).getD 0

/-- The line that reports the failure. -/
def report? (o : Outcome) : Option String := o.failure.map fun f => "Error: " ++ f.message

end Outcome

/-- The exit code of bad usage. -/
def badUsageCode : Nat := 2

/-- The line that states the version. -/
def versionLine : String := "bibcatalog " ++ version

/-- The lines that explain the usage. -/
def helpLines : List String :=
  ["Versioned bibliographic catalog admin tool",
   "",
   "Usage: bibcatalog [--config <CONFIG>] [--db <DB>] <COMMAND>",
   "",
   "Commands:",
   "  init       Create the database schema and default editor",
   "  changelog  Print changelog entries",
   "  show       Show the current state of an entity",
   "  history    Show accepted edits on an entity, newest first",
   "  editgroup  Show an editgroup and its edits",
   "  lookup     Find an entity by external id",
   "  editor     Show an editor, creating it if it does not exist",
   "  stats      Count live entities of each type"]

/-- The settings of an invocation: from its file or the usual ones, then the environment, then the
    database that is given as an option. -/
def Invocation.settings (i : Invocation) (configText environment : Option String) :
    Except SettingsError Settings := do
  let s ← match i.config with
    | some path => Settings.load path configText environment
    | none => pure (Settings.withVariable environment {})
  match i.database with
  | some path => return { s with database := .file path }
  | none => return s

/-! ### Lines -/

/-- A line across the page. -/
def rule : String := String.ofList (List.replicate 45 '━')

/-- A number with blanks behind it, six characters wide. -/
def seqColumn (n : Int) : String :=
  let cs := Text.decimalInt n
  String.ofList ('#' :: cs ++ List.replicate (6 - cs.length) ' ')

/-- A number as text. -/
def decimalText (n : Nat) : String := String.ofList (Text.decimal n)

/-- The line of a changelog entry and its editgroup. -/
def changelogLine (x : ChangelogEntry) (g : Editgroup) : String :=
  seqColumn x.seq ++ " " ++ x.acceptedAt.plainText ++ "  editgroup " ++ x.editgroup.text ++ "  "
    ++ decimalText g.edits.length ++ " edit(s)  " ++ g.description.getD ""

/-- The line of an accepted edit. -/
def historyLine (h : HistoryEntry) : String :=
  seqColumn h.changelog.seq ++ " " ++ h.changelog.acceptedAt.plainText ++ "  "
    ++ h.edit.action.text ++ "  editgroup " ++ h.editgroup.id.text

/-- The lines that count entities. -/
def statsLines (s : Store) : List String :=
  "📊 Live entities" :: rule ::
    (EntityKind.all.map fun k => "  " ++ k.name ++ " " ++ decimalText (s.countEntities k))
    ++ ["  changelog  " ++ match s.latestChangelog? with
        | some x => "#" ++ String.ofList (Text.decimalInt x.seq)
        | none => "(empty)"]

/-! ### Commands -/

/-- The outcome of a value that is printed on one go. -/
def printed (r : Except CatalogError Json) : Outcome :=
  match r with
  | .ok j => { lines := [j.pretty] }
  | .error e => .failed (.catalog e)

/-- The identifier of a text. -/
def identOf (kind : IdentKind) (raw : String) : Except CatalogError (Ident kind) :=
  match Ident.parse? kind raw with
  | some id => .ok id
  | none => .error (.invalidIdent raw)

/-- The lines of changelog entries, up to the first one whose editgroup cannot be read. -/
def changelogLines (s : Store) : List ChangelogEntry → Outcome
  | [] => {}
  | x :: xs => match s.getEditgroup x.editgroup with
    | .ok g => (changelogLines s xs).after [changelogLine x g]
    | .error e => .failed (.catalog e)

/-- The changelog entries from a number on. -/
def runChangelog (h : Handle) (start : Int) (limit : Nat) (s : Store) : Outcome :=
  match h.readChangelog start limit s with
  | [] =>
    { lines := ["(no changelog entries from #" ++ String.ofList (Text.decimalInt start) ++ ")"] }
  | xs => changelogLines s xs

/-- The history of an entity. -/
def runHistory (ident : String) (s : Store) : Outcome :=
  match identOf .entity ident with
  | .error e => .failed (.catalog e)
  | .ok id => match s.history id with
    | .error e => .failed (.catalog e)
    | .ok hs =>
      { lines := ("📜 " ++ decimalText hs.length ++ " accepted edit(s) on " ++ id.text) :: rule ::
          hs.map historyLine }

/-- An entity that is found by an external identifier. -/
def runLookup (kind value : String) (s : Store) : Outcome :=
  match ExternalIdKind.ofName? kind with
  | none => .failed (.unknownKind kind)
  | some k => printed ((s.lookup ⟨k, value⟩).map EntityView.toJson)

/-- An editor, who is created if there is none. -/
def runEditor (username : String) (src : Source) (c : Catalog) : Outcome × Catalog :=
  match c.editorNamed? username with
  | some e => ({ lines := [e.toJson.pretty] }, c)
  | none =>
    match (Operation.createEditor username).perform src c with
    | (.ok e, d) => ({ lines := ["✓ Created editor " ++ e.username, e.toJson.pretty] }, d)
    | (.error e, d) => (.failed (.catalog e), d)

/-- The version and the editor of the settings. -/
def runInit (h : Handle) (s : Store) : Outcome :=
  let outcome : Outcome := match s.getEditor h.defaultEditor with
    | .ok e => { lines := ["✓ Default editor: " ++ e.username ++ " (" ++ e.id.text ++ ")"] }
    | .error e => .failed (.catalog e)
  outcome.after ["✓ Catalog ready (version " ++ version ++ ")"]

/-- Carries out a command on a catalog that was opened. -/
def Command.run (h : Handle) (src : Source) (c : Catalog) : Command → Outcome × Catalog
  | .init => (runInit h c.toStore, c)
  | .changelog start limit => (runChangelog h start limit c.toStore, c)
  | .show ident hide =>
    (printed do
      let id ← identOf .entity ident
      return (← c.getEntityWith id (HideFlags.ofText hide)).toJson, c)
  | .history ident => (runHistory ident c.toStore, c)
  | .editgroup id => (printed do return (← c.getEditgroup (← identOf .editgroup id)).toJson, c)
  | .lookup kind value => (runLookup kind value c.toStore, c)
  | .editor username => runEditor username src c
  | .stats => ({ lines := statsLines c.toStore }, c)

/-- Opens a catalog, if there is one to open, and carries out a command. -/
def Invocation.run (i : Invocation) (settings : Settings) (src : Source)
    (catalog? : Option Catalog) : Outcome × Option Catalog :=
  match catalog? with
  | none => (.failed (.opening (.storage .cannotOpen)), none)
  | some c =>
    if Settings.longestWait < settings.busyTimeout then (.failed .waitTooLong, none)
    else
      match (Operation.openCatalog settings).perform src c with
      | (.error e, d) => (.failed (.opening e), some d)
      | (.ok h, d) =>
        let (o, d) := i.command.run h src d
        (o, some d)

end Biblio.CommandLine
