import Biblio.Settings.Location
import Biblio.Toml.Reader

/-! The settings of a catalog.

    They are read from a TOML document, in which everything may be left out and unknown keys do not
    count; an environment variable can name another database. -/

namespace Biblio

/-- Why settings could not be read. -/
inductive SettingsError where
  | unreadable (path : String)
  | unparsable
  deriving DecidableEq, Repr

/-- The failure in words. -/
def SettingsError.message : SettingsError → String
  | unreadable path => "Failed to read config file " ++ path
  | unparsable => "Failed to parse catalog config"

/-- How a catalog is opened and read. -/
structure Settings where
  database : DatabaseLocation := .inMemory
  /-- How long a writer waits for another one, in milliseconds. -/
  busyTimeout : UInt64 := 5000
  /-- The greatest number of changelog entries that are read at once; 0 counts as 1. -/
  maxChangelogPage : UInt64 := 500
  /-- The editor that is created when the catalog is opened. -/
  defaultEditor : String := "admin"
  deriving DecidableEq, Repr

namespace Settings

/-- The name of the environment variable that names a database. -/
def databaseVariable : String := "BIBCATALOG_DB"

/-- The longest time that a writer can wait, in milliseconds. -/
def longestWait : UInt64 := 0x7FFFFFFF

/-- The number of changelog entries that are read at once. -/
def changelogPage (s : Settings) : Nat := max s.maxChangelogPage.toNat 1

/-- Settings as JSON. -/
def toJson (s : Settings) : Json :=
  .obj [("database", s.database.toJson), ("busy_timeout_ms", .ofInt s.busyTimeout.toNat),
    ("max_changelog_page", .ofInt s.maxChangelogPage.toNat),
    ("default_editor", .str s.defaultEditor)]

/-- A count from TOML. -/
def countOfToml? : Toml.Value → Option UInt64
  | .integer n => if 0 ≤ n then some (UInt64.ofNat n.toNat) else none
  | _ => none

/-- A text from TOML. -/
def textOfToml? : Toml.Value → Option String
  | .text s => some s
  | _ => none

/-- The entry under a key if it is well formed, or the default if there is none. -/
def entry {α : Type} (es : Toml.Entries) (key : String) (ofToml? : Toml.Value → Option α)
    (default : α) : Option α :=
  match es.lookup key with
  | none => some default
  | some v => ofToml? v

/-- Settings from the entries of a document. -/
def ofEntries? (es : Toml.Entries) : Option Settings := do
  let usual : Settings := {}
  return {
    database := ← entry es "database" DatabaseLocation.ofToml? usual.database
    busyTimeout := ← entry es "busy_timeout_ms" countOfToml? usual.busyTimeout
    maxChangelogPage := ← entry es "max_changelog_page" countOfToml? usual.maxChangelogPage
    defaultEditor := ← entry es "default_editor" textOfToml? usual.defaultEditor }

/-- Settings from a document. -/
def parse (text : String) : Except SettingsError Settings :=
  match (Toml.parse? text).bind ofEntries? with
  | some s => .ok s
  | none => .error .unparsable

/-- The settings, with the database that the environment names, if it names one. -/
def withVariable (environment : Option String) (s : Settings) : Settings :=
  match environment with
  | some value => { s with database := .ofVariable value }
  | none => s

/-- The settings in a file with this text; without a text the file cannot be read. -/
def load (path : String) (text? : Option String) (environment : Option String) :
    Except SettingsError Settings :=
  match text? with
  | none => .error (.unreadable path)
  | some text => (parse text).map (withVariable environment)

end Settings

end Biblio
