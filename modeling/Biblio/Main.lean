import Biblio.Calendar.Epoch
import Biblio.CommandLine.Run
import Biblio.Ident.Draw
import Biblio.Store.Snapshot
import Std.Time.DateTime.Timestamp

/-! The program: one command on a catalog that is kept in a file. -/

namespace Biblio.CommandLine

/-- The time of the clock. -/
def now : IO Instant := do
  let t ← Std.Time.Timestamp.now
  let d := t.toDurationSinceUnixEpoch
  match Instant.ofEpoch? d.second.val d.nano.val.toNat with
  | some t => return t
  | none => throw (IO.userError "the clock shows no time of the calendar")

/-- A source of identifiers that nobody drew before, at the time of the clock. -/
def newSource : IO Source := do
  let seed ← IO.getRandomBytes 32
  let digest := String.ofList (Sha256.digest seed.toList)
  let t ← now
  return { id := Uuid.draw digest, time := fun _ => t }

/-- The text of a file, if it can be read. -/
def textOfFile? (path : String) : IO (Option String) := do
  try return some (← IO.FS.readFile path)
  catch _ => return none

/-- The catalog at a place, if there is one; a file that is missing may be made. -/
def catalogAt? : Place → IO (Option Catalog)
  | .memory => return some .empty
  | .file path mayCreate => do
    try
      let _ ← IO.FS.Handle.mk path (if mayCreate then .append else .readWrite)
      return (Store.ofSnapshot? (← IO.FS.readFile path)).map Catalog.empty.withStore
    catch _ => return none

/-- Keeps a catalog at a place. -/
def keep (c : Catalog) : Place → IO Unit
  | .memory => return ()
  | .file path _ => IO.FS.writeFile path c.snapshot

/-- Prints what came of a command; answers the exit code. -/
def Outcome.print (o : Outcome) : IO UInt32 := do
  IO.print o.output
  match o.report? with
  | some line => IO.eprintln line
  | none => pure ()
  return UInt32.ofNat o.code

/-- Carries out an invocation; answers the exit code. -/
def Invocation.execute (i : Invocation) : IO UInt32 := do
  let configText ← match i.config with
    | some path => textOfFile? path
    | none => pure none
  match i.settings configText (← IO.getEnv Settings.databaseVariable) with
  | .error e => (Outcome.failed (.settings e)).print
  | .ok settings =>
    let place? := settings.database.place?
    let before ← match place? with
      | some place => catalogAt? place
      | none => pure none
    let (o, after) := i.run settings (← newSource) before
    match after, place? with
    | some c, some place => keep c place
    | _, _ => pure ()
    o.print

/-- Carries out what the arguments ask for; answers the exit code. -/
def execute (args : List String) : IO UInt32 := do
  match request? args with
  | some (.run i) => i.execute
  | some .version => IO.println versionLine; return 0
  | some .help => IO.println (String.intercalate "\n" helpLines); return 0
  | none =>
    IO.eprintln (String.intercalate "\n" helpLines)
    return UInt32.ofNat badUsageCode

end Biblio.CommandLine

/-- The program. -/
def main (args : List String) : IO UInt32 := Biblio.CommandLine.execute args
