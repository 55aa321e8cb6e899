import Biblio.Text.Digits

/-! The arguments of the command line.

    A command stands behind the options that hold for all commands; those may stand behind it too,
    and there they count for more. An option has one value, given behind `=` or as the next
    argument, which must not look like an option then. Behind `--` nothing is an option. -/

namespace Biblio.CommandLine

/-- What is to be done with a catalog. -/
inductive Command where
  | init
  | changelog (start : Int) (limit : Nat)
  | show (ident hide : String)
  | history (ident : String)
  | editgroup (id : String)
  | lookup (kind value : String)
  | editor (username : String)
  | stats
  deriving DecidableEq, Repr

/-- A command with the options that hold for all commands. -/
structure Invocation where
  config : Option String
  database : Option String
  command : Command
  deriving DecidableEq, Repr

/-- What the arguments ask for. -/
inductive Request where
  | run (invocation : Invocation)
  | version
  | help
  deriving DecidableEq, Repr

/-- Options with their values, and the other arguments. -/
structure Given where
  options : List (String × String) := []
  positionals : List String := []
  deriving DecidableEq, Repr

/-- An option, and the values that it may have. -/
structure OptionRule where
  name : String
  accepts : String → Bool

/-- The options and other arguments that may be given at one place. -/
structure Grammar where
  options : List OptionRule
  hasVersion : Bool
  /-- How many arguments there may be that are no options. -/
  positionals : Nat

/-- What arguments come to at one place: something to show, or what was given, with the arguments
    that were not read. -/
inductive Reading where
  | version
  | help
  | given (g : Given) (rest : List String)

/-- Whether an argument looks like an option. -/
def looksLikeOption (arg : String) : Bool :=
  match arg.toList with
  | '-' :: _ :: _ => true
  | _ => false

/-- The name and the value of an option that is written in full. -/
def splitOption (cs : List Char) : String × Option String :=
  let name := String.ofList (cs.takeWhile (· != '='))
  match cs.dropWhile (· != '=') with
  | _ :: value => (name, some (String.ofList value))
  | [] => (name, none)

/-- An option with its value, if it may be given here and was not given yet. -/
def Given.addOption (g : Given) (grammar : Grammar) (name value : String) : Option Given :=
  if (g.options.lookup name).isSome then none
  else if grammar.options.any fun rule => rule.name == name && rule.accepts value then
    some { g with options := g.options ++ [(name, value)] }
  else none

/-- Reads arguments; `stopsAtWord` leaves the first one that is no option and all behind it.
    Bad usage is nothing. -/
def read (grammar : Grammar) (stopsAtWord : Bool) : Given → List String → Option Reading
  | g, [] => some (.given g [])
  | g, arg :: args =>
    match arg.toList with
    | ['-', '-'] =>
      if !stopsAtWord && g.positionals.length + args.length ≤ grammar.positionals then
        some (.given { g with positionals := g.positionals ++ args } [])
      else none
    | '-' :: '-' :: cs =>
      match splitOption cs, args with
      | (name, some value), args =>
        (g.addOption grammar name value).bind fun g => read grammar stopsAtWord g args
      | (name, none), args =>
        if name = "help" then some .help
        else if name = "version" ∧ grammar.hasVersion then some .version
        else match args with
          | [] => none
          | value :: args =>
            if looksLikeOption value then none
            else (g.addOption grammar name value).bind fun g => read grammar stopsAtWord g args
    | '-' :: 'h' :: _ => some .help
    | '-' :: 'V' :: _ => if grammar.hasVersion then some .version else none
    | '-' :: _ :: _ => none
    | _ =>
      if stopsAtWord then some (.given g (arg :: args))
      else if g.positionals.length < grammar.positionals then
        read grammar stopsAtWord { g with positionals := g.positionals ++ [arg] } args
      else none

/-! ### Commands -/

/-- The number of a text with an optional sign. -/
def integer? (s : String) : Option Int :=
  match s.toList with
  | '-' :: cs => (Text.ofDecimal? cs).map fun n => -n
  | '+' :: cs => (Text.ofDecimal? cs).map fun n => n
  | cs => (Text.ofDecimal? cs).map fun n => n

/-- An integer of the signed 64-bit range. -/
def signed64? (s : String) : Option Int :=
  (integer? s).bind fun n =>
    if -0x8000000000000000 ≤ n ∧ n < 0x8000000000000000 then some n else none

/-- A number of the unsigned 64-bit range, which must not have a minus sign. -/
def unsigned64? (s : String) : Option Nat :=
  if s.startsWith "-" then none
  else (integer? s).bind fun n => if n < 0x10000000000000000 then some n.toNat else none

/-- The options that hold for all commands; their values are paths and must not be empty. -/
def commonOptions : List OptionRule := ["config", "db"].map fun name => ⟨name, (!·.isEmpty)⟩

/-- The options and other arguments of the command with this name. -/
def grammar? : String → Option Grammar
  | "init" | "stats" => some ⟨commonOptions, false, 0⟩
  | "changelog" => some ⟨commonOptions ++
      [⟨"from", (signed64? · |>.isSome)⟩, ⟨"limit", (unsigned64? · |>.isSome)⟩], false, 0⟩
  | "show" => some ⟨commonOptions ++ [⟨"hide", fun _ => true⟩], false, 1⟩
  | "history" | "editgroup" | "editor" => some ⟨commonOptions, false, 1⟩
  | "lookup" => some ⟨commonOptions, false, 2⟩
  | _ => none

/-- The value of an option, or its default. -/
def Given.number {α : Type} (g : Given) (name : String) (parse? : String → Option α) (default : α) :
    Option α :=
  match g.options.lookup name with
  | none => some default
  | some s => parse? s

/-- The command of this name with what was given for it. -/
def Given.command? (g : Given) (name : String) : Option Command :=
  match name, g.positionals with
  | "init", [] => some .init
  | "stats", [] => some .stats
  | "changelog", [] => do
    return .changelog (← g.number "from" signed64? 1) (← g.number "limit" unsigned64? 20)
  | "show", [ident] => some (.show ident ((g.options.lookup "hide").getD ""))
  | "history", [ident] => some (.history ident)
  | "editgroup", [id] => some (.editgroup id)
  | "editor", [username] => some (.editor username)
  | "lookup", [kind, value] => some (.lookup kind value)
  | _, _ => none

/-- What stands in front of a command. -/
def rootGrammar : Grammar := ⟨commonOptions, true, 0⟩

/-- The value of an option that holds for all commands: the one behind the command counts. -/
def common (name : String) (before behind : Given) : Option String :=
  (behind.options.lookup name).or (before.options.lookup name)

/-- What the arguments behind the name of a command ask for. -/
def requestOf (before : Given) (name : String) (args : List String) : Option Request := do
  if name = "help" then
    match args with
    | [] => return .help
    | [topic] => if topic = "help" ∨ (grammar? topic).isSome then return .help else none
    | _ => none
  else
    match ← read (← grammar? name) false {} args with
    | .version => return .version
    | .help => return .help
    | .given g _ =>
      return .run {
        config := common "config" before g
        database := common "db" before g
        command := ← g.command? name }

/-- What arguments ask for; bad usage asks for nothing. -/
def request? (args : List String) : Option Request := do
  match ← read rootGrammar true {} args with
  | .version => return .version
  | .help => return .help
  | .given _ [] => none
  | .given before (name :: args) => requestOf before name args

end Biblio.CommandLine
