import SpikeMesh.Decimal.NumberText

set_option autoImplicit false

/-! # Arguments

What the arguments of the program ask for. Arguments are read from left to right: options, the
name of a command, and then the options and the one file name of this command. Options of the
whole program may stand before or after the name of the command, where the later place wins.
The first argument that cannot be understood, or that asks for help or the version, decides. -/

namespace SpikeMesh.CommandLine

/-! ## Invocations -/

/-- Whether output is coloured. -/
inductive ColourChoice
  /-- If errors go to a terminal. -/
  | auto
  | always
  | never
deriving DecidableEq, Repr

/-- The form of results and diagnostics. -/
inductive ReportFormat
  | text
  | json
deriving DecidableEq, Repr

/-- The choice as it is written on the command line. -/
def ColourChoice.text : ColourChoice → String
  | auto => "auto"
  | always => "always"
  | never => "never"

/-- The format as it is written on the command line. -/
def ReportFormat.name : ReportFormat → String
  | text => "text"
  | json => "json"

/-- The options of the whole program. -/
structure GlobalOptions where
  /-- Whether only results and errors are printed. -/
  quiet : Bool
  verbose : Bool
  colour : ColourChoice
  /-- The configuration file, or the directory that holds it. -/
  config : Option String
deriving DecidableEq, Repr

/-- What to map, and how. -/
structure MapOptions where
  network : String
  validate : Bool
  timings : Bool
  format : ReportFormat
deriving DecidableEq, Repr

/-- What to run, and how. -/
structure RunOptions where
  network : String
  /-- The milliseconds to run; until stopped if none. -/
  duration : Option Float
  provenance : Bool
  timings : Bool
  format : ReportFormat

/-- A command. -/
inductive Command
  /-- Check the configuration, and a network if there is one. -/
  | check (network : Option String)
  /-- Compile a network. -/
  | map (options : MapOptions)
  /-- Compile, load and run a network. -/
  | run (options : RunOptions)

/-- What the arguments ask for. -/
inductive Invocation
  | command (global : GlobalOptions) (command : Command)
  | version
  | help

/-! ## Options -/

/-- An option. -/
inductive Flag
  | quiet
  | verbose
  | colour
  | config
  | validate
  | timings
  | format
  | duration
  | provenance
  | help
  | version
deriving DecidableEq, Repr

namespace Flag

/-- The name of the option after two hyphens. -/
def long : Flag → String
  | quiet => "quiet"
  | verbose => "verbose"
  | colour => "color"
  | config => "config"
  | validate => "validate"
  | timings => "timings"
  | format => "format"
  | duration => "duration"
  | provenance => "provenance"
  | help => "help"
  | version => "version"

/-- The letter of the option after one hyphen. -/
def short? : Flag → Option Char
  | quiet => some 'q'
  | verbose => some 'v'
  | format => some 'f'
  | duration => some 'd'
  | help => some 'h'
  | version => some 'V'
  | colour | config | validate | timings | provenance => none

/-- Whether a value follows the option. -/
def takesValue : Flag → Bool
  | colour | config | format | duration => true
  | quiet | verbose | validate | timings | provenance | help | version => false

/-- The options that may stand everywhere. -/
def everywhere : List Flag := [quiet, verbose, colour, config, help]

/-- The options before the name of a command. -/
def ofProgram : List Flag := version :: everywhere

/-- The options after the name of the command `check`. -/
def ofCheck : List Flag := everywhere

/-- The options after the name of the command `map`. -/
def ofMap : List Flag := [validate, timings, format] ++ everywhere

/-- The options after the name of the command `run`. -/
def ofRun : List Flag := [duration, provenance, timings, format] ++ everywhere

end Flag

/-- Why arguments cannot be understood. -/
inductive UsageError
  | unknownOption (option : String)
  | missingValue (flag : Flag)
  | unexpectedValue (flag : Flag)
  | invalidValue (flag : Flag) (value : String)
  /-- An option is given twice in one place. -/
  | repeated (flag : Flag)
  | unexpectedWord (word : String)
  | unknownCommand (name : String)
  | missingCommand
  | missingNetwork
  | emptyNetwork
deriving DecidableEq, Repr

/-- The text of the error. -/
def UsageError.message : UsageError → String
  | unknownOption option => "unknown option '" ++ option ++ "'"
  | missingValue flag => "option '--" ++ flag.long ++ "' needs a value"
  | unexpectedValue flag => "option '--" ++ flag.long ++ "' takes no value"
  | invalidValue flag value => "invalid value '" ++ value ++ "' for '--" ++ flag.long ++ "'"
  | repeated flag => "option '--" ++ flag.long ++ "' is given twice"
  | unexpectedWord word => "unexpected argument '" ++ word ++ "'"
  | unknownCommand name => "unknown command '" ++ name ++ "'"
  | missingCommand => "a command is needed"
  | missingNetwork => "a network file is needed"
  | emptyNetwork => "the name of the network file is empty"

/-- What ends the reading of arguments early. -/
inductive Stop
  | usage (e : UsageError)
  | version
  | help
deriving DecidableEq, Repr

/-! ## The arguments of one place -/

/-- What is given before the name of a command, or after it. -/
structure Given where
  flags : List Flag := []
  colour : Option ColourChoice := none
  config : Option String := none
  format : Option ReportFormat := none
  duration : Option Float := none
  words : List String := []

namespace Given

/-- The arguments with one more option, which must be new. -/
def mark (g : Given) (flag : Flag) : Except Stop Given :=
  if g.flags.contains flag then .error (.usage (.repeated flag))
  else .ok { g with flags := flag :: g.flags }

/-- The arguments with one more option that takes no value. -/
def addFlag (g : Given) : Flag → Except Stop Given
  | .help => .error .help
  | .version => .error .version
  | flag => g.mark flag

/-- The arguments with one more option and its value. -/
def addValue (g : Given) (flag : Flag) (value : String) : Except Stop Given := do
  let g ← g.mark flag
  let refused : Except Stop Given := .error (.usage (.invalidValue flag value))
  match flag with
  | .colour =>
    match [ColourChoice.auto, .always, .never].find? fun c => c.text == value with
    | some c => return { g with colour := some c }
    | none => refused
  | .format =>
    match [ReportFormat.text, .json].find? fun f => f.name == value with
    | some f => return { g with format := some f }
    | none => refused
  | .duration =>
    match Decimal.read? value.toList with
    | some ms => return { g with duration := some ms }
    | none => refused
  | _ => return { g with config := some value }

/-- The arguments with the options of a group of letters, and the last one if its value is
    still to come. A value may follow its letter directly or after an equals sign. -/
def addLetters (g : Given) (allowed : List Flag) : List Char → Except Stop (Given × Option Flag)
  | [] => .ok (g, none)
  | c :: rest =>
    match allowed.find? fun f => f.short? == some c with
    | none => .error (.usage (.unknownOption (String.ofList ['-', c])))
    | some flag =>
      if !flag.takesValue then do (← g.addFlag flag).addLetters allowed rest
      else match rest with
      | [] => .ok (g, some flag)
      | '=' :: value | value => do return (← g.addValue flag (String.ofList value), none)

/-- The arguments with an option by its name, and the option if its value is still to come. -/
def addLong (g : Given) (allowed : List Flag) (name : List Char) :
    Except Stop (Given × Option Flag) :=
  let option := String.ofList (name.takeWhile (· != '='))
  let value := (name.dropWhile (· != '=')).tail?
  match allowed.find? fun f => f.long == option with
  | none => .error (.usage (.unknownOption ("--" ++ option)))
  | some flag =>
    match flag.takesValue, value with
    | true, some v => do return (← g.addValue flag (String.ofList v), none)
    | true, none => .ok (g, some flag)
    | false, some _ => .error (.usage (.unexpectedValue flag))
    | false, none => do return (← g.addFlag flag, none)

/-- The arguments with the one file name that a command takes. -/
def addWord (g : Given) (word : String) : Except Stop Given :=
  if !g.words.isEmpty then .error (.usage (.unexpectedWord word))
  else if word.isEmpty then .error (.usage .emptyNetwork)
  else .ok { g with words := [word] }

end Given

/-- Whether an argument is an option and no value. -/
def isOption (arg : String) : Bool :=
  match arg.toList with
  | '-' :: _ :: _ => true
  | _ => false

/-- Read arguments up to the name of a command, after an option whose value is to come. -/
def readProgram (g : Given) : Option Flag → List String →
    Except Stop (Given × String × List String)
  | some flag, [] => .error (.usage (.missingValue flag))
  | none, [] => .error (.usage .missingCommand)
  | some flag, arg :: rest =>
    if isOption arg then .error (.usage (.missingValue flag))
    else do readProgram (← g.addValue flag arg) none rest
  | none, arg :: rest =>
    match arg.toList with
    | ['-', '-'] => .error (.usage (.unexpectedWord (rest.headD "--")))
    | '-' :: '-' :: name => do
      let (g, open?) ← g.addLong Flag.ofProgram name
      readProgram g open? rest
    | '-' :: c :: letters => do
      let (g, open?) ← g.addLetters Flag.ofProgram (c :: letters)
      readProgram g open? rest
    | _ => .ok (g, arg, rest)

/-- Read the arguments of a command, after an option whose value is to come. -/
def readCommand (allowed : List Flag) (g : Given) : Option Flag → List String →
    Except Stop Given
  | some flag, [] => .error (.usage (.missingValue flag))
  | none, [] => .ok g
  | some flag, arg :: rest =>
    if isOption arg then .error (.usage (.missingValue flag))
    else do readCommand allowed (← g.addValue flag arg) none rest
  | none, arg :: rest =>
    match arg.toList with
    | ['-', '-'] => rest.foldlM Given.addWord g
    | '-' :: '-' :: name => do
      let (g, open?) ← g.addLong allowed name
      readCommand allowed g open? rest
    | '-' :: c :: letters => do
      let (g, open?) ← g.addLetters allowed (c :: letters)
      readCommand allowed g open? rest
    | _ => do readCommand allowed (← g.addWord arg) none rest

/-! ## All arguments -/

/-- The options of the program, from before and after the name of the command. -/
def globalOptions (before after : Given) : GlobalOptions where
  quiet := (before.flags ++ after.flags).contains .quiet
  verbose := (before.flags ++ after.flags).contains .verbose
  colour := (after.colour.or before.colour).getD .auto
  config := after.config.or before.config

/-- The file name given to a command that needs one. -/
def needNetwork (g : Given) : Except Stop String :=
  match g.words with
  | word :: _ => .ok word
  | [] => .error (.usage .missingNetwork)

/-- The names of the commands. -/
def commandNames : List String := ["check", "map", "run", "help"]

/-- A command by its name and its arguments. -/
def readNamed (before : Given) (name : String) (args : List String) :
    Except Stop Invocation := do
  match name with
  | "check" =>
    let g ← readCommand Flag.ofCheck {} none args
    return .command (globalOptions before g) (.check g.words.head?)
  | "map" =>
    let g ← readCommand Flag.ofMap {} none args
    return .command (globalOptions before g) (.map {
      network := ← needNetwork g
      validate := g.flags.contains .validate
      timings := g.flags.contains .timings
      format := g.format.getD .text })
  | "run" =>
    let g ← readCommand Flag.ofRun {} none args
    return .command (globalOptions before g) (.run {
      network := ← needNetwork g
      duration := g.duration
      provenance := g.flags.contains .provenance
      timings := g.flags.contains .timings
      format := g.format.getD .text })
  | "help" =>
    match args with
    | [] => throw .help
    | topic :: rest =>
      -- no command has commands of its own
      if !commandNames.contains topic then throw (.usage (.unknownCommand topic))
      else match rest with
      | [] => throw .help
      | other :: _ => throw (.usage (.unknownCommand other))
  | other => throw (.usage (.unknownCommand other))

/-- What all arguments ask for. -/
def readArguments (args : List String) : Except UsageError Invocation :=
  let read : Except Stop Invocation := do
    let (before, name, rest) ← readProgram {} none args
    readNamed before name rest
  match read with
  | .ok invocation => .ok invocation
  | .error .version => .ok .version
  | .error .help => .ok .help
  | .error (.usage e) => .error e

end SpikeMesh.CommandLine
