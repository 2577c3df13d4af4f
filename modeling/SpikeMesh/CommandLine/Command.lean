import SpikeMesh.CommandLine.Arguments
import SpikeMesh.CommandLine.Files
import SpikeMesh.CommandLine.Report
import SpikeMesh.Config.Text
import SpikeMesh.Diagnostic.Text
import SpikeMesh.Network.Text

set_option autoImplicit false

/-! # Commands

Checking, mapping and running a network from the command line. Results go to the output, all
else to the error output. A command that fails prints its error last and has the exit code 1;
arguments that cannot be understood have the code 2. -/

namespace SpikeMesh.CommandLine

/-- What a program leaves behind: its exit code and the lines of its two outputs. -/
structure Outcome where
  exitCode : Nat
  output : Array String
  errors : Array String

/-- The lines printed so far. -/
structure Printed where
  output : Array String := #[]
  errors : Array String := #[]

/-- Where a command runs: the files, whether errors go to a terminal, and the time that stages
    take. -/
structure Environment (m : Type → Type) where
  files : FileAccess m
  errorsToTerminal : Bool
  clock : StageClock

/-- A command under way, which may end with an error text. -/
abbrev Session (m : Type → Type) (α : Type) := ExceptT String (StateT Printed m) α

variable {m : Type → Type} [Monad m]

/-! ## Printing -/

/-- Print lines of the result. -/
def print (lines : List String) : Session m Unit :=
  modify fun p => { p with output := p.output ++ lines.toArray }

/-- Print lines to the error output. -/
def printError (lines : List String) : Session m Unit :=
  modify fun p => { p with errors := p.errors ++ lines.toArray }

/-- Print lines to the error output unless the program is to be quiet. -/
def tell (global : GlobalOptions) (lines : List String) : Session m Unit :=
  if global.quiet then return else printError lines

/-- The result, or the text of its error as the end of the command. -/
def orFail {ε α : Type} (message : ε → String) : Except ε α → Session m α
  | .ok a => pure a
  | .error e => throw (message e)

/-- Whether a program prints colours. -/
def inColour (env : Environment m) (global : GlobalOptions) : Bool :=
  match global.colour with
  | .auto => env.errorsToTerminal
  | .always => true
  | .never => false

/-- The lines of diagnostics as text: each with an empty line after it, and their numbers. -/
def diagnosticLines (colour quiet : Bool) (ds : List Diagnostic) : List String :=
  let shown := ds.filter fun d => !quiet || d.severity == .error
  let count (s : Severity) := Text.natural (ds.countP fun d => d.severity == s)
  (shown.map fun d => d.render colour)
    ++ (if quiet then []
      else ["   Result: " ++ count .error ++ " error(s), " ++ count .warning ++ " warning(s)"])

/-- Print diagnostics, if there are any. -/
def reportDiagnostics (env : Environment m) (global : GlobalOptions) (format : ReportFormat)
    (ds : List Diagnostic) : Session m Unit :=
  if ds.isEmpty then return
  else match format with
  | .text => printError (diagnosticLines (inColour env global) global.quiet ds)
  | .json => printError [Json.indented (.ofList Diagnostic.toDatum ds)]

/-! ## Reading files -/

/-- Why a configuration cannot be loaded. -/
def unreadConfig (e : ReadError) : String := "failed to read configuration: " ++ e.message

/-- The configuration that a text holds. -/
def configOf (text : String) : Session m Config := orFail ConfigError.message (Config.ofToml text)

/-- The configuration in a directory. -/
def loadConfigIn (env : Environment m) (directory : String) : Session m Config := do
  let text ← orFail unreadConfig (← env.files.readText (joinPath directory Config.fileName))
  configOf text

/-- The nearest of some directories that holds a configuration. -/
def findProject? (env : Environment m) : List String → m (Option String)
  | [] => return none
  | directory :: rest => do
    if ← env.files.isFile (joinPath directory Config.fileName) then return some directory
    else findProject? env rest

/-- The configuration named by an option, or else that of the nearest directory that has one,
    or else the standard one unless one is required. -/
def loadConfig (env : Environment m) (global : GlobalOptions) (isRequired : Bool) :
    Session m Config :=
  match global.config with
  | some path => do
    if ← env.files.isFile path then
      configOf (← orFail ReadError.message (← env.files.readText path))
    else loadConfigIn env path
  | none => do
    let current ← env.files.currentDirectory
    match ← (findProject? env (ancestors current) : m (Option String)) with
    | some directory => loadConfigIn env directory
    | none =>
      if isRequired then
        throw ("could not find " ++ Config.fileName ++ " in " ++ current
          ++ " or any parent directory")
      else return {}

/-- The graph of a network file. -/
def loadGraph (env : Environment m) (path : String) : Session m ApplicationGraph := do
  let text ← orFail (fun e => "failed to read " ++ path ++ ": " ++ ReadError.message e)
    (← env.files.readText path)
  match NetworkFile.ofToml? text with
  | none => throw ("invalid network " ++ path ++ ": TOML parse error")
  | some network => orFail NetworkError.message network.toGraph

/-! ## The commands -/

/-- Check a configuration and a network. -/
def check (env : Environment m) (global : GlobalOptions) (network : Option String) :
    Session m Nat := do
  let config ← loadConfig env global true
  let fabric ← orFail PipelineError.message (Fabric.ofMachine config.machine)
  tell global (configLines config fabric)
  match network with
  | none => pure ()
  | some path => do
    let g ← loadGraph env path
    tell global [networkLine g]
  tell global ["        Ok"]
  return 0

/-- Print the times of stages, if they were taken. -/
def reportTimes (env : Environment m) (global : GlobalOptions) (stages : Option (List String)) :
    Session m Unit :=
  match stages with
  | some stages => tell global (timeLines env.clock stages)
  | none => pure ()

/-- Compile a network and print the mapping. -/
def map (env : Environment m) (global : GlobalOptions) (options : MapOptions) :
    Session m Nat := do
  let project ← loadConfig env global false
  let config := { project with
    mapping.validateRoutes := project.mapping.validateRoutes || options.validate
    reports.timings := project.reports.timings || options.timings }
  let g ← loadGraph env options.network
  let fabric ← orFail PipelineError.message (Fabric.ofMachine config.machine)
  let compiled := compile config g fabric
  reportDiagnostics env global options.format (compiled.findings.filter config.reportsFinding)
  let mapping ← orFail PipelineError.message compiled.result
  match options.format with
  | .json => print [Json.indented mapping.toDatum]
  | .text => print (mappingLines g mapping)
  reportTimes env global (mapping.timedStages.map fun stages => stages.map Stage.text)
  return 0

/-- Halt what a simulator has started. -/
def halt (simulator : Simulator) : Session m Unit :=
  orFail PipelineError.message (Simulator.stop simulator).1

/-- Print why a run failed, and halt it. -/
def reportFailure (simulator : Simulator) (e : PipelineError) : Session m Nat := do
  printError ["error: " ++ e.message]
  if e.isRetryable then
    printError ["   = help: the board did not respond; the run may be retried"]
  halt simulator
  return 1

/-- Print the summary of a run, and halt it. -/
def reportSummary (env : Environment m) (global : GlobalOptions) (format : ReportFormat)
    (simulator : Simulator) (summary : RunSummary) : Session m Nat := do
  match format with
  | .json => print [Json.indented (summaryDatum env.clock summary)]
  | .text => print (summaryLines summary)
  reportTimes env global (summary.mappingStages.map fun stages => stages.map Stage.text)
  reportTimes env global
    (summary.executionStages.map fun stages => stages.map ExecutionStage.text)
  halt simulator
  tell global ["   Stopped"]
  return 0

/-- Compile a network, load it onto a board in memory, run it and halt it. -/
def run (env : Environment m) (global : GlobalOptions) (options : RunOptions) :
    Session m Nat := do
  let project ← loadConfig env global false
  if !project.machine.virtualBoard then
    throw ("no board transport is available from the command line; "
      ++ "set `machine.virtual_board = true`")
  let config := { project with
    reports.provenance := project.reports.provenance || options.provenance
    reports.timings := project.reports.timings || options.timings }
  let g ← loadGraph env options.network
  let length := match options.duration with
    | some ms => RunLength.bounded ms
    | none => .unbounded
  tell global ["   Running " ++ options.network ++ " for " ++ length.description]
  let outcome := Simulator.run { config := config } g length
  reportDiagnostics env global options.format outcome.findings
  match outcome.result with
  | .ok summary => reportSummary env global options.format outcome.simulator summary
  | .error e => reportFailure outcome.simulator e

/-- A command with the options of the program. -/
def Command.session (env : Environment m) (global : GlobalOptions) : Command → Session m Nat
  | .check network => CommandLine.check env global network
  | .map options => CommandLine.map env global options
  | .run options => CommandLine.run env global options

/-! ## The program -/

/-- The line that names the program and its version. -/
def versionLine : String := "tessera 0.1.0"

/-- How the program is used. -/
def usageLines : List String := [
  "Usage: tessera [OPTIONS] <COMMAND>",
  "",
  "Commands:",
  "  check [NETWORK]  Check the configuration, and a network if there is one",
  "  map <NETWORK>    Compile a network and print the result",
  "  run <NETWORK>    Compile, load and run a network on the virtual board",
  "",
  "Options:",
  "  -q, --quiet                      Print results and errors only",
  "  -v, --verbose                    Print more",
  "      --color <auto|always|never>  Whether to colour diagnostics",
  "      --config <PATH>              The configuration file or its directory",
  "      --validate                   Check the routing tables (map)",
  "      --timings                    Print the time of each stage (map, run)",
  "  -f, --format <text|json>         The form of the result (map, run)",
  "  -d, --duration <MS>              The run length (run)",
  "      --provenance                 Read provenance after the run (run)",
  "  -h, --help                       Print this text",
  "  -V, --version                    Print the version"]

/-- Carry out a command. -/
def runCommand (env : Environment m) (global : GlobalOptions) (c : Command) : m Outcome := do
  let (result, printed) ← (c.session env global).run.run {}
  match result with
  | .ok code => return ⟨code, printed.output, printed.errors⟩
  | .error e => return ⟨1, printed.output, printed.errors.push ("error: " ++ e)⟩

/-- Do what the arguments ask for. -/
def runProgram (env : Environment m) (args : List String) : m Outcome :=
  match readArguments args with
  | .ok (.command global c) => runCommand env global c
  | .ok .version => return ⟨0, #[versionLine], #[]⟩
  | .ok .help => return ⟨0, usageLines.toArray, #[]⟩
  | .error e => return ⟨2, #[], #["error: " ++ e.message]⟩

end SpikeMesh.CommandLine
