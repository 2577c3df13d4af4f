import SpikeMesh.Mapping.Compile
import SpikeMesh.Run.Duration
import SpikeMesh.Run.Generation

set_option autoImplicit false

/-! # Running graphs on a board

A simulator compiles a graph, loads the mapping onto a board, starts the application and reads
its provenance. What an earlier run has left on the board is stopped first: the routing tables
of the mesh are cleared and the application is halted. A run that fails leaves the simulator in
the phase that it has reached, so that whatever is on the board can still be stopped. -/

namespace SpikeMesh

/-! ## State -/

/-- How far the latest run has come. -/
inductive Phase
  /-- There is no mapping. -/
  | idle
  | mapped
  /-- The board holds data, or may hold some. -/
  | loaded
  | running
  | stopped
deriving DecidableEq, Repr

namespace Phase

/-- The phase in reports. -/
def text : Phase → String
  | idle => "Idle"
  | mapped => "Mapped"
  | loaded => "Loaded"
  | running => "Running"
  | stopped => "Stopped"

/-- Whether the board may hold something of the run. -/
def holdsTables : Phase → Bool
  | loaded | running => true
  | idle | mapped | stopped => false

end Phase

/-- A board, and what was compiled for it last. -/
structure Simulator where
  config : Config
  board : Board := {}
  phase : Phase := .idle
  /-- The fabric of the latest run with the virtual chips attached to it. -/
  fabric : Fabric := .empty
  mapping : Option Mapping := none
  targets : ExecutableTargets := .empty
  timeSteps : Option UInt64 := none

/-- The stages of an execution. -/
inductive ExecutionStage
  | generate
  | load
  | run
  | provenance
deriving DecidableEq, Repr

/-- The stage in reports. -/
def ExecutionStage.text : ExecutionStage → String
  | generate => "generate"
  | load => "load"
  | run => "run"
  | provenance => "provenance"

/-- What a run has done. -/
structure RunSummary where
  fingerprint : ContentHash
  timeSteps : Option UInt64
  slices : Nat
  chipsUsed : Nat
  routingEntries : Nat
  images : Nat
  provenance : List ProvenanceItem
  /-- The stages of the compilation whose times were taken, if times were asked for. -/
  mappingStages : Option (List Stage)
  /-- The stages of the execution whose times were taken, if times were asked for. -/
  executionStages : Option (List ExecutionStage)

namespace Config

/-- Whether compiled data is loaded and started. -/
def startsApplication (c : Config) : Bool := c.execution.load && c.execution.run

/-- Whether provenance is read after a run. -/
def readsProvenance (c : Config) : Bool := c.startsApplication && c.reports.provenance

/-- The stages that an execution goes through. -/
def executionStages (c : Config) : List ExecutionStage :=
  (if c.execution.load then [.generate, .load] else [])
    ++ (if c.startsApplication then [.run] else [])
    ++ (if c.readsProvenance then [.provenance] else [])

/-- Whether a finding of a stage is reported: notes only if reports are enabled. -/
def reportsFinding (c : Config) (d : Diagnostic) : Bool :=
  c.reports.enabled || d.severity != .note

end Config

namespace Simulator

/-! ## Actions on the board -/

/-- An action that may fail, and leaves the simulator in some state in any case. -/
abbrev Action (α : Type) := ExceptT PipelineError (StateM Simulator) α

/-- Use the board. -/
def onBoard {α : Type} (use : Board → Except PipelineError α × Board) : Action α := fun s =>
  let (result, after) := use s.board
  (result, { s with board := after })

/-- An error of the board as one of the run. -/
def blame {α : Type} (operation : BoardOperation) :
    Except BoardError α → Except PipelineError α
  | .ok a => .ok a
  | .error e => .error (.boardFailure operation.text e)

/-- Make a request to the board. -/
def submit (r : BoardRequest) : Action Unit :=
  onBoard fun b => ((b.submit r).1 |> blame r.operation, (b.submit r).2)

/-- Enter a phase. -/
def enter (phase : Phase) : Action Unit := modify fun s => { s with phase := phase }

/-! ## Stopping -/

/-- What is requested in order to stop: the tables of the mesh are cleared, then the
    application is halted. -/
def stopRequests (s : Simulator) : List BoardRequest :=
  let tables := match s.mapping with
    | some m => m.routingTables.chipsWithEntries.filter fun c => !s.fabric.isVirtual c
    | none => []
  tables.map .clearTable ++ [.stop s.config.machine.appId]

/-- Stop what is loaded, if anything is. -/
def stop : Action Unit := do
  let s ← get
  if s.phase.holdsTables then
    s.stopRequests.forM submit
    enter .stopped

/-! ## Executing a mapping -/

/-- What is requested in order to load a mapping whose data is on the board: tables,
    executables, and tags if there are any. -/
def loadRequests (s : Simulator) (m : Mapping) : List BoardRequest :=
  let tables := m.routingTables.toList.filter fun e => !e.2.isEmpty && !s.fabric.isVirtual e.1
  (tables.map fun e => .loadTable e.1 e.2)
    ++ (s.targets.toList.map fun e => .loadExecutable e.1 e.2)
    ++ (if m.tags.isEmpty then [] else [.loadTags m.tags])

/-- Generate the data of a mapping and load the mapping. -/
def load (g : ApplicationGraph) (m : Mapping) : Action Unit := do
  enter .loaded
  let s ← get
  discard (onBoard fun b => b.generateAll m g s.fabric)
  (s.loadRequests m).forM submit

/-- Start the application. -/
def start : Action Unit := do
  let s ← get
  submit (.start s.config.machine.appId s.timeSteps)
  enter .running

/-- Read the provenance of all executables. -/
def readProvenance : Action (List ProvenanceItem) := do
  let s ← get
  let groups ← s.targets.toList.mapM fun (image, cores) =>
    onBoard fun b =>
      let (result, after) := b.readProvenance image cores
      (blame .readProvenance result, after)
  return groups.flatten

/-- Load and start a mapping as far as the configuration says. -/
def execute (g : ApplicationGraph) (m : Mapping) : Action (List ProvenanceItem) := do
  let s ← get
  if s.config.execution.load then load g m
  if s.config.startsApplication then start
  if s.config.readsProvenance then readProvenance else return []

/-! ## Running -/

/-- The outcome of a run: the simulator as it is left, what was found, and the summary or the
    error. -/
structure RunOutcome where
  simulator : Simulator
  findings : List Diagnostic
  result : Except PipelineError RunSummary

/-- The warning that a run has no end. -/
def unboundedWarning : Diagnostic where
  severity := .warning
  code := .unboundedRun
  message := "run length is unbounded"
  subject := none
  notes := []
  help := ["call stop to halt the application and clear its routing tables"]

/-- The number of steps of a run. A unit that records spikes needs an end. -/
def checkedSteps (s : Simulator) (g : ApplicationGraph) (length : RunLength) :
    Except PipelineError (Option UInt64) := do
  let steps ← length.timeSteps s.config.machine.timeStepUs
  match length, g.units.find? fun u => u.recordSpikes with
  | .unbounded, some u =>
    throw (.invalidTiming ("unit '" ++ u.label
      ++ "' records spikes, which needs a bounded run length"))
  | _, _ => return steps

/-- The simulator without a mapping; the board stays as it is. -/
def reset (s : Simulator) : Simulator := { config := s.config, board := s.board }

/-- The simulator with a mapping that is not loaded yet. -/
def mapped (s : Simulator) (f : Fabric) (m : Mapping) (targets : ExecutableTargets)
    (timeSteps : Option UInt64) : Simulator :=
  { config := s.config, board := s.board, phase := .mapped, fabric := f, mapping := some m,
    targets := targets, timeSteps := timeSteps }

/-- The summary of a run of a mapping. -/
def summary (s : Simulator) (m : Mapping) (provenance : List ProvenanceItem) : RunSummary where
  fingerprint := m.fingerprint
  timeSteps := s.timeSteps
  slices := m.placements.size
  chipsUsed := m.placements.chips.length
  routingEntries := m.routingTables.totalEntries
  images := s.targets.size
  provenance := provenance
  mappingStages := m.timedStages
  executionStages := if s.config.reports.timings then some s.config.executionStages else none

/-- A compiled graph with the cores of its executables. -/
def compileTargets (s : Simulator) (g : ApplicationGraph) (f : Fabric) :
    Compilation × Except PipelineError (Mapping × ExecutableTargets) :=
  let c := compile s.config g f
  (c, do
    let m ← c.result
    return (m, ← m.targets g c.fabric))

/-- Run a graph when nothing is loaded. -/
def runFresh (s : Simulator) (g : ApplicationGraph) (timeSteps : Option UInt64) : RunOutcome :=
  match Fabric.ofMachine s.config.machine with
  | .error e => ⟨s, [], .error e⟩
  | .ok f =>
    let (c, compiled) := s.compileTargets g f
    let findings := c.findings.filter s.config.reportsFinding
    match compiled with
    | .error e => ⟨s, findings, .error e⟩
    | .ok (m, targets) =>
      let ready := s.mapped c.fabric m targets timeSteps
      let (provenance, after) := execute g m ready
      ⟨after, findings, provenance.map (after.summary m)⟩

/-- Compile a graph, load it and run it. The length is checked before anything else is done,
    and what is still loaded is stopped next. -/
def run (s : Simulator) (g : ApplicationGraph) (length : RunLength) : RunOutcome :=
  match s.checkedSteps g length with
  | .error e => ⟨s, [], .error e⟩
  | .ok steps =>
    let warnings := if length.isUnbounded then [unboundedWarning] else []
    match stop s with
    | (.error e, after) => ⟨after, warnings, .error e⟩
    | (.ok (), after) =>
      let outcome := after.reset.runFresh g steps
      { outcome with findings := warnings ++ outcome.findings }

end Simulator

end SpikeMesh
