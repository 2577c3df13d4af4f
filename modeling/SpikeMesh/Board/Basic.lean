import SpikeMesh.Routing.Table
import SpikeMesh.Run.Targets

set_option autoImplicit false

/-! # The board

A board kept in memory, onto which a mapping is loaded and on which it runs. It takes one
request after the other and records each of them. A request fails if a fault was injected into
its operation or if the state of the board forbids it; a failed request changes nothing else. Boards
of another kind are not modelled. -/

namespace SpikeMesh

/-! ## Requests -/

/-- What a board can be asked to do. -/
inductive BoardOperation
  | loadData
  | loadTable
  | loadExecutable
  | loadTags
  | start
  | stop
  | readProvenance
  | clearTable
deriving DecidableEq, Repr

namespace BoardOperation

/-- The operation in messages. -/
def text : BoardOperation → String
  | loadData => "generate_and_load"
  | loadTable => "load_routing_table"
  | loadExecutable => "load_executable"
  | loadTags => "load_tags"
  | start => "start_execution"
  | stop => "stop"
  | readProvenance => "retrieve_provenance"
  | clearTable => "clear_routing_table"

/-- All operations. -/
def all : List BoardOperation :=
  [loadData, loadTable, loadExecutable, loadTags, start, stop, readProvenance, clearTable]

/-- The operation that a text denotes, if there is one. -/
def ofText? (s : String) : Option BoardOperation := all.find? fun op => op.text == s

end BoardOperation

/-- The data of a slice, for the core on which it runs. -/
structure LoadJob where
  slice : SliceId
  location : Location
  image : String
  /-- The initial state of the atoms of the slice. -/
  state : List UInt8
deriving DecidableEq, Repr

/-- A request to a board. -/
inductive BoardRequest
  | loadData (job : LoadJob)
  /-- Replace the routing table of a chip. -/
  | loadTable (chip : ChipCoord) (table : RoutingTable)
  | loadExecutable (image : String) (cores : CoreSet)
  | loadTags (tags : TagAllocations)
  /-- Start an application for some time steps, or until it is stopped. -/
  | start (appId : UInt32) (timeSteps : Option UInt64)
  | stop (appId : UInt32)
  | readProvenance (image : String) (cores : CoreSet)
  | clearTable (chip : ChipCoord)

/-- The operation that a request is for. -/
def BoardRequest.operation : BoardRequest → BoardOperation
  | loadData _ => .loadData
  | loadTable _ _ => .loadTable
  | loadExecutable _ _ => .loadExecutable
  | loadTags _ => .loadTags
  | start _ _ => .start
  | stop _ => .stop
  | readProvenance _ _ => .readProvenance
  | clearTable _ => .clearTable

/-- The operations of requests in their order, equal neighbours joined with their number. -/
def BoardRequest.runs : List BoardRequest → List (BoardOperation × Nat)
  | [] => []
  | r :: rest =>
    match runs rest with
    | [] => [(r.operation, 1)]
    | (op, n) :: more =>
      if r.operation = op then (op, n + 1) :: more else (r.operation, 1) :: (op, n) :: more

/-! ## State -/

/-- A failure injected into an operation. -/
inductive Fault
  | timeout (milliseconds : UInt64)
  | rejected (reason : String)
deriving DecidableEq, Repr

/-- The error of a request that meets a fault. -/
def Fault.error (operation : BoardOperation) : Fault → BoardError
  | timeout ms => .timeout operation.text ms
  | rejected reason => .rejected reason

/-- A core that holds data. -/
structure LoadedCore where
  slice : SliceId
  image : String
  stateBytes : Nat
deriving DecidableEq, Repr

/-- A started application. -/
structure RunningApplication where
  appId : UInt32
  /-- The steps to run; none until it is stopped. -/
  timeSteps : Option UInt64
deriving DecidableEq, Repr

/-- A value that a core reports after a run. -/
structure ProvenanceItem where
  location : Location
  image : String
  name : String
  value : UInt64
deriving DecidableEq, Repr

/-- The state of a board. -/
structure Board where
  cores : Std.ExtTreeMap Location LoadedCore := ∅
  executables : Std.ExtTreeMap String CoreSet := ∅
  tables : Std.ExtTreeMap ChipCoord RoutingTable := ∅
  tags : TagAllocations := .empty
  running : Option RunningApplication := none
  /-- The time steps that the last started application has run. -/
  stepsCompleted : UInt64 := 0
  /-- The fault of each operation, if one was injected. -/
  faults : BoardOperation → Option Fault := fun _ => none
  /-- The cores that refuse data. -/
  failingCores : CoreSet := ∅
  /-- The chips whose tables were cleared, in the order of clearing. -/
  cleared : List ChipCoord := []
  /-- All requests in their order. -/
  requests : List BoardRequest := []

namespace Board

/-- The name of this kind of board. -/
def name : String := "virtual-board"

/-! ## Faults -/

/-- Make every later request for an operation fail. -/
def inject (b : Board) (operation : BoardOperation) (fault : Fault) : Board :=
  { b with faults := fun op => if op = operation then some fault else b.faults op }

/-- Make a core refuse its data. -/
def failLoadAt (b : Board) (l : Location) : Board :=
  { b with failingCores := b.failingCores.insert l }

/-- Take all faults back. -/
def clearFaults (b : Board) : Board := { b with faults := fun _ => none, failingCores := ∅ }

/-! ## What requests do -/

/-- Write the data of a slice to a core that holds none. -/
def loadData (b : Board) (job : LoadJob) : Except BoardError Board :=
  if b.failingCores.contains job.location then
    .error (.rejected ("core " ++ job.location.description ++ " refused its data"))
  else if b.cores.contains job.location then
    .error (.rejected ("core " ++ job.location.description ++ " is already loaded"))
  else
    .ok { b with cores := b.cores.insert job.location ⟨job.slice, job.image, job.state.length⟩ }

/-- Load an executable onto cores that hold data. -/
def loadExecutable (b : Board) (image : String) (cores : CoreSet) : Except BoardError Board :=
  match cores.toList.find? fun l => !b.cores.contains l with
  | some missing =>
    .error (.rejected ("core " ++ missing.description ++ " has no data for " ++ image))
  | none => .ok { b with executables := b.executables.insert image cores }

/-- Start an application. A bounded run completes at once. -/
def start (b : Board) (appId : UInt32) (timeSteps : Option UInt64) : Except BoardError Board :=
  if b.executables.isEmpty then .error (.rejected "no executables are loaded")
  else
    .ok { b with running := some ⟨appId, timeSteps⟩, stepsCompleted := timeSteps.getD 0 }

/-- The board with no application: halting frees all cores. Tables and tags stay. -/
def halted (b : Board) : Board := { b with running := none, cores := ∅, executables := ∅ }

/-- Halt an application; it is an error if another one runs. -/
def stop (b : Board) (appId : UInt32) : Except BoardError Board :=
  match b.running with
  | some r =>
    if r.appId == appId then .ok b.halted
    else .error (.rejected ("application " ++ Text.natural appId.toNat ++ " is not running ("
      ++ Text.natural r.appId.toNat ++ " is)"))
  | none => .ok b.halted

/-- The values that a core reports. -/
def coreProvenance (b : Board) (image : String) (l : Location) :
    Except BoardError (List ProvenanceItem) :=
  match (b.cores[l]?).filter fun core => core.image == image with
  | some core =>
    .ok [⟨l, image, "state_bytes", UInt64.ofNat core.stateBytes⟩,
      ⟨l, image, "time_steps", b.stepsCompleted⟩]
  | none =>
    .error (.rejected ("core " ++ l.description ++ " is not running " ++ image))

/-- The values that the cores of an executable report. -/
def provenance (b : Board) (image : String) (cores : CoreSet) :
    Except BoardError (List ProvenanceItem) := do
  return (← cores.toList.mapM (b.coreProvenance image)).flatten

/-- The board after a request that meets no fault. -/
def effect (b : Board) : BoardRequest → Except BoardError Board
  | .loadData job => b.loadData job
  | .loadTable chip table => .ok { b with tables := b.tables.insert chip table }
  | .loadExecutable image cores => b.loadExecutable image cores
  | .loadTags tags => .ok { b with tags := tags }
  | .start appId timeSteps => b.start appId timeSteps
  | .stop appId => b.stop appId
  | .readProvenance image cores => (b.provenance image cores).map fun _ => b
  | .clearTable chip =>
    .ok { b with tables := b.tables.erase chip, cleared := b.cleared ++ [chip] }

/-! ## Requests one by one -/

/-- The board with one more recorded request. -/
def record (b : Board) (r : BoardRequest) : Board := { b with requests := b.requests ++ [r] }

/-- Make a request: it is recorded, and then refused by a fault or carried out. -/
def submit (b : Board) (r : BoardRequest) : Except BoardError Unit × Board :=
  let recorded := b.record r
  match b.faults r.operation with
  | some fault => (.error (fault.error r.operation), recorded)
  | none =>
    match recorded.effect r with
    | .ok after => (.ok (), after)
    | .error e => (.error e, recorded)

/-- Ask for the values that the cores of an executable report. -/
def readProvenance (b : Board) (image : String) (cores : CoreSet) :
    Except BoardError (List ProvenanceItem) × Board :=
  match b.submit (.readProvenance image cores) with
  | (.ok (), after) => (after.provenance image cores, after)
  | (.error e, after) => (.error e, after)

end Board

end SpikeMesh
