import SpikeMesh.Coord
import SpikeMesh.Resource
import Std.Data.ExtTreeMap

set_option autoImplicit false

/-! # Configuration

What a run is told besides the network: the machine, the algorithm of each stage, the space of
routing keys, the tag pools, what is reported, and how the result is executed. Every setting
has a default, so an empty text is a configuration. -/

namespace SpikeMesh

/-- The mesh of chips. -/
structure MachineConfig where
  width : UInt32 := 2
  height : UInt32 := 2
  /-- Whether the board is the one kept in memory. -/
  virtualBoard : Bool := true
  /-- Whether links at the edges lead to the opposite edge. -/
  wrapAround : Bool := false
  /-- The cores of a chip, with the monitor core 0. -/
  coresPerChip : UInt32 := 18
  cpuCyclesPerCore : UInt64 := 200000
  localMemoryPerCore : UInt64 := 65536
  sharedMemoryPerChip : UInt64 := 123731968
  routerTableCapacity : UInt64 := 1024
  timeStepUs : UInt64 := 1000
  appId : UInt32 := 30
  downChips : List ChipCoord := []
  downCores : List Location := []
deriving DecidableEq, Repr

/-- The budget of a core, with all the shared memory of its chip. -/
def MachineConfig.coreBudget (m : MachineConfig) : Cost :=
  ⟨m.cpuCyclesPerCore, m.localMemoryPerCore, m.sharedMemoryPerChip⟩

/-- How units are cut into slices. -/
inductive PartitionerKind
  /-- Slices are as large as fits; the size is found by halving. -/
  | monotoneSearch
deriving DecidableEq, Repr

/-- How slices are placed. -/
inductive PlacerKind
  /-- Chips with connected slices come first, then all chips in order. -/
  | locality
  /-- All chips in order. -/
  | linear
deriving DecidableEq, Repr

/-- What a path through the mesh costs. -/
inductive RouterKind
  /-- Every link costs one. -/
  | shortestPath
  /-- A link costs the less the faster it is. -/
  | linkSpeed
deriving DecidableEq, Repr

/-- How routing keys are given out. -/
inductive KeyAllocatorKind
  /-- One key per connection, counted up. -/
  | sequential
  /-- A block of keys per connection, one key per source atom. -/
  | atomBlock
deriving DecidableEq, Repr

/-- The algorithms of the stages. -/
structure MappingConfig where
  partitioner : PartitionerKind := .monotoneSearch
  placer : PlacerKind := .locality
  router : RouterKind := .shortestPath
  keyAllocator : KeyAllocatorKind := .sequential
  /-- Whether compiled routes are checked. -/
  validateRoutes : Bool := false
  /-- The most atoms of a core, by the label of the unit. -/
  atomsPerCore : Std.ExtTreeMap String UInt32 := ∅
deriving DecidableEq

/-- The space of routing keys. -/
structure KeyConfig where
  widthBits : UInt8 := 32
deriving DecidableEq, Repr

/-- The number of keys. -/
def KeyConfig.capacity (k : KeyConfig) : Nat := 1 <<< k.widthBits.toNat

/-- The bounds of the tag pools. -/
structure TagConfig where
  notificationMin : UInt32 := 0
  reverseMin : UInt32 := 0
  /-- The largest tag of either pool. -/
  maxTag : UInt32 := 7
deriving DecidableEq, Repr

/-- What is reported. -/
structure ReportConfig where
  /-- Whether the stages note what they found. -/
  enabled : Bool := false
  timings : Bool := false
  /-- Whether provenance is fetched after a run. -/
  provenance : Bool := false
deriving DecidableEq, Repr

/-- How a mapping is executed. -/
structure ExecutionConfig where
  load : Bool := true
  run : Bool := true
  /-- How many data generation jobs run side by side. -/
  workers : UInt64 := 4
deriving DecidableEq, Repr

/-- A configuration. -/
structure Config where
  machine : MachineConfig := {}
  mapping : MappingConfig := {}
  keys : KeyConfig := {}
  tags : TagConfig := {}
  reports : ReportConfig := {}
  execution : ExecutionConfig := {}
deriving DecidableEq

/-- The name of the file that holds a project's configuration. -/
def Config.fileName : String := "tessera.toml"

end SpikeMesh
