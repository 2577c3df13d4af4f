import SpikeMesh.Config.Validation
import SpikeMesh.Datum.Domain
import SpikeMesh.Toml.Document

set_option autoImplicit false

/-! # Configurations as text

A configuration as a data tree, and its reading from TOML. A missing setting has its default;
unknown ones are ignored. -/

namespace SpikeMesh

/-! ## Names of the algorithms -/

/-- The name of a way to partition. -/
def PartitionerKind.text : PartitionerKind → String
  | monotoneSearch => "monotone_search"

/-- The name of a way to place. -/
def PlacerKind.text : PlacerKind → String
  | locality => "locality"
  | linear => "linear"

/-- The name of a way to find routes. -/
def RouterKind.text : RouterKind → String
  | shortestPath => "shortest_path"
  | linkSpeed => "link_speed"

/-- The name of a way to allocate keys. -/
def KeyAllocatorKind.text : KeyAllocatorKind → String
  | sequential => "sequential"
  | atomBlock => "atom_block"

def PartitionerKind.ofDatum? (d : Datum) : Option PartitionerKind :=
  d.toEnum? text [monotoneSearch]

def PlacerKind.ofDatum? (d : Datum) : Option PlacerKind := d.toEnum? text [locality, linear]

def RouterKind.ofDatum? (d : Datum) : Option RouterKind :=
  d.toEnum? text [shortestPath, linkSpeed]

def KeyAllocatorKind.ofDatum? (d : Datum) : Option KeyAllocatorKind :=
  d.toEnum? text [sequential, atomBlock]

/-! ## Sections -/

namespace MachineConfig

def toDatum (m : MachineConfig) : Datum := .table [
  ("width", .natural m.width.toNat),
  ("height", .natural m.height.toNat),
  ("virtual_board", .bool m.virtualBoard),
  ("wrap_around", .bool m.wrapAround),
  ("cores_per_chip", .natural m.coresPerChip.toNat),
  ("cpu_cycles_per_core", .natural m.cpuCyclesPerCore.toNat),
  ("local_memory_per_core", .natural m.localMemoryPerCore.toNat),
  ("shared_memory_per_chip", .natural m.sharedMemoryPerChip.toNat),
  ("router_table_capacity", .natural m.routerTableCapacity.toNat),
  ("time_step_us", .natural m.timeStepUs.toNat),
  ("app_id", .natural m.appId.toNat),
  ("down_chips", .ofList ChipCoord.toDatum m.downChips),
  ("down_cores", .ofList Location.toDatum m.downCores)]

def ofDatum? (d : Datum) : Option MachineConfig := do
  let f ← d.toFields? [
    "width", "height", "virtual_board", "wrap_around", "cores_per_chip",
    "cpu_cycles_per_core", "local_memory_per_core", "shared_memory_per_chip",
    "router_table_capacity", "time_step_us", "app_id", "down_chips", "down_cores"]
  let standard : MachineConfig := {}
  return {
    width := ← f.withDefault "width" standard.width Datum.toUInt32?
    height := ← f.withDefault "height" standard.height Datum.toUInt32?
    virtualBoard := ← f.withDefault "virtual_board" standard.virtualBoard Datum.toBool?
    wrapAround := ← f.withDefault "wrap_around" standard.wrapAround Datum.toBool?
    coresPerChip := ← f.withDefault "cores_per_chip" standard.coresPerChip Datum.toUInt32?
    cpuCyclesPerCore :=
      ← f.withDefault "cpu_cycles_per_core" standard.cpuCyclesPerCore Datum.toUInt64?
    localMemoryPerCore :=
      ← f.withDefault "local_memory_per_core" standard.localMemoryPerCore Datum.toUInt64?
    sharedMemoryPerChip :=
      ← f.withDefault "shared_memory_per_chip" standard.sharedMemoryPerChip Datum.toUInt64?
    routerTableCapacity :=
      ← f.withDefault "router_table_capacity" standard.routerTableCapacity Datum.toUInt64?
    timeStepUs := ← f.withDefault "time_step_us" standard.timeStepUs Datum.toUInt64?
    appId := ← f.withDefault "app_id" standard.appId Datum.toUInt32?
    downChips := ← f.withDefault "down_chips" standard.downChips
      (Datum.toList? ChipCoord.ofDatum?)
    downCores := ← f.withDefault "down_cores" standard.downCores
      (Datum.toList? Location.ofDatum?) }

end MachineConfig

namespace MappingConfig

def toDatum (m : MappingConfig) : Datum := .table [
  ("partitioner", .text m.partitioner.text),
  ("placer", .text m.placer.text),
  ("router", .text m.router.text),
  ("key_allocator", .text m.keyAllocator.text),
  ("validate_routes", .bool m.validateRoutes),
  ("atoms_per_core", .ofMap id (fun n => .natural n.toNat) m.atomsPerCore)]

def ofDatum? (d : Datum) : Option MappingConfig := do
  let f ← d.toFields? [
    "partitioner", "placer", "router", "key_allocator", "validate_routes", "atoms_per_core"]
  let standard : MappingConfig := {}
  return {
    partitioner :=
      ← f.withDefault "partitioner" standard.partitioner PartitionerKind.ofDatum?
    placer := ← f.withDefault "placer" standard.placer PlacerKind.ofDatum?
    router := ← f.withDefault "router" standard.router RouterKind.ofDatum?
    keyAllocator :=
      ← f.withDefault "key_allocator" standard.keyAllocator KeyAllocatorKind.ofDatum?
    validateRoutes := ← f.withDefault "validate_routes" standard.validateRoutes Datum.toBool?
    atomsPerCore := ← f.withDefault "atoms_per_core" standard.atomsPerCore
      (Datum.toMap? some Datum.toUInt32?) }

end MappingConfig

namespace KeyConfig

def toDatum (k : KeyConfig) : Datum := .table [("width_bits", .natural k.widthBits.toNat)]

def ofDatum? (d : Datum) : Option KeyConfig := do
  let f ← d.toFields? ["width_bits"]
  let standard : KeyConfig := {}
  return { widthBits := ← f.withDefault "width_bits" standard.widthBits Datum.toUInt8? }

end KeyConfig

namespace TagConfig

def toDatum (t : TagConfig) : Datum := .table [
  ("notification_min", .natural t.notificationMin.toNat),
  ("reverse_min", .natural t.reverseMin.toNat),
  ("max_tag", .natural t.maxTag.toNat)]

def ofDatum? (d : Datum) : Option TagConfig := do
  let f ← d.toFields? ["notification_min", "reverse_min", "max_tag"]
  let standard : TagConfig := {}
  return {
    notificationMin :=
      ← f.withDefault "notification_min" standard.notificationMin Datum.toUInt32?
    reverseMin := ← f.withDefault "reverse_min" standard.reverseMin Datum.toUInt32?
    maxTag := ← f.withDefault "max_tag" standard.maxTag Datum.toUInt32? }

end TagConfig

namespace ReportConfig

def toDatum (r : ReportConfig) : Datum := .table [
  ("enabled", .bool r.enabled),
  ("timings", .bool r.timings),
  ("provenance", .bool r.provenance)]

def ofDatum? (d : Datum) : Option ReportConfig := do
  let f ← d.toFields? ["enabled", "timings", "provenance"]
  let standard : ReportConfig := {}
  return {
    enabled := ← f.withDefault "enabled" standard.enabled Datum.toBool?
    timings := ← f.withDefault "timings" standard.timings Datum.toBool?
    provenance := ← f.withDefault "provenance" standard.provenance Datum.toBool? }

end ReportConfig

namespace ExecutionConfig

def toDatum (e : ExecutionConfig) : Datum := .table [
  ("load", .bool e.load),
  ("run", .bool e.run),
  ("workers", .natural e.workers.toNat)]

def ofDatum? (d : Datum) : Option ExecutionConfig := do
  let f ← d.toFields? ["load", "run", "workers"]
  let standard : ExecutionConfig := {}
  return {
    load := ← f.withDefault "load" standard.load Datum.toBool?
    run := ← f.withDefault "run" standard.run Datum.toBool?
    workers := ← f.withDefault "workers" standard.workers Datum.toUInt64? }

end ExecutionConfig

/-! ## The whole configuration -/

namespace Config

def toDatum (c : Config) : Datum := .table [
  ("machine", c.machine.toDatum),
  ("mapping", c.mapping.toDatum),
  ("keys", c.keys.toDatum),
  ("tags", c.tags.toDatum),
  ("reports", c.reports.toDatum),
  ("execution", c.execution.toDatum)]

def ofDatum? (d : Datum) : Option Config := do
  let f ← d.toFields? ["machine", "mapping", "keys", "tags", "reports", "execution"]
  return {
    machine := ← f.withDefault "machine" {} MachineConfig.ofDatum?
    mapping := ← f.withDefault "mapping" {} MappingConfig.ofDatum?
    keys := ← f.withDefault "keys" {} KeyConfig.ofDatum?
    tags := ← f.withDefault "tags" {} TagConfig.ofDatum?
    reports := ← f.withDefault "reports" {} ReportConfig.ofDatum?
    execution := ← f.withDefault "execution" {} ExecutionConfig.ofDatum? }

/-- Read a configuration from TOML and check it. -/
def ofToml (text : String) : Except ConfigError Config :=
  match Toml.read? text >>= ofDatum? with
  | none => .error .unreadable
  | some c => do
    c.validate
    return c

end Config

end SpikeMesh
