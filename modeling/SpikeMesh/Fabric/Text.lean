import SpikeMesh.Datum.Domain
import SpikeMesh.Fabric.VirtualChip

set_option autoImplicit false

/-! # Fabrics as data

The data tree of a fabric and its reading. Chips are keyed by coordinate and links by
direction. -/

namespace SpikeMesh

namespace Core

def toDatum (c : Core) : Datum := .table [
  ("id", .natural c.id.toNat),
  ("cpu_cycles", .natural c.cpuCycles.toNat),
  ("local_memory", .natural c.localMemory.toNat),
  ("is_monitor", .bool c.isMonitor)]

def ofDatum? (d : Datum) : Option Core := do
  let f ← d.toFields? ["id", "cpu_cycles", "local_memory", "is_monitor"]
  return {
    id := ← f.required "id" Datum.toUInt32?
    cpuCycles := ← f.required "cpu_cycles" Datum.toUInt64?
    localMemory := ← f.required "local_memory" Datum.toUInt64?
    isMonitor := ← f.required "is_monitor" Datum.toBool? }

end Core

namespace Link

def toDatum (l : Link) : Datum := .table [
  ("direction", l.direction.toDatum),
  ("destination", l.destination.toDatum),
  ("speed", .natural l.speed.toNat)]

def ofDatum? (d : Datum) : Option Link := do
  let f ← d.toFields? ["direction", "destination", "speed"]
  return {
    direction := ← f.required "direction" Direction.ofDatum?
    destination := ← f.required "destination" ChipCoord.ofDatum?
    speed := ← f.required "speed" Datum.toUInt32? }

end Link

namespace Router

def toDatum (r : Router) : Datum := .table [
  ("links", .ofMap Direction.text Link.toDatum r.links),
  ("table_capacity", .natural r.tableCapacity.toNat)]

def ofDatum? (d : Datum) : Option Router := do
  let f ← d.toFields? ["links", "table_capacity"]
  return {
    links := ← f.required "links" (Datum.toMap? Direction.ofText? Link.ofDatum?)
    tableCapacity := ← f.required "table_capacity" Datum.toUInt64? }

end Router

namespace Chip

def toDatum (c : Chip) : Datum := .table [
  ("coord", c.coord.toDatum),
  ("cores", .ofList Core.toDatum c.cores),
  ("shared_memory", .natural c.sharedMemory.toNat),
  ("router", c.router.toDatum),
  ("is_virtual", .bool c.isVirtual)]

def ofDatum? (d : Datum) : Option Chip := do
  let f ← d.toFields? ["coord", "cores", "shared_memory", "router", "is_virtual"]
  return {
    coord := ← f.required "coord" ChipCoord.ofDatum?
    cores := ← f.required "cores" (Datum.toList? Core.ofDatum?)
    sharedMemory := ← f.required "shared_memory" Datum.toUInt64?
    router := ← f.required "router" Router.ofDatum?
    isVirtual := ← f.required "is_virtual" Datum.toBool? }

end Chip

namespace Fabric

def toDatum (f : Fabric) : Datum := .table [
  ("chips", .ofMap ChipCoord.text Chip.toDatum f.chips)]

def ofDatum? (d : Datum) : Option Fabric := do
  let f ← d.toFields? ["chips"]
  return { chips := ← f.required "chips" (Datum.toMap? ChipCoord.ofText? Chip.ofDatum?) }

end Fabric

namespace VirtualChipSpec

def toDatum (s : VirtualChipSpec) : Datum := .table [
  ("coord", s.coord.toDatum),
  ("connected_to", s.connectedTo.toDatum),
  ("direction", s.direction.toDatum)]

def ofDatum? (d : Datum) : Option VirtualChipSpec := do
  let f ← d.toFields? ["coord", "connected_to", "direction"]
  return {
    coord := ← f.required "coord" ChipCoord.ofDatum?
    connectedTo := ← f.required "connected_to" ChipCoord.ofDatum?
    direction := ← f.required "direction" Direction.ofDatum? }

end VirtualChipSpec

end SpikeMesh
