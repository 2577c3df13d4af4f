import SpikeMesh.Coord
import SpikeMesh.Direction
import SpikeMesh.Resource

set_option autoImplicit false

/-! # Chips

A chip of the mesh: its working cores, the memory that they share, and its router with at most
one link per direction. Core 0 runs the monitor and is never given to the application. -/

namespace SpikeMesh

/-- A working core. -/
structure Core where
  id : UInt32
  cpuCycles : UInt64
  localMemory : UInt64
  isMonitor : Bool
deriving DecidableEq, Repr

/-- A link out of a router. -/
structure Link where
  direction : Direction
  /-- The chip at the far end. -/
  destination : ChipCoord
  /-- Relative bandwidth: 1 is a standard link. -/
  speed : UInt32
deriving DecidableEq, Repr

/-- The links of a chip and the number of routing entries that it can hold. -/
structure Router where
  links : Std.ExtTreeMap Direction Link
  tableCapacity : UInt64
deriving DecidableEq

/-- A chip. -/
structure Chip where
  coord : ChipCoord
  /-- The working cores in the order of their ids; cores that are down are absent. -/
  cores : List Core
  /-- The memory that all cores share, in bytes. -/
  sharedMemory : UInt64
  router : Router
  /-- Whether the chip stands for a peripheral outside the mesh. -/
  isVirtual : Bool
deriving DecidableEq

/-- What all chips of a regular mesh have in common. -/
structure ChipTemplate where
  /-- The number of cores, with the monitor. -/
  cores : UInt32
  cpuCycles : UInt64
  localMemory : UInt64
  sharedMemory : UInt64
  tableCapacity : UInt64
deriving DecidableEq, Repr

/-- The core that runs the monitor. -/
def monitorCore : UInt32 := 0

/-- The cores from 0 on, all alike. -/
def Core.numbered (count : Nat) (cpuCycles localMemory : UInt64) : List Core :=
  (List.range count).map fun i =>
    ⟨UInt32.ofNat i, cpuCycles, localMemory, UInt32.ofNat i == monitorCore⟩

/-- The link in a direction. -/
def Router.link? (r : Router) (d : Direction) : Option Link := r.links[d]?

namespace Chip

/-- A real chip with all its cores and without links. -/
def ofTemplate (coord : ChipCoord) (t : ChipTemplate) : Chip where
  coord := coord
  cores := Core.numbered t.cores.toNat t.cpuCycles t.localMemory
  sharedMemory := t.sharedMemory
  router := ⟨∅, t.tableCapacity⟩
  isVirtual := false

/-- The working core with an id. -/
def core? (c : Chip) (id : UInt32) : Option Core := c.cores.find? fun core => core.id == id

/-- The cores that the application may use. -/
def applicationCores (c : Chip) : List Core := c.cores.filter fun core => !core.isMonitor

/-- The budget of a core, with all the shared memory of the chip. -/
def coreBudget (c : Chip) (core : Core) : Cost :=
  ⟨core.cpuCycles, core.localMemory, c.sharedMemory⟩

/-- The chip to which the link in a direction leads. -/
def neighbour? (c : Chip) (d : Direction) : Option ChipCoord :=
  (c.router.link? d).map Link.destination

/-- The chip with a link in the link's direction. -/
def setLink (c : Chip) (link : Link) : Chip :=
  { c with router := { c.router with links := c.router.links.insert link.direction link } }

/-- The chip without the links that lead to a given one. -/
def dropLinksTo (c : Chip) (coord : ChipCoord) : Chip :=
  { c with router := { c.router with
      links := c.router.links.filter fun _ link => link.destination != coord } }

/-- The chip without a core. -/
def dropCore (c : Chip) (id : UInt32) : Chip :=
  { c with cores := c.cores.filter fun core => core.id != id }

end Chip

end SpikeMesh
