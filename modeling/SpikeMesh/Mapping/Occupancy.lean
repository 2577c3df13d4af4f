import SpikeMesh.Fabric.Basic
import SpikeMesh.Graph.Partitioned

set_option autoImplicit false

/-! # What is left on the chips

The cores that are still free on each chip and the shared memory that is left, while slices
are placed one after the other. -/

namespace SpikeMesh

/-- What is left on one chip. -/
structure ChipRoom where
  freeCores : Std.ExtTreeSet UInt32
  sharedLeft : UInt64

/-- What is left on each chip. -/
structure Occupancy where
  rooms : Std.ExtTreeMap ChipCoord ChipRoom

/-- What an empty chip has: its application cores and all its memory. -/
def ChipRoom.ofChip (chip : Chip) : ChipRoom :=
  ⟨chip.applicationCores.foldl (fun s core => s.insert core.id) ∅, chip.sharedMemory⟩

namespace Occupancy

/-- Nothing is placed yet. -/
def ofFabric (f : Fabric) : Occupancy :=
  ⟨f.chipList.foldl (fun rooms chip => rooms.insert chip.coord (.ofChip chip)) ∅⟩

/-- What is left on a chip. -/
def room? (o : Occupancy) (c : ChipCoord) : Option ChipRoom := o.rooms[c]?

/-- Whether a core of a chip has the cycles and the local memory that a cost needs. -/
def coreTakes (chip : Chip) (cost : Cost) (id : UInt32) : Bool :=
  match chip.core? id with
  | some core => cost.cpuCycles ≤ core.cpuCycles && cost.localMemory ≤ core.localMemory
  | none => false

/-- The first free core of a chip that can take a cost, if the chip has enough shared memory
    left. -/
def findCore? (o : Occupancy) (chip : Chip) (cost : Cost) : Option UInt32 :=
  match o.room? chip.coord with
  | none => none
  | some room =>
    if room.sharedLeft < cost.sharedMemory then none
    else room.freeCores.toList.find? (coreTakes chip cost)

/-- What is left after a slice was placed. -/
def take (o : Occupancy) (l : Location) (cost : Cost) : Occupancy :=
  ⟨o.rooms.modify l.chip fun room =>
    ⟨room.freeCores.erase l.core, room.sharedLeft - min cost.sharedMemory room.sharedLeft⟩⟩

end Occupancy

end SpikeMesh
