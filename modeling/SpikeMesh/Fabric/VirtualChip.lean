import SpikeMesh.Fabric.Basic

set_option autoImplicit false

/-! # Virtual chips

A virtual chip stands for a peripheral outside the mesh. It has a full set of cores and room
for any number of routing entries, and one link to the real chip to which it is attached. -/

namespace SpikeMesh

/-- Where a virtual chip stands and how it is attached. -/
structure VirtualChipSpec where
  coord : ChipCoord
  /-- The real chip to which it is attached. -/
  connectedTo : ChipCoord
  /-- The direction of the link from the real chip to the virtual one. -/
  direction : Direction
deriving DecidableEq, Repr

/-- Why a virtual chip cannot be attached. -/
inductive AttachmentError
  | occupied
  | missing (chip : ChipCoord)
  | notReal (chip : ChipCoord)
  | linkTaken (chip : ChipCoord) (direction : Direction) (destination : ChipCoord)
  | noCores (chip : ChipCoord)
deriving DecidableEq, Repr

/-- The cause in words. -/
def AttachmentError.reason : AttachmentError → String
  | occupied => "coordinate is already occupied"
  | missing chip => "attachment chip " ++ chip.description ++ " does not exist"
  | notReal chip => "attachment chip " ++ chip.description ++ " is itself virtual"
  | linkTaken chip direction destination =>
    direction.description ++ " link of chip " ++ chip.description ++ " already leads to "
      ++ destination.description
  | noCores chip => "attachment chip " ++ chip.description ++ " has no cores"

/-- The number of cores of a virtual chip, with its monitor. -/
def virtualChipCores : Nat := 128

namespace VirtualChipSpec

/-- Whether a chip is the one described. -/
def describes (spec : VirtualChipSpec) (chip : Chip) : Bool :=
  chip.isVirtual && chip.neighbour? spec.direction.opposite == some spec.connectedTo

/-- The virtual chip, with the budgets of the chip to which it is attached. -/
def chip (spec : VirtualChipSpec) (real : Chip) (core : Core) : Chip :=
  Chip.setLink
    { coord := spec.coord
      cores := Core.numbered virtualChipCores core.cpuCycles core.localMemory
      sharedMemory := real.sharedMemory
      router := ⟨∅, Amount.max⟩
      isVirtual := true }
    ⟨spec.direction.opposite, spec.connectedTo, 1⟩

end VirtualChipSpec

namespace Fabric

/-- The real chip to which a virtual one can be attached, and the core whose budget the
    virtual cores get. -/
def attachment (f : Fabric) (spec : VirtualChipSpec) :
    Except AttachmentError (Chip × Core) :=
  match f.chip? spec.connectedTo with
  | none => .error (.missing spec.connectedTo)
  | some real =>
    if real.isVirtual then .error (.notReal spec.connectedTo)
    else match real.router.link? spec.direction with
    | some taken => .error (.linkTaken spec.connectedTo spec.direction taken.destination)
    | none =>
      match real.applicationCores.head?.or real.cores.head? with
      | none => .error (.noCores spec.connectedTo)
      | some core => .ok (real, core)

/-- Attach a virtual chip. Attaching the same one again changes nothing. -/
def addVirtualChip (f : Fabric) (spec : VirtualChipSpec) : Except PipelineError Fabric :=
  let refuse (e : AttachmentError) : Except PipelineError Fabric :=
    .error (.invalidConstraint ("virtual chip " ++ spec.coord.description) e.reason)
  match f.chip? spec.coord with
  | some existing => if spec.describes existing then .ok f else refuse .occupied
  | none =>
    match f.attachment spec with
    | .error e => refuse e
    | .ok (real, core) =>
      .ok ((f.insertChip (spec.chip real core)).modifyChip spec.connectedTo
        fun chip => chip.setLink ⟨spec.direction, spec.coord, 1⟩)

end Fabric

end SpikeMesh
