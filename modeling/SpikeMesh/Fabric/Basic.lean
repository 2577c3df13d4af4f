import SpikeMesh.Config.Basic
import SpikeMesh.Error
import SpikeMesh.Fabric.Chip
import SpikeMesh.Lists

set_option autoImplicit false

/-! # Fabrics

A fabric is a set of chips joined by links, kept in the order of the coordinates. It starts as
a rectangle of a hexagonal mesh, with or without wrap-around, from which chips and cores that
are down are removed. An edit that fails leaves the fabric as it was. -/

namespace SpikeMesh

/-- The chips by coordinate. -/
structure Fabric where
  chips : Std.ExtTreeMap ChipCoord Chip
deriving DecidableEq

namespace Fabric

/-! ## Look-ups -/

/-- No chips. -/
def empty : Fabric := ⟨∅⟩

/-- The chip at a coordinate. -/
def chip? (f : Fabric) (c : ChipCoord) : Option Chip := f.chips[c]?

/-- Whether there is a chip at a coordinate. -/
def contains (f : Fabric) (c : ChipCoord) : Bool := f.chips.contains c

/-- All chips in the order of the coordinates. -/
def chipList (f : Fabric) : List Chip := f.chips.toList.map Prod.snd

/-- The chips of the mesh itself. -/
def realChips (f : Fabric) : List Chip := f.chipList.filter fun chip => !chip.isVirtual

/-- Whether there is a virtual chip at a coordinate. -/
def isVirtual (f : Fabric) (c : ChipCoord) : Bool :=
  match f.chip? c with
  | some chip => chip.isVirtual
  | none => false

/-- The link that leaves a chip in a direction. -/
def link? (f : Fabric) (c : ChipCoord) (d : Direction) : Option Link :=
  f.chip? c >>= fun chip => chip.router.link? d

/-- The number of links of all chips. -/
def linkCount (f : Fabric) : Nat :=
  total (fun chip => chip.router.links.size) f.chipList

/-- The number of cores of the mesh that the application may use. -/
def applicationCoreCount (f : Fabric) : Nat :=
  total (fun chip => chip.applicationCores.length) f.realChips

/-! ## The mesh -/

/-- A coordinate modulo a positive size. -/
def wrap (i : Int) (size : Nat) : Nat := (i % (size : Int)).toNat

/-- The chip one step away: none beyond the edge, unless edges wrap around. A mesh that is one
    chip wide does not wrap, since a chip has no link to itself. -/
def step? (width height : UInt32) (wrapAround : Bool) (c : ChipCoord) (d : Direction) :
    Option ChipCoord :=
  let (dx, dy) := d.offset
  let x : Int := c.x.toNat + dx
  let y : Int := c.y.toNat + dy
  let w := width.toNat
  let h := height.toNat
  if wrapAround then
    if (dx ≠ 0 ∧ w < 2) ∨ (dy ≠ 0 ∧ h < 2) then none
    else some ⟨UInt32.ofNat (wrap x w), UInt32.ofNat (wrap y h)⟩
  else if 0 ≤ x ∧ x < w ∧ 0 ≤ y ∧ y < h then
    some ⟨UInt32.ofNat x.toNat, UInt32.ofNat y.toNat⟩
  else none

/-- The coordinates of a rectangle, column by column. -/
def rectangle (width height : Nat) : List ChipCoord :=
  (List.range width).flatMap fun x =>
    (List.range height).map fun y => ⟨UInt32.ofNat x, UInt32.ofNat y⟩

/-- The chip of a mesh at a coordinate, with a standard link to each of its neighbours. -/
def meshChip (width height : UInt32) (t : ChipTemplate) (wrapAround : Bool) (c : ChipCoord) :
    Chip :=
  Direction.all.foldl
    (fun chip d =>
      match step? width height wrapAround c d with
      | some destination => chip.setLink ⟨d, destination, 1⟩
      | none => chip)
    (Chip.ofTemplate c t)

/-- A rectangular mesh. -/
def grid (width height : UInt32) (t : ChipTemplate) (wrapAround : Bool) : Fabric :=
  ⟨(rectangle width.toNat height.toNat).foldl
    (fun chips c => chips.insert c (meshChip width height t wrapAround c)) ∅⟩

/-! ## Edits -/

/-- The fabric with a chip, which replaces the one at its coordinate. -/
def insertChip (f : Fabric) (chip : Chip) : Fabric := ⟨f.chips.insert chip.coord chip⟩

/-- The fabric with the chip at a coordinate changed. -/
def modifyChip (f : Fabric) (c : ChipCoord) (g : Chip → Chip) : Fabric := ⟨f.chips.modify c g⟩

/-- Remove a chip and all links that lead to it. -/
def removeChip (f : Fabric) (c : ChipCoord) : Except PipelineError Fabric :=
  if f.contains c then
    .ok ⟨(f.chips.erase c).map fun _ chip => chip.dropLinksTo c⟩
  else
    .error (.invalidConstraint ("chip " ++ c.description)
      "cannot mark a nonexistent chip as down")

/-- Remove a core from its chip. -/
def removeCore (f : Fabric) (l : Location) : Except PipelineError Fabric :=
  match f.chip? l.chip with
  | none => .error (.invalidConstraint ("core " ++ l.description) "chip does not exist")
  | some chip =>
    if (chip.core? l.core).isSome then .ok (f.modifyChip l.chip fun chip => chip.dropCore l.core)
    else .error (.invalidConstraint ("core " ++ l.description) "core does not exist")

/-- Set the speed of a link; a speed of 0 counts as 1. -/
def setLinkSpeed (f : Fabric) (c : ChipCoord) (d : Direction) (speed : UInt32) :
    Except PipelineError Fabric :=
  match f.link? c d with
  | none =>
    .error (.invalidConstraint ("chip " ++ c.description) ("has no " ++ d.description ++ " link"))
  | some _ =>
    .ok (f.modifyChip c fun chip => { chip with router := { chip.router with
      links := chip.router.links.modify d fun link => { link with speed := max speed 1 } } })

/-- Set the budget of a core. -/
def setCoreBudget (f : Fabric) (l : Location) (cpuCycles localMemory : UInt64) : Fabric :=
  f.modifyChip l.chip fun chip => { chip with cores := chip.cores.map fun core =>
    if core.id == l.core then { core with cpuCycles, localMemory } else core }

/-- The mesh of a configuration, without what is down. -/
def ofMachine (m : MachineConfig) : Except PipelineError Fabric := do
  let mesh := grid m.width m.height
    ⟨m.coresPerChip, m.cpuCyclesPerCore, m.localMemoryPerCore, m.sharedMemoryPerChip,
      m.routerTableCapacity⟩ m.wrapAround
  let withoutChips ← m.downChips.foldlM removeChip mesh
  m.downCores.foldlM removeCore withoutChips

/-! ## Budgets -/

/-- The budgets of a chip's application cores, when all of them share its memory evenly. -/
def coreShares (chip : Chip) : List Cost :=
  let cores := chip.applicationCores
  cores.map fun core =>
    ⟨core.cpuCycles, core.localMemory, chip.sharedMemory / UInt64.ofNat cores.length⟩

/-- The least amount of each resource in two budgets. -/
def leastBudget (a b : Cost) : Cost :=
  ⟨min a.cpuCycles b.cpuCycles, min a.localMemory b.localMemory,
    min a.sharedMemory b.sharedMemory⟩

/-- The budget within which a slice fits every application core of the mesh at once, if there
    is such a core. -/
def partitionBudget? (f : Fabric) : Option Cost :=
  match f.realChips.flatMap coreShares with
  | [] => none
  | b :: bs => some (bs.foldl leastBudget b)

end Fabric

end SpikeMesh
