import SpikeMesh.Fabric.Basic
import SpikeMesh.Graph.Application
import SpikeMesh.Mapping.Basic

set_option autoImplicit false

/-! # Cores by executable

The placed slices of a mapping grouped by the executable that runs them. Slices on virtual
chips belong to peripherals and are never loaded. -/

namespace SpikeMesh

/-- A set of cores. -/
abbrev CoreSet := Std.ExtTreeSet Location

namespace CoreSet

/-- The set of listed cores. -/
def ofList (cores : List Location) : CoreSet := cores.foldl (·.insert ·) ∅

/-- The cores chip by chip, in their order. -/
def byChip (s : CoreSet) : List (ChipCoord × List UInt32) :=
  (s.toList.map Location.chip).eraseDups.map fun c =>
    (c, (s.toList.filter fun l => l.chip == c).map Location.core)

end CoreSet

/-- The cores that run each executable. -/
structure ExecutableTargets where
  byImage : Std.ExtTreeMap String CoreSet

namespace ExecutableTargets

/-- No executables. -/
def empty : ExecutableTargets := ⟨∅⟩

/-- The cores that run an executable. -/
def cores? (t : ExecutableTargets) (image : String) : Option CoreSet := t.byImage[image]?

/-- The executables in the order of their names. -/
def toList (t : ExecutableTargets) : List (String × CoreSet) := t.byImage.toList

/-- The number of executables. -/
def size (t : ExecutableTargets) : Nat := t.byImage.size

/-- The targets with one more core for an executable. -/
def add (t : ExecutableTargets) (image : String) (l : Location) : ExecutableTargets :=
  ⟨t.byImage.insert image ((t.byImage.getD image ∅).insert l)⟩

end ExecutableTargets

namespace Mapping

/-- The slices placed on chips of the mesh itself, in their order. -/
def realPlacements (m : Mapping) (f : Fabric) : List (SliceId × Location) :=
  m.placements.toList.filter fun e => !f.isVirtual e.2.chip

/-- The unit to which a placed slice belongs. -/
def unitOf? (m : Mapping) (g : ApplicationGraph) (s : SliceId) : Option GraphUnit :=
  m.partitioned.slice? s >>= fun slice => g.unit? slice.unit

/-- The cores of the mesh by the executable that they run. -/
def targets (m : Mapping) (g : ApplicationGraph) (f : Fabric) :
    Except PipelineError ExecutableTargets :=
  (m.realPlacements f).foldlM
    (fun t (s, l) =>
      match m.unitOf? g s with
      | some u => .ok (t.add u.model.image l)
      | none => .error (.invalidGraph ("placed slice " ++ Text.natural s.index ++ " has no unit")))
    .empty

end Mapping

end SpikeMesh
