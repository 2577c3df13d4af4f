import SpikeMesh.Config.Basic
import SpikeMesh.Diagnostic
import SpikeMesh.Graph.Application
import SpikeMesh.Graph.Partitioned

set_option autoImplicit false

/-! # Cutting units into slices

Each unit is cut into slices of one size, the largest one whose cost fits the budget of a core
and which no ceiling forbids; the last slice takes what remains. Since costs grow with the
number of atoms, the size is found by halving. Each connection becomes one partitioned
connection per source slice, with all slices of the receiving unit as targets. -/

namespace SpikeMesh

/-- The largest number from `lo` to `hi` that passes a test, where `lo` passes and every number
    below a passing one passes. -/
def largestPassing (passes : Nat → Bool) (lo hi : Nat) : Nat :=
  if lo < hi then
    let mid := lo + (hi - lo + 1) / 2
    if passes mid then largestPassing passes mid hi else largestPassing passes lo (mid - 1)
  else lo
termination_by hi - lo

/-- The atoms of a unit cut into ranges of at most `size` atoms. -/
def cutRanges (atoms size : Nat) : List AtomRange :=
  (List.range ((atoms + size - 1) / size)).map fun i =>
    ⟨UInt32.ofNat (i * size), UInt32.ofNat (min ((i + 1) * size) atoms)⟩

namespace GraphUnit

/-- The unit as the subject of messages. -/
def subject (u : GraphUnit) : String := "unit '" ++ u.label ++ "'"

/-- The most atoms of a slice: no more than the unit has, than the unit allows, and than its
    label is allowed, but at least one. -/
def ceiling (u : GraphUnit) (atomsPerCore : Std.ExtTreeMap String UInt32) : Nat :=
  let bounds := u.maxAtomsPerCore.toList ++ atomsPerCore[u.label]?.toList
  max 1 (bounds.foldl (fun least n => min least n.toNat) u.atoms.toNat)

/-- The size of the slices of a unit; an error if a single atom does not fit. -/
def sliceSize (u : GraphUnit) (budget : Cost) (atomsPerCore : Std.ExtTreeMap String UInt32) :
    Except PipelineError Nat :=
  match (u.model.cost 1).firstExcess? budget with
  | some e =>
    .error (.resourceExceeded ("a single atom of " ++ u.subject) e.resource e.requested
      e.available)
  | none =>
    .ok (largestPassing (fun n => (u.model.cost (UInt32.ofNat n)).fits budget) 1
      (u.ceiling atomsPerCore))

/-- The finding that a unit was split, if it was. -/
def splitNote? (u : GraphUnit) (size slices : Nat) : Option Diagnostic :=
  if 1 < slices then
    some (.note .unitSplit ("split into " ++ Text.natural slices ++ " slices of up to "
      ++ Text.natural size ++ " atoms") (some u.subject))
  else none

end GraphUnit

namespace PartitionedGraph

/-- The graph with the slices of a unit. -/
def addUnit (p : PartitionedGraph) (id : UnitId) (u : GraphUnit) (size : Nat) :
    PartitionedGraph :=
  (cutRanges u.atoms.toNat size).foldl
    (fun p atoms => p.addSlice id atoms (u.model.cost atoms.size)) p

/-- The graph with the traffic of a connection. -/
def addTraffic (p : PartitionedGraph) (id : ConnectionId) (c : Connection) :
    PartitionedGraph :=
  (p.slicesOf c.source).foldl
    (fun q source => q.addConnection id source (p.slicesOf c.target)) p

end PartitionedGraph

namespace ApplicationGraph

/-- Cut all units into slices that fit the budget. -/
def partition (g : ApplicationGraph) (budget : Cost)
    (atomsPerCore : Std.ExtTreeMap String UInt32) : Except PipelineError PartitionedGraph := do
  let sliced ← g.numberedUnits.foldlM
    (fun p (id, u) => do return p.addUnit id u (← u.sliceSize budget atomsPerCore))
    PartitionedGraph.empty
  return g.numberedConnections.foldl (fun p (id, c) => p.addTraffic id c) sliced

/-- What is found while units are cut, up to the first one that cannot be. -/
def partitionNotes (budget : Cost) (atomsPerCore : Std.ExtTreeMap String UInt32) :
    List GraphUnit → List Diagnostic
  | [] => []
  | u :: rest =>
    match u.sliceSize budget atomsPerCore with
    | .error _ => []
    | .ok size =>
      (u.splitNote? size (cutRanges u.atoms.toNat size).length).toList
        ++ partitionNotes budget atomsPerCore rest

end ApplicationGraph

end SpikeMesh
