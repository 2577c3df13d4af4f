import SpikeMesh.Datum.Domain
import SpikeMesh.Graph.AtomRange
import Std.Data.ExtTreeSet

set_option autoImplicit false

/-! # Partitioned graphs

Units cut into slices, each small enough for one core, and the traffic between slices: one
partitioned connection for each slice that sends under a connection, with all the slices that
receive it. -/

namespace SpikeMesh

/-- A range of atoms of a unit, for one core. -/
structure Slice where
  id : SliceId
  unit : UnitId
  /-- The position among the slices of the unit. -/
  index : UInt32
  atoms : AtomRange
  cost : Cost
deriving DecidableEq, Repr

/-- The traffic that leaves one slice under one connection. -/
structure PartitionedConnection where
  id : PartitionedConnectionId
  connection : ConnectionId
  source : SliceId
  targets : List SliceId
deriving DecidableEq, Repr

/-- Slices and the traffic between them. -/
structure PartitionedGraph where
  slices : Array Slice
  connections : Array PartitionedConnection
  byUnit : Std.ExtTreeMap UnitId (List SliceId)
deriving DecidableEq

namespace PartitionedGraph

/-- The graph without slices. -/
def empty : PartitionedGraph := ⟨#[], #[], ∅⟩

/-- The slice with an id. -/
def slice? (p : PartitionedGraph) (id : SliceId) : Option Slice := p.slices[id.index]?

/-- The slices of a unit in the order of their atoms. -/
def slicesOf (p : PartitionedGraph) (u : UnitId) : List SliceId := p.byUnit.getD u []

/-- The next slice of a unit. -/
def nextSlice (p : PartitionedGraph) (u : UnitId) (atoms : AtomRange) (cost : Cost) : Slice :=
  ⟨Id.ofIndex p.slices.size, u, UInt32.ofNat (p.slicesOf u).length, atoms, cost⟩

/-- The graph with one more slice of a unit. -/
def addSlice (p : PartitionedGraph) (u : UnitId) (atoms : AtomRange) (cost : Cost) :
    PartitionedGraph :=
  let s := p.nextSlice u atoms cost
  { p with
    slices := p.slices.push s
    byUnit := p.byUnit.insert u (p.slicesOf u ++ [s.id]) }

/-- Slices in ascending order, each once. -/
def ascending (ids : List SliceId) : List SliceId :=
  (ids.foldl (·.insert ·) (∅ : Std.ExtTreeSet SliceId)).toList

/-- The graph with one more partitioned connection. -/
def addConnection (p : PartitionedGraph) (c : ConnectionId) (source : SliceId)
    (targets : List SliceId) : PartitionedGraph :=
  { p with connections :=
      p.connections.push ⟨Id.ofIndex p.connections.size, c, source, ascending targets⟩ }

/-- Connections with ids in their order. -/
def renumber (connections : Array PartitionedConnection) : Array PartitionedConnection :=
  connections.mapIdx fun i pc => { pc with id := Id.ofIndex i }

/-- The graph with only some of its connections, numbered anew. -/
def retain (p : PartitionedGraph) (keep : PartitionedConnection → Bool) : PartitionedGraph :=
  { p with connections := renumber (p.connections.filter keep) }

/-- The sets of neighbours with one slice made a neighbour of another. -/
def addNeighbour (adj : Std.ExtTreeMap SliceId (Std.ExtTreeSet SliceId)) (a b : SliceId) :
    Std.ExtTreeMap SliceId (Std.ExtTreeSet SliceId) :=
  adj.insert a ((adj.getD a ∅).insert b)

/-- For each slice that exchanges packets with others, these others. -/
def adjacency (p : PartitionedGraph) : Std.ExtTreeMap SliceId (Std.ExtTreeSet SliceId) :=
  p.connections.foldl
    (fun adj pc =>
      (pc.targets.filter fun t => t != pc.source).foldl
        (fun adj t => addNeighbour (addNeighbour adj pc.source t) t pc.source) adj)
    ∅

end PartitionedGraph

/-! ## As data -/

namespace AtomRange

def toDatum (r : AtomRange) : Datum := .table [
  ("lo", .natural r.lo.toNat),
  ("hi", .natural r.hi.toNat)]

def ofDatum? (d : Datum) : Option AtomRange := do
  let f ← d.toFields? ["lo", "hi"]
  return {
    lo := ← f.required "lo" Datum.toUInt32?
    hi := ← f.required "hi" Datum.toUInt32? }

end AtomRange

namespace Slice

def toDatum (s : Slice) : Datum := .table [
  ("id", s.id.toDatum),
  ("unit", s.unit.toDatum),
  ("index", .natural s.index.toNat),
  ("atoms", s.atoms.toDatum),
  ("cost", s.cost.toDatum)]

def ofDatum? (d : Datum) : Option Slice := do
  let f ← d.toFields? ["id", "unit", "index", "atoms", "cost"]
  return {
    id := ← f.required "id" Id.ofDatum?
    unit := ← f.required "unit" Id.ofDatum?
    index := ← f.required "index" Datum.toUInt32?
    atoms := ← f.required "atoms" AtomRange.ofDatum?
    cost := ← f.required "cost" Cost.ofDatum? }

end Slice

namespace PartitionedConnection

def toDatum (pc : PartitionedConnection) : Datum := .table [
  ("id", pc.id.toDatum),
  ("connection", pc.connection.toDatum),
  ("source", pc.source.toDatum),
  ("targets", .ofList Id.toDatum pc.targets)]

def ofDatum? (d : Datum) : Option PartitionedConnection := do
  let f ← d.toFields? ["id", "connection", "source", "targets"]
  return {
    id := ← f.required "id" Id.ofDatum?
    connection := ← f.required "connection" Id.ofDatum?
    source := ← f.required "source" Id.ofDatum?
    targets := ← f.required "targets" (Datum.toList? Id.ofDatum?) }

end PartitionedConnection

namespace PartitionedGraph

def toDatum (p : PartitionedGraph) : Datum := .table [
  ("slices", .ofList Slice.toDatum p.slices.toList),
  ("connections", .ofList PartitionedConnection.toDatum p.connections.toList),
  ("by_unit", .ofMap Id.text (Datum.ofList Id.toDatum) p.byUnit)]

def ofDatum? (d : Datum) : Option PartitionedGraph := do
  let f ← d.toFields? ["slices", "connections", "by_unit"]
  return {
    slices := (← f.required "slices" (Datum.toList? Slice.ofDatum?)).toArray
    connections :=
      (← f.required "connections" (Datum.toList? PartitionedConnection.ofDatum?)).toArray
    byUnit :=
      ← f.required "by_unit" (Datum.toMap? Id.ofText? (Datum.toList? Id.ofDatum?)) }

end PartitionedGraph

end SpikeMesh
