import SpikeMesh.Diagnostic
import SpikeMesh.Mapping.Placements
import SpikeMesh.Routing.ShortestPath
import SpikeMesh.Routing.Table
import SpikeMesh.Routing.Tree

set_option autoImplicit false

/-! # Compiling routes into tables

For each partitioned connection the cheapest paths from the chip of its source to the chips of
its targets are merged into one tree, and each chip of the tree gets one entry. In the end no
table may be larger than its router allows. -/

namespace SpikeMesh

/-- What is routed: the traffic, where its slices are, and its keys. -/
structure RoutingJob where
  partitioned : PartitionedGraph
  placements : Placements
  keys : KeyAssignments
  fabric : Fabric

namespace RoutingJob

/-- The location of the source of a connection, which must be placed. -/
def sourceOf (job : RoutingJob) (pc : PartitionedConnection) :
    Except PipelineError Location :=
  match job.placements.get? pc.source with
  | some l => .ok l
  | none =>
    .error (.invalidGraph ("source slice " ++ Text.natural pc.source.index
      ++ " of connection " ++ Text.natural pc.id.index ++ " is unplaced"))

/-- The key of a connection, which must have one. -/
def keyOf (job : RoutingJob) (pc : PartitionedConnection) : Except PipelineError RoutingKey :=
  match job.keys.get? pc.id with
  | some k => .ok k
  | none =>
    .error (.invalidGraph ("partitioned connection " ++ Text.natural pc.id.index
      ++ " has no routing key"))

/-- The location of a target of a connection, which must be placed. -/
def targetOf (job : RoutingJob) (pc : PartitionedConnection) (target : SliceId) :
    Except PipelineError Location :=
  match job.placements.get? target with
  | some l => .ok l
  | none =>
    .error (.invalidGraph ("target slice " ++ Text.natural target.index ++ " of connection "
      ++ Text.natural pc.id.index ++ " is unplaced"))

/-- The tree with the path to one more target. -/
def addTarget (job : RoutingJob) (paths : ShortestPathTree) (key : RoutingKey)
    (pc : PartitionedConnection) (tree : MulticastTree) (target : SliceId) :
    Except PipelineError MulticastTree := do
  let destination ← job.targetOf pc target
  match paths.pathTo? destination.chip with
  | some hops => return tree.addPath hops destination
  | none => throw (.routeUnreachable key.key paths.source destination.chip)

/-- Shortest path trees by their source, so that none is computed twice. -/
abbrev PathCache := Std.ExtTreeMap ChipCoord ShortestPathTree

/-- The shortest paths from a chip, from the cache or new. -/
def pathsFrom (job : RoutingJob) (kind : RouterKind) (cache : PathCache) (c : ChipCoord) :
    ShortestPathTree :=
  match cache[c]? with
  | some t => t
  | none => ShortestPathTree.compute job.fabric c kind

/-- The tree of one connection. -/
def treeOf (job : RoutingJob) (paths : ShortestPathTree) (key : RoutingKey)
    (pc : PartitionedConnection) : Except PipelineError MulticastTree :=
  pc.targets.foldlM (job.addTarget paths key pc) .empty

/-- The tables with the entries of a tree. -/
def addEntries (key : RoutingKey) (tree : MulticastTree) (tables : RoutingTables) :
    RoutingTables :=
  tree.toList.foldl
    (fun tables e => tables.push e.1 ⟨key.key, key.mask, e.2.links, e.2.cores⟩) tables

/-- The tables and the path cache after one more connection. -/
def addConnection (job : RoutingJob) (kind : RouterKind) (state : PathCache × RoutingTables)
    (pc : PartitionedConnection) : Except PipelineError (PathCache × RoutingTables) := do
  let source ← job.sourceOf pc
  let key ← job.keyOf pc
  let paths := job.pathsFrom kind state.1 source.chip
  let tree ← job.treeOf paths key pc
  return (state.1.insert source.chip paths, addEntries key tree state.2)

/-- The tables of all connections, however large. -/
def tables (job : RoutingJob) (kind : RouterKind) : Except PipelineError RoutingTables := do
  let state ← job.partitioned.connections.toList.foldlM (job.addConnection kind) (∅, .empty)
  return state.2

end RoutingJob

/-! ## Capacity -/

/-- The number of entries that a chip's router holds; a chip that does not exist holds none. -/
def Fabric.tableCapacity (f : Fabric) (c : ChipCoord) : Nat :=
  match f.chip? c with
  | some chip => chip.router.tableCapacity.toNat
  | none => 0

namespace RoutingTables

/-- A table that its router cannot hold, as an error. -/
def overflow? (f : Fabric) (c : ChipCoord) (t : RoutingTable) : Option PipelineError :=
  let capacity := f.tableCapacity c
  if capacity < t.size then
    some (.tableCapacityExceeded c t.size capacity (t.size - capacity))
  else none

/-- The warning that a table fills nine tenths of its router, if it does. -/
def fullWarning? (f : Fabric) (c : ChipCoord) (t : RoutingTable) : Option Diagnostic :=
  let capacity := f.tableCapacity c
  if 0 < t.size && capacity - capacity / 10 ≤ t.size then
    some
      { severity := .warning
        code := .tableNearCapacity
        message := "routing table " ++ Text.natural (t.size * 100 / capacity) ++ "% full"
        subject := some ("chip " ++ c.description)
        notes := [Text.natural t.size ++ " of " ++ Text.natural capacity ++ " entries used"]
        help := [] }
  else none

/-- Check all tables against their routers; the first that is too large is the error. -/
def checkCapacity (f : Fabric) (t : RoutingTables) : Except PipelineError Unit :=
  match t.toList.findSome? fun e => overflow? f e.1 e.2 with
  | some e => .error e
  | none => .ok ()

/-- The warnings about tables that are nearly full, up to the first that is too large. -/
def capacityWarnings (f : Fabric) (t : RoutingTables) : List Diagnostic :=
  (t.toList.takeWhile fun e => (overflow? f e.1 e.2).isNone).filterMap
    fun e => fullWarning? f e.1 e.2

end RoutingTables

namespace RoutingJob

/-- Route all connections. -/
def route (job : RoutingJob) (kind : RouterKind) : Except PipelineError RoutingTables := do
  let tables ← job.tables kind
  tables.checkCapacity job.fabric
  return tables

/-- What is found while connections are routed. -/
def routeWarnings (job : RoutingJob) (kind : RouterKind) : List Diagnostic :=
  match job.tables kind with
  | .ok tables => tables.capacityWarnings job.fabric
  | .error _ => []

end RoutingJob

end SpikeMesh
