import SpikeMesh.Routing.Compile
import SpikeMesh.Routing.Travel

set_option autoImplicit false

/-! # Checking compiled tables

Every link that an entry uses must lead to a chip, no two entries of a chip may match the same
packet, and the packets of every connection must reach all placed targets without a cycle on
their way. -/

namespace SpikeMesh

/-! ## Entries -/

namespace RoutingTables

/-- The first link of an entry that leads nowhere, as an error. -/
def danglingLink? (f : Fabric) (c : ChipCoord) (e : RoutingEntry) : Option PipelineError :=
  (e.links.toList.find? fun d =>
    match f.link? c d with
    | some link => !f.contains link.destination
    | none => true).map fun d => .nonexistentLink c d e.key

/-- Every link of every entry leads to a chip. -/
def checkLinks (f : Fabric) (t : RoutingTables) : Except PipelineError Unit :=
  match t.toList.findSome? fun (c, table) => table.entries.findSome? (danglingLink? f c) with
  | some e => .error e
  | none => .ok ()

/-- The first two entries of a table that match the same packet: the first entry that has a
    partner, with the first of its partners. -/
def collision? : List RoutingEntry → Option (RoutingEntry × RoutingEntry)
  | [] => none
  | a :: rest =>
    match rest.find? fun b => a.routingKey.overlaps b.routingKey with
    | some b => some (a, b)
    | none => collision? rest

/-- No two entries of a chip match the same packet. -/
def checkCollisions (t : RoutingTables) : Except PipelineError Unit :=
  match t.toList.findSome? fun (c, table) => (collision? table.entries).map fun e => (c, e) with
  | some (c, a, b) => .error (.keyCollision c a.key b.key)
  | none => .ok ()

end RoutingTables

/-! ## Connections -/

namespace RoutingJob

/-- The first placed target of a connection to which nothing is delivered. -/
def missedTarget? (job : RoutingJob) (delivered : List Location) (pc : PartitionedConnection) :
    Option Location :=
  (pc.targets.filterMap job.placements.get?).find? fun l => !delivered.contains l

/-- The packets of a connection travel without a cycle and reach all placed targets. The function
    that finds strongly connected components is given. -/
def checkConnection (job : RoutingJob) (components : HopGraph → List (List ChipCoord))
    (tables : RoutingTables) (pc : PartitionedConnection) : Except PipelineError Unit :=
  match job.placements.get? pc.source, job.keys.get? pc.id with
  | some source, some key =>
    let travel : Travel := ⟨tables, job.fabric, key.key⟩
    let traversal := travel.trace source.chip
    match traversal.hops.cycle? components with
    | some chips => .error (.routingCycle key.key chips)
    | none =>
      match job.missedTarget? traversal.delivered pc with
      | some missed => .error (.routeUnreachable key.key source.chip missed.chip)
      | none => .ok ()
  | _, _ =>
    .error (.invalidGraph ("partitioned connection " ++ Text.natural pc.id.index
      ++ " is unplaced or unkeyed"))

/-- Check tables against what was to be routed, with a function that finds strongly connected
    components. -/
def validateWith (job : RoutingJob) (components : HopGraph → List (List ChipCoord))
    (tables : RoutingTables) : Except PipelineError Unit := do
  tables.checkLinks job.fabric
  tables.checkCollisions
  job.partitioned.connections.toList.forM (job.checkConnection components tables)

/-- Check tables against what was to be routed. -/
def validate (job : RoutingJob) (tables : RoutingTables) : Except PipelineError Unit :=
  job.validateWith HopGraph.components tables

end RoutingJob

end SpikeMesh
