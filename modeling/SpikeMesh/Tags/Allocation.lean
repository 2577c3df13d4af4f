import SpikeMesh.Config.Basic
import SpikeMesh.Mapping.Placements
import SpikeMesh.Mapping.Slicing
import SpikeMesh.Tags.Pool

set_option autoImplicit false

/-! # Allocating tags

The tags that the units of a graph ask for. Requests that name a tag are served before those
that do not, each in the order of the units. A unit with a reverse tag must run on one core,
to which the traffic is delivered. -/

namespace SpikeMesh

/-! ## Allocated tags -/

/-- A tag under which packets of a unit go out to a host. -/
structure NotificationTag where
  unit : UnitId
  tag : UInt32
  host : String
  port : UInt16
deriving DecidableEq, Repr

/-- A tag under which traffic on a port is delivered to the core of a unit. -/
structure ReverseTag where
  unit : UnitId
  tag : UInt32
  port : UInt16
  destination : Location
deriving DecidableEq, Repr

/-- All tags of a graph, in the order in which they were allocated. -/
structure TagAllocations where
  notification : List NotificationTag
  reverse : List ReverseTag
deriving DecidableEq, Repr

namespace NotificationTag

def toDatum (t : NotificationTag) : Datum := .table [
  ("unit", t.unit.toDatum),
  ("tag", .natural t.tag.toNat),
  ("host", .text t.host),
  ("port", .natural t.port.toNat)]

def ofDatum? (d : Datum) : Option NotificationTag := do
  let f ← d.toFields? ["unit", "tag", "host", "port"]
  return {
    unit := ← f.required "unit" Id.ofDatum?
    tag := ← f.required "tag" Datum.toUInt32?
    host := ← f.required "host" Datum.toText?
    port := ← f.required "port" Datum.toUInt16? }

end NotificationTag

namespace ReverseTag

def toDatum (t : ReverseTag) : Datum := .table [
  ("unit", t.unit.toDatum),
  ("tag", .natural t.tag.toNat),
  ("port", .natural t.port.toNat),
  ("destination", t.destination.toDatum)]

def ofDatum? (d : Datum) : Option ReverseTag := do
  let f ← d.toFields? ["unit", "tag", "port", "destination"]
  return {
    unit := ← f.required "unit" Id.ofDatum?
    tag := ← f.required "tag" Datum.toUInt32?
    port := ← f.required "port" Datum.toUInt16?
    destination := ← f.required "destination" Location.ofDatum? }

end ReverseTag

namespace TagAllocations

/-- No tags. -/
def empty : TagAllocations := ⟨[], []⟩

/-- Whether there are no tags. -/
def isEmpty (t : TagAllocations) : Bool := t.notification.isEmpty && t.reverse.isEmpty

def toDatum (t : TagAllocations) : Datum := .table [
  ("notification", .ofList NotificationTag.toDatum t.notification),
  ("reverse", .ofList ReverseTag.toDatum t.reverse)]

def ofDatum? (d : Datum) : Option TagAllocations := do
  let f ← d.toFields? ["notification", "reverse"]
  return {
    notification := ← f.required "notification" (Datum.toList? NotificationTag.ofDatum?)
    reverse := ← f.required "reverse" (Datum.toList? ReverseTag.ofDatum?) }

end TagAllocations

/-! ## Requests -/

/-- Where the packets of a tag go. -/
inductive TagTarget
  | host (host : String) (port : UInt16)
  | core (port : UInt16) (destination : Location)
deriving DecidableEq, Repr

/-- A request for a tag. -/
structure TagRequest where
  unit : UnitId
  subject : String
  /-- The tag asked for; any free one if none. -/
  tag : Option UInt32
  target : TagTarget
deriving DecidableEq, Repr

/-- The core of a unit with a reverse tag, which must be one. -/
def reverseDestination (p : PartitionedGraph) (placements : Placements) (id : UnitId)
    (u : GraphUnit) : Except PipelineError Location :=
  match p.slicesOf id with
  | [s] =>
    match placements.get? s with
    | some l => .ok l
    | none =>
      .error (.invalidGraph ("slice " ++ Text.natural s.index ++ " of " ++ u.subject
        ++ " is unplaced"))
  | ss => .error (.multiCoreReverseTag u.label ss.length)

/-- The requests of a unit. -/
def unitRequests (p : PartitionedGraph) (placements : Placements) (id : UnitId)
    (u : GraphUnit) : Except PipelineError (List TagRequest) := do
  let notification := u.notificationTag.toList.map fun r =>
    TagRequest.mk id u.subject r.tag (.host r.host r.port)
  match u.reverseTag with
  | none => return notification
  | some r =>
    let destination ← reverseDestination p placements id u
    return notification ++ [⟨id, u.subject, r.tag, .core r.port destination⟩]

/-- The requests of all units in the order of the units. -/
def ApplicationGraph.tagRequests (g : ApplicationGraph) (p : PartitionedGraph)
    (placements : Placements) : Except PipelineError (List TagRequest) := do
  return (← g.numberedUnits.mapM fun e => unitRequests p placements e.1 e.2).flatten

/-! ## Serving requests -/

/-- The two pools and what was allocated from them. -/
structure TagLedger where
  notificationPool : TagPool
  reversePool : TagPool
  allocations : TagAllocations

namespace TagLedger

/-- Nothing is allocated yet. -/
def start (config : TagConfig) : TagLedger where
  notificationPool := .new .notification config.notificationMin config.maxTag
  reversePool := .new .reverse config.reverseMin config.maxTag
  allocations := .empty

/-- Serve a request from the pool of its kind. -/
def serve (ledger : TagLedger) (r : TagRequest) : Except PipelineError TagLedger :=
  match r.target with
  | .host host port => do
    let (tag, pool) ← ledger.notificationPool.allocate r.tag r.subject
    let allocated := ledger.allocations.notification ++ [⟨r.unit, tag, host, port⟩]
    return { ledger with
      notificationPool := pool
      allocations := { ledger.allocations with notification := allocated } }
  | .core port destination => do
    let (tag, pool) ← ledger.reversePool.allocate r.tag r.subject
    let allocated := ledger.allocations.reverse ++ [⟨r.unit, tag, port, destination⟩]
    return { ledger with
      reversePool := pool
      allocations := { ledger.allocations with reverse := allocated } }

end TagLedger

/-- Requests in the order in which they are served: those that name a tag first. -/
def servingOrder (requests : List TagRequest) : List TagRequest :=
  requests.filter (fun r => r.tag.isSome) ++ requests.filter fun r => r.tag.isNone

/-- Allocate all tags that a graph asks for. -/
def ApplicationGraph.allocateTags (g : ApplicationGraph) (p : PartitionedGraph)
    (placements : Placements) (config : TagConfig) : Except PipelineError TagAllocations := do
  let requests ← g.tagRequests p placements
  let ledger ← (servingOrder requests).foldlM TagLedger.serve (.start config)
  return ledger.allocations

end SpikeMesh
