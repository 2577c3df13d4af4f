import SpikeMesh.Digest.ContentHash
import SpikeMesh.Graph.Model
import SpikeMesh.Mapping.Placements
import SpikeMesh.Routing.Table
import SpikeMesh.Tags.Allocation

set_option autoImplicit false

/-! # Mappings

The compiled form of a graph: its slices and their traffic, where the slices run, the keys of
the traffic, the routing tables and the tags. A fingerprint tells mappings apart; it leaves out
the partitioned graph. -/

namespace SpikeMesh

/-- The stages of a compilation. -/
inductive Stage
  | partition
  | edgeFilter
  | place
  | keys
  | route
  | validate
  | tags
deriving DecidableEq, Repr

/-- The stage in reports. -/
def Stage.text : Stage → String
  | partition => "partition"
  | edgeFilter => "edge_filter"
  | place => "place"
  | keys => "keys"
  | route => "route"
  | validate => "validate"
  | tags => "tags"

/-- A compiled graph. -/
structure Mapping where
  partitioned : PartitionedGraph
  placements : Placements
  keys : KeyAssignments
  routingTables : RoutingTables
  tags : TagAllocations
  /-- The stages whose times were taken, if times were asked for. -/
  timedStages : Option (List Stage)
deriving DecidableEq

namespace Mapping

/-! ## Fingerprints -/

/-- The byte between two sections. -/
def sectionMark : UInt8 := 0xfe

/-- The bytes of a chip's coordinate. -/
def chipBytes (c : ChipCoord) : List UInt8 := littleEndian32 c.x ++ littleEndian32 c.y

/-- The bytes of a location. -/
def locationBytes (l : Location) : List UInt8 := chipBytes l.chip ++ littleEndian32 l.core

/-- The bytes of a port. -/
def portBytes (port : UInt16) : List UInt8 := [port.toUInt8, (port >>> 8).toUInt8]

/-- A set of directions as the bits of a byte. -/
def linkBits (links : Std.ExtTreeSet Direction) : UInt8 :=
  UInt8.ofNat (links.toList.foldl (fun bits d => bits ||| 1 <<< d.index) 0)

/-- The bytes of a routing entry. -/
def entryBytes (e : RoutingEntry) : List UInt8 :=
  littleEndian32 e.key ++ littleEndian32 e.mask ++ [linkBits e.links]
    ++ littleEndian32 (UInt32.ofNat e.cores.size) ++ e.cores.toList.flatMap littleEndian32

/-- The bytes of a routing table. -/
def tableBytes (c : ChipCoord) (t : RoutingTable) : List UInt8 :=
  chipBytes c ++ littleEndian32 (UInt32.ofNat t.size) ++ t.entries.flatMap entryBytes

/-- The bytes of a notification tag. -/
def notificationBytes (t : NotificationTag) : List UInt8 :=
  littleEndian32 t.unit.raw ++ littleEndian32 t.tag ++ t.host.toUTF8.data.toList ++ [0]
    ++ portBytes t.port

/-- The bytes of a reverse tag. -/
def reverseBytes (t : ReverseTag) : List UInt8 :=
  littleEndian32 t.unit.raw ++ littleEndian32 t.tag ++ portBytes t.port
    ++ locationBytes t.destination

/-- The bytes of which the fingerprint is taken. -/
def fingerprintBytes (m : Mapping) : List UInt8 :=
  (m.placements.toList.flatMap fun e => littleEndian32 e.1.raw ++ locationBytes e.2)
    ++ [sectionMark]
    ++ (m.keys.toList.flatMap fun e =>
      littleEndian32 e.1.raw ++ littleEndian32 e.2.key ++ littleEndian32 e.2.mask)
    ++ [sectionMark]
    ++ (m.routingTables.toList.flatMap fun e => tableBytes e.1 e.2)
    ++ [sectionMark]
    ++ m.tags.notification.flatMap notificationBytes
    ++ m.tags.reverse.flatMap reverseBytes

/-- The hash by which mappings are told apart. -/
def fingerprint (m : Mapping) : ContentHash := .ofBytes m.fingerprintBytes

/-! ## As data -/

def toDatum (m : Mapping) : Datum := .table [
  ("partitioned", m.partitioned.toDatum),
  ("placements", m.placements.toDatum),
  ("keys", m.keys.toDatum),
  ("routing_tables", m.routingTables.toDatum),
  ("tags", m.tags.toDatum)]

def ofDatum? (d : Datum) : Option Mapping := do
  let f ← d.toFields? ["partitioned", "placements", "keys", "routing_tables", "tags"]
  return {
    partitioned := ← f.required "partitioned" PartitionedGraph.ofDatum?
    placements := ← f.required "placements" Placements.ofDatum?
    keys := ← f.required "keys" KeyAssignments.ofDatum?
    routingTables := ← f.required "routing_tables" RoutingTables.ofDatum?
    tags := ← f.required "tags" TagAllocations.ofDatum?
    timedStages := none }

end Mapping

end SpikeMesh
