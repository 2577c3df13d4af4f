import SpikeMesh.Fabric.Basic
import SpikeMesh.Routing.HopGraph
import SpikeMesh.Routing.Table

set_option autoImplicit false

/-! # How packets travel

The chips to which the tables forward a packet, the cores to which it is delivered, and the trace
of a packet from a chip on: the hops that it takes and all that is delivered. The chips to which it
is forwarded wait in a queue, each of them once. -/

namespace SpikeMesh

/-- Forwarding of one packet. -/
structure Travel where
  tables : RoutingTables
  fabric : Fabric
  packet : UInt32

/-- What is known of where a packet travels: the hops so far and what was delivered, the chips that
    were seen, and those of them from which it is still to be followed. -/
structure Traversal where
  hops : HopGraph
  delivered : List Location
  seen : Std.ExtTreeSet ChipCoord
  queue : List ChipCoord

namespace Traversal

/-- The packet is at its source. -/
def start (source : ChipCoord) : Traversal :=
  ⟨.singleton source, [], (∅ : Std.ExtTreeSet ChipCoord).insert source, [source]⟩

/-- A hop from a chip to the next one, which waits in the queue if it was not seen before. -/
def hop (chip : ChipCoord) (s : Traversal) (next : ChipCoord) : Traversal :=
  let s := { s with hops := s.hops.addHop chip next }
  if s.seen.contains next then s
  else { s with seen := s.seen.insert next, queue := s.queue ++ [next] }

end Traversal

namespace Travel

/-- The chips to which a chip forwards the packet, in the order of the links. -/
def hops (t : Travel) (c : ChipCoord) : List ChipCoord :=
  match t.tables.lookup? c t.packet with
  | some e => (e.links.toList.filterMap fun d => t.fabric.link? c d).map Link.destination
  | none => []

/-- The cores of a chip to which the packet is delivered. -/
def deliveries (t : Travel) (c : ChipCoord) : List Location :=
  match t.tables.lookup? c t.packet with
  | some e => e.cores.toList.map fun core => ⟨c, core⟩
  | none => []

/-- Follow the packet from the first chip of the queue. -/
def step (t : Travel) (s : Traversal) : Traversal :=
  match s.queue with
  | [] => s
  | chip :: queue =>
    (t.hops chip).foldl (Traversal.hop chip)
      { s with delivered := s.delivered ++ t.deliveries chip, queue }

/-- Where the packet travels from a chip on. All chips that are seen, but the first, are ends of
    links, so after as many steps the queue is empty. -/
def trace (t : Travel) (source : ChipCoord) : Traversal :=
  Nat.repeat t.step (t.fabric.linkCount + 1) (.start source)

end Travel

end SpikeMesh
