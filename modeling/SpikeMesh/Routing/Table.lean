import SpikeMesh.Routing.Key
import SpikeMesh.Lists
import Std.Data.ExtTreeSet

set_option autoImplicit false

/-! # Routing tables

Each chip has a table of entries. A packet follows the first entry to which it belongs: it is
copied to each of the entry's links and delivered to each of its cores. A packet that belongs
to no entry is dropped. -/

namespace SpikeMesh

/-- What happens to the packets of a key on a chip. -/
structure RoutingEntry where
  key : UInt32
  mask : UInt32
  links : Std.ExtTreeSet Direction
  cores : Std.ExtTreeSet UInt32
deriving DecidableEq

namespace RoutingEntry

/-- The key with its mask. -/
def routingKey (e : RoutingEntry) : RoutingKey := ⟨e.key, e.mask⟩

def toDatum (e : RoutingEntry) : Datum := .table [
  ("key", .natural e.key.toNat),
  ("mask", .natural e.mask.toNat),
  ("links", .ofSet Direction.toDatum e.links),
  ("cores", .ofSet (fun c => .natural c.toNat) e.cores)]

def ofDatum? (d : Datum) : Option RoutingEntry := do
  let f ← d.toFields? ["key", "mask", "links", "cores"]
  return {
    key := ← f.required "key" Datum.toUInt32?
    mask := ← f.required "mask" Datum.toUInt32?
    links := ← f.required "links" (Datum.toSet? Direction.ofDatum?)
    cores := ← f.required "cores" (Datum.toSet? Datum.toUInt32?) }

end RoutingEntry

/-- The entries of one chip, in the order in which packets are compared with them. -/
structure RoutingTable where
  entries : List RoutingEntry
deriving DecidableEq

namespace RoutingTable

/-- The table without entries. -/
def empty : RoutingTable := ⟨[]⟩

/-- The entry that a packet follows. -/
def lookup? (t : RoutingTable) (packet : UInt32) : Option RoutingEntry :=
  t.entries.find? fun e => e.routingKey.isMatch packet

/-- The number of entries. -/
def size (t : RoutingTable) : Nat := t.entries.length

/-- Whether there are no entries. -/
def isEmpty (t : RoutingTable) : Bool := t.entries.isEmpty

def toDatum (t : RoutingTable) : Datum := .table [
  ("entries", .ofList RoutingEntry.toDatum t.entries)]

def ofDatum? (d : Datum) : Option RoutingTable := do
  let f ← d.toFields? ["entries"]
  return { entries := ← f.required "entries" (Datum.toList? RoutingEntry.ofDatum?) }

end RoutingTable

/-- The tables of all chips that carry traffic. -/
structure RoutingTables where
  tables : Std.ExtTreeMap ChipCoord RoutingTable
deriving DecidableEq

namespace RoutingTables

/-- No tables. -/
def empty : RoutingTables := ⟨∅⟩

/-- The table of a chip. -/
def table? (t : RoutingTables) (c : ChipCoord) : Option RoutingTable := t.tables[c]?

/-- The entry that a packet follows on a chip. -/
def lookup? (t : RoutingTables) (c : ChipCoord) (packet : UInt32) : Option RoutingEntry :=
  t.table? c >>= fun table => table.lookup? packet

/-- The tables with one more entry at the end of a chip's table. -/
def push (t : RoutingTables) (c : ChipCoord) (e : RoutingEntry) : RoutingTables :=
  ⟨t.tables.insert c ⟨(t.tables.getD c .empty).entries ++ [e]⟩⟩

/-- All tables in the order of the chips. -/
def toList (t : RoutingTables) : List (ChipCoord × RoutingTable) := t.tables.toList

/-- The chips whose table has an entry. -/
def chipsWithEntries (t : RoutingTables) : List ChipCoord :=
  (t.toList.filter fun e => !e.2.isEmpty).map Prod.fst

/-- The number of entries of all tables. -/
def totalEntries (t : RoutingTables) : Nat := total (fun e => e.2.size) t.toList

def toDatum (t : RoutingTables) : Datum := .table [
  ("tables", .ofMap ChipCoord.text RoutingTable.toDatum t.tables)]

def ofDatum? (d : Datum) : Option RoutingTables := do
  let f ← d.toFields? ["tables"]
  return { tables := ← f.required "tables" (Datum.toMap? ChipCoord.ofText? RoutingTable.ofDatum?) }

end RoutingTables

end SpikeMesh
