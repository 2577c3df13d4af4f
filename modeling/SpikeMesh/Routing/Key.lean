import SpikeMesh.Text.Hex
import SpikeMesh.Config.Basic
import SpikeMesh.Datum.Domain
import SpikeMesh.Graph.Partitioned

set_option autoImplicit false

/-! # Routing keys

Each partitioned connection has a key and a mask of the key's significant bits. A packet
belongs to the connection if its key agrees with the connection's in these bits. Keys are given
out within a number of bits, either one per connection or a block with one key per source
atom. Other ways of giving them out are not modelled. -/

namespace SpikeMesh

/-- A key with its significant bits. -/
structure RoutingKey where
  key : UInt32
  mask : UInt32
deriving DecidableEq, Repr

namespace RoutingKey

/-- Whether a packet belongs to the key. -/
def isMatch (k : RoutingKey) (packet : UInt32) : Bool :=
  packet &&& k.mask == k.key &&& k.mask

/-- Whether some packet belongs to both keys: they agree in the bits that are significant for
    both. -/
def overlaps (a b : RoutingKey) : Bool :=
  let common := a.mask &&& b.mask
  a.key &&& common == b.key &&& common

/-- The key and the mask in messages. -/
def description (k : RoutingKey) : String := Text.hexWord k.key ++ "/" ++ Text.hexWord k.mask

def toDatum (k : RoutingKey) : Datum := .table [
  ("key", .natural k.key.toNat),
  ("mask", .natural k.mask.toNat)]

def ofDatum? (d : Datum) : Option RoutingKey := do
  let f ← d.toFields? ["key", "mask"]
  return {
    key := ← f.required "key" Datum.toUInt32?
    mask := ← f.required "mask" Datum.toUInt32? }

end RoutingKey

/-- The key of each partitioned connection. -/
structure KeyAssignments where
  byConnection : Std.ExtTreeMap PartitionedConnectionId RoutingKey
deriving DecidableEq

namespace KeyAssignments

/-- No keys. -/
def empty : KeyAssignments := ⟨∅⟩

/-- The keys of listed connections; of two for one connection the later one counts. -/
def ofList (pairs : List (PartitionedConnectionId × RoutingKey)) : KeyAssignments :=
  ⟨pairs.foldl (fun m e => m.insert e.1 e.2) ∅⟩

/-- The key of a connection. -/
def get? (k : KeyAssignments) (id : PartitionedConnectionId) : Option RoutingKey :=
  k.byConnection[id]?

/-- All keys in the order of the connections. -/
def toList (k : KeyAssignments) : List (PartitionedConnectionId × RoutingKey) :=
  k.byConnection.toList

/-- The number of connections with a key. -/
def size (k : KeyAssignments) : Nat := k.byConnection.size

def toDatum (k : KeyAssignments) : Datum := .table [
  ("by_connection", .ofMap Id.text RoutingKey.toDatum k.byConnection)]

def ofDatum? (d : Datum) : Option KeyAssignments := do
  let f ← d.toFields? ["by_connection"]
  return {
    byConnection := ← f.required "by_connection" (Datum.toMap? Id.ofText? RoutingKey.ofDatum?) }

end KeyAssignments

/-! ## Giving out keys -/

/-- How keys are given out, and within how many bits. -/
structure KeyAllocator where
  kind : KeyAllocatorKind
  widthBits : UInt8
deriving DecidableEq, Repr

namespace KeyAllocator

/-- The number of bits of a key: the width, but no more than a key has. -/
def bits (a : KeyAllocator) : Nat := min a.widthBits.toNat 32

/-- The number of keys. -/
def capacity (a : KeyAllocator) : Nat := 1 <<< a.bits

/-- The mask of all bits of a key. -/
def fullMask (a : KeyAllocator) : UInt32 := UInt32.ofNat (a.capacity - 1)

/-- The error that there are too few keys. -/
def exhausted (a : KeyAllocator) (requested : Nat) : PipelineError :=
  .keySpaceExhausted a.widthBits (UInt64.ofNat requested) (UInt64.ofNat a.capacity)

/-- One key per connection: the position of the connection. -/
def sequential (a : KeyAllocator) (p : PartitionedGraph) :
    Except PipelineError KeyAssignments :=
  if a.capacity < p.connections.size then .error (a.exhausted p.connections.size)
  else .ok (.ofList (p.connections.toList.zipIdx.map fun (pc, i) =>
    (pc.id, ⟨UInt32.ofNat i, a.fullMask⟩)))

/-- The least power of two that is not below a number. -/
def powerOfTwoFrom (n : Nat) : Nat := if n ≤ 1 then 1 else 1 <<< ((n - 1).log2 + 1)

/-- The number of keys that a connection needs: a power of two, and at least one key per atom
    of its source slice. -/
def blockSize (p : PartitionedGraph) (pc : PartitionedConnection) : Nat :=
  match p.slice? pc.source with
  | some s => powerOfTwoFrom s.atoms.size.toNat
  | none => 1

/-- The first multiple of a block size that is not below a number. -/
def alignUp (n block : Nat) : Nat := (n + block - 1) / block * block

/-- The blocks of keys of connections, from a first free key on. Each block starts at the next
    multiple of its size. -/
def blocksFrom (a : KeyAllocator) (p : PartitionedGraph) :
    Nat → List PartitionedConnection →
      Except PipelineError (List (PartitionedConnectionId × RoutingKey))
  | _, [] => .ok []
  | free, pc :: rest => do
    let block := blockSize p pc
    let base := alignUp free block
    if a.capacity < base + block then .error (a.exhausted (base + block))
    else
      let key : RoutingKey :=
        ⟨UInt32.ofNat base, a.fullMask &&& ~~~(UInt32.ofNat (block - 1))⟩
      return (pc.id, key) :: (← blocksFrom a p (base + block) rest)

/-- A block of keys per connection, one key per atom of the source slice. -/
def atomBlocks (a : KeyAllocator) (p : PartitionedGraph) :
    Except PipelineError KeyAssignments := do
  return .ofList (← a.blocksFrom p 0 p.connections.toList)

/-- Give every partitioned connection a key. -/
def allocate (a : KeyAllocator) (p : PartitionedGraph) : Except PipelineError KeyAssignments :=
  match a.kind with
  | .sequential => a.sequential p
  | .atomBlock => a.atomBlocks p

end KeyAllocator

end SpikeMesh
