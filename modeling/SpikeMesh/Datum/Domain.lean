import SpikeMesh.Datum.Decode
import SpikeMesh.Error
import SpikeMesh.Id

set_option autoImplicit false

/-! # Coordinates, costs and ids as data

The data trees of the small types that the larger artifacts consist of. -/

namespace SpikeMesh

/-! ## Coordinates -/

namespace ChipCoord

def toDatum (c : ChipCoord) : Datum := .text c.text

/-- The coordinate that a text denotes, if it is one. -/
def ofText? (s : String) : Option ChipCoord := (parse s).toOption

def ofDatum? (d : Datum) : Option ChipCoord := d.toText? >>= ofText?

end ChipCoord

namespace Location

def toDatum (l : Location) : Datum := .text l.text

/-- The location that a text denotes, if it is one. -/
def ofText? (s : String) : Option Location := (parse s).toOption

def ofDatum? (d : Datum) : Option Location := d.toText? >>= ofText?

end Location

namespace Direction

def toDatum (d : Direction) : Datum := .text d.text

def ofDatum? (d : Datum) : Option Direction := d.toEnum? text all

end Direction

/-! ## Ids -/

namespace Id

variable {kind : IdKind}

def toDatum (id : Id kind) : Datum := .natural id.raw.toNat

def ofDatum? (d : Datum) : Option (Id kind) := d.toUInt32?.map Id.mk

/-- The id as a key. -/
def text (id : Id kind) : String := Text.natural id.raw.toNat

/-- The id that a key denotes. -/
def ofText? (s : String) : Option (Id kind) := (Datum.numberKey? s).map Id.mk

end Id

/-! ## Costs -/

namespace Cost

def toDatum (c : Cost) : Datum := .table [
  ("cpu_cycles", .natural c.cpuCycles.toNat),
  ("local_memory", .natural c.localMemory.toNat),
  ("shared_memory", .natural c.sharedMemory.toNat)]

def ofDatum? (d : Datum) : Option Cost := do
  let f ← d.toFields? ["cpu_cycles", "local_memory", "shared_memory"]
  return {
    cpuCycles := ← f.required "cpu_cycles" Datum.toUInt64?
    localMemory := ← f.required "local_memory" Datum.toUInt64?
    sharedMemory := ← f.required "shared_memory" Datum.toUInt64? }

end Cost

namespace Resource

/-- The resource as data. -/
def text : Resource → String
  | cpuCycles => "CpuCycles"
  | localMemory => "LocalMemory"
  | sharedMemory => "SharedMemory"
  | cores => "Cores"

/-- All resources. -/
def all : List Resource := [cpuCycles, localMemory, sharedMemory, cores]

def toDatum (r : Resource) : Datum := .text r.text

def ofDatum? (d : Datum) : Option Resource := d.toEnum? text all

end Resource

namespace TagKind

def toDatum (k : TagKind) : Datum := .text k.text

def ofDatum? (d : Datum) : Option TagKind := d.toEnum? text [notification, reverse]

end TagKind

end SpikeMesh
