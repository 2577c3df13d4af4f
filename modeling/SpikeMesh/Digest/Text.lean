import SpikeMesh.Datum.Decode
import SpikeMesh.Digest.ContentHash

set_option autoImplicit false

/-! # Content hashes as data

A hash is written as the list of its sixteen bytes. -/

namespace SpikeMesh.ContentHash

/-- The hash with the given bytes, if they are sixteen. -/
def ofBytes? (bytes : List UInt8) : Option ContentHash :=
  if h : bytes.length = 16 then some ⟨bytes, h⟩ else none

def toDatum (h : ContentHash) : Datum := .ofList (fun b => .natural b.toNat) h.bytes

def ofDatum? (d : Datum) : Option ContentHash := d.toList? Datum.toUInt8? >>= ofBytes?

end SpikeMesh.ContentHash
