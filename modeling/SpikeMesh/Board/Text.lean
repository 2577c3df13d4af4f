import SpikeMesh.Board.Basic

set_option autoImplicit false

/-! # Provenance as data -/

namespace SpikeMesh.ProvenanceItem

def toDatum (item : ProvenanceItem) : Datum := .table [
  ("location", item.location.toDatum),
  ("image", .text item.image),
  ("name", .text item.name),
  ("value", .natural item.value.toNat)]

def ofDatum? (d : Datum) : Option ProvenanceItem := do
  let f ← d.toFields? ["location", "image", "name", "value"]
  return {
    location := ← f.required "location" Location.ofDatum?
    image := ← f.required "image" Datum.toText?
    name := ← f.required "name" Datum.toText?
    value := ← f.required "value" Datum.toUInt64? }

end SpikeMesh.ProvenanceItem
