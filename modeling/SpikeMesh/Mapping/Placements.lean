import SpikeMesh.Datum.Domain
import Std.Data.ExtTreeSet

set_option autoImplicit false

/-! # Placements

The core on which each slice runs. -/

namespace SpikeMesh

/-- The location of each placed slice. -/
structure Placements where
  bySlice : Std.ExtTreeMap SliceId Location
deriving DecidableEq

namespace Placements

/-- No placed slices. -/
def empty : Placements := ⟨∅⟩

/-- The placements of listed slices; of two for one slice the later one counts. -/
def ofList (pairs : List (SliceId × Location)) : Placements :=
  ⟨pairs.foldl (fun m e => m.insert e.1 e.2) ∅⟩

/-- Where a slice was placed. -/
def get? (p : Placements) (s : SliceId) : Option Location := p.bySlice[s]?

/-- The placements with one more slice. -/
def insert (p : Placements) (s : SliceId) (l : Location) : Placements := ⟨p.bySlice.insert s l⟩

/-- All placed slices in their order. -/
def toList (p : Placements) : List (SliceId × Location) := p.bySlice.toList

/-- The number of placed slices. -/
def size (p : Placements) : Nat := p.bySlice.size

/-- The chips that hold a slice, in their order. -/
def chips (p : Placements) : List ChipCoord :=
  (p.toList.foldl (fun s e => s.insert e.2.chip) (∅ : Std.ExtTreeSet ChipCoord)).toList

def toDatum (p : Placements) : Datum := .table [
  ("by_slice", .ofMap Id.text Location.toDatum p.bySlice)]

def ofDatum? (d : Datum) : Option Placements := do
  let f ← d.toFields? ["by_slice"]
  return { bySlice := ← f.required "by_slice" (Datum.toMap? Id.ofText? Location.ofDatum?) }

end Placements

end SpikeMesh
