import SpikeMesh.Datum.Domain

set_option autoImplicit false

/-! # Types with a form as data

The classes of the types whose values can be written as data trees and read back, with the
instances of numbers, texts, lists and the small types of the domain. -/

namespace SpikeMesh

/-- Types whose values can be written as data. -/
class ToDatum (α : Type) where
  toDatum : α → Datum

/-- Types whose values can be read from data. -/
class OfDatum (α : Type) where
  ofDatum? : Datum → Option α

/-! ## General types -/

instance : ToDatum Datum := ⟨id⟩
instance : OfDatum Datum := ⟨some⟩

instance : ToDatum Bool := ⟨.bool⟩
instance : OfDatum Bool := ⟨Datum.toBool?⟩

instance : ToDatum String := ⟨.text⟩
instance : OfDatum String := ⟨Datum.toText?⟩

instance : ToDatum Nat := ⟨.natural⟩
instance : ToDatum Int := ⟨.int⟩

instance : ToDatum UInt8 := ⟨fun n => .natural n.toNat⟩
instance : OfDatum UInt8 := ⟨Datum.toUInt8?⟩

instance : ToDatum UInt16 := ⟨fun n => .natural n.toNat⟩
instance : OfDatum UInt16 := ⟨Datum.toUInt16?⟩

instance : ToDatum UInt32 := ⟨fun n => .natural n.toNat⟩
instance : OfDatum UInt32 := ⟨Datum.toUInt32?⟩

instance : ToDatum UInt64 := ⟨fun n => .natural n.toNat⟩
instance : OfDatum UInt64 := ⟨Datum.toUInt64?⟩

section

variable {α β : Type}

instance [ToDatum α] : ToDatum (Option α) := ⟨.ofOption ToDatum.toDatum⟩
instance [OfDatum α] : OfDatum (Option α) := ⟨Datum.toOption? OfDatum.ofDatum?⟩

instance [ToDatum α] : ToDatum (List α) := ⟨.ofList ToDatum.toDatum⟩
instance [OfDatum α] : OfDatum (List α) := ⟨Datum.toList? OfDatum.ofDatum?⟩

instance [ToDatum α] [ToDatum β] : ToDatum (α × β) :=
  ⟨fun p => .list [ToDatum.toDatum p.1, ToDatum.toDatum p.2]⟩

/-- A pair, from a list of two. -/
def pairOfDatum? [OfDatum α] [OfDatum β] : Datum → Option (α × β)
  | .list [a, b] => do return (← OfDatum.ofDatum? a, ← OfDatum.ofDatum? b)
  | _ => none

instance [OfDatum α] [OfDatum β] : OfDatum (α × β) := ⟨pairOfDatum?⟩

instance [Ord α] [Std.TransOrd α] [ToDatum α] : ToDatum (Std.ExtTreeSet α) :=
  ⟨.ofSet ToDatum.toDatum⟩

end

/-! ## Small types of the domain -/

instance : ToDatum ChipCoord := ⟨ChipCoord.toDatum⟩
instance : OfDatum ChipCoord := ⟨ChipCoord.ofDatum?⟩

instance : ToDatum Location := ⟨Location.toDatum⟩
instance : OfDatum Location := ⟨Location.ofDatum?⟩

instance : ToDatum Direction := ⟨Direction.toDatum⟩
instance : OfDatum Direction := ⟨Direction.ofDatum?⟩

instance {kind : IdKind} : ToDatum (Id kind) := ⟨Id.toDatum⟩
instance {kind : IdKind} : OfDatum (Id kind) := ⟨Id.ofDatum?⟩

instance : ToDatum Cost := ⟨Cost.toDatum⟩
instance : OfDatum Cost := ⟨Cost.ofDatum?⟩

instance : ToDatum Resource := ⟨Resource.toDatum⟩
instance : OfDatum Resource := ⟨Resource.ofDatum?⟩

instance : ToDatum TagKind := ⟨TagKind.toDatum⟩
instance : OfDatum TagKind := ⟨TagKind.ofDatum?⟩

end SpikeMesh
