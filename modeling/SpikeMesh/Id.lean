import Std.Data.ExtTreeMap

set_option autoImplicit false

/-! # Ids

Units, connections, slices and partitioned connections are numbered in the order in which they
are added. The kind of an id is part of its type, so that ids of different kinds never mix. -/

namespace SpikeMesh

/-- What an id counts. -/
inductive IdKind
  | unit
  | connection
  | slice
  | partitionedConnection
deriving DecidableEq, Repr

/-- The number of an entity of some kind. -/
structure Id (kind : IdKind) where
  raw : UInt32
deriving DecidableEq, Repr

/-- The number of a unit. -/
abbrev UnitId := Id .unit
/-- The number of a connection between units. -/
abbrev ConnectionId := Id .connection
/-- The number of a slice of a unit. -/
abbrev SliceId := Id .slice
/-- The number of a connection between slices. -/
abbrev PartitionedConnectionId := Id .partitionedConnection

namespace Id

variable {kind : IdKind}

instance : Ord (Id kind) := ⟨compareOn raw⟩

instance : Std.TransOrd (Id kind) := inferInstanceAs (Std.TransCmp (compareOn Id.raw))

instance : Std.LawfulEqOrd (Id kind) where
  eq_of_compare {a b} h := by
    have : compare a.raw b.raw = .eq := h
    cases a; cases b; simp_all

/-- The position that the id denotes in a list of such entities. -/
def index (id : Id kind) : Nat := id.raw.toNat

/-- The id of the entity at a position; positions count modulo `2 ^ 32`. -/
def ofIndex (n : Nat) : Id kind := ⟨UInt32.ofNat n⟩

/-- A position that fits into a word is kept. -/
theorem index_ofIndex {n : Nat} (h : n < UInt32.size) : (ofIndex n : Id kind).index = n := by
  rw [ofIndex, index, UInt32.toNat_ofNat', Nat.mod_eq_of_lt h]

end Id

end SpikeMesh
