import SpikeMesh.Artifacts
import SpikeMesh.Proofs.Json.RoundTrip

set_option autoImplicit false

/-! # Fabrics and mappings, written as JSON and read back

A type is read back if all its values are, from data that a reader can hold (`ReadsFrom`). Lists,
sets and maps are if what they hold is, and a record is if its fields are. So every fabric and every
mapping is read back from its JSON text as it was (`artifacts_read_back`); a mapping loses the
times of its compilation, which are not written. -/

namespace SpikeMesh

open Json (FitsIn)

/-! ## Types that are read back -/

/-- All values of a type are read back from their data, which nests so deep. -/
structure ReadsFrom {α : Type} (depth : Nat) (write : α → Datum) (read? : Datum → Option α) :
    Prop where
  fits : ∀ a n, FitsIn (n + depth) (write a)
  read : ∀ a, read? (write a).sorted = some a

@[simp] theorem fitsIn_list {depth : Nat} {items : List Datum} :
    FitsIn (depth + 1) (.list items) ↔ ∀ d ∈ items, FitsIn depth d := Iff.rfl

@[simp] theorem fitsIn_table {depth : Nat} {entries : List (String × Datum)} :
    FitsIn (depth + 1) (.table entries) ↔ ∀ e ∈ entries, FitsIn depth e.2 := Iff.rfl

@[simp] theorem fitsIn_text (depth : Nat) (s : String) : FitsIn (depth + 1) (.text s) := trivial

@[simp] theorem fitsIn_bool (depth : Nat) (b : Bool) : FitsIn (depth + 1) (.bool b) := trivial

theorem fitsIn_natural (depth : Nat) {n : Nat} (h : n < UInt64.size) :
    FitsIn (depth + 1) (.natural n) := by
  refine ⟨Int.le_trans (by decide) (Int.natCast_nonneg n), ?_⟩
  exact_mod_cast h

@[simp] theorem fitsIn_uint16 (depth : Nat) (n : UInt16) :
    FitsIn (depth + 1) (.natural n.toNat) :=
  fitsIn_natural depth (Nat.lt_trans n.toNat_lt (by decide))

@[simp] theorem fitsIn_uint32 (depth : Nat) (n : UInt32) :
    FitsIn (depth + 1) (.natural n.toNat) :=
  fitsIn_natural depth (Nat.lt_trans n.toNat_lt (by decide))

@[simp] theorem fitsIn_uint64 (depth : Nat) (n : UInt64) :
    FitsIn (depth + 1) (.natural n.toNat) :=
  fitsIn_natural depth n.toNat_lt

namespace ReadsFrom

variable {α κ : Type} {depth : Nat} {write : α → Datum} {read? : Datum → Option α}

theorem list (h : ReadsFrom depth write read?) :
    ReadsFrom (depth + 1) (Datum.ofList write) (Datum.toList? read?) where
  fits items n := by
    intro d hd
    obtain ⟨a, -, rfl⟩ := List.mem_map.1 hd
    exact h.fits a n
  read items := Datum.toList?_sorted h.read items

theorem set [Ord α] [Std.TransOrd α] [Std.LawfulEqOrd α] (h : ReadsFrom depth write read?) :
    ReadsFrom (depth + 1) (Datum.ofSet write) (Datum.toSet? read?) where
  fits s n := h.list.fits s.toList n
  read s := Datum.toSet?_sorted h.read s

theorem map [Ord κ] [Std.TransOrd κ] [Std.LawfulEqOrd κ] {name : κ → String}
    {key : String → Option κ} (h : ReadsFrom depth write read?)
    (hkey : ∀ k, key (name k) = some k) :
    ReadsFrom (depth + 1) (Datum.ofMap name write) (Datum.toMap? key read?) where
  fits m n := by
    intro e he
    obtain ⟨a, -, rfl⟩ := List.mem_map.1 he
    exact h.fits a.2 n
  read m := Datum.toMap?_sorted hkey h.read m

end ReadsFrom

/-! ## Small types -/

theorem ChipCoord.readsFrom : ReadsFrom 1 ChipCoord.toDatum ChipCoord.ofDatum? where
  fits c n := fitsIn_text n c.text
  read c := by simp [toDatum, ofDatum?]

theorem Location.readsFrom : ReadsFrom 1 Location.toDatum Location.ofDatum? where
  fits l n := fitsIn_text n l.text
  read l := by simp [toDatum, ofDatum?]

theorem Direction.readsFrom : ReadsFrom 1 Direction.toDatum Direction.ofDatum? where
  fits d n := fitsIn_text n d.text
  read d := by cases d <;> rfl

theorem Id.readsFrom {kind : IdKind} :
    ReadsFrom 1 (Id.toDatum : Id kind → Datum) Id.ofDatum? where
  fits id n := fitsIn_uint32 n id.raw
  read id := by simp [toDatum, ofDatum?]

theorem Cost.readsFrom : ReadsFrom 2 Cost.toDatum Cost.ofDatum? where
  fits c n := by simp [toDatum]
  read c := by simp [toDatum, ofDatum?]

/-! ## Fabrics -/

theorem Core.readsFrom : ReadsFrom 2 Core.toDatum Core.ofDatum? where
  fits c n := by simp [toDatum]
  read c := by simp [toDatum, ofDatum?]

theorem Link.readsFrom : ReadsFrom 2 Link.toDatum Link.ofDatum? where
  fits l n := by simp [toDatum, Direction.readsFrom.fits, ChipCoord.readsFrom.fits]
  read l := by simp [toDatum, ofDatum?, Direction.readsFrom.read, ChipCoord.readsFrom.read]

theorem Router.readsFrom : ReadsFrom 4 Router.toDatum Router.ofDatum? where
  fits r n := by simp [toDatum, (Link.readsFrom.map Direction.ofText?_text).fits]
  read r := by simp [toDatum, ofDatum?, (Link.readsFrom.map Direction.ofText?_text).read]

theorem Chip.readsFrom : ReadsFrom 5 Chip.toDatum Chip.ofDatum? where
  fits c n := by
    simp [toDatum, ChipCoord.readsFrom.fits, Core.readsFrom.list.fits, Router.readsFrom.fits]
  read c := by
    simp [toDatum, ofDatum?, ChipCoord.readsFrom.read, Core.readsFrom.list.read,
      Router.readsFrom.read]

theorem Fabric.readsFrom : ReadsFrom 7 Fabric.toDatum Fabric.ofDatum? where
  fits f n := by simp [toDatum, (Chip.readsFrom.map ChipCoord.ofText?_text).fits]
  read f := by simp [toDatum, ofDatum?, (Chip.readsFrom.map ChipCoord.ofText?_text).read]

/-! ## Mappings -/

theorem AtomRange.readsFrom : ReadsFrom 2 AtomRange.toDatum AtomRange.ofDatum? where
  fits r n := by simp [toDatum]
  read r := by simp [toDatum, ofDatum?]

theorem Slice.readsFrom : ReadsFrom 3 Slice.toDatum Slice.ofDatum? where
  fits s n := by
    simp [toDatum, Id.readsFrom.fits, AtomRange.readsFrom.fits, Cost.readsFrom.fits]
  read s := by
    simp [toDatum, ofDatum?, Id.readsFrom.read, AtomRange.readsFrom.read, Cost.readsFrom.read]

theorem PartitionedConnection.readsFrom :
    ReadsFrom 3 PartitionedConnection.toDatum PartitionedConnection.ofDatum? where
  fits pc n := by simp [toDatum, Id.readsFrom.fits, Id.readsFrom.list.fits]
  read pc := by simp [toDatum, ofDatum?, Id.readsFrom.read, Id.readsFrom.list.read]

theorem PartitionedGraph.readsFrom :
    ReadsFrom 5 PartitionedGraph.toDatum PartitionedGraph.ofDatum? where
  fits p n := by
    simp [toDatum, Slice.readsFrom.list.fits, PartitionedConnection.readsFrom.list.fits,
      (Id.readsFrom.list.map Id.ofText?_text).fits]
  read p := by
    simp [toDatum, ofDatum?, Slice.readsFrom.list.read, PartitionedConnection.readsFrom.list.read,
      (Id.readsFrom.list.map Id.ofText?_text).read]

theorem Placements.readsFrom : ReadsFrom 3 Placements.toDatum Placements.ofDatum? where
  fits p n := by simp [toDatum, (Location.readsFrom.map Id.ofText?_text).fits]
  read p := by simp [toDatum, ofDatum?, (Location.readsFrom.map Id.ofText?_text).read]

theorem RoutingKey.readsFrom : ReadsFrom 2 RoutingKey.toDatum RoutingKey.ofDatum? where
  fits k n := by simp [toDatum]
  read k := by simp [toDatum, ofDatum?]

theorem KeyAssignments.readsFrom :
    ReadsFrom 4 KeyAssignments.toDatum KeyAssignments.ofDatum? where
  fits k n := by simp [toDatum, (RoutingKey.readsFrom.map Id.ofText?_text).fits]
  read k := by simp [toDatum, ofDatum?, (RoutingKey.readsFrom.map Id.ofText?_text).read]

theorem uint32_readsFrom :
    ReadsFrom 1 (fun n : UInt32 => Datum.natural n.toNat) Datum.toUInt32? where
  fits n depth := fitsIn_uint32 depth n
  read n := by simp

theorem RoutingEntry.readsFrom : ReadsFrom 3 RoutingEntry.toDatum RoutingEntry.ofDatum? where
  fits e n := by simp [toDatum, Direction.readsFrom.set.fits, uint32_readsFrom.set.fits]
  read e := by simp [toDatum, ofDatum?, Direction.readsFrom.set.read, uint32_readsFrom.set.read]

theorem RoutingTable.readsFrom : ReadsFrom 5 RoutingTable.toDatum RoutingTable.ofDatum? where
  fits t n := by simp [toDatum, RoutingEntry.readsFrom.list.fits]
  read t := by simp [toDatum, ofDatum?, RoutingEntry.readsFrom.list.read]

theorem RoutingTables.readsFrom : ReadsFrom 7 RoutingTables.toDatum RoutingTables.ofDatum? where
  fits t n := by simp [toDatum, (RoutingTable.readsFrom.map ChipCoord.ofText?_text).fits]
  read t := by simp [toDatum, ofDatum?, (RoutingTable.readsFrom.map ChipCoord.ofText?_text).read]

theorem NotificationTag.readsFrom :
    ReadsFrom 2 NotificationTag.toDatum NotificationTag.ofDatum? where
  fits t n := by simp [toDatum, Id.readsFrom.fits]
  read t := by simp [toDatum, ofDatum?, Id.readsFrom.read]

theorem ReverseTag.readsFrom : ReadsFrom 2 ReverseTag.toDatum ReverseTag.ofDatum? where
  fits t n := by simp [toDatum, Id.readsFrom.fits, Location.readsFrom.fits]
  read t := by simp [toDatum, ofDatum?, Id.readsFrom.read, Location.readsFrom.read]

theorem TagAllocations.readsFrom : ReadsFrom 4 TagAllocations.toDatum TagAllocations.ofDatum? where
  fits t n := by simp [toDatum, NotificationTag.readsFrom.list.fits, ReverseTag.readsFrom.list.fits]
  read t := by
    simp [toDatum, ofDatum?, NotificationTag.readsFrom.list.read, ReverseTag.readsFrom.list.read]

theorem Mapping.fitsIn_toDatum (m : Mapping) (n : Nat) : FitsIn (n + 8) m.toDatum := by
  simp [toDatum, PartitionedGraph.readsFrom.fits, Placements.readsFrom.fits,
    KeyAssignments.readsFrom.fits, RoutingTables.readsFrom.fits, TagAllocations.readsFrom.fits]

/-- A mapping is read back without the times of its compilation. -/
theorem Mapping.ofDatum?_toDatum (m : Mapping) :
    ofDatum? m.toDatum.sorted = some { m with timedStages := none } := by
  simp [toDatum, ofDatum?, PartitionedGraph.readsFrom.read, Placements.readsFrom.read,
    KeyAssignments.readsFrom.read, RoutingTables.readsFrom.read, TagAllocations.readsFrom.read]

/-! ## The text of an artifact -/

/-- **Fabrics and mappings are read back from their JSON text.** From compact and from indented text
    a fabric is read back as it was; so is a mapping but for the times of its compilation, and it
    keeps its fingerprint. -/
theorem artifacts_read_back :
    (∀ f : Fabric, Json.read? (Json.compact f.toDatum) >>= Fabric.ofDatum? = some f ∧
      Json.read? (Json.indented f.toDatum) >>= Fabric.ofDatum? = some f) ∧
    ∀ m : Mapping, ∃ m',
      (Json.read? (Json.compact m.toDatum) >>= Mapping.ofDatum? = some m' ∧
        Json.read? (Json.indented m.toDatum) >>= Mapping.ofDatum? = some m') ∧
      m' = { m with timedStages := none } ∧ m'.fingerprint = m.fingerprint := by
  constructor
  · intro f
    have hfits : FitsIn Json.maxDepth f.toDatum := Fabric.readsFrom.fits f 121
    rw [Json.read?_compact hfits, Json.read?_indented hfits]
    exact ⟨Fabric.readsFrom.read f, Fabric.readsFrom.read f⟩
  · intro m
    have hfits : FitsIn Json.maxDepth m.toDatum := m.fitsIn_toDatum 120
    rw [Json.read?_compact hfits, Json.read?_indented hfits]
    exact ⟨_, ⟨m.ofDatum?_toDatum, m.ofDatum?_toDatum⟩, rfl, rfl⟩

end SpikeMesh
