import SpikeMesh.Proofs.Fabric.Edits
import SpikeMesh.Proofs.Graph.Numbering
import SpikeMesh.Proofs.Mapping.Placement

set_option autoImplicit false

/-! # Placed slices and the room they leave

While slices are placed, what is left on a chip and what the slices on it need are together no more
than what the chip has. A slice takes no more than what is left, so its amounts are subtracted
exactly. The cores that are left are cores for the application, and a slice is placed on one that
has the cycles and the local memory it needs. -/

namespace SpikeMesh

/-! ## The shared memory of placed slices -/

namespace PartitionedGraph

/-- The slices that are placed on a chip. -/
def slicesOn (p : PartitionedGraph) (placements : Placements) (c : ChipCoord) : List Slice :=
  p.slices.toList.filter fun s => (placements.get? s.id).any fun l => l.chip == c

/-- The shared memory that the slices on a chip need together. -/
def sharedOn (p : PartitionedGraph) (placements : Placements) (c : ChipCoord) : Nat :=
  total (fun s => s.cost.sharedMemory.toNat) (p.slicesOn placements c)

variable {p : PartitionedGraph}

theorem sharedOn_empty (p : PartitionedGraph) (c : ChipCoord) : p.sharedOn .empty c = 0 := by
  have hnone : p.slicesOn .empty c = [] := by
    rw [slicesOn, List.filter_eq_nil_iff]
    intro s _
    simp [Placements.empty, Placements.get?]
  rw [sharedOn, hnone]
  rfl

/-- A slice that is placed needs its own memory on its chip, and no other memory. -/
theorem sharedOn_insert_le (hp : p.Numbered) (hsize : p.slices.size ≤ UInt32.size)
    (placements : Placements) {s : Slice} (hs : s ∈ p.slices.toList) (l : Location)
    (c : ChipCoord) : p.sharedOn (placements.insert s.id l) c
      ≤ p.sharedOn placements c + if l.chip = c then s.cost.sharedMemory.toNat else 0 := by
  have hpicked : ∀ t ∈ p.slices.toList,
      (((placements.insert s.id l).get? t.id).any fun l => l.chip == c) = true →
      ((placements.get? t.id).any fun l => l.chip == c) = true ∨
        decide (l.chip = c ∧ t.id = s.id) = true := by
    intro t _ ht
    rw [Placements.get?_insert] at ht
    by_cases hid : s.id = t.id
    · rw [if_pos hid] at ht
      exact .inr (by simpa [hid] using ht)
    · rw [if_neg hid] at ht
      exact .inl ht
  refine Nat.le_trans (total_filter_le_add hpicked) (Nat.add_le_add_left ?_ _)
  by_cases hc : l.chip = c
  · simp only [hc, true_and]
    rw [filter_key_eq_singleton Slice.id (hp.pairwise_slice_id hsize) hs]
    simp
  · simp [hc]

end PartitionedGraph

/-! ## Room on the chips -/

/-- A core that the application may use, with the cycles and the local memory that a slice needs. -/
def Slice.RunsOn (s : Slice) (f : Fabric) (l : Location) : Prop :=
  ∃ chip core, f.chip? l.chip = some chip ∧ chip.core? l.core = some core ∧
    core.isMonitor = false ∧ s.cost.cpuCycles ≤ core.cpuCycles ∧
    s.cost.localMemory ≤ core.localMemory

/-- The cores with room are the application's, and the slices on a chip need no more shared memory
    than the chip has beside what is left. -/
structure ChipRoom.Within (room : ChipRoom) (chip : Chip) (used : Nat) : Prop where
  freeCores : ∀ id ∈ room.freeCores, ∃ core, chip.core? id = some core ∧ core.isMonitor = false
  shared_le : used + room.sharedLeft.toNat ≤ chip.sharedMemory.toNat

theorem ChipRoom.within_ofChip {chip : Chip} (h : chip.Ascending) :
    (ChipRoom.ofChip chip).Within chip 0 where
  freeCores := by
    intro id hid
    rw [ofChip, mem_foldl_insert Core.id] at hid
    rcases hid with ⟨core, hcore, rfl⟩ | hid
    · obtain ⟨hcore, hmonitor⟩ := List.mem_filter.1 hcore
      exact ⟨core, h.core?_eq_some_iff.2 ⟨hcore, rfl⟩, by simpa using hmonitor⟩
    · exact absurd hid (by simp)
  shared_le := by
    rw [Nat.zero_add]
    exact Nat.le_refl _

theorem Occupancy.room?_ofFabric {f : Fabric} (hf : f.Coherent) (c : ChipCoord) :
    (ofFabric f).room? c = (f.chip? c).map .ofChip := by
  refine Option.ext ?_
  intro room
  refine (getElem?_foldl_insert_eq_some_iff Chip.coord ChipRoom.ofChip f.chipList
    hf.pairwise_chipList c room).trans ?_
  rw [Option.map_eq_some_iff]
  constructor
  · rintro ⟨chip, hchip, rfl, rfl⟩
    exact ⟨chip, hf.mem_chipList_iff.1 hchip, rfl⟩
  · rintro ⟨chip, hchip, rfl⟩
    have hcoord := hf.coord_eq c chip hchip
    exact ⟨chip, hf.mem_chipList_iff.2 (hcoord ▸ hchip), hcoord, rfl⟩

namespace PlacementState

variable {st st' : PlacementState} {f : Fabric} {g : ApplicationGraph} {p : PartitionedGraph}

/-- Every chip has its room, which is within what the chip has beside the slices on it. -/
structure Accounted (st : PlacementState) (f : Fabric) (p : PartitionedGraph) : Prop where
  exists_room : ∀ c chip, f.chip? c = some chip → ∃ room, st.occupancy.room? c = some room
  within : ∀ c room, st.occupancy.room? c = some room → ∃ chip, f.chip? c = some chip ∧
    room.Within chip (p.sharedOn st.placements c)

theorem accounted_start (hf : f.Coherent) (p : PartitionedGraph) : (start f).Accounted f p where
  exists_room := by
    intro c chip hchip
    exact ⟨.ofChip chip, by rw [start, Occupancy.room?_ofFabric hf, hchip]; rfl⟩
  within := by
    intro c room hroom
    rw [start, Occupancy.room?_ofFabric hf] at hroom
    obtain ⟨chip, hchip, rfl⟩ := Option.map_eq_some_iff.1 hroom
    refine ⟨chip, hchip, ?_⟩
    rw [start, PartitionedGraph.sharedOn_empty]
    exact ChipRoom.within_ofChip (hf.ascending c chip hchip)

/-- A free core is one for the application. -/
theorem Accounted.core_of_free (h : st.Accounted f p) {l : Location} (hfree : st.Free l) :
    ∃ chip core, f.chip? l.chip = some chip ∧ chip.core? l.core = some core ∧
      core.isMonitor = false := by
  obtain ⟨room, hroom, hcore⟩ := hfree
  obtain ⟨chip, hchip, hwithin⟩ := h.within l.chip room hroom
  obtain ⟨core, hfound, hmonitor⟩ := hwithin.freeCores l.core hcore
  exact ⟨chip, core, hchip, hfound, hmonitor⟩

/-- A slice that needs no more shared memory than is left is accounted for. -/
theorem Accounted.assign (h : st.Accounted f p) (hp : p.Numbered)
    (hsize : p.slices.size ≤ UInt32.size) {s : Slice} (hs : s ∈ p.slices.toList) {l : Location}
    (hleft : ∀ room, st.occupancy.room? l.chip = some room →
      s.cost.sharedMemory ≤ room.sharedLeft) : (st.assign s l).Accounted f p where
  exists_room := by
    intro c chip hchip
    obtain ⟨room, hroom⟩ := h.exists_room c chip hchip
    show ∃ room, (st.occupancy.take l s.cost).room? c = some room
    rw [Occupancy.room?_take, hroom]
    by_cases hc : l.chip = c
    · rw [if_pos hc]
      exact ⟨_, rfl⟩
    · rw [if_neg hc]
      exact ⟨room, rfl⟩
  within := by
    intro c room hroom
    have hneed := PartitionedGraph.sharedOn_insert_le hp hsize st.placements hs l c
    change (st.occupancy.take l s.cost).room? c = some room at hroom
    show ∃ chip, f.chip? c = some chip ∧
      room.Within chip (p.sharedOn (st.placements.insert s.id l) c)
    rw [Occupancy.room?_take] at hroom
    by_cases hc : l.chip = c
    · rw [if_pos hc] at hroom hneed
      obtain ⟨before, hbefore, rfl⟩ := Option.map_eq_some_iff.1 hroom
      obtain ⟨chip, hchip, hwithin⟩ := h.within c before hbefore
      -- enough is left, so what the slice needs is subtracted in full
      have hle := hleft before (hc ▸ hbefore)
      have hmin : min s.cost.sharedMemory before.sharedLeft = s.cost.sharedMemory := if_pos hle
      have hshared := hwithin.shared_le
      have hle' := UInt64.le_iff_toNat_le.1 hle
      refine ⟨chip, hchip, ?_, ?_⟩
      · intro id hid
        exact hwithin.freeCores id (Std.ExtTreeSet.mem_erase.1 hid).2
      · show _ + (before.sharedLeft - min s.cost.sharedMemory before.sharedLeft).toNat ≤ _
        rw [hmin, UInt64.toNat_sub_of_le _ _ hle]
        omega
    · rw [if_neg hc] at hroom hneed
      obtain ⟨chip, hchip, hwithin⟩ := h.within c room hroom
      have hshared := hwithin.shared_le
      exact ⟨chip, hchip, hwithin.freeCores, by omega⟩

/-! ## Steps that take a core -/

theorem get?_assign (st : PlacementState) (s : Slice) (l : Location) (t : SliceId) :
    (st.assign s l).placements.get? t = if s.id = t then some l else st.placements.get? t :=
  Placements.get?_insert st.placements s.id t l

/-- Where a slice is placed after a step, it was placed before, or it is the slice of the step. -/
theorem assigned_cases (hp : p.Numbered) (hsize : p.slices.size ≤ UInt32.size) {s s' : Slice}
    (hs : s ∈ p.slices.toList) (hs' : s' ∈ p.slices.toList) {l l' : Location}
    (h : (st.assign s l).placements.get? s'.id = some l') :
    (s = s' ∧ l = l') ∨ st.placements.get? s'.id = some l' := by
  rw [get?_assign] at h
  by_cases hid : s.id = s'.id
  · rw [if_pos hid] at h
    exact .inl ⟨hp.eq_of_id_eq hsize hs hs' hid, Option.some.inj h⟩
  · rw [if_neg hid] at h
    exact .inr h

/-- A free core of a chip can take a slice. -/
structure Takes (st : PlacementState) (f : Fabric) (p : PartitionedGraph) (s : Slice)
    (l : Location) : Prop where
  mem_slices : s ∈ p.slices.toList
  free : st.Free l
  runsOn : s.RunsOn f l
  shared_le : ∀ room, st.occupancy.room? l.chip = some room →
    s.cost.sharedMemory ≤ room.sharedLeft

theorem Pins.takes (hp : p.Numbered) (hsize : p.slices.size ≤ UInt32.size) {id : UnitId}
    {u : GraphUnit} {l : Location} {s : Slice} {budget : Cost} (h : st.Pins f p id u l s budget)
    (hfits : s.cost.firstExcess? budget = none) : st.Takes f p s l ∧ p.slicesOf id = [s.id] := by
  obtain ⟨sliceId, hsliceId, hs⟩ := h.slice_eq
  obtain ⟨hmem, rfl⟩ := (hp.slice?_eq_some_iff hsize).1 hs
  obtain ⟨chip, core, room, hchip, hcore, hmonitor, hroom, -, hbudget⟩ := h.core_eq
  have hfits' : s.cost.fits budget = true := by rw [Cost.fits, hfits]; rfl
  obtain ⟨hcycles, hlocal, hshared⟩ := Cost.fits_iff.1 hfits'
  subst hbudget
  refine ⟨⟨hmem, h.free, ⟨chip, core, hchip, hcore, hmonitor, hcycles, hlocal⟩, ?_⟩, hsliceId⟩
  intro room' hroom'
  obtain rfl : room = room' := Option.some.inj (hroom.symm.trans hroom')
  exact hshared

/-- A unit with a virtual chip tries this chip, any other unit tries real chips. -/
theorem mem_candidates (hf : f.Coherent)
    {adjacency : Std.ExtTreeMap SliceId (Std.ExtTreeSet SliceId)} {u : GraphUnit} {s : Slice}
    {chip : Chip} (h : chip ∈ st.candidates f adjacency u s) :
    f.chip? chip.coord = some chip ∧
      (∀ spec, u.virtualChip = some spec → chip.coord = spec.coord) ∧
      (u.virtualChip = none → chip.isVirtual = false) := by
  unfold candidates at h
  cases hspec : u.virtualChip with
  | some spec =>
      rw [hspec] at h
      have hchip : f.chip? spec.coord = some chip := by simpa using h
      have hcoord := hf.coord_eq _ _ hchip
      refine ⟨hcoord ▸ hchip, ?_, by simp⟩
      intro spec' hspec'
      rw [hcoord, Option.some.inj hspec']
  | none =>
      rw [hspec] at h
      have hreal : f.chip? chip.coord = some chip ∧ chip.isVirtual = false := by
        rcases List.mem_append.1 h with h | h
        · obtain ⟨c, -, hc⟩ := List.mem_filterMap.1 h
          obtain ⟨hchip, hreal⟩ := Option.filter_eq_some_iff.1 hc
          exact ⟨hf.coord_eq _ _ hchip ▸ hchip, by simpa using hreal⟩
        · obtain ⟨hchip, hreal⟩ := List.mem_filter.1 h
          exact ⟨hf.mem_chipList_iff.1 hchip, by simpa using hreal⟩
      exact ⟨hreal.1, by simp, fun _ => hreal.2⟩

theorem takes_of_findLocation? (ha : st.Accounted f p) {s : Slice} (hs : s ∈ p.slices.toList)
    {chips : List Chip} (hchips : ∀ chip ∈ chips, f.chip? chip.coord = some chip) {l : Location}
    (h : st.findLocation? chips s = some l) : st.Takes f p s l := by
  have hfree := free_of_findLocation? h
  obtain ⟨chip, hmem, hcoord, room, hroom, -, hshared, htakes⟩ := findLocation?_eq_some h
  obtain ⟨chip', core, hchip', hcore, hmonitor⟩ := ha.core_of_free hfree
  obtain rfl : chip = chip' := by
    rw [hcoord, hchips chip hmem] at hchip'
    exact Option.some.inj hchip'
  have hfits : s.cost.cpuCycles ≤ core.cpuCycles ∧ s.cost.localMemory ≤ core.localMemory := by
    simpa [Occupancy.coreTakes, hcore] using htakes
  refine ⟨hs, hfree, ⟨chip, core, hchip', hcore, hmonitor, hfits⟩, ?_⟩
  intro room' hroom'
  obtain rfl : room = room' := Option.some.inj (hroom.symm.trans (hcoord ▸ hroom'))
  exact hshared

/-! ## What holds after every step -/

/-- The placed slices have cores of their own that can take them, and the rest is accounted for. -/
structure Safe (st : PlacementState) (f : Fabric) (p : PartitionedGraph) : Prop where
  exclusive : st.Exclusive
  accounted : st.Accounted f p
  runsOn : ∀ s ∈ p.slices.toList, ∀ l, st.placements.get? s.id = some l → s.RunsOn f l

theorem safe_start (hf : f.Coherent) (p : PartitionedGraph) : (start f).Safe f p where
  exclusive := exclusive_start f
  accounted := accounted_start hf p
  runsOn := by simp [start, Placements.empty, Placements.get?]

theorem Safe.assign (h : st.Safe f p) (hp : p.Numbered) (hsize : p.slices.size ≤ UInt32.size)
    {s : Slice} {l : Location} (ht : st.Takes f p s l) : (st.assign s l).Safe f p where
  exclusive := h.exclusive.assign ht.free
  accounted := h.accounted.assign hp hsize ht.mem_slices ht.shared_le
  runsOn := by
    intro s' hs' l' hl'
    rcases assigned_cases hp hsize ht.mem_slices hs' hl' with ⟨rfl, rfl⟩ | hl'
    · exact ht.runsOn
    · exact h.runsOn s' hs' l' hl'

theorem Safe.pinAll (h : st.Safe f p) (hp : p.Numbered) (hsize : p.slices.size ≤ UInt32.size)
    (hpinned : st.pinAll f g p = .ok st') : st'.Safe f p := by
  refine foldlM_ok_induction (fun _ st => st.Safe f p) ?_ h hpinned
  rintro done ⟨id, u⟩ st st' hst hstep
  simp only at hstep
  split at hstep
  · obtain ⟨s, budget, hpins, hfits, rfl⟩ := pin_eq_ok hstep
    exact hst.assign hp hsize (hpins.takes hp hsize hfits).1
  · obtain rfl := Except.ok.inj hstep
    exact hst

theorem Safe.placeAll (h : st.Safe f p) (hf : f.Coherent) (hp : p.Numbered)
    (hsize : p.slices.size ≤ UInt32.size)
    {adjacency : Std.ExtTreeMap SliceId (Std.ExtTreeSet SliceId)}
    (hplaced : p.slices.toList.foldlM (fun st s => st.placeSlice f g p adjacency s) st = .ok st') :
    st'.Safe f p ∧ ∀ s ∈ p.slices.toList, ∃ l, st'.placements.get? s.id = some l := by
  refine foldlM_ok_induction_prefix (fun done st => st.Safe f p ∧
    ∀ s ∈ done, ∃ l, st.placements.get? s.id = some l) ?_ ⟨h, by simp⟩ hplaced
  rintro done s st st' hpre ⟨hst, hdone⟩ hstep
  have hs : s ∈ p.slices.toList := hpre.subset (by simp)
  rcases placeSlice_eq_ok hstep with ⟨hplaced, rfl⟩ | ⟨-, u, l, -, hl, rfl⟩
  · refine ⟨hst, ?_⟩
    intro s' hs'
    rcases List.mem_append.1 hs' with hs' | hs'
    · exact hdone s' hs'
    · rw [List.mem_singleton.1 hs']
      exact Option.isSome_iff_exists.1 hplaced
  · have htakes := takes_of_findLocation? hst.accounted hs
      (fun chip hchip => (mem_candidates hf hchip).1) hl
    refine ⟨hst.assign hp hsize htakes, ?_⟩
    intro s' hs'
    rw [get?_assign]
    by_cases hid : s.id = s'.id
    · exact ⟨l, if_pos hid⟩
    · rw [if_neg hid]
      rcases List.mem_append.1 hs' with hs' | hs'
      · exact hdone s' hs'
      · exact absurd (by rw [List.mem_singleton.1 hs']) hid

end PlacementState

end SpikeMesh
