import SpikeMesh.Proofs.Mapping.Budget
import SpikeMesh.Proofs.Mapping.Room

set_option autoImplicit false

/-! # Cores are all that can be lacking

Slices that fit the budget of a fabric fit every application core of its real chips. A slice takes
no more of the shared memory of its chip than the share of its core, so each core that is still free
keeps its share, whichever cores were taken before. Hence a slice finds a core as long as one is
free on any real chip, and placing fails only when all of them are taken. -/

namespace SpikeMesh

/-! ## Room for the budget -/

/-- Every free core of a chip can take the budget, and all of them together can have its shared
    memory. -/
structure ChipRoom.Affords (room : ChipRoom) (chip : Chip) (budget : Cost) : Prop where
  takes : ∀ id ∈ room.freeCores, Occupancy.coreTakes chip budget id = true
  shared_le : room.freeCores.size * budget.sharedMemory.toNat ≤ room.sharedLeft.toNat

theorem Occupancy.coreTakes_of_fits {chip : Chip} {cost budget : Cost} {id : UInt32}
    (hcost : cost.fits budget = true) (h : coreTakes chip budget id = true) :
    coreTakes chip cost id = true := by
  obtain ⟨hcycles, hlocal, -⟩ := Cost.fits_iff.1 hcost
  unfold coreTakes at h ⊢
  split at h
  · next core hcore =>
      obtain ⟨hcycles', hlocal'⟩ := Bool.and_eq_true_iff.1 h
      exact Bool.and_eq_true_iff.2
        ⟨decide_eq_true (UInt64.le_trans hcycles (of_decide_eq_true hcycles')),
          decide_eq_true (UInt64.le_trans hlocal (of_decide_eq_true hlocal'))⟩
  · exact absurd h (by simp)

namespace ChipRoom

variable {room : ChipRoom} {chip : Chip} {budget cost : Cost}

theorem size_freeCores_ofChip (h : chip.Ascending) :
    (ofChip chip).freeCores.size = chip.applicationCores.length := by
  have hids : chip.applicationCores.Pairwise (fun a b => a.id ≠ b.id) :=
    ((List.pairwise_map.1 h).imp fun hlt => UInt32.ne_of_lt hlt).filter _
  rw [ofChip, size_foldl_insert Core.id chip.applicationCores hids ∅ (by simp)]
  exact Nat.zero_add _

/-- A chip of which all cores can hold a cost at once can afford it. -/
theorem affords_ofChip (h : chip.Ascending) (hall : chip.HoldsAll budget) :
    (ofChip chip).Affords chip budget where
  takes := by
    intro id hid
    rw [ofChip, mem_foldl_insert Core.id] at hid
    rcases hid with ⟨core, hcore, rfl⟩ | hid
    · obtain ⟨hcycles, hlocal⟩ := hall.core_fits core hcore
      have hfound : chip.core? core.id = some core :=
        h.core?_eq_some_iff.2 ⟨List.mem_of_mem_filter hcore, rfl⟩
      simp only [Occupancy.coreTakes, hfound]
      exact Bool.and_eq_true_iff.2 ⟨decide_eq_true hcycles, decide_eq_true hlocal⟩
    · exact absurd hid (by simp)
  shared_le := by
    rw [size_freeCores_ofChip h]
    exact hall.shared_le

/-- A chip with a free core has the shared memory of a cost within the budget. -/
theorem Affords.shared_of_free (h : room.Affords chip budget) (hcost : cost.fits budget = true)
    {id : UInt32} (hfree : id ∈ room.freeCores) : cost.sharedMemory ≤ room.sharedLeft := by
  have hsize : 1 ≤ room.freeCores.size := size_pos_iff.2 ⟨id, hfree⟩
  have hshare := UInt64.le_iff_toNat_le.1 (Cost.fits_iff.1 hcost).2.2
  rw [UInt64.le_iff_toNat_le]
  calc cost.sharedMemory.toNat ≤ 1 * budget.sharedMemory.toNat := by rwa [Nat.one_mul]
    _ ≤ room.freeCores.size * budget.sharedMemory.toNat := Nat.mul_le_mul_right _ hsize
    _ ≤ room.sharedLeft.toNat := h.shared_le

/-- Taking a free core for a cost within the budget leaves the other free cores their shares. -/
theorem Affords.take (h : room.Affords chip budget) (hcost : cost.fits budget = true) {id : UInt32}
    (hfree : id ∈ room.freeCores) :
    Affords ⟨room.freeCores.erase id,
      room.sharedLeft - min cost.sharedMemory room.sharedLeft⟩ chip budget where
  takes := fun other hother => h.takes other (Std.ExtTreeSet.mem_erase.1 hother).2
  shared_le := by
    have hle := h.shared_of_free hcost hfree
    have hmin : min cost.sharedMemory room.sharedLeft = cost.sharedMemory := if_pos hle
    have hshare := UInt64.le_iff_toNat_le.1 (Cost.fits_iff.1 hcost).2.2
    have hshared := h.shared_le
    show (room.freeCores.erase id).size * budget.sharedMemory.toNat
      ≤ (room.sharedLeft - min cost.sharedMemory room.sharedLeft).toNat
    rw [← size_erase_add_one hfree, Nat.add_one_mul] at hshared
    rw [hmin, UInt64.toNat_sub_of_le _ _ hle]
    omega

/-- A chip that can afford the budget has a core for any cost within it, as long as one is free. -/
theorem Affords.exists_core (h : room.Affords chip budget) (hcost : cost.fits budget = true)
    (hfree : 0 < room.freeCores.size) {o : Occupancy} (hroom : o.room? chip.coord = some room) :
    ∃ id, o.findCore? chip cost = some id := by
  obtain ⟨id, hid⟩ := size_pos_iff.1 hfree
  rw [← Option.isSome_iff_exists, Occupancy.findCore?, hroom]
  simp only
  rw [if_neg (UInt64.not_lt.2 (h.shared_of_free hcost hid)), List.find?_isSome]
  exact ⟨id, Std.ExtTreeSet.mem_toList.2 hid, Occupancy.coreTakes_of_fits hcost (h.takes id hid)⟩

end ChipRoom

/-! ## Free cores of the mesh -/

namespace PlacementState

variable {st : PlacementState} {f : Fabric} {g : ApplicationGraph} {p : PartitionedGraph}
  {budget : Cost} {s : Slice} {l : Location}

/-- The number of cores of a chip that are free. -/
def freeOn (st : PlacementState) (chip : Chip) : Nat :=
  match st.occupancy.room? chip.coord with
  | some room => room.freeCores.size
  | none => 0

/-- The number of cores that are free on the real chips of a fabric. -/
def freeCount (st : PlacementState) (f : Fabric) : Nat := total st.freeOn f.realChips

/-- Every real chip can afford the budget for the cores that are free on it. -/
def Roomy (st : PlacementState) (f : Fabric) (budget : Cost) : Prop :=
  ∀ chip ∈ f.realChips, ∃ room, st.occupancy.room? chip.coord = some room ∧
    room.Affords chip budget

theorem room?_start (hf : f.Coherent) {chip : Chip} (hchip : chip ∈ f.realChips) :
    (start f).occupancy.room? chip.coord = some (.ofChip chip) := by
  rw [start, Occupancy.room?_ofFabric hf, (hf.mem_realChips_iff.1 hchip).1]
  rfl

theorem roomy_start (hf : f.Coherent) (hbudget : f.partitionBudget? = some budget) :
    (start f).Roomy f budget := by
  intro chip hchip
  have hall := (Fabric.fits_partitionBudget?_iff hf.counted hbudget).1 (Cost.fits_refl budget)
  exact ⟨_, room?_start hf hchip,
    ChipRoom.affords_ofChip (hf.ascending_of_mem_realChips hchip) (hall chip hchip)⟩

theorem freeCount_start (hf : f.Coherent) : (start f).freeCount f = f.applicationCoreCount := by
  refine total_congr ?_
  intro chip hchip
  rw [freeOn, room?_start hf hchip]
  exact ChipRoom.size_freeCores_ofChip (hf.ascending_of_mem_realChips hchip)

/-- A slice within the budget that takes a free core leaves room for the others. -/
theorem Roomy.assign (h : st.Roomy f budget) (hcost : s.cost.fits budget = true)
    (hfree : st.Free l) : (st.assign s l).Roomy f budget := by
  intro chip hchip
  obtain ⟨room, hroom, hafford⟩ := h chip hchip
  show ∃ room, (st.occupancy.take l s.cost).room? chip.coord = some room ∧ _
  rw [Occupancy.room?_take, hroom]
  by_cases hcoord : l.chip = chip.coord
  · rw [if_pos hcoord]
    obtain ⟨taken, htaken, hcore⟩ := hfree
    obtain rfl : taken = room := Option.some.inj (htaken.symm.trans (hcoord ▸ hroom))
    exact ⟨_, rfl, hafford.take hcost hcore⟩
  · rw [if_neg hcoord]
    exact ⟨room, rfl, hafford⟩

/-- A slice on a real chip takes one of the free cores. -/
theorem freeCount_assign (hf : f.Coherent) {chip : Chip} (hchip : chip ∈ f.realChips)
    (hcoord : l.chip = chip.coord) (hfree : st.Free l) (s : Slice) :
    (st.assign s l).freeCount f + 1 = st.freeCount f := by
  have hroom? : ∀ other : Chip, (st.assign s l).occupancy.room? other.coord = _ :=
    fun other => Occupancy.room?_take st.occupancy l s.cost other.coord
  refine total_add_one Chip.coord (hf.pairwise_chipList.filter _) hchip ?_ ?_
  · obtain ⟨room, hroom, hcore⟩ := hfree
    rw [freeOn, freeOn, hroom?, if_pos hcoord, ← hcoord, hroom]
    exact size_erase_add_one hcore
  · intro other hother
    rw [freeOn, freeOn, hroom?, if_neg (hcoord ▸ hother.symm)]

/-- The chips that are tried for a unit without a virtual chip are real. -/
theorem mem_realChips_of_mem_candidates (hf : f.Coherent) {u : GraphUnit}
    (hu : u.virtualChip = none) {adjacency : Std.ExtTreeMap SliceId (Std.ExtTreeSet SliceId)}
    {chip : Chip} (h : chip ∈ st.candidates f adjacency u s) : chip ∈ f.realChips := by
  obtain ⟨hlisted, -, hreal⟩ := mem_candidates hf h
  exact hf.mem_realChips_iff.2 ⟨hlisted, hreal hu⟩

/-- While a core is free, there is a location for a slice of a unit without a virtual chip. -/
theorem Roomy.exists_location (h : st.Roomy f budget) (hf : f.Coherent)
    (hcost : s.cost.fits budget = true) (hpos : 0 < st.freeCount f) {u : GraphUnit}
    (hu : u.virtualChip = none)
    (adjacency : Std.ExtTreeMap SliceId (Std.ExtTreeSet SliceId)) :
    ∃ l, st.findLocation? (st.candidates f adjacency u s) s = some l ∧
      ∃ chip ∈ f.realChips, l.chip = chip.coord := by
  obtain ⟨chip, hchip, hfree⟩ := exists_pos_of_total_pos hpos
  obtain ⟨room, hroom, hafford⟩ := h chip hchip
  rw [freeOn, hroom] at hfree
  obtain ⟨id, hid⟩ := hafford.exists_core hcost hfree hroom
  have hcandidate : chip ∈ st.candidates f adjacency u s := by
    rw [candidates, hu]
    exact List.mem_append_right _ hchip
  obtain ⟨l, hl⟩ : ∃ l, st.findLocation? (st.candidates f adjacency u s) s = some l := by
    rw [← Option.isSome_iff_exists, findLocation?, List.findSome?_isSome_iff]
    exact ⟨chip, hcandidate, by rw [hid]; rfl⟩
  obtain ⟨found, hfound, hcoord, -⟩ := findLocation?_eq_some hl
  exact ⟨l, hl, found, mem_realChips_of_mem_candidates hf hu hfound, hcoord⟩

/-- When no core is free, a slice of a unit without a virtual chip lacks a core, as do all others
    that are not placed. -/
theorem location_of_full (hf : f.Coherent) (hfull : st.freeCount f = 0) {u : GraphUnit}
    (hu : u.virtualChip = none) (p : PartitionedGraph) (s : Slice)
    (adjacency : Std.ExtTreeMap SliceId (Std.ExtTreeSet SliceId)) :
    st.findLocation? (st.candidates f adjacency u s) s = none ∧
      st.shortage p (st.candidates f adjacency u s) s = ⟨.cores, UInt64.ofNat
        (p.slices.toList.countP fun s => (st.placements.get? s.id).isNone), 0⟩ := by
  have hempty : ∀ chip ∈ st.candidates f adjacency u s, ∀ room,
      st.occupancy.room? chip.coord = some room → room.freeCores.size = 0 := by
    intro chip hchip room hroom
    have hle := le_total_of_mem (n := st.freeOn) (mem_realChips_of_mem_candidates hf hu hchip)
    rw [freeOn, hroom] at hle
    rw [freeCount] at hfull
    simp only at hle
    omega
  constructor
  · rw [Option.eq_none_iff_forall_ne_some]
    intro l hl
    obtain ⟨chip, hchip, -, room, hroom, hcore, -⟩ := findLocation?_eq_some hl
    have hpos := size_pos_iff.2 ⟨l.core, hcore⟩
    have hzero := hempty chip hchip room hroom
    omega
  · rw [shortage]
    simp only
    rw [if_pos]
    rw [List.all_eq_true]
    intro e he
    obtain ⟨chip, hchip, hentry⟩ := List.mem_filterMap.1 he
    obtain ⟨room, hroom, rfl⟩ := Option.map_eq_some_iff.1 hentry
    have hzero := hempty chip hchip room hroom
    rw [← Std.ExtTreeSet.isEmpty_toList, List.isEmpty_iff_length_eq_zero,
      Std.ExtTreeSet.length_toList]
    exact hzero

end PlacementState

/-! ## Placing until no core is left -/

/-- The slices of a partitioned graph are told apart by their ids, have units without a virtual
    chip, and cost no more than the budget. -/
structure PartitionedGraph.Placeable (p : PartitionedGraph) (g : ApplicationGraph)
    (budget : Cost) : Prop where
  pairwise : p.slices.toList.Pairwise (fun s t => s.id ≠ t.id)
  exists_unit : ∀ s ∈ p.slices.toList, ∃ u, g.unit? s.unit = some u ∧ u.virtualChip = none
  fits : ∀ s ∈ p.slices.toList, s.cost.fits budget = true

/-- The error for the first slice that is left without a core: all slices from it on need one, and
    none is available. -/
def Fabric.LacksCores (f : Fabric) (g : ApplicationGraph) (p : PartitionedGraph)
    (e : PipelineError) : Prop :=
  ∃ s u requested, p.slices[f.applicationCoreCount]? = some s ∧ g.unit? s.unit = some u ∧
    requested.toNat = p.slices.size - f.applicationCoreCount ∧
    e = .resourceExceeded (s.subject u) .cores requested 0

namespace PlacementState

variable {st : PlacementState} {f : Fabric} {g : ApplicationGraph} {p : PartitionedGraph}
  {budget : Cost} {s : Slice} {done rest : List Slice}
  {adjacency : Std.ExtTreeMap SliceId (Std.ExtTreeSet SliceId)}

/-- Some slices are placed, each on one of the cores that were free at first, and no others. -/
structure Filling (st : PlacementState) (f : Fabric) (p : PartitionedGraph) (budget : Cost)
    (done : List Slice) : Prop where
  roomy : st.Roomy f budget
  count_eq : st.freeCount f + done.length = f.applicationCoreCount
  placed_iff : ∀ s ∈ p.slices.toList, (st.placements.get? s.id).isSome = true ↔ s ∈ done

theorem filling_start (hf : f.Coherent) (hbudget : f.partitionBudget? = some budget)
    (p : PartitionedGraph) : (start f).Filling f p budget [] where
  roomy := roomy_start hf hbudget
  count_eq := by rw [freeCount_start hf]; rfl
  placed_iff := by simp [start, Placements.empty, Placements.get?]

/-- The slices that are left are not placed. -/
theorem Filling.not_placed (h : st.Filling f p budget done) (hp : p.Placeable g budget)
    (hsplit : p.slices.toList = done ++ rest) :
    ∀ s ∈ rest, ¬ (st.placements.get? s.id).isSome = true := by
  intro s hs
  rw [h.placed_iff s (hsplit ▸ List.mem_append_right done hs)]
  intro hdone
  have hids := hp.pairwise
  rw [hsplit, List.pairwise_append] at hids
  exact hids.2.2 s hdone s hs rfl

/-- While a core is left, the next slice takes one. -/
theorem Filling.placeSlice_ok (h : st.Filling f p budget done) (hf : f.Coherent)
    (hp : p.Placeable g budget) (hsplit : p.slices.toList = done ++ s :: rest)
    (hleft : done.length < f.applicationCoreCount) :
    ∃ st', st.placeSlice f g p adjacency s = .ok st' ∧ st'.Filling f p budget (done ++ [s]) := by
  have hs : s ∈ p.slices.toList := by rw [hsplit]; simp
  obtain ⟨u, hu, hvirtual⟩ := hp.exists_unit s hs
  have hcount := h.count_eq
  obtain ⟨l, hl, chip, hchip, hcoord⟩ :=
    h.roomy.exists_location hf (hp.fits s hs) (by omega) hvirtual adjacency
  have hfree := free_of_findLocation? hl
  refine ⟨st.assign s l, ?_, h.roomy.assign (hp.fits s hs) hfree, ?_, ?_⟩
  · simp only [placeSlice, hu, hl]
    rw [if_neg (h.not_placed hp hsplit s List.mem_cons_self)]
  · have htaken := freeCount_assign hf hchip hcoord hfree s
    rw [List.length_append, List.length_singleton]
    omega
  · intro t ht
    rw [get?_assign, List.mem_append, List.mem_singleton]
    by_cases hid : s.id = t.id
    · rw [if_pos hid]
      exact iff_of_true rfl (.inr (eq_of_pairwise_ne Slice.id hp.pairwise ht hs hid.symm))
    · rw [if_neg hid, h.placed_iff t ht]
      exact ⟨.inl, fun hmem => hmem.resolve_right fun heq => hid (heq ▸ rfl)⟩

/-- As many slices are not placed as are left. -/
theorem Filling.countP_unplaced (h : st.Filling f p budget done) (hp : p.Placeable g budget)
    (hsplit : p.slices.toList = done ++ rest) :
    (p.slices.toList.countP fun s => (st.placements.get? s.id).isNone) = rest.length := by
  have hplaced : ∀ s ∈ done, ¬ (st.placements.get? s.id).isNone = true := by
    intro s hs
    have hsome := (h.placed_iff s (hsplit ▸ List.mem_append_left rest hs)).2 hs
    simpa [Option.isSome_iff_ne_none] using hsome
  have hunplaced : ∀ s ∈ rest, (st.placements.get? s.id).isNone = true :=
    fun s hs => by simpa using h.not_placed hp hsplit s hs
  rw [hsplit, List.countP_append, List.countP_eq_zero.2 hplaced, List.countP_eq_length.2 hunplaced,
    Nat.zero_add]

/-- When no core is left, the next slice lacks one, with all slices after it. -/
theorem Filling.placeSlice_error (h : st.Filling f p budget done) (hf : f.Coherent)
    (hp : p.Placeable g budget) (hsize : p.slices.size ≤ UInt32.size)
    (hsplit : p.slices.toList = done ++ s :: rest) (hfull : done.length = f.applicationCoreCount) :
    ∃ e, st.placeSlice f g p adjacency s = .error e ∧ f.LacksCores g p e := by
  have hs : s ∈ p.slices.toList := by rw [hsplit]; simp
  have hlength : p.slices.size = done.length + (s :: rest).length := by
    rw [← Array.length_toList, hsplit, List.length_append]
  have hnone : st.freeCount f = 0 := by
    have hcount := h.count_eq
    omega
  obtain ⟨u, hu, hvirtual⟩ := hp.exists_unit s hs
  obtain ⟨hlocation, hshortage⟩ := location_of_full hf hnone hvirtual p s adjacency
  rw [h.countP_unplaced hp hsplit] at hshortage
  refine ⟨.resourceExceeded (s.subject u) .cores (UInt64.ofNat (s :: rest).length) 0, ?_,
    s, u, _, ?_, hu, ?_, rfl⟩
  · simp only [placeSlice, hu, hlocation, hshortage]
    rw [if_neg (h.not_placed hp hsplit s List.mem_cons_self)]
  · rw [← Array.getElem?_toList, hsplit, ← hfull, List.getElem?_append_right (Nat.le_refl _),
      Nat.sub_self]
    rfl
  · simp only [UInt32.size] at hsize
    rw [UInt64.toNat_ofNat', Nat.mod_eq_of_lt (by omega)]
    omega

/-- The slices find cores until there is none, and then lack them. -/
theorem Filling.placeAll (h : st.Filling f p budget done) (hf : f.Coherent)
    (hp : p.Placeable g budget) (hsize : p.slices.size ≤ UInt32.size)
    (hsplit : p.slices.toList = done ++ rest)
    (adjacency : Std.ExtTreeMap SliceId (Std.ExtTreeSet SliceId)) :
    (p.slices.size ≤ f.applicationCoreCount ∧
      ∃ st', rest.foldlM (fun st s => st.placeSlice f g p adjacency s) st = .ok st') ∨
    (f.applicationCoreCount < p.slices.size ∧ ∃ e,
      rest.foldlM (fun st s => st.placeSlice f g p adjacency s) st = .error e ∧
      f.LacksCores g p e) := by
  have hcount := h.count_eq
  have hlength : p.slices.size = done.length + rest.length := by
    rw [← Array.length_toList, hsplit, List.length_append]
  induction rest generalizing st done with
  | nil =>
      rw [List.length_nil] at hlength
      exact .inl ⟨by omega, st, rfl⟩
  | cons s rest ih =>
      by_cases hleft : done.length < f.applicationCoreCount
      · obtain ⟨st', hst', hfilling⟩ := h.placeSlice_ok hf hp hsplit hleft
        have hsplit' : p.slices.toList = done ++ [s] ++ rest := by
          rw [List.append_assoc]
          exact hsplit
        rw [List.foldlM_cons, hst', ok_bind]
        refine ih hfilling hsplit' hfilling.count_eq ?_
        rw [hlength, List.length_append, List.length_cons, List.length_singleton]
        omega
      · obtain ⟨e, he, hlacks⟩ := h.placeSlice_error hf hp hsize hsplit (by omega)
        rw [List.length_cons] at hlength
        refine .inr ⟨by omega, e, ?_, hlacks⟩
        rw [List.foldlM_cons, he, error_bind]

end PlacementState

/-! ## Partitioned graphs -/

namespace ApplicationGraph

variable {g : ApplicationGraph} {budget : Cost} {atomsPerCore : Std.ExtTreeMap String UInt32}
  {p : PartitionedGraph}

/-- No unit is pinned to a core or asks for a virtual chip. -/
def Unconfined (g : ApplicationGraph) : Prop :=
  ∀ u ∈ g.units, u.location = none ∧ u.virtualChip = none

/-- An id with which a unit is numbered is that of a unit, though of another one if there are more
    units than ids. -/
theorem exists_unit_of_mem {id : UnitId} {u : GraphUnit} (h : (id, u) ∈ g.numberedUnits) :
    ∃ v ∈ g.units, g.unit? id = some v := by
  obtain ⟨⟨u, i⟩, he, heq⟩ := List.mem_map.1 h
  obtain ⟨rfl, rfl⟩ := Prod.mk.inj heq
  obtain ⟨hi, -⟩ := List.getElem?_eq_some_iff.1 (List.mem_zipIdx_iff_getElem?.1 he)
  have hindex : (Id.ofIndex i : UnitId).index ≤ i := by
    rw [Id.ofIndex, Id.index, UInt32.toNat_ofNat']
    exact Nat.mod_le ..
  have hlt : (Id.ofIndex i : UnitId).index < g.units.length := by omega
  exact ⟨_, List.getElem_mem hlt, List.getElem?_eq_getElem hlt⟩

theorem Unconfined.placeable (hg : g.Unconfined) (h : g.partition budget atomsPerCore = .ok p)
    (hsize : p.slices.size ≤ UInt32.size) : (p.prune g).Placeable g budget := by
  obtain ⟨hsliced, -⟩ := partition_eq_ok h
  refine ⟨hsliced.numbered.pairwise_slice_id hsize, ?_, fun s hs => hsliced.cost_fits hs⟩
  intro s hs
  obtain ⟨u, hu, -⟩ := hsliced.exists_unit hs
  obtain ⟨v, hv, hfound⟩ := exists_unit_of_mem hu
  exact ⟨v, hfound, (hg v hv).2⟩

theorem Unconfined.virtualChips_eq_nil (hg : g.Unconfined) : g.virtualChips = [] := by
  rw [virtualChips, List.filterMap_eq_nil_iff]
  exact fun u hu => (hg u hu).2

theorem Unconfined.pinAll_eq_ok (hg : g.Unconfined) (st : PlacementState) (f : Fabric)
    (p : PartitionedGraph) : st.pinAll f g p = .ok st := by
  have hfree : ∀ e ∈ g.numberedUnits, e.2.location = none := by
    intro e he
    obtain ⟨⟨u, i⟩, hu, rfl⟩ := List.mem_map.1 he
    exact (hg u (List.fst_mem_of_mem_zipIdx hu)).1
  rw [PlacementState.pinAll]
  generalize g.numberedUnits = units at hfree
  induction units with
  | nil => rfl
  | cons e rest ih =>
      have he := hfree e List.mem_cons_self
      rw [List.foldlM_cons]
      simp only [he, ok_bind]
      exact ih fun e' he' => hfree e' (List.mem_cons_of_mem e he')

end ApplicationGraph

namespace Fabric

variable {f : Fabric} {g : ApplicationGraph} {p : PartitionedGraph} {budget : Cost}

/-- Without pinned units and virtual chips, placing is placing the slices in their order. -/
theorem place_result (hg : g.Unconfined) (f : Fabric) (p : PartitionedGraph) (placer : PlacerKind) :
    ∃ adjacency, (f.place g p placer).result = (p.slices.toList.foldlM
      (fun (st : PlacementState) s => st.placeSlice f g p adjacency s) (.start f)).map
        PlacementState.placements := by
  rw [place, hg.virtualChips_eq_nil]
  show ∃ adjacency, f.placeSlices g p placer = _
  simp only [placeSlices, hg.pinAll_eq_ok, ok_bind]
  exact ⟨_, rfl⟩

theorem place_of_placeable (hf : f.Coherent) (hg : g.Unconfined)
    (hbudget : f.partitionBudget? = some budget) (hp : p.Placeable g budget)
    (hsize : p.slices.size ≤ UInt32.size) (placer : PlacerKind) :
    ((∃ placements, (f.place g p placer).result = .ok placements) ↔
      p.slices.size ≤ f.applicationCoreCount) ∧
    ∀ e, (f.place g p placer).result = .error e → f.LacksCores g p e := by
  obtain ⟨adjacency, hresult⟩ := place_result hg f p placer
  rw [hresult]
  rcases (PlacementState.filling_start hf hbudget p).placeAll hf hp hsize rfl adjacency with
    ⟨hle, st, hst⟩ | ⟨hlt, e, he, hlacks⟩
  · rw [hst]
    exact ⟨iff_of_true ⟨_, rfl⟩ hle, fun e he => absurd he (by simp [Except.map])⟩
  · rw [he]
    refine ⟨iff_of_false ?_ (Nat.not_le.2 hlt), ?_⟩
    · rintro ⟨placements, h⟩
      exact absurd h (by simp [Except.map])
    · intro e' he'
      rw [← Except.error.inj he']
      exact hlacks

/-- **Placement is complete.** A graph that is partitioned within the budget of a fabric is placed
    if and only if it has no more slices than the fabric has cores for them. If it has more, the
    first one beyond that number lacks a core, with all after it, and nothing else is ever
    lacking. -/
theorem place_complete {atomsPerCore : Std.ExtTreeMap String UInt32} (hf : f.Built)
    (hg : g.Unconfined) (hbudget : f.partitionBudget? = some budget)
    (hp : g.partition budget atomsPerCore = .ok p) (hsize : p.slices.size ≤ UInt32.size)
    (placer : PlacerKind) :
    ((∃ placements, (f.place g (p.prune g) placer).result = .ok placements) ↔
      p.slices.size ≤ f.applicationCoreCount) ∧
    ∀ e, (f.place g (p.prune g) placer).result = .error e → f.LacksCores g p e :=
  -- pruning leaves the slices as they are
  place_of_placeable hf.coherent hg hbudget (hg.placeable hp hsize) hsize placer

end Fabric

/-- Two chips with two cores each for slices, one of them slower than the others. -/
def unevenFabric : Fabric :=
  (Fabric.grid 2 1 ⟨3, 10, 10, 10, 8⟩ false).setCoreBudget ⟨⟨0, 0⟩, 1⟩ 6 10

/-- Cells of which two fit a core. -/
def crowd (atoms : UInt32) : ApplicationGraph where
  units := [{ label := "cells", atoms, model := .linear ⟨"model", .zero, ⟨3, 1, 2⟩, 4⟩ }]
  connections := [⟨"chatter", ⟨0⟩, ⟨0⟩, .allToAll⟩]

theorem unevenFabric_built : unevenFabric.Built := Fabric.Built.grid.setCoreBudget _ _ _

theorem crowd_unconfined (atoms : UInt32) : (crowd atoms).Unconfined := by
  intro u hu
  rw [List.mem_singleton.1 hu]
  exact ⟨rfl, rfl⟩

/-- Eight cells find cores, and one cell more lacks a core. -/
theorem Fabric.place_complete_crowd :
    unevenFabric.Built ∧ (∀ atoms, (crowd atoms).Unconfined) ∧
    unevenFabric.partitionBudget? = some ⟨6, 10, 5⟩ ∧ ∃ p p',
      (crowd 8).partition ⟨6, 10, 5⟩ ∅ = .ok p ∧ (crowd 9).partition ⟨6, 10, 5⟩ ∅ = .ok p' ∧
      (∃ placements, (unevenFabric.place (crowd 8) (p.prune (crowd 8)) .locality).result
        = .ok placements) ∧
      ∃ e, (unevenFabric.place (crowd 9) (p'.prune (crowd 9)) .locality).result = .error e ∧
        unevenFabric.LacksCores (crowd 9) p' e := by
  have hbudget : unevenFabric.partitionBudget? = some ⟨6, 10, 5⟩ := by decide +kernel
  have hcores : unevenFabric.applicationCoreCount = 4 := by decide +kernel
  obtain ⟨p, hp⟩ := exists_eq_ok_of_isOk
    (by decide +kernel : ((crowd 8).partition ⟨6, 10, 5⟩ ∅).isOk = true)
  obtain ⟨p', hp'⟩ := exists_eq_ok_of_isOk
    (by decide +kernel : ((crowd 9).partition ⟨6, 10, 5⟩ ∅).isOk = true)
  have hsize : p.slices.size = 4 := by
    have hall : ∀ p ∈ ((crowd 8).partition ⟨6, 10, 5⟩ ∅).toOption, p.slices.size = 4 := by
      decide +kernel
    exact hall p (by rw [hp]; rfl)
  have hsize' : p'.slices.size = 5 := by
    have hall : ∀ p ∈ ((crowd 9).partition ⟨6, 10, 5⟩ ∅).toOption, p.slices.size = 5 := by
      decide +kernel
    exact hall p' (by rw [hp']; rfl)
  have hplaced := place_complete unevenFabric_built (crowd_unconfined 8) hbudget hp
    (by rw [hsize]; decide) .locality
  have hplaced' := place_complete unevenFabric_built (crowd_unconfined 9) hbudget hp'
    (by rw [hsize']; decide) .locality
  refine ⟨unevenFabric_built, crowd_unconfined, hbudget, p, p', hp, hp', ?_, ?_⟩
  · exact hplaced.1.2 (by omega)
  · cases h : (unevenFabric.place (crowd 9) (p'.prune (crowd 9)) .locality).result with
    | error e => exact ⟨e, rfl, hplaced'.2 e h⟩
    | ok placements =>
        have hle := hplaced'.1.1 ⟨placements, h⟩
        omega

end SpikeMesh
