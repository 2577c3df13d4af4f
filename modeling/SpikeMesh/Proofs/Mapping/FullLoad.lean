import Mathlib.Data.List.Nodup
import SpikeMesh.Proofs.Mapping.Completeness

set_option autoImplicit false

/-! # Machines that are filled to the last core

The budget of a fabric is exact: a cost fits it if and only if every core of the application on
every real chip can take it, and all cores of a chip together can have its shared memory. Then, and
only then, all cores of the machine can be given a slice of this cost one after the other, in any
order, each of which has room when its turn comes. -/

namespace SpikeMesh

/-- The cores of the application on all real chips. -/
def Fabric.applicationLocations (f : Fabric) : List Location :=
  f.realChips.flatMap fun chip => chip.applicationCores.map fun core => ⟨chip.coord, core.id⟩

namespace Occupancy

/-- A core is free, can take a cost, and its chip has the shared memory for it. -/
def HasRoom (o : Occupancy) (f : Fabric) (cost : Cost) (l : Location) : Prop :=
  ∃ chip room, f.chip? l.chip = some chip ∧ o.room? l.chip = some room ∧
    l.core ∈ room.freeCores ∧ coreTakes chip cost l.core = true ∧
    cost.sharedMemory ≤ room.sharedLeft

/-- Cores are taken for one cost each, one after the other, and each has room when it is taken. -/
def TakesEach (o : Occupancy) (f : Fabric) (cost : Cost) : List Location → Prop
  | [] => True
  | l :: rest => o.HasRoom f cost l ∧ (o.take l cost).TakesEach f cost rest

variable {o : Occupancy} {f : Fabric} {cost : Cost} {l : Location} {ls : List Location}

/-! ## Cores that all find room -/

/-- Different cores are free, each on a chip that can afford the cost for all its free cores. -/
structure Ready (o : Occupancy) (f : Fabric) (cost : Cost) (ls : List Location) : Prop where
  nodup : ls.Nodup
  exists_room : ∀ l ∈ ls, ∃ chip room, f.chip? l.chip = some chip ∧ o.room? l.chip = some room ∧
    l.core ∈ room.freeCores ∧ room.Affords chip cost

theorem Ready.hasRoom (h : o.Ready f cost ls) (hl : l ∈ ls) : o.HasRoom f cost l := by
  obtain ⟨chip, room, hchip, hroom, hfree, hafford⟩ := h.exists_room l hl
  exact ⟨chip, room, hchip, hroom, hfree, hafford.takes l.core hfree,
    hafford.shared_of_free (Cost.fits_refl cost) hfree⟩

/-- When one of the cores is taken, the others are still ready. -/
theorem Ready.take (h : o.Ready f cost (l :: ls)) : (o.take l cost).Ready f cost ls := by
  obtain ⟨hnew, hnodup⟩ := List.nodup_cons.1 h.nodup
  refine ⟨hnodup, ?_⟩
  intro l' hl'
  obtain ⟨chip, room, hchip, hroom, hfree, hafford⟩ := h.exists_room l' (List.mem_cons_of_mem l hl')
  rw [room?_take, hroom]
  by_cases hsame : l.chip = l'.chip
  · -- both cores are on one chip, and they are different cores
    have hcore : l.core ≠ l'.core := by
      intro hcore
      obtain rfl : l = l' := by cases l; cases l'; simp_all
      exact hnew hl'
    obtain ⟨_, taken, _, htaken, hcoreFree, _⟩ := h.exists_room l List.mem_cons_self
    obtain rfl : room = taken := Option.some.inj (hroom.symm.trans (hsame ▸ htaken))
    rw [if_pos hsame]
    refine ⟨chip, _, hchip, rfl, ?_, hafford.take (Cost.fits_refl cost) hcoreFree⟩
    exact Std.ExtTreeSet.mem_erase.2
      ⟨fun heq => hcore (Std.LawfulEqCmp.compare_eq_iff_eq.1 heq), hfree⟩
  · rw [if_neg hsame]
    exact ⟨chip, room, hchip, rfl, hfree, hafford⟩

theorem Ready.takesEach (h : o.Ready f cost ls) : o.TakesEach f cost ls := by
  induction ls generalizing o with
  | nil => trivial
  | cons l rest ih => exact ⟨h.hasRoom List.mem_cons_self, ih h.take⟩

/-! ## What the cores take -/

theorem TakesEach.coreTakes (h : o.TakesEach f cost ls) (hl : l ∈ ls) :
    ∃ chip, f.chip? l.chip = some chip ∧ Occupancy.coreTakes chip cost l.core = true := by
  induction ls generalizing o with
  | nil => simp at hl
  | cons first rest ih =>
      obtain ⟨⟨chip, _, hchip, _, _, htakes, _⟩, hrest⟩ := h
      rcases List.mem_cons.1 hl with rfl | hl
      · exact ⟨chip, hchip, htakes⟩
      · exact ih hrest hl

/-- The cores that are taken on a chip need no more shared memory than it has left. -/
theorem TakesEach.shared_le (h : o.TakesEach f cost ls) {c : ChipCoord} {room : ChipRoom}
    (hroom : o.room? c = some room) :
    (ls.filter fun l => l.chip = c).length * cost.sharedMemory.toNat ≤ room.sharedLeft.toNat := by
  induction ls generalizing o room with
  | nil => simp
  | cons first rest ih =>
      obtain ⟨⟨_, taken, _, htaken, _, _, hshared⟩, hrest⟩ := h
      have hnext := room?_take o first cost c
      rw [hroom] at hnext
      by_cases hc : first.chip = c
      · obtain rfl : room = taken := Option.some.inj (hroom.symm.trans (hc ▸ htaken))
        rw [if_pos hc] at hnext
        have hle : _ ≤ (room.sharedLeft - min cost.sharedMemory room.sharedLeft).toNat :=
          ih hrest hnext
        have hmin : min cost.sharedMemory room.sharedLeft = cost.sharedMemory := if_pos hshared
        rw [hmin, UInt64.toNat_sub_of_le _ _ hshared] at hle
        have hshared' := UInt64.le_iff_toNat_le.1 hshared
        rw [List.filter_cons_of_pos (by simpa using hc), List.length_cons, Nat.add_one_mul]
        omega
      · rw [if_neg hc] at hnext
        rw [List.filter_cons_of_neg (by simpa using hc)]
        exact ih hrest hnext

end Occupancy

/-! ## All cores of a machine -/

namespace Fabric

variable {f : Fabric} {cost : Cost}

theorem Coherent.pairwise_realChips (hf : f.Coherent) :
    f.realChips.Pairwise (fun a b => a.coord ≠ b.coord) :=
  hf.pairwise_chipList.filter _

theorem Coherent.nodup_applicationLocations (hf : f.Coherent) : f.applicationLocations.Nodup := by
  rw [applicationLocations, List.nodup_flatMap]
  constructor
  · intro chip hchip
    refine List.Nodup.map_on ?_ ?_
    · intro a ha b hb heq
      have hids : chip.cores.Pairwise fun a b => a.id ≠ b.id :=
        (List.pairwise_map.1 (hf.ascending_of_mem_realChips hchip)).imp
          fun hlt => UInt32.ne_of_lt hlt
      exact eq_of_pairwise_ne Core.id hids (List.mem_of_mem_filter ha) (List.mem_of_mem_filter hb)
        (congrArg Location.core heq)
    · have hids := List.pairwise_map.1 (hf.ascending_of_mem_realChips hchip)
      exact (hids.imp fun hlt heq => UInt32.ne_of_lt hlt (congrArg Core.id heq)).filter _
  · refine hf.pairwise_realChips.imp ?_
    intro a b hne l hla hlb
    obtain ⟨_, _, rfl⟩ := List.mem_map.1 hla
    obtain ⟨_, _, heq⟩ := List.mem_map.1 hlb
    exact hne (congrArg Location.chip heq).symm

/-- At first the cores of the application are ready for any cost that all of them can hold. -/
theorem Coherent.ready (hf : f.Coherent) (hall : ∀ chip ∈ f.realChips, chip.HoldsAll cost)
    {ls : List Location} (hls : ls.Perm f.applicationLocations) :
    (Occupancy.ofFabric f).Ready f cost ls := by
  refine ⟨hls.nodup_iff.2 hf.nodup_applicationLocations, ?_⟩
  intro l hl
  obtain ⟨chip, hchip, hl⟩ := List.mem_flatMap.1 (hls.mem_iff.1 hl)
  obtain ⟨core, hcore, rfl⟩ := List.mem_map.1 hl
  have hfound := (hf.mem_realChips_iff.1 hchip).1
  refine ⟨chip, .ofChip chip, hfound, by rw [Occupancy.room?_ofFabric hf, hfound]; rfl, ?_,
    ChipRoom.affords_ofChip (hf.ascending_of_mem_realChips hchip) (hall chip hchip)⟩
  exact (mem_foldl_insert Core.id chip.applicationCores ∅ core.id).2 (.inl ⟨core, hcore, rfl⟩)

/-- If all cores of the application are taken for a cost, all of them can hold it. -/
theorem Coherent.holdsAll (hf : f.Coherent)
    (h : (Occupancy.ofFabric f).TakesEach f cost f.applicationLocations) {chip : Chip}
    (hchip : chip ∈ f.realChips) : chip.HoldsAll cost where
  core_fits := by
    intro core hcore
    have hl : ⟨chip.coord, core.id⟩ ∈ f.applicationLocations :=
      List.mem_flatMap.2 ⟨chip, hchip, List.mem_map_of_mem hcore⟩
    obtain ⟨chip', hchip', htakes⟩ := h.coreTakes hl
    obtain rfl : chip = chip' :=
      Option.some.inj ((hf.mem_realChips_iff.1 hchip).1.symm.trans hchip')
    have hfound : chip.core? core.id = some core :=
      (hf.ascending_of_mem_realChips hchip).core?_eq_some_iff.2
        ⟨List.mem_of_mem_filter hcore, rfl⟩
    simpa [Occupancy.coreTakes, hfound] using htakes
  shared_le := by
    have hroom : (Occupancy.ofFabric f).room? chip.coord = some (.ofChip chip) := by
      rw [Occupancy.room?_ofFabric hf, (hf.mem_realChips_iff.1 hchip).1]
      rfl
    have hle := h.shared_le hroom
    have hcores := filter_flatMap_of_key Chip.coord Location.chip
      (fun chip : Chip => chip.applicationCores.map fun core => (⟨chip.coord, core.id⟩ : Location))
      hf.pairwise_realChips (by simp) hchip
    rw [applicationLocations, hcores, List.length_map] at hle
    exact hle

/-- **The budget of a fabric is exact.** There is none if and only if no real chip has a core for
    the application. A cost fits it if and only if, on every real chip, each core of the application
    has the cycles and the local memory, and their number times the shared memory is no more than
    the chip has. In a fabric that was built by its operations this means that all cores of the
    machine can be taken for the cost at the same time, in whichever order they are taken. -/
theorem partitionBudget?_exact (hf : f.Counted) :
    (f.partitionBudget? = none ↔ ∀ chip ∈ f.realChips, chip.applicationCores = []) ∧
    ∀ budget, f.partitionBudget? = some budget → ∀ cost : Cost,
      (cost.fits budget = true ↔ ∀ chip ∈ f.realChips, chip.HoldsAll cost) ∧
      (f.Built → (cost.fits budget = true ↔ ∀ ls, ls.Perm f.applicationLocations →
        (Occupancy.ofFabric f).TakesEach f cost ls)) := by
  refine ⟨partitionBudget?_eq_none_iff, fun budget hbudget cost => ?_⟩
  have hfits : cost.fits budget = true ↔ ∀ chip ∈ f.realChips, chip.HoldsAll cost :=
    fits_partitionBudget?_iff hf hbudget
  refine ⟨hfits, fun hbuilt => hfits.trans ⟨?_, ?_⟩⟩
  · intro hall ls hls
    exact (hbuilt.coherent.ready hall hls).takesEach
  · intro htakes chip hchip
    exact hbuilt.coherent.holdsAll (htakes _ (List.Perm.refl _)) hchip

end Fabric

/-- All four cores of two uneven chips can be taken for the budget of their fabric. -/
theorem Fabric.partitionBudget?_exact_uneven :
    unevenFabric.Counted ∧ unevenFabric.partitionBudget? = some ⟨6, 10, 5⟩ ∧
    unevenFabric.applicationLocations
      = [⟨⟨0, 0⟩, 1⟩, ⟨⟨0, 0⟩, 2⟩, ⟨⟨1, 0⟩, 1⟩, ⟨⟨1, 0⟩, 2⟩] ∧
    (Occupancy.ofFabric unevenFabric).TakesEach unevenFabric ⟨6, 10, 5⟩
      unevenFabric.applicationLocations := by
  have hcounted : unevenFabric.Counted := unevenFabric_built.coherent.counted
  have hbudget : unevenFabric.partitionBudget? = some ⟨6, 10, 5⟩ := by decide +kernel
  refine ⟨hcounted, hbudget, by decide +kernel, ?_⟩
  have hexact := (partitionBudget?_exact hcounted).2 _ hbudget ⟨6, 10, 5⟩
  exact (hexact.2 unevenFabric_built).1 (Cost.fits_refl _) _ (List.Perm.refl _)

end SpikeMesh
