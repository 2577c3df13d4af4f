import SpikeMesh.Fabric.VirtualChip
import SpikeMesh.Proofs.Collections
import SpikeMesh.Proofs.Fallible

set_option autoImplicit false

/-! # Edits of a fabric

A fabric is built from a mesh by edits of its chips. Whatever is built keeps every chip under its
own coordinate, with cores in the strict order of their ids, so that a core is the only one with its
id. A virtual chip that is attached is there afterwards, and no chip becomes one otherwise. -/

namespace SpikeMesh

/-! ## Cores of a chip -/

namespace Chip

/-- The cores are listed in the strict order of their ids. -/
def Ascending (chip : Chip) : Prop := (chip.cores.map Core.id).Pairwise (· < ·)

variable {chip : Chip}

theorem ascending_of_sublist {chip' : Chip} (h : chip.Ascending)
    (hsub : (chip'.cores.map Core.id).Sublist (chip.cores.map Core.id)) : chip'.Ascending :=
  List.Pairwise.sublist hsub h

/-- The core with an id is the one that carries the id. -/
theorem Ascending.core?_eq_some_iff (h : chip.Ascending) {id : UInt32} {core : Core} :
    chip.core? id = some core ↔ core ∈ chip.cores ∧ core.id = id := by
  constructor
  · intro hcore
    exact ⟨List.mem_of_find?_eq_some hcore, by simpa using List.find?_some hcore⟩
  · rintro ⟨hcore, rfl⟩
    obtain ⟨found, hfound⟩ : ∃ found, chip.core? core.id = some found :=
      Option.isSome_iff_exists.1 (List.find?_isSome.2 ⟨core, hcore, by simp⟩)
    have hids : chip.cores.Pairwise (fun a b => a.id ≠ b.id) :=
      (List.pairwise_map.1 h).imp fun hlt => UInt32.ne_of_lt hlt
    have hid : found.id = core.id := by simpa using List.find?_some hfound
    rw [hfound, eq_of_pairwise_ne Core.id hids (List.mem_of_find?_eq_some hfound) hcore hid]

end Chip

theorem Core.ascending_numbered {count : Nat} (h : count ≤ UInt32.size)
    (cpuCycles localMemory : UInt64) :
    ((Core.numbered count cpuCycles localMemory).map Core.id).Pairwise (· < ·) := by
  have hids : (Core.numbered count cpuCycles localMemory).map Core.id
      = (List.range count).map UInt32.ofNat := by
    rw [numbered, List.map_map]
    rfl
  rw [hids, List.pairwise_map]
  refine List.pairwise_lt_range.imp_of_mem ?_
  intro i j hi hj hij
  have hj' := List.mem_range.1 hj
  rw [UInt32.lt_iff_toNat_lt, UInt32.toNat_ofNat', UInt32.toNat_ofNat',
    Nat.mod_eq_of_lt (by simp only [UInt32.size] at h; omega),
    Nat.mod_eq_of_lt (by simp only [UInt32.size] at h; omega)]
  exact hij

namespace Fabric

variable {f f' : Fabric}

/-! ## Look-ups after edits -/

theorem chip?_insertChip (f : Fabric) (chip : Chip) (c : ChipCoord) :
    (f.insertChip chip).chip? c = if chip.coord = c then some chip else f.chip? c :=
  getElem?_insert_of_lawful f.chips chip.coord c chip

theorem chip?_modifyChip (f : Fabric) (c : ChipCoord) (g : Chip → Chip) (d : ChipCoord) :
    (f.modifyChip c g).chip? d = if c = d then (f.chip? d).map g else f.chip? d :=
  getElem?_modify_of_lawful f.chips c d g

theorem chip?_removeChip {c : ChipCoord} (h : f.removeChip c = .ok f') (d : ChipCoord) :
    f'.chip? d = if c = d then none else (f.chip? d).map fun chip => chip.dropLinksTo c := by
  unfold removeChip at h
  split at h
  · rw [← Except.ok.inj h]
    show ((f.chips.erase c).map fun _ chip => chip.dropLinksTo c)[d]? = _
    rw [Std.ExtTreeMap.getElem?_map, getElem?_erase_of_lawful]
    by_cases hc : c = d
    · rw [if_pos hc, if_pos hc]
      rfl
    · rw [if_neg hc, if_neg hc]
      rfl
  · exact absurd h (by simp)

/-- A core is removed from a chip that has it. -/
theorem removeCore_eq_ok {l : Location} (h : f.removeCore l = .ok f') :
    f' = f.modifyChip l.chip fun chip => chip.dropCore l.core := by
  unfold removeCore at h
  split at h
  · exact absurd h (by simp)
  · split at h
    · exact (Except.ok.inj h).symm
    · exact absurd h (by simp)

/-- A speed is set for a link that is there. -/
theorem setLinkSpeed_eq_ok {c : ChipCoord} {d : Direction} {speed : UInt32}
    (h : f.setLinkSpeed c d speed = .ok f') :
    f' = f.modifyChip c fun chip => { chip with router := { chip.router with
      links := chip.router.links.modify d fun link => { link with speed := max speed 1 } } } := by
  unfold setLinkSpeed at h
  split at h
  · exact absurd h (by simp)
  · exact (Except.ok.inj h).symm

/-- A virtual chip is there already, or is joined to a real chip. -/
theorem addVirtualChip_eq_ok {spec : VirtualChipSpec} (h : f.addVirtualChip spec = .ok f') :
    (f' = f ∧ ∃ existing, f.chip? spec.coord = some existing ∧ spec.describes existing = true) ∨
    (f.chip? spec.coord = none ∧ ∃ real core, f.attachment spec = .ok (real, core) ∧
      f' = (f.insertChip (spec.chip real core)).modifyChip spec.connectedTo
        fun chip => chip.setLink ⟨spec.direction, spec.coord, 1⟩) := by
  unfold addVirtualChip at h
  simp only at h
  split at h
  · next existing hexisting =>
      split at h
      · next hdescribes =>
          exact .inl ⟨(Except.ok.inj h).symm, existing, hexisting, hdescribes⟩
      · exact absurd h (by simp)
  · next hnone =>
      split at h
      · exact absurd h (by simp)
      · next real core hattachment =>
          exact .inr ⟨hnone, real, core, hattachment, (Except.ok.inj h).symm⟩

/-! ## Coherence -/

/-- Every chip is kept under its own coordinate, with its cores in the order of their ids. -/
structure Coherent (f : Fabric) : Prop where
  coord_eq : ∀ c chip, f.chip? c = some chip → chip.coord = c
  ascending : ∀ c chip, f.chip? c = some chip → chip.Ascending

theorem coherent_empty : Coherent .empty where
  coord_eq := by simp [empty, chip?]
  ascending := by simp [empty, chip?]

theorem Coherent.insertChip (h : f.Coherent) {chip : Chip} (hchip : chip.Ascending) :
    (f.insertChip chip).Coherent where
  coord_eq := by
    intro c found hfound
    rw [chip?_insertChip] at hfound
    split at hfound
    · next hc => rw [← Option.some.inj hfound, hc]
    · exact h.coord_eq c found hfound
  ascending := by
    intro c found hfound
    rw [chip?_insertChip] at hfound
    split at hfound
    · rw [← Option.some.inj hfound]
      exact hchip
    · exact h.ascending c found hfound

/-- A change of a chip that keeps its coordinate and the order of its cores. -/
theorem Coherent.modifyChip (h : f.Coherent) (c : ChipCoord) {g : Chip → Chip}
    (hcoord : ∀ chip, (g chip).coord = chip.coord)
    (hcores : ∀ chip, chip.Ascending → (g chip).Ascending) : (f.modifyChip c g).Coherent where
  coord_eq := by
    intro d found hfound
    rw [chip?_modifyChip] at hfound
    split at hfound
    · obtain ⟨chip, hchip, rfl⟩ := Option.map_eq_some_iff.1 hfound
      rw [hcoord, h.coord_eq d chip hchip]
    · exact h.coord_eq d found hfound
  ascending := by
    intro d found hfound
    rw [chip?_modifyChip] at hfound
    split at hfound
    · obtain ⟨chip, hchip, rfl⟩ := Option.map_eq_some_iff.1 hfound
      exact hcores chip (h.ascending d chip hchip)
    · exact h.ascending d found hfound

theorem Coherent.removeChip (h : f.Coherent) {c : ChipCoord} (hremove : f.removeChip c = .ok f') :
    f'.Coherent where
  coord_eq := by
    intro d found hfound
    rw [chip?_removeChip hremove] at hfound
    split at hfound
    · exact absurd hfound (by simp)
    · obtain ⟨chip, hchip, rfl⟩ := Option.map_eq_some_iff.1 hfound
      exact h.coord_eq d chip hchip
  ascending := by
    intro d found hfound
    rw [chip?_removeChip hremove] at hfound
    split at hfound
    · exact absurd hfound (by simp)
    · obtain ⟨chip, hchip, rfl⟩ := Option.map_eq_some_iff.1 hfound
      exact h.ascending d chip hchip

theorem Coherent.removeCore (h : f.Coherent) {l : Location} (hremove : f.removeCore l = .ok f') :
    f'.Coherent := by
  rw [removeCore_eq_ok hremove]
  exact h.modifyChip l.chip (fun _ => rfl)
    (fun _ hchip => Chip.ascending_of_sublist hchip (List.filter_sublist.map Core.id))

theorem Coherent.addVirtualChip (h : f.Coherent) {spec : VirtualChipSpec}
    (hadd : f.addVirtualChip spec = .ok f') : f'.Coherent := by
  rcases addVirtualChip_eq_ok hadd with ⟨rfl, -⟩ | ⟨-, real, core, -, rfl⟩
  · exact h
  · refine (h.insertChip ?_).modifyChip spec.connectedTo (fun _ => rfl) (fun _ hchip => hchip)
    exact Core.ascending_numbered (by decide) _ _

/-- The chips of a mesh differ from their template in the links only. -/
theorem meshChip_eq (width height : UInt32) (t : ChipTemplate) (wrapAround : Bool)
    (c : ChipCoord) : (meshChip width height t wrapAround c).coord = c ∧
      (meshChip width height t wrapAround c).cores = (Chip.ofTemplate c t).cores := by
  unfold meshChip
  refine List.foldlRecOn Direction.all _ (motive := fun chip : Chip =>
    chip.coord = c ∧ chip.cores = (Chip.ofTemplate c t).cores) ⟨rfl, rfl⟩ ?_
  intro chip hchip d _
  split
  · exact hchip
  · exact hchip

theorem coherent_grid (width height : UInt32) (t : ChipTemplate) (wrapAround : Bool) :
    (grid width height t wrapAround).Coherent := by
  have hfold : ∀ (coords : List ChipCoord) (f : Fabric), f.Coherent →
      Coherent ⟨coords.foldl
        (fun chips c => chips.insert c (meshChip width height t wrapAround c)) f.chips⟩ := by
    intro coords
    induction coords with
    | nil => intro f hf; exact hf
    | cons c rest ih =>
        intro f hf
        obtain ⟨hcoord, hcores⟩ := meshChip_eq width height t wrapAround c
        have hchip : (meshChip width height t wrapAround c).Ascending := by
          rw [Chip.Ascending, hcores]
          exact Core.ascending_numbered (Nat.le_of_lt t.cores.toNat_lt) _ _
        have hinsert := hf.insertChip hchip
        rw [Fabric.insertChip, hcoord] at hinsert
        exact ih _ hinsert
  exact hfold _ .empty coherent_empty

theorem coherent_ofMachine {m : MachineConfig} (h : ofMachine m = .ok f) : f.Coherent := by
  unfold ofMachine at h
  simp only at h
  obtain ⟨withoutChips, hchips, h⟩ := bind_eq_ok_iff.1 h
  have hcoherent : withoutChips.Coherent :=
    foldlM_ok_induction (fun _ f => f.Coherent) (fun _ _ _ _ hf hstep => hf.removeChip hstep)
      (coherent_grid ..) hchips
  exact foldlM_ok_induction (fun _ f => f.Coherent)
    (fun _ _ _ _ hf hstep => hf.removeCore hstep) hcoherent h

/-- The fabric was built by its operations. A chip that is put in or changed by hand has its cores
    in the order of their ids, and stays at its coordinate. -/
inductive Built : Fabric → Prop
  | empty : Built .empty
  | grid {width height : UInt32} {t : ChipTemplate} {wrapAround : Bool} :
      Built (.grid width height t wrapAround)
  | ofMachine {m : MachineConfig} {f : Fabric} : ofMachine m = .ok f → Built f
  | insertChip {f : Fabric} {chip : Chip} : Built f → chip.Ascending → Built (f.insertChip chip)
  | removeChip {f f' : Fabric} {c : ChipCoord} : Built f → f.removeChip c = .ok f' → Built f'
  | removeCore {f f' : Fabric} {l : Location} : Built f → f.removeCore l = .ok f' → Built f'
  | setLinkSpeed {f f' : Fabric} {c : ChipCoord} {d : Direction} {speed : UInt32} :
      Built f → f.setLinkSpeed c d speed = .ok f' → Built f'
  | modifyChip {f : Fabric} {c : ChipCoord} {g : Chip → Chip} : Built f →
      (∀ chip, (g chip).coord = chip.coord) → (∀ chip, chip.Ascending → (g chip).Ascending) →
      Built (f.modifyChip c g)
  | addVirtualChip {f f' : Fabric} {spec : VirtualChipSpec} :
      Built f → f.addVirtualChip spec = .ok f' → Built f'

/-- **Every edit keeps a fabric coherent.** -/
theorem Built.coherent (h : f.Built) : f.Coherent := by
  induction h with
  | empty => exact coherent_empty
  | grid => exact coherent_grid ..
  | ofMachine hmachine => exact coherent_ofMachine hmachine
  | insertChip _ hchip ih => exact ih.insertChip hchip
  | removeChip _ hremove ih => exact ih.removeChip hremove
  | removeCore _ hremove ih => exact ih.removeCore hremove
  | setLinkSpeed _ hset ih =>
      rw [setLinkSpeed_eq_ok hset]
      exact ih.modifyChip _ (fun _ => rfl) (fun _ hchip => hchip)
  | modifyChip _ hcoord hcores ih => exact ih.modifyChip _ hcoord hcores
  | addVirtualChip _ hadd ih => exact ih.addVirtualChip hadd

theorem Built.setCoreBudget (h : f.Built) (l : Location) (cpuCycles localMemory : UInt64) :
    (f.setCoreBudget l cpuCycles localMemory).Built := by
  refine .modifyChip h (fun _ => rfl) (fun chip hchip => Chip.ascending_of_sublist hchip ?_)
  rw [List.map_map, List.map_congr_left (g := Core.id)]
  intro core _
  simp only [Function.comp_apply]
  split
  · rfl
  · rfl

/-- The chips of a coherent fabric are those that are found under their coordinates. -/
theorem Coherent.mem_chipList_iff (h : f.Coherent) {chip : Chip} :
    chip ∈ f.chipList ↔ f.chip? chip.coord = some chip := by
  rw [chipList, List.mem_map]
  constructor
  · rintro ⟨⟨c, chip⟩, he, rfl⟩
    have hchip : f.chip? c = some chip := Std.ExtTreeMap.mem_toList_iff_getElem?_eq_some.1 he
    show f.chip? chip.coord = some chip
    rw [h.coord_eq c chip hchip, hchip]
  · intro hchip
    exact ⟨(chip.coord, chip), Std.ExtTreeMap.mem_toList_iff_getElem?_eq_some.2 hchip, rfl⟩

theorem Coherent.mem_realChips_iff (h : f.Coherent) {chip : Chip} :
    chip ∈ f.realChips ↔ f.chip? chip.coord = some chip ∧ chip.isVirtual = false := by
  rw [realChips, List.mem_filter, h.mem_chipList_iff, Bool.not_eq_true']

theorem Coherent.ascending_of_mem_realChips (h : f.Coherent) {chip : Chip}
    (hchip : chip ∈ f.realChips) : chip.Ascending :=
  h.ascending chip.coord chip (h.mem_realChips_iff.1 hchip).1

/-- No two chips of a coherent fabric have one coordinate. -/
theorem Coherent.pairwise_chipList (h : f.Coherent) :
    f.chipList.Pairwise (fun a b => a.coord ≠ b.coord) := by
  rw [chipList, List.pairwise_map]
  refine (toList_pairwise_fst_ne f.chips).imp_of_mem ?_
  rintro ⟨c, chip⟩ ⟨c', chip'⟩ he he' hne
  have hchip : f.chip? c = some chip := Std.ExtTreeMap.mem_toList_iff_getElem?_eq_some.1 he
  have hchip' : f.chip? c' = some chip' := Std.ExtTreeMap.mem_toList_iff_getElem?_eq_some.1 he'
  rw [h.coord_eq c chip hchip, h.coord_eq c' chip' hchip']
  exact hne

/-! ## Virtual chips -/

theorem isVirtual_eq_any (f : Fabric) (c : ChipCoord) :
    f.isVirtual c = (f.chip? c).any Chip.isVirtual := by
  unfold isVirtual
  cases f.chip? c with
  | none => rfl
  | some chip => rfl

/-- Attaching a virtual chip makes its coordinate virtual, and no other one. -/
theorem isVirtual_addVirtualChip {spec : VirtualChipSpec} (h : f.addVirtualChip spec = .ok f')
    (c : ChipCoord) : f'.isVirtual c = true ↔ f.isVirtual c = true ∨ c = spec.coord := by
  rcases addVirtualChip_eq_ok h with ⟨rfl, existing, hexisting, hdescribes⟩ |
    ⟨-, real, core, -, rfl⟩
  · -- the virtual chip was there before
    refine ⟨.inl, ?_⟩
    rintro (hvirtual | rfl)
    · exact hvirtual
    · rw [isVirtual_eq_any, hexisting]
      exact (Bool.and_eq_true_iff.1 hdescribes).1
  · -- the link to the new chip makes no chip virtual
    have hlink : ∀ o : Option Chip, (if spec.connectedTo = c then o.map fun chip =>
        chip.setLink ⟨spec.direction, spec.coord, 1⟩ else o).any Chip.isVirtual
          = o.any Chip.isVirtual := by
      intro o
      split
      · cases o <;> rfl
      · rfl
    rw [isVirtual_eq_any, isVirtual_eq_any, chip?_modifyChip, hlink, chip?_insertChip]
    have hcoord : (spec.chip real core).coord = spec.coord := rfl
    rw [hcoord]
    by_cases hc : spec.coord = c
    · rw [if_pos hc]
      exact iff_of_true rfl (.inr hc.symm)
    · rw [if_neg hc, or_iff_left (Ne.symm hc)]

end Fabric

end SpikeMesh
