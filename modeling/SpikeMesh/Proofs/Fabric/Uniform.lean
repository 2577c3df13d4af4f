import SpikeMesh.Proofs.Fabric.History

set_option autoImplicit false

/-! # Cores that are alike

All cores of a mesh have the same budget, and no edit of a fabric changes the budget of a core, so
the cores of a machine stay alike until one is given another budget by hand. The cores of a virtual
chip are alike too, with the budget of some core of the chip to which it was attached. -/

namespace SpikeMesh

/-- Two cores have the same budget. -/
def Core.Alike (a b : Core) : Prop := a.cpuCycles = b.cpuCycles ∧ a.localMemory = b.localMemory

theorem Core.alike_of_mem_numbered {count : Nat} {cpuCycles localMemory : UInt64} {a b : Core}
    (ha : a ∈ numbered count cpuCycles localMemory)
    (hb : b ∈ numbered count cpuCycles localMemory) : a.Alike b := by
  obtain ⟨i, -, rfl⟩ := List.mem_map.1 ha
  obtain ⟨j, -, rfl⟩ := List.mem_map.1 hb
  exact ⟨rfl, rfl⟩

namespace Fabric

variable {f f' : Fabric}

/-- All cores of real chips are alike, and so are those of each virtual chip. -/
structure Uniform (f : Fabric) : Prop where
  real : ∀ c chip c' chip', f.chip? c = some chip → f.chip? c' = some chip' →
    chip.isVirtual = false → chip'.isVirtual = false →
    ∀ core ∈ chip.cores, ∀ core' ∈ chip'.cores, core.Alike core'
  single : ∀ c chip, f.chip? c = some chip →
    ∀ core ∈ chip.cores, ∀ core' ∈ chip.cores, core.Alike core'

/-- A fabric stays uniform when its chips only lose cores. -/
theorem Uniform.of_subset (h : f.Uniform) (hsub : ∀ c chip', f'.chip? c = some chip' →
    ∃ chip, f.chip? c = some chip ∧ chip'.isVirtual = chip.isVirtual ∧
      chip'.cores ⊆ chip.cores) : f'.Uniform where
  real := by
    intro c a c' b ha hb hreal hreal' core hcore core' hcore'
    obtain ⟨chip, hchip, hvirtual, hcores⟩ := hsub c a ha
    obtain ⟨chip', hchip', hvirtual', hcores'⟩ := hsub c' b hb
    exact h.real c chip c' chip' hchip hchip' (hvirtual ▸ hreal) (hvirtual' ▸ hreal') core
      (hcores hcore) core' (hcores' hcore')
  single := by
    intro c a ha core hcore core' hcore'
    obtain ⟨chip, hchip, -, hcores⟩ := hsub c a ha
    exact h.single c chip hchip core (hcores hcore) core' (hcores hcore')

theorem Uniform.modifyChip (h : f.Uniform) (c : ChipCoord) {change : Chip → Chip}
    (hchange : ∀ chip, (change chip).isVirtual = chip.isVirtual ∧
      (change chip).cores ⊆ chip.cores) : (f.modifyChip c change).Uniform := by
  refine h.of_subset fun d chip' hchip' => ?_
  rw [chip?_modifyChip] at hchip'
  split at hchip'
  · obtain ⟨chip, hchip, rfl⟩ := Option.map_eq_some_iff.1 hchip'
    exact ⟨chip, hchip, hchange chip⟩
  · exact ⟨chip', hchip', rfl, List.Subset.refl _⟩

theorem Uniform.removeChip (h : f.Uniform) {c : ChipCoord}
    (hremove : f.removeChip c = .ok f') : f'.Uniform := by
  refine h.of_subset fun d chip' hchip' => ?_
  rw [chip?_removeChip hremove] at hchip'
  split at hchip'
  · exact absurd hchip' (by simp)
  · obtain ⟨chip, hchip, rfl⟩ := Option.map_eq_some_iff.1 hchip'
    exact ⟨chip, hchip, rfl, List.Subset.refl _⟩

theorem Uniform.removeCore (h : f.Uniform) {l : Location}
    (hremove : f.removeCore l = .ok f') : f'.Uniform := by
  rw [removeCore_eq_ok hremove]
  exact h.modifyChip l.chip fun chip => ⟨rfl, List.filter_sublist.subset⟩

theorem Uniform.insertChip (h : f.Uniform) {chip : Chip}
    (hvirtual : chip.isVirtual = true)
    (halike : ∀ core ∈ chip.cores, ∀ core' ∈ chip.cores, core.Alike core') :
    (f.insertChip chip).Uniform where
  real := by
    intro c a c' b ha hb hreal hreal'
    -- the chip that is put in is none of the real ones
    have hbefore : ∀ c a, (f.insertChip chip).chip? c = some a → a.isVirtual = false →
        f.chip? c = some a := by
      intro c a ha hreal
      rw [chip?_insertChip] at ha
      split at ha
      · exact absurd (hvirtual.symm.trans (Option.some.inj ha ▸ hreal)) (by simp)
      · exact ha
    exact h.real c a c' b (hbefore c a ha hreal) (hbefore c' b hb hreal') hreal hreal'
  single := by
    intro c a ha
    rw [chip?_insertChip] at ha
    split at ha
    · exact Option.some.inj ha ▸ halike
    · exact h.single c a ha

theorem Uniform.addVirtualChip (h : f.Uniform) {spec : VirtualChipSpec}
    (hadd : f.addVirtualChip spec = .ok f') : f'.Uniform := by
  rcases addVirtualChip_eq_ok hadd with ⟨rfl, -⟩ | ⟨-, real, core, -, rfl⟩
  · exact h
  · exact (h.insertChip rfl fun _ ha _ hb => Core.alike_of_mem_numbered ha hb).modifyChip
      spec.connectedTo fun _ => ⟨rfl, List.Subset.refl _⟩

theorem uniform_grid (width height : UInt32) (t : ChipTemplate) (wrapAround : Bool) :
    (grid width height t wrapAround).Uniform := by
  have hcores : ∀ c chip, (grid width height t wrapAround).chip? c = some chip →
      chip.cores = Core.numbered t.cores.toNat t.cpuCycles t.localMemory := by
    intro c chip hchip
    rw [chip?_grid] at hchip
    split at hchip
    · rw [← Option.some.inj hchip]
      exact (meshChip_eq width height t wrapAround c).2
    · exact absurd hchip (by simp)
  constructor
  · intro c a c' b ha hb _ _ core hcore core' hcore'
    exact Core.alike_of_mem_numbered (hcores c a ha ▸ hcore) (hcores c' b hb ▸ hcore')
  · intro c a ha core hcore core' hcore'
    exact Core.alike_of_mem_numbered (hcores c a ha ▸ hcore) (hcores c a ha ▸ hcore')

theorem uniform_ofMachine {m : MachineConfig} (h : ofMachine m = .ok f) :
    f.Uniform := by
  unfold ofMachine at h
  simp only at h
  obtain ⟨withoutChips, hchips, h⟩ := bind_eq_ok_iff.1 h
  have huniform : withoutChips.Uniform :=
    foldlM_ok_induction (fun _ f => f.Uniform) (fun _ _ _ _ hf hstep => hf.removeChip hstep)
      (uniform_grid ..) hchips
  exact foldlM_ok_induction (fun _ f => f.Uniform)
    (fun _ _ _ _ hf hstep => hf.removeCore hstep) huniform h

theorem Uniform.inPlace (h : f.Uniform) (e : Edit) : (e.inPlace f).Uniform := by
  cases hresult : e.result f with
  | error err => rwa [Edit.inPlace_of_error hresult]
  | ok f' =>
      rw [Edit.inPlace_of_ok hresult]
      cases e with
      | removeChip c => exact h.removeChip hresult
      | removeCore l => exact h.removeCore hresult
      | setLinkSpeed c d speed =>
          rw [setLinkSpeed_eq_ok hresult]
          exact h.modifyChip c fun _ => ⟨rfl, List.Subset.refl _⟩
      | addVirtualChip spec => exact h.addVirtualChip hresult

/-- A machine is uniform after any edits. -/
theorem Initial.uniform_afterEdits (h : f.Initial) (edits : List Edit) :
    (f.afterEdits edits).Uniform := by
  have hstart : f.Uniform := by
    cases h with
    | grid width height t wrapAround => exact uniform_grid width height t wrapAround
    | ofMachine hmachine => exact uniform_ofMachine hmachine
  exact List.foldlRecOn edits _ (motive := Uniform) hstart fun _ hf e _ => hf.inPlace e

end Fabric

end SpikeMesh
