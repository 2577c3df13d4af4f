import SpikeMesh.Proofs.Fabric.Attachment

set_option autoImplicit false

/-! # Fabrics that differ by virtual chips

Virtual chips that are attached one after the other leave everything else of a fabric as it was, but
for the links to them. The budget of a fabric is taken from the cores and the memory of its real
chips, so virtual chips do not change it. -/

namespace SpikeMesh

/-- A chip apart from its links. -/
def Chip.unlinked (chip : Chip) : Chip := { chip with router := { chip.router with links := ∅ } }

theorem Chip.unlinked_eq_iff {a b : Chip} : a.unlinked = b.unlinked ↔ a.coord = b.coord ∧
    a.cores = b.cores ∧ a.sharedMemory = b.sharedMemory ∧
    a.router.tableCapacity = b.router.tableCapacity ∧ a.isVirtual = b.isVirtual := by
  simp [unlinked]

namespace Fabric

/-- A fabric is another one with virtual chips. Each of them hangs on a link that was free, with the
    budgets of the chip to which it is attached. Nothing else of the chips and links differs. -/
structure ExtendedBy (f f' : Fabric) (added : List VirtualChipSpec) : Prop where
  coords_ne : added.Pairwise fun a b => a.coord ≠ b.coord
  chip?_added : ∀ spec ∈ added, f.chip? spec.coord = none ∧ ∃ real core,
    f.attachment spec = .ok (real, core) ∧ f'.chip? spec.coord = some (spec.chip real core)
  chip?_other : ∀ c, (∀ spec ∈ added, spec.coord ≠ c) →
    (f'.chip? c).map Chip.unlinked = (f.chip? c).map Chip.unlinked
  link?_added : ∀ spec ∈ added, f'.link? spec.connectedTo spec.direction
    = some ⟨spec.direction, spec.coord, 1⟩
  link?_other : ∀ c d, (∀ spec ∈ added, spec.coord ≠ c ∧
    (spec.connectedTo, spec.direction) ≠ (c, d)) → f'.link? c d = f.link? c d

variable {f f' : Fabric} {added : List VirtualChipSpec}

theorem ExtendedBy.refl (f : Fabric) : f.ExtendedBy f [] where
  coords_ne := .nil
  chip?_added := by simp
  chip?_other := fun _ _ => rfl
  link?_added := by simp
  link?_other := fun _ _ _ => rfl

/-! ## One more virtual chip -/

section Join

variable {spec : VirtualChipSpec} {real : Chip} {core : Core}

/-- The chip to which one more virtual chip is attached is a chip of the fabric at the start. -/
theorem ExtendedBy.coord_ne_connectedTo (h : f.ExtendedBy f' added) (hjoin : f'.Joinable spec real)
    {other : VirtualChipSpec} (hother : other ∈ added) : other.coord ≠ spec.connectedTo := by
  intro heq
  obtain ⟨-, real', core', -, hchip⟩ := h.chip?_added other hother
  rw [heq, hjoin.chip?_connectedTo] at hchip
  have hreal := hjoin.isVirtual_real
  rw [Option.some.inj hchip] at hreal
  exact absurd hreal (by simp [VirtualChipSpec.chip, Chip.setLink])

theorem ExtendedBy.coord_ne (h : f.ExtendedBy f' added) (hjoin : f'.Joinable spec real)
    {other : VirtualChipSpec} (hother : other ∈ added) : other.coord ≠ spec.coord := by
  intro heq
  obtain ⟨-, real', core', -, hchip⟩ := h.chip?_added other hother
  rw [heq, hjoin.chip?_coord] at hchip
  exact absurd hchip (by simp)

/-- The link of one more virtual chip was free at the start. -/
theorem ExtendedBy.link?_eq_none (h : f.ExtendedBy f' added) (hjoin : f'.Joinable spec real) :
    f.link? spec.connectedTo spec.direction = none := by
  have hfree := hjoin.link?_connectedTo
  rw [← h.link?_other spec.connectedTo spec.direction, hfree]
  intro other hother
  refine ⟨h.coord_ne_connectedTo hjoin hother, ?_⟩
  intro heq
  obtain ⟨hconnected, hdirection⟩ := Prod.mk.inj heq
  rw [← hconnected, ← hdirection, h.link?_added other hother] at hfree
  exact absurd hfree (by simp)

/-- One more virtual chip is what it would have been at the start. -/
theorem ExtendedBy.attachment_eq (h : f.ExtendedBy f' added) (hjoin : f'.Joinable spec real)
    (hattachment : f'.attachment spec = .ok (real, core)) :
    ∃ before, f.attachment spec = .ok (before, core) ∧
      spec.chip before core = spec.chip real core := by
  obtain ⟨-, -, -, hfirst⟩ := attachment_eq_ok_iff.1 hattachment
  have hchip := h.chip?_other spec.connectedTo fun _ => h.coord_ne_connectedTo hjoin
  rw [hjoin.chip?_connectedTo, Option.map_some, eq_comm, Option.map_eq_some_iff] at hchip
  obtain ⟨before, hbefore, hsame⟩ := hchip
  obtain ⟨-, hcores, hshared, -, hvirtual⟩ := Chip.unlinked_eq_iff.1 hsame
  refine ⟨before, attachment_eq_ok_iff.2 ⟨hbefore, ?_, ?_, ?_⟩, ?_⟩
  · rw [hvirtual, hjoin.isVirtual_real]
  · have hfree := h.link?_eq_none hjoin
    rwa [link?_eq_bind, hbefore] at hfree
  · rw [Chip.applicationCores, hcores]
    exact hfirst
  · rw [VirtualChipSpec.chip, VirtualChipSpec.chip, hshared]

theorem ExtendedBy.join (h : f.ExtendedBy f' added) (hjoin : f'.Joinable spec real)
    (hattachment : f'.attachment spec = .ok (real, core)) :
    f.ExtendedBy (f'.join spec real core) (added ++ [spec]) where
  coords_ne := by
    rw [List.pairwise_append]
    refine ⟨h.coords_ne, List.pairwise_singleton _ spec, ?_⟩
    intro other hother new hnew
    rw [List.mem_singleton.1 hnew]
    exact h.coord_ne hjoin hother
  chip?_added := by
    intro other hother
    rcases List.mem_append.1 hother with hother | hnew
    · obtain ⟨hnone, real', core', hattached, hchip⟩ := h.chip?_added other hother
      refine ⟨hnone, real', core', hattached, ?_⟩
      rw [chip?_join hjoin, if_neg (h.coord_ne hjoin hother).symm,
        if_neg (h.coord_ne_connectedTo hjoin hother).symm, hchip]
    · rw [List.mem_singleton.1 hnew]
      obtain ⟨before, hbefore, hsame⟩ := h.attachment_eq hjoin hattachment
      refine ⟨?_, before, core, hbefore, ?_⟩
      · have hold := h.chip?_other spec.coord fun _ => h.coord_ne hjoin
        rwa [hjoin.chip?_coord, eq_comm, Option.map_none, Option.map_eq_none_iff] at hold
      · rw [chip?_join hjoin, if_pos rfl, hsame]
  chip?_other := by
    intro c hc
    have hold := h.chip?_other c fun other hother => hc other (List.mem_append_left _ hother)
    rw [← hold, chip?_join hjoin, if_neg (hc spec (by simp))]
    split
    · next hconnected =>
        rw [← hconnected, hjoin.chip?_connectedTo]
        rfl
    · rfl
  link?_added := by
    intro other hother
    rw [link?_join_eq_some_iff hjoin core]
    rcases List.mem_append.1 hother with hother | hnew
    · exact .inr (.inr (h.link?_added other hother))
    · rw [List.mem_singleton.1 hnew]
      exact .inr (.inl ⟨rfl, rfl, rfl⟩)
  link?_other := by
    intro c d hnone
    obtain ⟨hcoord, hend⟩ := hnone spec (by simp)
    rw [← h.link?_other c d fun other hother => hnone other (List.mem_append_left _ hother)]
    refine Option.ext fun link => ?_
    rw [link?_join_eq_some_iff hjoin core]
    constructor
    · rintro (⟨rfl, -⟩ | ⟨rfl, rfl, -⟩ | hlink)
      · exact absurd rfl hcoord
      · exact absurd rfl hend
      · exact hlink
    · exact fun hlink => .inr (.inr hlink)

end Join

/-! ## The real chips -/

/-- The real chips by coordinate, apart from their links. -/
def unlinkedMesh (f : Fabric) : Std.ExtTreeMap ChipCoord Chip :=
  f.chips.filterMap fun _ chip => if chip.isVirtual then none else some chip.unlinked

theorem map_unlinked_realChips (f : Fabric) :
    f.realChips.map Chip.unlinked = f.unlinkedMesh.toList.map Prod.snd := by
  rw [unlinkedMesh, Std.ExtTreeMap.toList_filterMap, realChips, chipList]
  generalize f.chips.toList = entries
  induction entries with
  | nil => rfl
  | cons e rest ih => cases hvirtual : e.2.isVirtual <;> simpa [hvirtual] using ih

/-- A fabric has the real chips that it had before virtual chips were added. -/
theorem ExtendedBy.map_unlinked_realChips (h : f.ExtendedBy f' added) :
    f'.realChips.map Chip.unlinked = f.realChips.map Chip.unlinked := by
  have hmesh : f'.unlinkedMesh = f.unlinkedMesh := by
    refine Std.ExtTreeMap.ext_getElem? fun c => ?_
    rw [unlinkedMesh, unlinkedMesh, Std.ExtTreeMap.getElem?_filterMap',
      Std.ExtTreeMap.getElem?_filterMap']
    show (f'.chip? c).bind _ = (f.chip? c).bind _
    by_cases hc : ∀ spec ∈ added, spec.coord ≠ c
    · have hunlinked : ∀ o : Option Chip,
          (o.bind fun chip => if chip.isVirtual then none else some chip.unlinked)
            = (o.map Chip.unlinked).bind fun chip =>
              if chip.isVirtual then none else some chip := by
        intro o
        cases o <;> rfl
      rw [hunlinked, hunlinked, h.chip?_other c hc]
    · push Not at hc
      obtain ⟨spec, hspec, rfl⟩ := hc
      obtain ⟨hnone, real, core, -, hchip⟩ := h.chip?_added spec hspec
      rw [hnone, hchip]
      rfl
  rw [Fabric.map_unlinked_realChips, Fabric.map_unlinked_realChips, hmesh]

theorem ExtendedBy.partitionBudget?_eq (h : f.ExtendedBy f' added) :
    f'.partitionBudget? = f.partitionBudget? := by
  have hshares : ∀ f : Fabric, f.realChips.flatMap coreShares
      = (f.realChips.map Chip.unlinked).flatMap coreShares := by
    intro f
    rw [List.flatMap_map]
    rfl
  rw [partitionBudget?, partitionBudget?, hshares f', hshares f, h.map_unlinked_realChips]

end Fabric

end SpikeMesh
