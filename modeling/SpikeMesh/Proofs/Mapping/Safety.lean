import SpikeMesh.Proofs.Mapping.Room

set_option autoImplicit false

/-! # Safe placements

When all slices of a graph could be placed, each has a core of its own that can take it, and the
slices on a chip share memory that the chip has. A unit that is pinned to a core has one slice, on
this core, and the slices of a unit with a virtual chip are on that chip. Other units come to a
virtual chip only if they are pinned to one of its cores. -/

namespace SpikeMesh

/-! ## Virtual chips that a graph asks for -/

namespace Fabric

/-- Virtual chips that can all be attached are attached one after the other. -/
theorem attachAll_eq_ok {f : Fabric} {specs : List VirtualChipSpec}
    (h : (f.attachAll specs).result = .ok ()) :
    specs.foldlM addVirtualChip f = .ok (f.attachAll specs).fabric := by
  induction specs generalizing f with
  | nil => rfl
  | cons spec rest ih =>
      rw [List.foldlM_cons]
      cases hadd : f.addVirtualChip spec with
      | error e =>
          simp only [attachAll, hadd] at h
          exact absurd h (by simp)
      | ok extended =>
          -- whether there is a note makes no difference to the fabric
          have hrest : (f.attachAll (spec :: rest)).fabric = (extended.attachAll rest).fabric ∧
              (f.attachAll (spec :: rest)).result = (extended.attachAll rest).result := by
            simp only [attachAll, hadd]
            split
            · exact ⟨rfl, rfl⟩
            · exact ⟨rfl, rfl⟩
          rw [hrest.1, ok_bind]
          exact ih (hrest.2 ▸ h)

/-- With virtual chips attached, a fabric is coherent, and their coordinates are virtual. -/
theorem attachAll_coherent {f : Fabric} (hf : f.Coherent) {specs : List VirtualChipSpec}
    (h : (f.attachAll specs).result = .ok ()) : (f.attachAll specs).fabric.Coherent ∧
      ∀ spec ∈ specs, (f.attachAll specs).fabric.isVirtual spec.coord = true := by
  refine foldlM_ok_induction (fun (done : List VirtualChipSpec) (f : Fabric) => f.Coherent ∧
    ∀ spec ∈ done, f.isVirtual spec.coord = true) ?_ ⟨hf, by simp⟩ (attachAll_eq_ok h)
  rintro done spec f f' ⟨hf, hdone⟩ hadd
  refine ⟨hf.addVirtualChip hadd, ?_⟩
  intro other hother
  rw [isVirtual_addVirtualChip hadd]
  rcases List.mem_append.1 hother with hother | hother
  · exact .inl (hdone other hother)
  · exact .inr (by rw [List.mem_singleton.1 hother])

end Fabric

theorem ApplicationGraph.mem_virtualChips {g : ApplicationGraph} {id : UnitId} {u : GraphUnit}
    {spec : VirtualChipSpec} (hu : g.unit? id = some u) (hspec : u.virtualChip = some spec) :
    spec ∈ g.virtualChips :=
  List.mem_filterMap.2 ⟨u, List.mem_of_getElem? hu, hspec⟩

/-! ## Units on the cores they ask for -/

namespace PlacementState

variable {st st' : PlacementState} {f : Fabric} {g : ApplicationGraph} {p : PartitionedGraph}

/-- A unit with a virtual chip is on this chip. Any other unit is on a real chip or on the core to
    which it is pinned. -/
structure Allows (f : Fabric) (u : GraphUnit) (l : Location) : Prop where
  confined : ∀ spec, u.virtualChip = some spec → l.chip = spec.coord
  reserved : u.virtualChip = none → f.isVirtual l.chip = true → u.location = some l

/-- The placed slices are on cores that their units allow. -/
def Allowed (st : PlacementState) (f : Fabric) (g : ApplicationGraph) (p : PartitionedGraph) :
    Prop :=
  ∀ s ∈ p.slices.toList, ∀ l, st.placements.get? s.id = some l →
    ∃ u, g.unit? s.unit = some u ∧ Allows f u l

/-- The one slice of a unit is placed on a core. -/
def Pinned (st : PlacementState) (p : PartitionedGraph) (id : UnitId) (l : Location) : Prop :=
  ∃ s ∈ p.slices.toList, p.slicesOf id = [s.id] ∧ st.placements.get? s.id = some l

theorem Allowed.assign (h : st.Allowed f g p) (hp : p.Numbered)
    (hsize : p.slices.size ≤ UInt32.size) {s : Slice} (hs : s ∈ p.slices.toList) {l : Location}
    {u : GraphUnit} (hu : g.unit? s.unit = some u) (hallows : Allows f u l) :
    (st.assign s l).Allowed f g p := by
  intro s' hs' l' hl'
  rcases assigned_cases hp hsize hs hs' hl' with ⟨rfl, rfl⟩ | hl'
  · exact ⟨u, hu, hallows⟩
  · exact h s' hs' l' hl'

theorem Pinned.assign {id : UnitId} {l : Location} (h : st.Pinned p id l) {s : Slice}
    {l' : Location} (hother : s.id ∉ p.slicesOf id) : (st.assign s l').Pinned p id l := by
  obtain ⟨s', hs', hslices, hl⟩ := h
  refine ⟨s', hs', hslices, ?_⟩
  rw [get?_assign, if_neg, hl]
  intro hid
  exact hother (by rw [hslices, hid]; exact List.mem_cons_self)

/-- A unit that is pinned comes to its core, and takes no slice of another unit. -/
theorem Pins.pinned (h : st.Allowed f g p) (hp : p.Numbered) (hsize : p.slices.size ≤ UInt32.size)
    {id : UnitId} {u : GraphUnit} {l : Location} {s : Slice} {budget : Cost}
    (hpins : st.Pins f p id u l s budget) (hfits : s.cost.firstExcess? budget = none)
    (hu : g.unit? id = some u) (hlocation : u.location = some l) :
    (st.assign s l).Allowed f g p ∧ (st.assign s l).Pinned p id l ∧
      ∀ id' l', id' ≠ id → st.Pinned p id' l' → (st.assign s l).Pinned p id' l' := by
  obtain ⟨htakes, hslices⟩ := hpins.takes hp hsize hfits
  have hunit : s.unit = id :=
    hp.unit_of_mem_slicesOf hsize htakes.mem_slices (hslices ▸ List.mem_cons_self)
  refine ⟨?_, ⟨s, htakes.mem_slices, hslices, by rw [get?_assign, if_pos rfl]⟩, ?_⟩
  · refine h.assign hp hsize htakes.mem_slices (hunit ▸ hu) ?_
    exact ⟨fun spec hspec => (hpins.chip_eq spec hspec).symm, fun _ _ => hlocation⟩
  · intro id' l' hne hother
    refine hother.assign ?_
    intro hmem
    exact hne ((hp.unit_of_mem_slicesOf hsize htakes.mem_slices hmem).symm.trans hunit)

/-- Every pinned unit comes to its core, and no later one takes its slice away. -/
theorem Allowed.pinAll (h : st.Allowed f g p) (hp : p.Numbered)
    (hsize : p.slices.size ≤ UInt32.size) (hunits : g.units.length ≤ UInt32.size)
    (hpinned : st.pinAll f g p = .ok st') : st'.Allowed f g p ∧
      ∀ id u l, g.unit? id = some u → u.location = some l → st'.Pinned p id l := by
  have hall : st'.Allowed f g p ∧ ∀ e ∈ g.numberedUnits, ∀ l, e.2.location = some l →
      st'.Pinned p e.1 l := by
    refine foldlM_ok_induction_prefix (fun done st => st.Allowed f g p ∧
      ∀ e ∈ done, ∀ l, e.2.location = some l → st.Pinned p e.1 l) ?_ ⟨h, by simp⟩ hpinned
    rintro done ⟨id, u⟩ st st' hpre ⟨hst, hdone⟩ hstep
    have hu : g.unit? id = some u := (Id.mem_zipIdx_iff hunits).1 (hpre.subset (by simp))
    have hids := List.pairwise_append.1 ((Id.pairwise_zipIdx hunits).sublist hpre.sublist)
    simp only at hstep
    split at hstep
    · next l hlocation =>
        obtain ⟨s, budget, hpins, hfits, rfl⟩ := pin_eq_ok hstep
        obtain ⟨hallowed, hhere, hthere⟩ := hpins.pinned hst hp hsize hfits hu hlocation
        refine ⟨hallowed, ?_⟩
        intro e he l' hl'
        rcases List.mem_append.1 he with he | he
        · have hne : e.1 ≠ id := hids.2.2 e he (id, u) List.mem_cons_self
          exact hthere e.1 l' hne (hdone e he l' hl')
        · obtain rfl := List.mem_singleton.1 he
          obtain rfl : l = l' := Option.some.inj (hlocation.symm.trans hl')
          exact hhere
    · next hnone =>
        obtain rfl := Except.ok.inj hstep
        refine ⟨hst, ?_⟩
        intro e he l hl
        rcases List.mem_append.1 he with he | he
        · exact hdone e he l hl
        · obtain rfl := List.mem_singleton.1 he
          exact absurd (hnone.symm.trans hl) (by simp)
  refine ⟨hall.1, ?_⟩
  intro id u l hu hl
  exact hall.2 (id, u) ((Id.mem_zipIdx_iff hunits).2 hu) l hl

/-- The other slices come to cores that their units allow, and the pinned ones stay. -/
theorem Allowed.placeAll (h : st.Allowed f g p) (hf : f.Coherent) (hp : p.Numbered)
    (hsize : p.slices.size ≤ UInt32.size)
    {adjacency : Std.ExtTreeMap SliceId (Std.ExtTreeSet SliceId)}
    (hplaced : p.slices.toList.foldlM (fun st s => st.placeSlice f g p adjacency s) st = .ok st') :
    st'.Allowed f g p ∧
      ∀ t l, st.placements.get? t = some l → st'.placements.get? t = some l := by
  refine foldlM_ok_induction_prefix (fun _ (now : PlacementState) => now.Allowed f g p ∧
    ∀ t l, st.placements.get? t = some l → now.placements.get? t = some l) ?_
    ⟨h, fun _ _ ht => ht⟩ hplaced
  rintro done s now st' hpre ⟨hnow, hkept⟩ hstep
  rcases placeSlice_eq_ok hstep with ⟨-, rfl⟩ | ⟨hunplaced, u, l, hu, hl, rfl⟩
  · exact ⟨hnow, hkept⟩
  · constructor
    · refine hnow.assign hp hsize (hpre.subset (by simp)) hu ?_
      obtain ⟨chip, hchip, hcoord, -⟩ := findLocation?_eq_some hl
      obtain ⟨hfound, hconfined, hreal⟩ := mem_candidates hf hchip
      refine ⟨fun spec hspec => hcoord.trans (hconfined spec hspec), ?_⟩
      intro hnone hvirtual
      rw [hcoord, Fabric.isVirtual_eq_any, hfound, Option.any_some, hreal hnone] at hvirtual
      exact absurd hvirtual (by simp)
    · intro t l' ht
      rw [get?_assign, if_neg]
      · exact hkept t l' ht
      · rintro rfl
        rw [hkept s.id l' ht] at hunplaced
        exact absurd hunplaced (by simp)

end PlacementState

/-! ## Placements of all slices -/

/-- All slices of a graph are placed, each on a core of its own that can take it, with the shared
    memory that those on one chip need together. -/
structure Placements.Safe (placements : Placements) (p : PartitionedGraph) (f : Fabric) :
    Prop where
  placed : ∀ s ∈ p.slices.toList, ∃ l, placements.get? s.id = some l
  injective : ∀ s s' l, placements.get? s = some l → placements.get? s' = some l → s = s'
  runsOn : ∀ s ∈ p.slices.toList, ∀ l, placements.get? s.id = some l → s.RunsOn f l
  shared_le : ∀ c chip, f.chip? c = some chip →
    p.sharedOn placements c ≤ chip.sharedMemory.toNat

/-- Pinned units have one slice, which is on their core, and the slices of a unit with a virtual
    chip are on this chip. -/
structure Placements.Obeys (placements : Placements) (g : ApplicationGraph) (p : PartitionedGraph)
    (f : Fabric) : Prop where
  pinned : ∀ id u l, g.unit? id = some u → u.location = some l → ∃ s ∈ p.slices.toList,
    (∀ t ∈ p.slices.toList, t.unit = id ↔ t = s) ∧ placements.get? s.id = some l
  confined : ∀ s ∈ p.slices.toList, ∀ u spec, g.unit? s.unit = some u →
    u.virtualChip = some spec → ∃ l, placements.get? s.id = some l ∧ l.chip = spec.coord ∧
      f.isVirtual l.chip = true

namespace Fabric

variable {f : Fabric} {g : ApplicationGraph} {p : PartitionedGraph} {placer : PlacerKind}
  {placements : Placements}

/-- The slices are on cores that their units allow, and the pinned ones where they are pinned. -/
theorem allowed_of_place (hf : f.Built) (hp : p.Built) (hsize : p.slices.size ≤ UInt32.size)
    (hunits : g.units.length ≤ UInt32.size) (h : (f.place g p placer).result = .ok placements) :
    ∃ st : PlacementState, st.placements = placements ∧
      st.Allowed (f.place g p placer).fabric g p ∧
      ∀ id u l, g.unit? id = some u → u.location = some l → st.Pinned p id l := by
  obtain ⟨hattached, pinned, placed, adjacency, hpinned, hplaced, rfl⟩ := place_eq_ok h
  have hcoherent := (attachAll_coherent hf.coherent hattached).1
  have hstart : (PlacementState.start (f.place g p placer).fabric).Allowed
      (f.place g p placer).fabric g p := by
    intro s hs l hl
    exact absurd hl (by simp [PlacementState.start, Placements.empty, Placements.get?])
  obtain ⟨hallowed, hpins⟩ := hstart.pinAll hp.numbered hsize hunits hpinned
  obtain ⟨hallowed, hkept⟩ := hallowed.placeAll hcoherent hp.numbered hsize hplaced
  refine ⟨placed, rfl, hallowed, ?_⟩
  intro id u l hu hl
  obtain ⟨s, hs, hslices, hget⟩ := hpins id u l hu hl
  exact ⟨s, hs, hslices, hkept s.id l hget⟩

theorem safe_of_place (hf : f.Built) (hp : p.Built) (hsize : p.slices.size ≤ UInt32.size)
    (h : (f.place g p placer).result = .ok placements) :
    placements.Safe p (f.place g p placer).fabric := by
  obtain ⟨hattached, pinned, placed, adjacency, hpinned, hplaced, rfl⟩ := place_eq_ok h
  have hcoherent := (attachAll_coherent hf.coherent hattached).1
  have hstart := PlacementState.safe_start hcoherent p
  obtain ⟨hsafe, hall⟩ :=
    (hstart.pinAll hp.numbered hsize hpinned).placeAll hcoherent hp.numbered hsize hplaced
  refine ⟨hall, hsafe.exclusive.injective, hsafe.runsOn, ?_⟩
  intro c chip hchip
  obtain ⟨room, hroom⟩ := hsafe.accounted.exists_room c chip hchip
  obtain ⟨chip', hchip', hwithin⟩ := hsafe.accounted.within c room hroom
  obtain rfl : chip' = chip := Option.some.inj (hchip'.symm.trans hchip)
  have hshared := hwithin.shared_le
  omega

theorem obeys_of_place (hf : f.Built) (hp : p.Built) (hsize : p.slices.size ≤ UInt32.size)
    (hunits : g.units.length ≤ UInt32.size) (h : (f.place g p placer).result = .ok placements) :
    placements.Obeys g p (f.place g p placer).fabric := by
  have hsafe := safe_of_place hf hp hsize h
  obtain ⟨hattached, -⟩ := place_eq_ok h
  obtain ⟨st, rfl, hallowed, hpinned⟩ := allowed_of_place hf hp hsize hunits h
  constructor
  · intro id u l hu hl
    obtain ⟨s, hs, hslices, hget⟩ := hpinned id u l hu hl
    refine ⟨s, hs, ?_, hget⟩
    intro t ht
    constructor
    · rintro rfl
      have hlisted : t.id ∈ p.slicesOf t.unit :=
        hp.numbered.mem_slicesOf_iff.2 ⟨t, ht, rfl, rfl⟩
      rw [hslices, List.mem_singleton] at hlisted
      exact hp.numbered.eq_of_id_eq hsize ht hs hlisted
    · rintro rfl
      exact hp.numbered.unit_of_mem_slicesOf hsize ht (hslices ▸ List.mem_cons_self)
  · intro s hs u spec hu hspec
    obtain ⟨l, hl⟩ := hsafe.placed s hs
    obtain ⟨u', hu', hallows⟩ := hallowed s hs l hl
    obtain rfl : u = u' := Option.some.inj (hu.symm.trans hu')
    have hchip := hallows.confined spec hspec
    refine ⟨l, hl, hchip, ?_⟩
    rw [hchip]
    exact (attachAll_coherent hf.coherent hattached).2 spec
      (ApplicationGraph.mem_virtualChips hu hspec)

/-- **Placements are safe.** The pinned units and those with a virtual chip are told apart by their
    ids, as long as there are no more units than ids. -/
theorem place_safe (hf : f.Built) (hp : p.Built) (hsize : p.slices.size ≤ UInt32.size)
    (h : (f.place g p placer).result = .ok placements) :
    placements.Safe p (f.place g p placer).fabric ∧
      (g.units.length ≤ UInt32.size → placements.Obeys g p (f.place g p placer).fabric) :=
  ⟨safe_of_place hf hp hsize h, fun hunits => obeys_of_place hf hp hsize hunits h⟩

end Fabric

/-- A camera with a virtual chip, cells that are pinned to a core, and cells that are not. -/
def cameraGraph (core : Location) : ApplicationGraph where
  units :=
    let model : UnitModel := .linear ⟨"model", .zero, ⟨1, 1, 1⟩, 4⟩
    [{ label := "camera", atoms := 1, model, virtualChip := some ⟨⟨5, 0⟩, ⟨0, 0⟩, .west⟩ },
      { label := "pinned", atoms := 1, model, location := some core },
      { label := "cells", atoms := 2, model }]
  connections := [⟨"seen", ⟨0⟩, ⟨2⟩, .allToAll⟩]

/-- A slice for each atom; both slices of the cells receive what the camera sends. -/
def cameraSlices : PartitionedGraph :=
  let atom (p : PartitionedGraph) (u : UnitId) (lo : UInt32) := p.addSlice u ⟨lo, lo + 1⟩ ⟨1, 1, 1⟩
  (atom (atom (atom (atom .empty ⟨0⟩ 0) ⟨1⟩ 0) ⟨2⟩ 0) ⟨2⟩ 1).addConnection ⟨0⟩ ⟨0⟩ [⟨2⟩, ⟨3⟩]

/-- One chip with three cores for slices. -/
def cameraFabric : Fabric := .grid 1 1 ⟨4, 10, 10, 40, 8⟩ false

theorem cameraFabric_built : cameraFabric.Built := .grid

theorem cameraSlices_built : cameraSlices.Built :=
  .addConnection (.addSlice (.addSlice (.addSlice (.addSlice .empty))))

/-- The cells pinned to the second core of the chip. -/
theorem Fabric.place_safe_camera :
    cameraFabric.Built ∧ cameraSlices.Built ∧ cameraSlices.slices.size ≤ UInt32.size ∧
    ∃ placements,
      (cameraFabric.place (cameraGraph ⟨⟨0, 0⟩, 2⟩) cameraSlices .locality).result
        = .ok placements ∧
      placements.Safe cameraSlices
        (cameraFabric.place (cameraGraph ⟨⟨0, 0⟩, 2⟩) cameraSlices .locality).fabric ∧
      placements.Obeys (cameraGraph ⟨⟨0, 0⟩, 2⟩) cameraSlices
        (cameraFabric.place (cameraGraph ⟨⟨0, 0⟩, 2⟩) cameraSlices .locality).fabric := by
  have hsize : cameraSlices.slices.size ≤ UInt32.size := by decide +kernel
  obtain ⟨placements, h⟩ := exists_eq_ok_of_isOk (by decide +kernel :
    (cameraFabric.place (cameraGraph ⟨⟨0, 0⟩, 2⟩) cameraSlices .locality).result.isOk = true)
  obtain ⟨hsafe, hobeys⟩ := place_safe cameraFabric_built cameraSlices_built hsize h
  exact ⟨cameraFabric_built, cameraSlices_built, hsize, placements, h, hsafe, hobeys (by decide)⟩

/-! ## Who comes to a virtual chip -/

/-- A slice is on a virtual chip only if its unit has this virtual chip. -/
def Placements.ReservesVirtualChips (placements : Placements) (g : ApplicationGraph)
    (p : PartitionedGraph) (f : Fabric) : Prop :=
  ∀ s ∈ p.slices.toList, ∀ l, placements.get? s.id = some l → f.isVirtual l.chip = true →
    ∃ u spec, g.unit? s.unit = some u ∧ u.virtualChip = some spec ∧ spec.coord = l.chip

/-- Pinning is the only way in which another unit comes to a virtual chip. -/
theorem Fabric.reservesVirtualChips_iff {f : Fabric} {g : ApplicationGraph} {p : PartitionedGraph}
    {placer : PlacerKind} {placements : Placements} (hf : f.Built) (hp : p.Built)
    (hsize : p.slices.size ≤ UInt32.size) (hunits : g.units.length ≤ UInt32.size)
    (h : (f.place g p placer).result = .ok placements) :
    placements.ReservesVirtualChips g p (f.place g p placer).fabric ↔
      ∀ id u l, g.unit? id = some u → u.location = some l →
        (f.place g p placer).fabric.isVirtual l.chip = true → u.virtualChip.isSome = true := by
  obtain ⟨st, rfl, hallowed, hpinned⟩ := allowed_of_place hf hp hsize hunits h
  constructor
  · intro hreserves id u l hu hl hvirtual
    obtain ⟨s, hs, hslices, hget⟩ := hpinned id u l hu hl
    have hunit : s.unit = id :=
      hp.numbered.unit_of_mem_slicesOf hsize hs (hslices ▸ List.mem_cons_self)
    obtain ⟨u', spec, hu', hspec, -⟩ := hreserves s hs l hget hvirtual
    obtain rfl : u = u' := Option.some.inj (hu.symm.trans (hunit ▸ hu'))
    rw [hspec, Option.isSome_some]
  · intro hpins s hs l hget hvirtual
    obtain ⟨u, hu, hallows⟩ := hallowed s hs l hget
    cases hspec : u.virtualChip with
    | some spec => exact ⟨u, spec, hu, hspec, (hallows.confined spec hspec).symm⟩
    | none =>
        have hlocation := hallows.reserved hspec hvirtual
        exact absurd (hpins s.unit u l hu hlocation hvirtual) (by simp [hspec])

/-- Cells pinned to a core of the mesh leave the virtual chip to the camera. -/
theorem Fabric.reservesVirtualChips_camera :
    cameraFabric.Built ∧ cameraSlices.Built ∧ cameraSlices.slices.size ≤ UInt32.size ∧
    (cameraGraph ⟨⟨0, 0⟩, 2⟩).units.length ≤ UInt32.size ∧ ∃ placements,
      (cameraFabric.place (cameraGraph ⟨⟨0, 0⟩, 2⟩) cameraSlices .linear).result
        = .ok placements ∧
      placements.ReservesVirtualChips (cameraGraph ⟨⟨0, 0⟩, 2⟩) cameraSlices
        (cameraFabric.place (cameraGraph ⟨⟨0, 0⟩, 2⟩) cameraSlices .linear).fabric := by
  have hsize : cameraSlices.slices.size ≤ UInt32.size := by decide +kernel
  have hunits : (cameraGraph ⟨⟨0, 0⟩, 2⟩).units.length ≤ UInt32.size := by decide
  obtain ⟨placements, h⟩ := exists_eq_ok_of_isOk (by decide +kernel :
    (cameraFabric.place (cameraGraph ⟨⟨0, 0⟩, 2⟩) cameraSlices .linear).result.isOk = true)
  refine ⟨cameraFabric_built, cameraSlices_built, hsize, hunits, placements, h, ?_⟩
  rw [reservesVirtualChips_iff cameraFabric_built cameraSlices_built hsize hunits h]
  intro id u l hu hl hvirtual
  -- the chip of the pinned cells is no virtual one
  have hreal : ∀ u ∈ (cameraGraph ⟨⟨0, 0⟩, 2⟩).units, ∀ l, u.location = some l →
      l = ⟨⟨0, 0⟩, 2⟩ := by
    simp [cameraGraph]
  rw [hreal u (List.mem_of_getElem? hu) l hl] at hvirtual
  exact absurd hvirtual (by decide +kernel)

/-- Cells pinned to a core of the virtual chip come to it, although it is the camera's. -/
theorem pinned_to_virtualChip : ∃ placements,
    (cameraFabric.place (cameraGraph ⟨⟨5, 0⟩, 1⟩) cameraSlices .linear).result
      = .ok placements ∧
    ¬ placements.ReservesVirtualChips (cameraGraph ⟨⟨5, 0⟩, 1⟩) cameraSlices
      (cameraFabric.place (cameraGraph ⟨⟨5, 0⟩, 1⟩) cameraSlices .linear).fabric := by
  obtain ⟨placements, h⟩ := exists_eq_ok_of_isOk (by decide +kernel :
    (cameraFabric.place (cameraGraph ⟨⟨5, 0⟩, 1⟩) cameraSlices .linear).result.isOk = true)
  refine ⟨placements, h, ?_⟩
  intro hreserves
  have hget : ((cameraFabric.place (cameraGraph ⟨⟨5, 0⟩, 1⟩) cameraSlices .linear).result.toOption
      >>= fun placements => placements.get? ⟨1⟩) = some ⟨⟨5, 0⟩, 1⟩ := by
    decide +kernel
  rw [h] at hget
  obtain ⟨s, hs, hid, hunit⟩ : ∃ s ∈ cameraSlices.slices.toList, s.id = ⟨1⟩ ∧ s.unit = ⟨1⟩ := by
    decide +kernel
  obtain ⟨u, spec, hu, hspec, -⟩ :=
    hreserves s hs ⟨⟨5, 0⟩, 1⟩ (hid ▸ hget) (by decide +kernel)
  -- the cells have no virtual chip
  rw [hunit] at hu
  obtain rfl := Option.some.inj hu
  exact absurd hspec (by simp)

end SpikeMesh
