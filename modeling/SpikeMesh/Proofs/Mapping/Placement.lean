import SpikeMesh.Mapping.Place
import SpikeMesh.Proofs.Collections
import SpikeMesh.Proofs.Fallible

set_option autoImplicit false

/-! # Slices do not share cores

Whenever a slice is placed, its core was free before and is not free afterwards. Since the core of
a placed slice is never free again, no two slices are placed on one core. -/

namespace SpikeMesh

/-- What is left on a chip after a slice was placed. -/
theorem Occupancy.room?_take (o : Occupancy) (l : Location) (cost : Cost) (c : ChipCoord) :
    (o.take l cost).room? c = if l.chip = c then (o.room? c).map fun room =>
        ⟨room.freeCores.erase l.core, room.sharedLeft - min cost.sharedMemory room.sharedLeft⟩
      else o.room? c :=
  getElem?_modify_of_lawful o.rooms l.chip c _

theorem Placements.get?_insert (p : Placements) (s t : SliceId) (l : Location) :
    (p.insert s l).get? t = if s = t then some l else p.get? t :=
  getElem?_insert_of_lawful p.bySlice s t l

namespace PlacementState

variable {st st' : PlacementState} {f : Fabric} {g : ApplicationGraph} {p : PartitionedGraph}

/-! ## Free cores -/

/-- No slice is placed on a core yet. -/
def Free (st : PlacementState) (l : Location) : Prop :=
  ∃ room, st.occupancy.room? l.chip = some room ∧ l.core ∈ room.freeCores

/-- Placing a slice leaves the other cores as free as they were. -/
theorem free_assign_iff {s : Slice} {l l' : Location} :
    (st.assign s l).Free l' ↔ st.Free l' ∧ l ≠ l' := by
  show (∃ room, (st.occupancy.take l s.cost).room? l'.chip = some room ∧ l'.core ∈ room.freeCores)
    ↔ _
  rw [Occupancy.room?_take]
  by_cases hchip : l.chip = l'.chip
  · rw [if_pos hchip]
    constructor
    · rintro ⟨room, hroom, hcore⟩
      obtain ⟨before, hbefore, rfl⟩ := Option.map_eq_some_iff.1 hroom
      rw [Std.ExtTreeSet.mem_erase] at hcore
      refine ⟨⟨before, hbefore, hcore.2⟩, ?_⟩
      rintro rfl
      exact hcore.1 (Std.ReflCmp.compare_self)
    · rintro ⟨⟨before, hbefore, hcore⟩, hne⟩
      refine ⟨_, by rw [hbefore]; rfl, ?_⟩
      rw [Std.ExtTreeSet.mem_erase]
      refine ⟨fun heq => hne ?_, hcore⟩
      have hcores : l.core = l'.core := Std.LawfulEqCmp.compare_eq_iff_eq.1 heq
      cases l
      cases l'
      simp_all
  · rw [if_neg hchip]
    constructor
    · intro hfree
      refine ⟨hfree, ?_⟩
      rintro rfl
      exact hchip rfl
    · rintro ⟨hfree, -⟩
      exact hfree

/-- Placed slices have cores of their own, which are not free. -/
structure Exclusive (st : PlacementState) : Prop where
  not_free : ∀ s l, st.placements.get? s = some l → ¬ st.Free l
  injective : ∀ s s' l, st.placements.get? s = some l → st.placements.get? s' = some l → s = s'

theorem exclusive_start (f : Fabric) : (start f).Exclusive where
  not_free := by
    intro s l h
    exact absurd h (by simp [start, Placements.empty, Placements.get?])
  injective := by
    intro s s' l h
    exact absurd h (by simp [start, Placements.empty, Placements.get?])

theorem Exclusive.assign (h : st.Exclusive) {s : Slice} {l : Location} (hfree : st.Free l) :
    (st.assign s l).Exclusive where
  not_free := by
    intro t l' ht
    rw [free_assign_iff]
    rintro ⟨hfree', hne⟩
    rw [PlacementState.assign, Placements.get?_insert] at ht
    by_cases hst : s.id = t
    · rw [if_pos hst] at ht
      exact hne (Option.some.inj ht)
    · rw [if_neg hst] at ht
      exact h.not_free t l' ht hfree'
  injective := by
    intro t t' l' ht ht'
    rw [PlacementState.assign, Placements.get?_insert] at ht ht'
    -- a slice that was placed before is not on the core that is taken now
    have hbefore : ∀ t, st.placements.get? t = some l' → some l ≠ some l' := by
      rintro t ht heq
      exact h.not_free t l' ht (Option.some.inj heq ▸ hfree)
    by_cases hst : s.id = t
    · by_cases hst' : s.id = t'
      · exact hst.symm.trans hst'
      · rw [if_pos hst] at ht
        rw [if_neg hst'] at ht'
        exact absurd ht (hbefore t' ht')
    · rw [if_neg hst] at ht
      by_cases hst' : s.id = t'
      · rw [if_pos hst'] at ht'
        exact absurd ht' (hbefore t ht)
      · rw [if_neg hst'] at ht'
        exact h.injective t t' l' ht ht'

/-! ## Every step takes a free core -/

/-- A unit has one slice, which may be placed on a free core to which the unit is pinned, with a
    budget for it. -/
structure Pins (st : PlacementState) (f : Fabric) (p : PartitionedGraph) (id : UnitId)
    (u : GraphUnit) (l : Location) (s : Slice) (budget : Cost) : Prop where
  slice_eq : ∃ sliceId, p.slicesOf id = [sliceId] ∧ p.slice? sliceId = some s
  chip_eq : ∀ spec, u.virtualChip = some spec → spec.coord = l.chip
  core_eq : ∃ chip core room, f.chip? l.chip = some chip ∧ chip.core? l.core = some core ∧
    core.isMonitor = false ∧ st.occupancy.room? l.chip = some room ∧ l.core ∈ room.freeCores ∧
    budget = { chip.coreBudget core with sharedMemory := room.sharedLeft }

theorem pinnedSlice_eq_ok {id : UnitId} {u : GraphUnit} {l : Location} {s : Slice} {budget : Cost}
    (h : st.pinnedSlice f p id u l = .ok (s, budget)) : st.Pins f p id u l s budget := by
  simp only [pinnedSlice, throw_eq_error, pure_eq_ok, ok_bind, error_bind] at h
  repeat' split at h
  all_goals try contradiction
  · next sliceId hslices _ spec hspec hchip _ slice hslice _ chip hf _ core hcore hmonitor _ room
      hroom hfree =>
      obtain ⟨rfl, rfl⟩ := Prod.mk.inj (Except.ok.inj h)
      refine ⟨⟨sliceId, hslices, hslice⟩, ?_,
        ⟨chip, core, room, hf, hcore, by simpa using hmonitor, hroom, by simpa using hfree, rfl⟩⟩
      intro spec' hspec'
      obtain rfl : spec = spec' := Option.some.inj (hspec.symm.trans hspec')
      simpa using hchip
  · next sliceId hslices _ hnone _ slice hslice _ chip hf _ core hcore hmonitor _ room hroom
      hfree =>
      obtain ⟨rfl, rfl⟩ := Prod.mk.inj (Except.ok.inj h)
      refine ⟨⟨sliceId, hslices, hslice⟩, ?_,
        ⟨chip, core, room, hf, hcore, by simpa using hmonitor, hroom, by simpa using hfree, rfl⟩⟩
      intro spec hspec
      exact absurd (hnone.symm.trans hspec) (by simp)

/-- A unit that is pinned takes a free core. -/
theorem pin_eq_ok {id : UnitId} {u : GraphUnit} {l : Location} (h : st.pin f p id u l = .ok st') :
    ∃ s budget, st.Pins f p id u l s budget ∧ s.cost.firstExcess? budget = none ∧
      st' = st.assign s l := by
  unfold pin at h
  split at h
  · exact absurd h (by simp)
  · next s budget hpinned =>
      split at h
      · exact absurd h (by simp)
      · next hfits => exact ⟨s, budget, pinnedSlice_eq_ok hpinned, hfits, (Except.ok.inj h).symm⟩

theorem Pins.free {id : UnitId} {u : GraphUnit} {l : Location} {s : Slice} {budget : Cost}
    (h : st.Pins f p id u l s budget) : st.Free l := by
  obtain ⟨chip, core, room, -, -, -, hroom, hfree, -⟩ := h.core_eq
  exact ⟨room, hroom, hfree⟩

/-- A core that is found for a slice is free, on one of the chips that are tried. -/
theorem findLocation?_eq_some {chips : List Chip} {s : Slice} {l : Location}
    (h : st.findLocation? chips s = some l) :
    ∃ chip ∈ chips, l.chip = chip.coord ∧ ∃ room, st.occupancy.room? chip.coord = some room ∧
      l.core ∈ room.freeCores ∧ s.cost.sharedMemory ≤ room.sharedLeft ∧
      Occupancy.coreTakes chip s.cost l.core = true := by
  obtain ⟨chip, hchip, hfound⟩ := List.exists_of_findSome?_eq_some h
  obtain ⟨core, hcore, rfl⟩ := Option.map_eq_some_iff.1 hfound
  refine ⟨chip, hchip, rfl, ?_⟩
  unfold Occupancy.findCore? at hcore
  split at hcore
  · exact absurd hcore (by simp)
  · next room hroom =>
      split at hcore
      · exact absurd hcore (by simp)
      · next hshared =>
          refine ⟨room, hroom, ?_, UInt64.not_lt.1 hshared, List.find?_some hcore⟩
          exact Std.ExtTreeSet.mem_toList.1 (List.mem_of_find?_eq_some hcore)

theorem free_of_findLocation? {chips : List Chip} {s : Slice} {l : Location}
    (h : st.findLocation? chips s = some l) : st.Free l := by
  obtain ⟨chip, -, hchip, room, hroom, hcore, -⟩ := findLocation?_eq_some h
  exact ⟨room, hchip ▸ hroom, hcore⟩

/-- A slice that is not placed yet takes a free core. -/
theorem placeSlice_eq_ok {adjacency : Std.ExtTreeMap SliceId (Std.ExtTreeSet SliceId)} {s : Slice}
    (h : st.placeSlice f g p adjacency s = .ok st') :
    ((st.placements.get? s.id).isSome = true ∧ st' = st) ∨
    ((st.placements.get? s.id).isSome = false ∧ ∃ u l, g.unit? s.unit = some u ∧
      st.findLocation? (st.candidates f adjacency u s) s = some l ∧ st' = st.assign s l) := by
  unfold placeSlice at h
  split at h
  · next hplaced => exact .inl ⟨hplaced, (Except.ok.inj h).symm⟩
  · next hplaced =>
      split at h
      · exact absurd h (by simp)
      · next u hu =>
          simp only at h
          split at h
          · next l hl =>
              exact .inr ⟨by simpa using hplaced, u, l, hu, hl, (Except.ok.inj h).symm⟩
          · exact absurd h (by simp)

/-! ## All steps -/

theorem Exclusive.pinAll (h : st.Exclusive) (hpinned : st.pinAll f g p = .ok st') :
    st'.Exclusive := by
  refine foldlM_ok_induction (fun _ st => st.Exclusive) ?_ h hpinned
  rintro done ⟨id, u⟩ st st' hst hstep
  simp only at hstep
  split at hstep
  · obtain ⟨s, budget, hpins, -, rfl⟩ := pin_eq_ok hstep
    exact hst.assign hpins.free
  · obtain rfl := Except.ok.inj hstep
    exact hst

theorem Exclusive.placeAll (h : st.Exclusive)
    {adjacency : Std.ExtTreeMap SliceId (Std.ExtTreeSet SliceId)} {slices : List Slice}
    (hplaced : slices.foldlM (fun st s => st.placeSlice f g p adjacency s) st = .ok st') :
    st'.Exclusive := by
  refine foldlM_ok_induction (fun _ st => st.Exclusive) ?_ h hplaced
  intro done s st st' hst hstep
  rcases placeSlice_eq_ok hstep with ⟨-, rfl⟩ | ⟨-, u, l, -, hl, rfl⟩
  · exact hst
  · exact hst.assign (free_of_findLocation? hl)

end PlacementState

/-- The stages of a placement that succeeds. -/
theorem Fabric.place_eq_ok {f : Fabric} {g : ApplicationGraph} {p : PartitionedGraph}
    {placer : PlacerKind} {placements : Placements}
    (h : (f.place g p placer).result = .ok placements) :
    (f.attachAll g.virtualChips).result = .ok () ∧ ∃ pinned placed adjacency,
      (PlacementState.start (f.place g p placer).fabric).pinAll (f.place g p placer).fabric g p
        = .ok pinned ∧
      p.slices.toList.foldlM (fun (st : PlacementState) s =>
        st.placeSlice (f.place g p placer).fabric g p adjacency s) pinned = .ok placed ∧
      placements = placed.placements := by
  obtain ⟨⟨⟩, hattached, h⟩ := bind_eq_ok_iff.1 h
  obtain ⟨pinned, hpinned, h⟩ := bind_eq_ok_iff.1 h
  obtain ⟨placed, hplaced, h⟩ := bind_eq_ok_iff.1 h
  exact ⟨hattached, pinned, placed, _, hpinned, hplaced, (Except.ok.inj h).symm⟩

/-- **No two slices are placed on one core.** -/
theorem Fabric.place_injective {f : Fabric} {g : ApplicationGraph} {p : PartitionedGraph}
    {placer : PlacerKind} {placements : Placements}
    (h : (f.place g p placer).result = .ok placements) {s s' : SliceId} {l : Location}
    (hs : placements.get? s = some l) (hs' : placements.get? s' = some l) : s = s' := by
  obtain ⟨-, pinned, placed, adjacency, hpinned, hplaced, rfl⟩ := place_eq_ok h
  have hexclusive := ((PlacementState.exclusive_start _).pinAll hpinned).placeAll hplaced
  exact hexclusive.injective s s' l hs hs'

end SpikeMesh
