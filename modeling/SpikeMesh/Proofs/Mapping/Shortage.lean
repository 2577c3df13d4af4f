import SpikeMesh.Proofs.Fabric.Uniform
import SpikeMesh.Proofs.Mapping.Safety

set_option autoImplicit false

/-! # Why a slice cannot be placed

An error about a resource should name one of which more is requested than there is. Partitioning
and pinned units compare a cost with one budget, so theirs do. When no candidate can take a slice,
the largest amounts are looked up one by one, over all free cores. It may be that each of them
is enough, but on different cores or chips. Then the error names local memory, although enough
of it is available (`PlacementState.shortage_lt_iff`). Where all cores have the same budget this
does not happen. -/

namespace SpikeMesh

/-! ## Errors about resources -/

/-- If an error names a resource, then more of it is requested than available. -/
def PipelineError.Short : PipelineError → Prop
  | .resourceExceeded _ _ requested available => available < requested
  | _ => True

theorem Cost.short_of_firstExcess? {cost budget : Cost} {e : Excess} (subject : String)
    (h : cost.firstExcess? budget = some e) :
    (PipelineError.resourceExceeded subject e.resource e.requested e.available).Short :=
  available_lt_requested h

theorem ApplicationGraph.short_partition (g : ApplicationGraph) (budget : Cost)
    (atomsPerCore : Std.ExtTreeMap String UInt32) :
    FailsWith PipelineError.Short (g.partition budget atomsPerCore) := by
  refine FailsWith.bind (failsWith_foldlM (fun p e _ => ?_) _) fun _ => failsWith_ok _
  refine FailsWith.bind ?_ fun _ => failsWith_ok _
  unfold GraphUnit.sliceSize
  split
  · next e he => exact failsWith_error (Cost.short_of_firstExcess? _ he)
  · exact failsWith_ok _

theorem Fabric.short_addVirtualChip (f : Fabric) (spec : VirtualChipSpec) :
    FailsWith PipelineError.Short (f.addVirtualChip spec) := by
  unfold addVirtualChip
  simp only
  split
  · split
    · exact failsWith_ok _
    · exact failsWith_error trivial
  · split
    · exact failsWith_error trivial
    · exact failsWith_ok _

theorem Fabric.short_attachAll (f : Fabric) (specs : List VirtualChipSpec) :
    FailsWith PipelineError.Short (f.attachAll specs).result := by
  induction specs generalizing f with
  | nil => exact failsWith_ok _
  | cons spec rest ih =>
      rw [attachAll]
      split
      · next e he => exact failsWith_error (f.short_addVirtualChip spec e he)
      · next extended _ =>
          simp only
          split
          · exact ih extended
          · exact ih extended

namespace PlacementState

variable {st st' : PlacementState} {f : Fabric} {g : ApplicationGraph} {p : PartitionedGraph}
  {s : Slice} {chips : List Chip}

theorem short_pinAll (st : PlacementState) (f : Fabric) (g : ApplicationGraph)
    (p : PartitionedGraph) : FailsWith PipelineError.Short (st.pinAll f g p) := by
  refine failsWith_foldlM (fun st e _ => ?_) st
  simp only
  split
  · unfold pin
    split
    · exact failsWith_error trivial
    · split
      · next e he => exact failsWith_error (Cost.short_of_firstExcess? _ he)
      · exact failsWith_ok _
  · exact failsWith_ok _

/-! ## What the candidates offer -/

/-- Among the candidates is a chip with a free core that is enough. -/
def Offers (st : PlacementState) (chips : List Chip) (enough : ChipRoom → Core → Prop) : Prop :=
  ∃ chip ∈ chips, ∃ room, st.occupancy.room? chip.coord = some room ∧
    ∃ id ∈ room.freeCores, ∃ core, chip.core? id = some core ∧ enough room core

/-- Each amount that a slice needs is offered by itself, but no free core offers all of them. -/
structure Scattered (st : PlacementState) (chips : List Chip) (s : Slice) : Prop where
  cpuCycles : st.Offers chips fun _ core => s.cost.cpuCycles ≤ core.cpuCycles
  localMemory : st.Offers chips fun _ core => s.cost.localMemory ≤ core.localMemory
  sharedMemory : st.Offers chips fun room _ => s.cost.sharedMemory ≤ room.sharedLeft
  apart : ¬ st.Offers chips fun room core => s.cost.cpuCycles ≤ core.cpuCycles ∧
    s.cost.localMemory ≤ core.localMemory ∧ s.cost.sharedMemory ≤ room.sharedLeft

theorem findCore?_eq_none_iff {o : Occupancy} {chip : Chip} {cost : Cost} :
    o.findCore? chip cost = none ↔ ∀ room, o.room? chip.coord = some room →
      ∀ id ∈ room.freeCores, ∀ core, chip.core? id = some core →
        ¬ (cost.cpuCycles ≤ core.cpuCycles ∧ cost.localMemory ≤ core.localMemory ∧
          cost.sharedMemory ≤ room.sharedLeft) := by
  unfold Occupancy.findCore?
  cases o.room? chip.coord with
  | none => simp
  | some room =>
      simp only [Option.some.injEq, forall_eq']
      split
      · next hless => exact iff_of_true rfl fun id _ core _ h => UInt64.not_le.2 hless h.2.2
      · next hleft =>
          have hleft := UInt64.not_lt.1 hleft
          simp only [List.find?_eq_none, Std.ExtTreeSet.mem_toList]
          refine forall₂_congr fun id _ => ?_
          unfold Occupancy.coreTakes
          cases chip.core? id with
          | none => simp
          | some core => simp [hleft]

/-- No location is found if and only if no free core offers all that the slice needs. -/
theorem findLocation?_eq_none_iff : st.findLocation? chips s = none ↔
    ¬ st.Offers chips fun room core => s.cost.cpuCycles ≤ core.cpuCycles ∧
      s.cost.localMemory ≤ core.localMemory ∧ s.cost.sharedMemory ≤ room.sharedLeft := by
  rw [findLocation?, List.findSome?_eq_none_iff, Offers]
  simp only [Option.map_eq_none_iff, findCore?_eq_none_iff, not_exists, not_and]

/-- The free cores of a fabric are cores of its chips. -/
def FreeCores (st : PlacementState) (f : Fabric) : Prop :=
  ∀ l, st.Free l → ∃ chip core, f.chip? l.chip = some chip ∧ chip.core? l.core = some core

theorem freeCores_start (hf : f.Coherent) : (start f).FreeCores f := by
  intro l hfree
  obtain ⟨chip, core, hchip, hcore, -⟩ := (accounted_start hf .empty).core_of_free hfree
  exact ⟨chip, core, hchip, hcore⟩

theorem FreeCores.assign (h : st.FreeCores f) (s : Slice) (l : Location) :
    (st.assign s l).FreeCores f :=
  fun l' hfree => h l' (free_assign_iff.1 hfree).1

theorem FreeCores.pinAll (h : st.FreeCores f) (hpinned : st.pinAll f g p = .ok st') :
    st'.FreeCores f := by
  refine foldlM_ok_induction (fun _ st => st.FreeCores f) ?_ h hpinned
  rintro done ⟨id, u⟩ st st' hst hstep
  simp only at hstep
  split at hstep
  · obtain ⟨s, budget, -, -, rfl⟩ := pin_eq_ok hstep
    exact hst.assign s _
  · obtain rfl := Except.ok.inj hstep
    exact hst

theorem FreeCores.placeAll (h : st.FreeCores f)
    {adjacency : Std.ExtTreeMap SliceId (Std.ExtTreeSet SliceId)} {slices : List Slice}
    (hplaced : slices.foldlM (fun st s => st.placeSlice f g p adjacency s) st = .ok st') :
    st'.FreeCores f := by
  refine foldlM_ok_induction (fun _ st => st.FreeCores f) ?_ h hplaced
  intro done s st st' hst hstep
  rcases placeSlice_eq_ok hstep with ⟨-, rfl⟩ | ⟨-, u, l, -, -, rfl⟩
  · exact hst
  · exact hst.assign s l

/-! ## The reported shortage -/

/-- The candidates with what is left on them. -/
def rooms (st : PlacementState) (chips : List Chip) : List (Chip × ChipRoom) :=
  chips.filterMap fun chip => (st.occupancy.room? chip.coord).map fun room => (chip, room)

/-- The free cores of the candidates. -/
def freeCores (st : PlacementState) (chips : List Chip) : List Core :=
  (st.rooms chips).flatMap fun e => e.2.freeCores.toList.filterMap e.1.core?

/-- The candidates with a free core. -/
def openRooms (st : PlacementState) (chips : List Chip) : List (Chip × ChipRoom) :=
  (st.rooms chips).filter fun e => !e.2.freeCores.isEmpty

theorem mem_rooms_iff {chip : Chip} {room : ChipRoom} : (chip, room) ∈ st.rooms chips ↔
    chip ∈ chips ∧ st.occupancy.room? chip.coord = some room := by
  rw [rooms, List.mem_filterMap]
  constructor
  · rintro ⟨chip', hchip, hroom⟩
    obtain ⟨room', hroom', heq⟩ := Option.map_eq_some_iff.1 hroom
    obtain ⟨rfl, rfl⟩ := Prod.mk.inj heq
    exact ⟨hchip, hroom'⟩
  · rintro ⟨hchip, hroom⟩
    exact ⟨chip, hchip, by rw [hroom, Option.map_some]⟩

theorem mem_openRooms_iff {chip : Chip} {room : ChipRoom} : (chip, room) ∈ st.openRooms chips ↔
    chip ∈ chips ∧ st.occupancy.room? chip.coord = some room ∧ ∃ id, id ∈ room.freeCores := by
  rw [openRooms, List.mem_filter, mem_rooms_iff, and_assoc, Bool.not_eq_true',
    Std.ExtTreeSet.isEmpty_eq_size_beq_zero, beq_eq_false_iff_ne, ← Nat.pos_iff_ne_zero,
    size_pos_iff]

/-- What is asked of cores is offered if one of the free cores has it. -/
theorem offers_core_iff (enough : Core → Prop) :
    (st.Offers chips fun _ core => enough core) ↔ ∃ core ∈ st.freeCores chips, enough core := by
  simp only [freeCores, List.mem_flatMap, List.mem_filterMap, Std.ExtTreeSet.mem_toList]
  constructor
  · rintro ⟨chip, hchip, room, hroom, id, hid, core, hcore, henough⟩
    exact ⟨core, ⟨(chip, room), mem_rooms_iff.2 ⟨hchip, hroom⟩, id, hid, hcore⟩, henough⟩
  · rintro ⟨core, ⟨⟨chip, room⟩, hroom, id, hid, hcore⟩, henough⟩
    obtain ⟨hchip, hroom⟩ := mem_rooms_iff.1 hroom
    exact ⟨chip, hchip, room, hroom, id, hid, core, hcore, henough⟩

/-- What is asked of chips is offered if one with a free core has it. -/
theorem offers_room_iff (hfree : st.FreeCores f)
    (hchips : ∀ chip ∈ chips, f.chip? chip.coord = some chip) (enough : ChipRoom → Prop) :
    (st.Offers chips fun room _ => enough room) ↔ ∃ e ∈ st.openRooms chips, enough e.2 := by
  constructor
  · rintro ⟨chip, hchip, room, hroom, id, hid, -, -, henough⟩
    exact ⟨(chip, room), mem_openRooms_iff.2 ⟨hchip, hroom, id, hid⟩, henough⟩
  · rintro ⟨⟨chip, room⟩, he, henough⟩
    obtain ⟨hchip, hroom, id, hid⟩ := mem_openRooms_iff.1 he
    obtain ⟨chip', core, hchip', hcore⟩ := hfree ⟨chip.coord, id⟩ ⟨room, hroom, hid⟩
    obtain rfl : chip = chip' := Option.some.inj ((hchips chip hchip).symm.trans hchip')
    exact ⟨chip, hchip, room, hroom, id, hid, core, hcore, henough⟩

theorem unplaced_pos (hs : s ∈ p.slices.toList) (hunplaced : st.placements.get? s.id = none)
    (hsize : p.slices.size < UInt64.size) :
    0 < UInt64.ofNat (p.slices.toList.countP fun s => (st.placements.get? s.id).isNone) := by
  have hpos : 0 < p.slices.toList.countP fun s => (st.placements.get? s.id).isNone :=
    List.countP_pos_iff.2 ⟨s, hs, by rw [hunplaced]; rfl⟩
  have hle := List.countP_le_length (p := fun s => (st.placements.get? s.id).isNone)
    (l := p.slices.toList)
  rw [Array.length_toList] at hle
  rw [UInt64.lt_iff_toNat_lt, UInt64.toNat_ofNat', Nat.mod_eq_of_lt (Nat.lt_of_le_of_lt hle hsize)]
  exact hpos

theorem shortage_eq (st : PlacementState) (p : PartitionedGraph) (chips : List Chip) (s : Slice) :
    st.shortage p chips s =
      if (st.rooms chips).all fun e => e.2.freeCores.isEmpty then
        ⟨.cores, UInt64.ofNat (p.slices.toList.countP fun s => (st.placements.get? s.id).isNone), 0⟩
      else if ((st.openRooms chips).map fun e => e.2.sharedLeft).foldl max 0
          < s.cost.sharedMemory then
        ⟨.sharedMemory, s.cost.sharedMemory,
          ((st.openRooms chips).map fun e => e.2.sharedLeft).foldl max 0⟩
      else if ((st.freeCores chips).map Core.cpuCycles).foldl max 0 < s.cost.cpuCycles then
        ⟨.cpuCycles, s.cost.cpuCycles, ((st.freeCores chips).map Core.cpuCycles).foldl max 0⟩
      else ⟨.localMemory, s.cost.localMemory,
        ((st.freeCores chips).map Core.localMemory).foldl max 0⟩ := rfl

/-- **A shortage is one unless what the slice needs is scattered.** -/
theorem shortage_lt_iff (hfree : st.FreeCores f)
    (hchips : ∀ chip ∈ chips, f.chip? chip.coord = some chip) (hs : s ∈ p.slices.toList)
    (hunplaced : st.placements.get? s.id = none) (hsize : p.slices.size < UInt64.size)
    (hnone : st.findLocation? chips s = none) :
    ((st.shortage p chips s).available < (st.shortage p chips s).requested ↔
      ¬ st.Scattered chips s) ∧
    (st.Scattered chips s → (st.shortage p chips s).resource = .localMemory) := by
  rw [shortage_eq]
  split
  · next hall =>
      -- no candidate has a free core, and the slice itself waits for one
      have hnothing : ∀ enough, ¬ st.Offers chips enough := by
        rintro enough ⟨chip, hchip, room, hroom, id, hid, -⟩
        have hempty := List.all_eq_true.1 hall _ (mem_rooms_iff.2 ⟨hchip, hroom⟩)
        have hopen := (List.mem_filter.1 (mem_openRooms_iff.2 ⟨hchip, hroom, id, hid⟩)).2
        exact absurd hempty (by simpa using hopen)
      exact ⟨iff_of_true (unplaced_pos hs hunplaced hsize) fun h => hnothing _ h.cpuCycles,
        fun h => absurd h.cpuCycles (hnothing _)⟩
  · next hopen =>
      obtain ⟨e, he⟩ : ∃ e, e ∈ st.openRooms chips := by
        rw [List.all_eq_true] at hopen
        obtain ⟨e, he, hfreeCores⟩ : ∃ e ∈ st.rooms chips, ¬ e.2.freeCores.isEmpty = true := by
          simpa using hopen
        exact ⟨e, List.mem_filter.2 ⟨he, by simpa using hfreeCores⟩⟩
      -- what is free on a candidate is a core, so all the largest amounts are those of one
      have hany : st.Offers chips fun _ _ => True :=
        (offers_room_iff hfree hchips fun _ => True).2 ⟨e, he, trivial⟩
      obtain ⟨core, hcore, -⟩ := (offers_core_iff fun _ => True).1 hany
      have hshared : _ ↔ st.Offers chips fun room _ => s.cost.sharedMemory ≤ room.sharedLeft :=
        (le_largest_iff he fun e => e.2.sharedLeft).trans (offers_room_iff hfree hchips
          fun room => s.cost.sharedMemory ≤ room.sharedLeft).symm
      have hcycles : _ ↔ st.Offers chips fun _ core => s.cost.cpuCycles ≤ core.cpuCycles :=
        (le_largest_iff hcore Core.cpuCycles).trans (offers_core_iff _).symm
      have hlocal : _ ↔ st.Offers chips fun _ core => s.cost.localMemory ≤ core.localMemory :=
        (le_largest_iff hcore Core.localMemory).trans (offers_core_iff _).symm
      split
      · next hless =>
          have hnot := mt hshared.2 (UInt64.not_le.2 hless)
          exact ⟨iff_of_true hless fun h => hnot h.sharedMemory,
            fun h => absurd h.sharedMemory hnot⟩
      · next hsharedLeft =>
          split
          · next hless =>
              have hnot := mt hcycles.2 (UInt64.not_le.2 hless)
              exact ⟨iff_of_true hless fun h => hnot h.cpuCycles,
                fun h => absurd h.cpuCycles hnot⟩
          · next hcyclesLeft =>
              refine ⟨?_, fun _ => rfl⟩
              rw [← UInt64.not_le, not_iff_not]
              refine hlocal.trans ⟨fun h => ?_, fun h => h.localMemory⟩
              exact ⟨hcycles.1 (UInt64.not_lt.1 hcyclesLeft), h,
                hshared.1 (UInt64.not_lt.1 hsharedLeft), findLocation?_eq_none_iff.1 hnone⟩

/-- The error for a slice that none of the candidates can take. -/
def refusal (st : PlacementState) (p : PartitionedGraph) (chips : List Chip) (u : GraphUnit)
    (s : Slice) : PipelineError :=
  .resourceExceeded (s.subject u) (st.shortage p chips s).resource
    (st.shortage p chips s).requested (st.shortage p chips s).available

/-- A step fails as a slice has no unit, or as no candidate can take it. -/
theorem placeSlice_eq_error {adjacency : Std.ExtTreeMap SliceId (Std.ExtTreeSet SliceId)}
    {e : PipelineError} (h : st.placeSlice f g p adjacency s = .error e) :
    e.Short ∨ st.placements.get? s.id = none ∧ ∃ u, g.unit? s.unit = some u ∧
      st.findLocation? (st.candidates f adjacency u s) s = none ∧
      e = st.refusal p (st.candidates f adjacency u s) u s := by
  unfold placeSlice at h
  split at h
  · exact absurd h (by simp)
  · next hunplaced =>
      split at h
      · obtain rfl := Except.error.inj h
        exact .inl trivial
      · next u hu =>
          simp only at h
          split at h
          · exact absurd h (by simp)
          · next hnone =>
              exact .inr ⟨by simpa using hunplaced, u, hu, hnone, (Except.error.inj h).symm⟩

theorem placeSlice_of_findLocation?_none
    {adjacency : Std.ExtTreeMap SliceId (Std.ExtTreeSet SliceId)} {u : GraphUnit}
    (hunplaced : st.placements.get? s.id = none) (hu : g.unit? s.unit = some u)
    (hnone : st.findLocation? (st.candidates f adjacency u s) s = none) :
    st.placeSlice f g p adjacency s
      = .error (st.refusal p (st.candidates f adjacency u s) u s) := by
  simp only [placeSlice, hunplaced, hu, hnone]
  rfl

end PlacementState

/-! ## Where placing stops -/

/-- The neighbours by which a placer ranks chips. -/
def PlacerKind.neighbours (placer : PlacerKind) (p : PartitionedGraph) :
    Std.ExtTreeMap SliceId (Std.ExtTreeSet SliceId) :=
  match placer with
  | .locality => p.adjacency
  | .linear => ∅

namespace Fabric

variable {f : Fabric} {g : ApplicationGraph} {p : PartitionedGraph} {placer : PlacerKind}
  {st : PlacementState} {u : GraphUnit} {s : Slice}

/-- Placing stops at a slice of a unit: after all slices before it were placed, none of its
    candidates can take it. -/
structure StopsAt (f : Fabric) (g : ApplicationGraph) (p : PartitionedGraph) (placer : PlacerKind)
    (st : PlacementState) (u : GraphUnit) (s : Slice) : Prop where
  reached : ∃ pinned done rest, (PlacementState.start f).pinAll f g p = .ok pinned ∧
    p.slices.toList = done ++ s :: rest ∧
    done.foldlM (fun (st : PlacementState) s => st.placeSlice f g p (placer.neighbours p) s) pinned
      = .ok st
  unplaced : st.placements.get? s.id = none
  unit_eq : g.unit? s.unit = some u
  unlocated : st.findLocation? (st.candidates f (placer.neighbours p) u s) s = none

/-- Placing stops at a slice although each amount that it needs is offered by itself. -/
def StopsScattered (f : Fabric) (g : ApplicationGraph) (p : PartitionedGraph)
    (placer : PlacerKind) : Prop :=
  ∃ st u s, f.StopsAt g p placer st u s ∧
    st.Scattered (st.candidates f (placer.neighbours p) u s) s

theorem StopsAt.placeSlices_eq (h : f.StopsAt g p placer st u s) : f.placeSlices g p placer
    = .error (st.refusal p (st.candidates f (placer.neighbours p) u s) u s) := by
  obtain ⟨pinned, done, rest, hpinned, hsplit, hdone⟩ := h.reached
  have hstep := PlacementState.placeSlice_of_findLocation?_none (f := f) (g := g) (p := p)
    h.unplaced h.unit_eq h.unlocated
  have hfold := foldlM_eq_error_iff_exists.2 ⟨done, s, rest, st, hsplit, hdone, hstep⟩
  show ((PlacementState.start f).pinAll f g p >>= fun pinned =>
    p.slices.toList.foldlM (fun (st : PlacementState) s =>
      st.placeSlice f g p (placer.neighbours p) s) pinned >>= _) = _
  rw [hpinned, ok_bind, hfold, error_bind]

/-- Placing fails with an error that names no resource or a real shortage, or where it stops. -/
theorem placeSlices_eq_error {e : PipelineError} (h : f.placeSlices g p placer = .error e) :
    e.Short ∨ ∃ st u s, f.StopsAt g p placer st u s ∧
      e = st.refusal p (st.candidates f (placer.neighbours p) u s) u s := by
  change ((PlacementState.start f).pinAll f g p >>= fun pinned =>
    p.slices.toList.foldlM (fun (st : PlacementState) s =>
      st.placeSlice f g p (placer.neighbours p) s) pinned >>= _) = _ at h
  cases hpinned : (PlacementState.start f).pinAll f g p with
  | error e' =>
      rw [hpinned, error_bind] at h
      obtain rfl := Except.error.inj h
      exact .inl (PlacementState.short_pinAll _ f g p e' hpinned)
  | ok pinned =>
      rw [hpinned, ok_bind] at h
      cases hplaced : p.slices.toList.foldlM (fun (st : PlacementState) s =>
          st.placeSlice f g p (placer.neighbours p) s) pinned with
      | ok placed =>
          rw [hplaced, ok_bind] at h
          exact absurd h (by simp [pure_eq_ok])
      | error e' =>
          rw [hplaced, error_bind] at h
          obtain rfl := Except.error.inj h
          obtain ⟨done, s, rest, st, hsplit, hdone, hstep⟩ := foldlM_eq_error_iff_exists.1 hplaced
          rcases PlacementState.placeSlice_eq_error hstep with
            hshort | ⟨hunplaced, u, hu, hnone, he⟩
          · exact .inl hshort
          · exact .inr ⟨st, u, s, ⟨⟨pinned, done, rest, hpinned, hsplit, hdone⟩, hunplaced, hu,
              hnone⟩, he⟩

theorem StopsAt.shortage_lt_iff (h : f.StopsAt g p placer st u s) (hf : f.Coherent)
    (hsize : p.slices.size < UInt64.size) :
    ((st.refusal p (st.candidates f (placer.neighbours p) u s) u s).Short ↔
      ¬ st.Scattered (st.candidates f (placer.neighbours p) u s) s) ∧
    (st.Scattered (st.candidates f (placer.neighbours p) u s) s →
      (st.shortage p (st.candidates f (placer.neighbours p) u s) s).resource = .localMemory) := by
  obtain ⟨pinned, done, rest, hpinned, hsplit, hdone⟩ := h.reached
  have hfree := ((PlacementState.freeCores_start hf).pinAll hpinned).placeAll hdone
  have hs : s ∈ p.slices.toList := by
    rw [hsplit]
    exact List.mem_append_right _ List.mem_cons_self
  exact PlacementState.shortage_lt_iff hfree
    (fun chip hchip => (PlacementState.mem_candidates hf hchip).1) hs h.unplaced hsize h.unlocated

/-- The errors of placing name a real shortage unless it stops at a slice for which what it needs is
    scattered. -/
theorem short_placeSlices_iff (hf : f.Coherent) (hsize : p.slices.size < UInt64.size) :
    FailsWith PipelineError.Short (f.placeSlices g p placer) ↔ ¬ f.StopsScattered g p placer := by
  constructor
  · rintro hshort ⟨st, u, s, hstops, hscattered⟩
    exact (hstops.shortage_lt_iff hf hsize).1.1 (hshort _ hstops.placeSlices_eq) hscattered
  · intro hnot e he
    rcases placeSlices_eq_error he with hshort | ⟨st, u, s, hstops, rfl⟩
    · exact hshort
    · exact (hstops.shortage_lt_iff hf hsize).1.2 fun h => hnot ⟨st, u, s, hstops, h⟩

/-! ## Where cores are alike -/

theorem Uniform.attachAll {f : Fabric} (h : f.Uniform) {specs : List VirtualChipSpec}
    (hattached : (f.attachAll specs).result = .ok ()) : (f.attachAll specs).fabric.Uniform :=
  foldlM_ok_induction (fun _ f => f.Uniform) (fun _ _ _ _ hf hstep => hf.addVirtualChip hstep)
    h (attachAll_eq_ok hattached)

/-- Where all cores are alike, a chip with enough shared memory has a core that is enough. -/
theorem Uniform.not_stopsScattered {f : Fabric} {g : ApplicationGraph} {p : PartitionedGraph}
    {placer : PlacerKind} (h : f.Uniform) (hf : f.Coherent) : ¬ f.StopsScattered g p placer := by
  rintro ⟨st, u, s, -, hscattered⟩
  obtain ⟨chip, hchip, room, hroom, id, hid, core, hcore, hshared⟩ := hscattered.sharedMemory
  have halike : ∀ chip' ∈ st.candidates f (placer.neighbours p) u s, ∀ id' core',
      chip'.core? id' = some core' → core'.Alike core := by
    intro chip' hchip' id' core' hcore'
    obtain ⟨hfound, hspec, hreal⟩ := PlacementState.mem_candidates hf hchip
    obtain ⟨hfound', hspec', hreal'⟩ := PlacementState.mem_candidates hf hchip'
    have hmem := List.mem_of_find?_eq_some hcore
    have hmem' := List.mem_of_find?_eq_some hcore'
    cases hvirtual : u.virtualChip with
    | none =>
        exact h.real _ chip' _ chip hfound' hfound (hreal' hvirtual) (hreal hvirtual) core' hmem'
          core hmem
    | some spec =>
        have hcoord : chip'.coord = chip.coord :=
          (hspec' spec hvirtual).trans (hspec spec hvirtual).symm
        rw [hcoord, hfound] at hfound'
        obtain rfl := Option.some.inj hfound'
        exact h.single _ chip hfound core' hmem' core hmem
  obtain ⟨chip₁, hchip₁, -, -, id₁, -, core₁, hcore₁, hcycles⟩ := hscattered.cpuCycles
  obtain ⟨chip₂, hchip₂, -, -, id₂, -, core₂, hcore₂, hlocal⟩ := hscattered.localMemory
  refine hscattered.apart ⟨chip, hchip, room, hroom, id, hid, core, hcore, ?_, ?_, hshared⟩
  · exact (halike chip₁ hchip₁ id₁ core₁ hcore₁).1 ▸ hcycles
  · exact (halike chip₂ hchip₂ id₂ core₂ hcore₂).2 ▸ hlocal

/-! ## The errors of partitioning and placing -/

/-- Virtual chips are all attached, and then placing stops at a slice although each amount that it
    needs is offered by itself. -/
def PlaceStopsScattered (f : Fabric) (g : ApplicationGraph) (p : PartitionedGraph)
    (placer : PlacerKind) : Prop :=
  (f.attachAll g.virtualChips).result = .ok () ∧
    (f.attachAll g.virtualChips).fabric.StopsScattered g p placer

theorem short_place_iff {f : Fabric} {g : ApplicationGraph} {p : PartitionedGraph}
    {placer : PlacerKind} (hf : f.Coherent) (hsize : p.slices.size < UInt64.size) :
    FailsWith PipelineError.Short (f.place g p placer).result
      ↔ ¬ f.PlaceStopsScattered g p placer := by
  show FailsWith _ ((f.attachAll g.virtualChips).result >>= fun _ =>
    (f.attachAll g.virtualChips).fabric.placeSlices g p placer) ↔ _
  rw [PlaceStopsScattered]
  cases hattached : (f.attachAll g.virtualChips).result with
  | error e =>
      rw [error_bind]
      exact iff_of_true (failsWith_error (f.short_attachAll g.virtualChips e hattached)) (by simp)
  | ok _ =>
      rw [ok_bind, short_placeSlices_iff (attachAll_coherent hf hattached).1 hsize]
      simp

theorem Uniform.short_place {f : Fabric} {g : ApplicationGraph} {p : PartitionedGraph}
    {placer : PlacerKind} (h : f.Uniform) (hf : f.Coherent) (hsize : p.slices.size < UInt64.size) :
    FailsWith PipelineError.Short (f.place g p placer).result := by
  rw [short_place_iff hf hsize]
  rintro ⟨hattached, hstops⟩
  exact (h.attachAll hattached).not_stopsScattered (attachAll_coherent hf hattached).1 hstops

/-- An error of placing that names no real shortage names local memory. -/
theorem place_eq_resourceExceeded {f : Fabric} {g : ApplicationGraph} {p : PartitionedGraph}
    {placer : PlacerKind} (hf : f.Coherent) (hsize : p.slices.size < UInt64.size)
    {subject : String} {resource : Resource} {requested available : UInt64}
    (h : (f.place g p placer).result
      = .error (.resourceExceeded subject resource requested available)) :
    available < requested ∨ resource = .localMemory := by
  change ((f.attachAll g.virtualChips).result >>= fun _ =>
    (f.attachAll g.virtualChips).fabric.placeSlices g p placer) = _ at h
  cases hattached : (f.attachAll g.virtualChips).result with
  | error e =>
      rw [hattached, error_bind] at h
      obtain rfl := Except.error.inj h
      exact .inl (f.short_attachAll g.virtualChips _ hattached)
  | ok _ =>
      rw [hattached, ok_bind] at h
      rcases placeSlices_eq_error h with hshort | ⟨st, u, s, hstops, he⟩
      · exact .inl hshort
      · obtain ⟨hiff, hlocal⟩ := hstops.shortage_lt_iff (attachAll_coherent hf hattached).1 hsize
        rw [← he] at hiff
        by_cases hshort : available < requested
        · exact .inl hshort
        · have hresource := hlocal (not_not.1 (mt hiff.2 hshort))
          exact .inr ((PipelineError.resourceExceeded.inj he).2.1.trans hresource)

/-- **When errors about resources name a real shortage.** Those of partitioning always do. Those of
    placing do unless it stops at a slice although each amount that it needs is offered by itself,
    and the resource that is named then is local memory. Where the cores are alike this does not
    happen. -/
theorem resourceExceeded_short_iff {f : Fabric} {p : PartitionedGraph} (hf : f.Built)
    (hsize : p.slices.size < UInt64.size) (g : ApplicationGraph) (placer : PlacerKind) :
    (∀ budget atomsPerCore, FailsWith PipelineError.Short (g.partition budget atomsPerCore)) ∧
    (FailsWith PipelineError.Short (f.place g p placer).result
      ↔ ¬ f.PlaceStopsScattered g p placer) ∧
    (∀ subject resource requested available, (f.place g p placer).result
        = .error (.resourceExceeded subject resource requested available) →
      available < requested ∨ resource = .localMemory) ∧
    (f.Uniform → FailsWith PipelineError.Short (f.place g p placer).result) :=
  ⟨g.short_partition, short_place_iff hf.coherent hsize,
    fun _ _ _ _ h => place_eq_resourceExceeded hf.coherent hsize h,
    fun huniform => huniform.short_place hf.coherent hsize⟩

/-- A unit of one atom, which needs half the cycles and half the local memory of a core. -/
def cellGraph : ApplicationGraph where
  units := [{ label := "cells", atoms := 1, model := .linear ⟨"cells", .zero, ⟨5, 5, 1⟩, 4⟩ }]
  connections := []

/-- The only slice of the unit. -/
def cellSlices : PartitionedGraph := PartitionedGraph.empty.addSlice ⟨0⟩ ⟨0, 1⟩ ⟨5, 5, 1⟩

/-- A chip with one core that has no local memory to speak of, and one that has no cycles. -/
def lopsidedFabric : Fabric :=
  ((grid 1 1 ⟨3, 10, 10, 40, 8⟩ false).setCoreBudget ⟨⟨0, 0⟩, 1⟩ 10 1).setCoreBudget
    ⟨⟨0, 0⟩, 2⟩ 1 10

theorem lopsidedFabric_built : lopsidedFabric.Built :=
  (Built.grid.setCoreBudget _ _ _).setCoreBudget _ _ _

theorem place_lopsidedFabric : (lopsidedFabric.place cellGraph cellSlices .linear).result =
    .error (.resourceExceeded "slice 0 [0, 1) of unit 'cells'" .localMemory 5 10) := by
  decide +kernel

/-- Both cores of the chip are free, but neither has both amounts that the slice needs. -/
theorem lopsidedFabric_stopsScattered : lopsidedFabric.Built ∧
    cellSlices.slices.size < UInt64.size ∧
    lopsidedFabric.PlaceStopsScattered cellGraph cellSlices .linear := by
  have hsize : cellSlices.slices.size < UInt64.size := by decide
  refine ⟨lopsidedFabric_built, hsize, ?_⟩
  obtain ⟨-, hiff, -⟩ := resourceExceeded_short_iff lopsidedFabric_built hsize cellGraph .linear
  rw [← not_not (a := lopsidedFabric.PlaceStopsScattered cellGraph cellSlices .linear), ← hiff]
  intro hshort
  have hless : (10 : UInt64) < 5 := hshort _ place_lopsidedFabric
  exact absurd hless (by decide)

/-- The slice, to which the unit was cut, is refused as it needs 5 bytes of local memory of which
    only 10 are available. -/
theorem lopsidedFabric_misreported :
    cellGraph.partition ⟨10, 10, 10⟩ ∅ = .ok cellSlices ∧
    ∃ subject requested available, (lopsidedFabric.place cellGraph cellSlices .linear).result
        = .error (.resourceExceeded subject .localMemory requested available) ∧
      ¬ available < requested := by
  refine ⟨by decide +kernel, _, _, _, place_lopsidedFabric, by decide⟩

/-! ## Machines and their edits -/

/-- On a machine whose cores were not changed one by one, the errors of placing name a real
    shortage. -/
theorem short_place_afterEdits {f : Fabric} (h : f.Initial) (edits : List Edit)
    {g : ApplicationGraph} {p : PartitionedGraph} {placer : PlacerKind}
    (hsize : p.slices.size < UInt64.size) :
    FailsWith PipelineError.Short ((f.afterEdits edits).place g p placer).result :=
  (h.uniform_afterEdits edits).short_place (h.wellFormed.afterEdits edits).toCoherent hsize

end Fabric

end SpikeMesh
