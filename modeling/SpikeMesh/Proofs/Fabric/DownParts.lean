import SpikeMesh.Config.Validation
import SpikeMesh.Proofs.Fabric.History

set_option autoImplicit false

/-! # Meshes with parts that are down

Chips and cores that are down are removed from the mesh of a configuration one after the other. What
is left after some of them depends on which they are, not on their order (`Fabric.without`). A part
can be removed only as long as it is there: the chip once, and the core once and not after its chip.
The check of a configuration compares every entry with the whole mesh, so it does not see that an
entry names what an earlier one has removed; the mesh is then refused. -/

namespace SpikeMesh

/-! ## What is left of a fabric -/

/-- What is left of the chip at a coordinate when chips and cores of the fabric are gone: the links
    that lead to no chip that is gone, and the cores that are not. -/
def Chip.without (chip : Chip) (c : ChipCoord) (chips : List ChipCoord) (cores : List Location) :
    Chip :=
  { chip with
    cores := chip.cores.filter fun core => (⟨c, core.id⟩ : Location) ∉ cores
    router := { chip.router with
      links := chip.router.links.filter fun _ link => link.destination ∉ chips } }

/-- The fabric without chips, without the links that lead to them, and without cores. -/
def Fabric.without (f : Fabric) (chips : List ChipCoord) (cores : List Location) : Fabric :=
  ⟨(f.chips.filter fun c _ => c ∉ chips).map fun c chip => chip.without c chips cores⟩

section Chip

variable (chip : Chip) (c : ChipCoord)

theorem Chip.cores_without_nil (chips : List ChipCoord) :
    (chip.without c chips []).cores = chip.cores :=
  List.filter_eq_self.2 (by simp)

theorem Chip.links_without_nil (cores : List Location) :
    (chip.without c [] cores).router.links = chip.router.links := by
  refine Std.ExtTreeMap.ext_getElem? fun d => ?_
  simp only [Chip.without, Std.ExtTreeMap.getElem?_filter']
  cases chip.router.links[d]? <;> simp

/-- Parts that are removed in two goes are removed together. -/
theorem Chip.without_without (chips chips' : List ChipCoord) (cores cores' : List Location) :
    (chip.without c chips cores).without c chips' cores'
      = chip.without c (chips ++ chips') (cores ++ cores') := by
  have hcores : ((chip.cores.filter fun core => (⟨c, core.id⟩ : Location) ∉ cores).filter
        fun core => (⟨c, core.id⟩ : Location) ∉ cores')
      = chip.cores.filter fun core => (⟨c, core.id⟩ : Location) ∉ cores ++ cores' := by
    rw [List.filter_filter]
    refine List.filter_congr fun core _ => ?_
    simp [Bool.and_comm]
  have hlinks : ((chip.router.links.filter fun _ link => link.destination ∉ chips).filter
        fun _ link => link.destination ∉ chips')
      = chip.router.links.filter fun _ link => link.destination ∉ chips ++ chips' := by
    refine Std.ExtTreeMap.ext_getElem? fun d => ?_
    simp only [Std.ExtTreeMap.getElem?_filter']
    cases chip.router.links[d]? with
    | none => rfl
    | some link => by_cases h : link.destination ∈ chips <;> simp [Option.filter, h]
  simp only [Chip.without, hcores, hlinks]

theorem Chip.dropLinksTo_eq (gone : ChipCoord) :
    chip.dropLinksTo gone = chip.without c [gone] [] := by
  have hcores := chip.cores_without_nil c [gone]
  have hlinks : ∀ link : Link, (link.destination != gone) = decide (link.destination ∉ [gone]) := by
    intro link
    simp [bne, beq_eq_decide]
  simp only [Chip.without] at hcores
  simp only [Chip.dropLinksTo, Chip.without, hcores, hlinks]

theorem Chip.dropCore_eq (id : UInt32) : chip.dropCore id = chip.without c [] [⟨c, id⟩] := by
  have hlinks := chip.links_without_nil c [⟨c, id⟩]
  have hcores : ∀ core : Core, (core.id != id)
      = decide ((⟨c, core.id⟩ : Location) ∉ [(⟨c, id⟩ : Location)]) := by
    intro core
    simp [bne, beq_eq_decide]
  simp only [Chip.without] at hlinks
  simp only [Chip.dropCore, Chip.without, hlinks, hcores]

/-- A chip keeps its cores when those of another one are removed. -/
theorem Chip.without_of_ne {l : Location} (h : l.chip ≠ c) : chip.without c [] [l] = chip := by
  have hlinks := chip.links_without_nil c [l]
  have hcores : (chip.cores.filter fun core => (⟨c, core.id⟩ : Location) ∉ [l]) = chip.cores := by
    refine List.filter_eq_self.2 fun core _ => ?_
    simp only [List.mem_singleton, decide_eq_true_eq]
    rintro rfl
    exact h rfl
  simp only [Chip.without] at hlinks
  rw [Chip.without, hlinks, hcores]

theorem Chip.isSome_core?_without (chips : List ChipCoord) (cores : List Location) (id : UInt32) :
    ((chip.without c chips cores).core? id).isSome = true ↔
      (chip.core? id).isSome = true ∧ (⟨c, id⟩ : Location) ∉ cores := by
  simp only [Chip.core?, Chip.without, List.find?_isSome, List.mem_filter, decide_eq_true_eq,
    beq_iff_eq]
  constructor
  · rintro ⟨core, ⟨hcore, hnot⟩, rfl⟩
    exact ⟨⟨core, hcore, rfl⟩, hnot⟩
  · rintro ⟨⟨core, hcore, rfl⟩, hnot⟩
    exact ⟨core, ⟨hcore, hnot⟩, rfl⟩

end Chip

namespace Fabric

variable {f f' : Fabric} {c : ChipCoord} {l : Location} {chips : List ChipCoord}
  {cores : List Location} {e : PipelineError}

theorem ext_chip? (h : ∀ c, f.chip? c = f'.chip? c) : f = f' :=
  congrArg Fabric.mk (Std.ExtTreeMap.ext_getElem? h)

theorem chip?_without (f : Fabric) (chips : List ChipCoord) (cores : List Location)
    (c : ChipCoord) : (f.without chips cores).chip? c =
      if c ∈ chips then none else (f.chip? c).map fun chip => chip.without c chips cores := by
  have hlookup : (f.without chips cores).chip? c = ((f.chip? c).filter fun _ =>
      decide (c ∉ chips)).map fun chip => chip.without c chips cores := by
    rw [without, chip?, chip?, Std.ExtTreeMap.getElem?_map, Std.ExtTreeMap.getElem?_filter']
  rw [hlookup]
  cases f.chip? c with
  | none => simp
  | some chip => by_cases hc : c ∈ chips <;> simp [Option.filter, hc]

/-- It does not matter in which order and how often a part is listed. -/
theorem without_congr {chips' : List ChipCoord} {cores' : List Location}
    (hchips : ∀ c, c ∈ chips ↔ c ∈ chips') (hcores : ∀ l, l ∈ cores ↔ l ∈ cores') :
    f.without chips cores = f.without chips' cores' := by
  simp only [without, Chip.without, hchips, hcores]

theorem without_nil (f : Fabric) : f.without [] [] = f := by
  refine ext_chip? fun c => ?_
  rw [chip?_without, if_neg (by simp)]
  cases f.chip? c with
  | none => rfl
  | some chip =>
      have hcores := chip.cores_without_nil c []
      have hlinks := chip.links_without_nil c []
      simp only [Chip.without] at hcores hlinks
      rw [Option.map_some, Chip.without, hcores, hlinks]

theorem without_without (f : Fabric) (chips chips' : List ChipCoord)
    (cores cores' : List Location) : (f.without chips cores).without chips' cores'
      = f.without (chips ++ chips') (cores ++ cores') := by
  refine ext_chip? fun c => ?_
  rw [chip?_without, chip?_without, chip?_without]
  by_cases hc : c ∈ chips
  · simp [hc]
  · by_cases hc' : c ∈ chips'
    · simp [hc']
    · cases f.chip? c with
      | none => simp [hc, hc']
      | some chip => simp [hc, hc', chip.without_without c]

/-! ## Removing parts -/

/-- There is a chip with a core at a location. -/
def HasCore (f : Fabric) (l : Location) : Prop :=
  ∃ chip, f.chip? l.chip = some chip ∧ (chip.core? l.core).isSome = true

theorem HasCore.contains (h : f.HasCore l) : f.contains l.chip = true := by
  obtain ⟨chip, hchip, -⟩ := h
  rw [contains_eq_isSome, hchip, Option.isSome_some]

theorem contains_without : (f.without chips cores).contains c = true ↔
    f.contains c = true ∧ c ∉ chips := by
  rw [contains_eq_isSome, contains_eq_isSome, chip?_without]
  by_cases hc : c ∈ chips <;> simp [hc]

theorem hasCore_without : (f.without chips cores).HasCore l ↔
    (f.HasCore l ∧ l.chip ∉ chips) ∧ l ∉ cores := by
  unfold HasCore
  rw [chip?_without]
  by_cases hc : l.chip ∈ chips
  · simp [hc]
  · simp only [hc, if_false, Option.map_eq_some_iff, not_false_eq_true, and_true]
    constructor
    · rintro ⟨chip', ⟨chip, hchip, rfl⟩, hcore⟩
      obtain ⟨hcore, hnot⟩ := (chip.isSome_core?_without l.chip chips cores l.core).1 hcore
      exact ⟨⟨chip, hchip, hcore⟩, hnot⟩
    · rintro ⟨⟨chip, hchip, hcore⟩, hnot⟩
      exact ⟨_, ⟨chip, hchip, rfl⟩,
        (chip.isSome_core?_without l.chip chips cores l.core).2 ⟨hcore, hnot⟩⟩

/-- A chip can be removed if it is there. -/
theorem removeChip_eq (f : Fabric) (c : ChipCoord) : f.removeChip c =
    if f.contains c then .ok (f.without [c] [])
    else .error (.invalidConstraint ("chip " ++ c.description)
      "cannot mark a nonexistent chip as down") := by
  by_cases hc : f.contains c = true
  · obtain ⟨f', h⟩ : ∃ f', f.removeChip c = .ok f' := ⟨_, by rw [removeChip, if_pos hc]⟩
    rw [h, if_pos hc]
    refine congrArg Except.ok (ext_chip? fun a => ?_)
    rw [chip?_removeChip h, chip?_without]
    simp only [List.mem_singleton, Chip.dropLinksTo_eq _ a, eq_comm]
  · rw [removeChip, if_neg hc, if_neg hc]

/-- A core can be removed if it is there. -/
theorem removeCore_eq_ok_iff : f.removeCore l = .ok f' ↔ f.HasCore l ∧ f' = f.without [] [l] := by
  have hwithout : (f.modifyChip l.chip fun chip => chip.dropCore l.core) = f.without [] [l] := by
    refine ext_chip? fun a => ?_
    rw [chip?_modifyChip, chip?_without, if_neg (List.not_mem_nil (a := a))]
    by_cases ha : l.chip = a
    · rw [if_pos ha]
      subst ha
      simp only [Chip.dropCore_eq _ l.chip]
    · rw [if_neg ha]
      simp only [Chip.without_of_ne _ a ha, Option.map_id']
  rw [← hwithout]
  constructor
  · intro h
    refine ⟨?_, removeCore_eq_ok h⟩
    unfold removeCore at h
    split at h
    · exact absurd h (by simp)
    · next chip hchip =>
        split at h
        · next hcore => exact ⟨chip, hchip, hcore⟩
        · exact absurd h (by simp)
  · rintro ⟨⟨chip, hchip, hcore⟩, rfl⟩
    rw [removeCore, hchip]
    exact if_pos hcore

/-- A core that cannot be removed is not there, or its chip is not. -/
theorem removeCore_eq_error (h : f.removeCore l = .error e) :
    (f.contains l.chip = false ∧
      e = .invalidConstraint ("core " ++ l.description) "chip does not exist") ∨
    (f.contains l.chip = true ∧ ¬ f.HasCore l ∧
      e = .invalidConstraint ("core " ++ l.description) "core does not exist") := by
  unfold removeCore at h
  split at h
  · next hchip => exact .inl ⟨by rw [contains_eq_isSome, hchip]; rfl, (Except.error.inj h).symm⟩
  · next chip hchip =>
      split at h
      · exact absurd h (by simp)
      · next hcore =>
          refine .inr ⟨by rw [contains_eq_isSome, hchip]; rfl, ?_, (Except.error.inj h).symm⟩
          rintro ⟨chip', hchip', hcore'⟩
          obtain rfl := Option.some.inj (hchip.symm.trans hchip')
          exact hcore hcore'

/-! ## The mesh of a configuration -/

theorem foldlM_removeChip_eq_ok_iff : chips.foldlM removeChip f = .ok f' ↔
    (∀ c ∈ chips, f.contains c = true) ∧ chips.Nodup ∧ f' = f.without chips [] := by
  have hstep : ∀ gone c f', (f.without gone []).removeChip c = .ok f' ↔
      f.contains c = true ∧ c ∉ gone ∧ f' = f.without (gone ++ [c]) [] := by
    intro gone c f'
    have hthere : (f.without gone []).contains c = true ↔ f.contains c = true ∧ c ∉ gone :=
      contains_without
    rw [removeChip_eq, without_without, List.append_nil, ← and_assoc, ← hthere]
    split
    · next h => exact ⟨fun heq => ⟨h, (Except.ok.inj heq).symm⟩, fun ⟨_, heq⟩ => heq ▸ rfl⟩
    · next h => exact ⟨fun heq => absurd heq (by simp), fun ⟨hc, _⟩ => absurd hc h⟩
  simpa [without_nil] using
    foldlM_remove_eq_ok_iff (fun c => f.contains c = true) hstep chips []

theorem foldlM_removeCore_eq_ok_iff : cores.foldlM removeCore (f.without chips []) = .ok f' ↔
    (∀ l ∈ cores, f.HasCore l ∧ l.chip ∉ chips) ∧ cores.Nodup ∧ f' = f.without chips cores := by
  have hstep : ∀ gone l f', (f.without chips gone).removeCore l = .ok f' ↔
      (f.HasCore l ∧ l.chip ∉ chips) ∧ l ∉ gone ∧ f' = f.without chips (gone ++ [l]) := by
    intro gone l f'
    rw [removeCore_eq_ok_iff, hasCore_without, without_without, List.append_nil, and_assoc]
  simpa using foldlM_remove_eq_ok_iff (fun l => f.HasCore l ∧ l.chip ∉ chips) hstep cores []

end Fabric

/-- A rule that is required holds. -/
theorem require_eq_ok_iff {ε : Type} {rule : Bool} {e : ε} :
    require rule e = .ok () ↔ rule = true := by
  cases rule <;> simp [require]

namespace MachineConfig

/-- The whole mesh of a configuration. -/
def mesh (m : MachineConfig) : Fabric :=
  .grid m.width m.height ⟨m.coresPerChip, m.cpuCyclesPerCore, m.localMemoryPerCore,
    m.sharedMemoryPerChip, m.routerTableCapacity⟩ m.wrapAround

/-- No entry names what another entry names too, or a core of a chip that is down. -/
structure DownOnce (m : MachineConfig) : Prop where
  chips_nodup : m.downChips.Nodup
  cores_nodup : m.downCores.Nodup
  chip_up : ∀ l ∈ m.downCores, l.chip ∉ m.downChips

/-- An error that an entry names what an earlier entry has removed. -/
inductive NamesGone (m : MachineConfig) : PipelineError → Prop
  | chip {c : ChipCoord} : 2 ≤ m.downChips.count c →
      NamesGone m (.invalidConstraint ("chip " ++ c.description)
        "cannot mark a nonexistent chip as down")
  | chipOfCore {l : Location} : l ∈ m.downCores → l.chip ∈ m.downChips →
      NamesGone m (.invalidConstraint ("core " ++ l.description) "chip does not exist")
  | core {l : Location} : 2 ≤ m.downCores.count l →
      NamesGone m (.invalidConstraint ("core " ++ l.description) "core does not exist")

/-- The parts that are down are parts of the mesh. -/
structure DownInMesh (m : MachineConfig) : Prop where
  chips : ∀ c ∈ m.downChips, m.mesh.contains c = true
  cores : ∀ l ∈ m.downCores, m.mesh.HasCore l

variable {m : MachineConfig} {f : Fabric} {e : PipelineError}

theorem ofMachine_eq (m : MachineConfig) : Fabric.ofMachine m =
    (m.downChips.foldlM Fabric.removeChip m.mesh >>= m.downCores.foldlM Fabric.removeCore) := rfl

theorem DownInMesh.ofMachine_eq_ok_iff (h : m.DownInMesh) : Fabric.ofMachine m = .ok f ↔
    m.DownOnce ∧ f = m.mesh.without m.downChips m.downCores := by
  rw [ofMachine_eq, bind_eq_ok_iff]
  constructor
  · rintro ⟨rest, hchips, hcores⟩
    obtain ⟨-, hnodup, rfl⟩ := Fabric.foldlM_removeChip_eq_ok_iff.1 hchips
    obtain ⟨hup, hnodup', rfl⟩ := Fabric.foldlM_removeCore_eq_ok_iff.1 hcores
    exact ⟨⟨hnodup, hnodup', fun l hl => (hup l hl).2⟩, rfl⟩
  · rintro ⟨honce, rfl⟩
    exact ⟨_, Fabric.foldlM_removeChip_eq_ok_iff.2 ⟨h.chips, honce.chips_nodup, rfl⟩,
      Fabric.foldlM_removeCore_eq_ok_iff.2
        ⟨fun l hl => ⟨h.cores l hl, honce.chip_up l hl⟩, honce.cores_nodup, rfl⟩⟩

/-- A chip cannot be removed if it was removed before. -/
theorem DownInMesh.namesGone_of_removeChip (h : m.DownInMesh)
    (he : m.downChips.foldlM Fabric.removeChip m.mesh = .error e) : m.NamesGone e := by
  obtain ⟨done, c, rest, left, hsplit, hdone, hc⟩ := foldlM_eq_error_iff_exists.1 he
  obtain ⟨-, -, rfl⟩ := Fabric.foldlM_removeChip_eq_ok_iff.1 hdone
  rw [Fabric.removeChip_eq] at hc
  split at hc
  · exact absurd hc (by simp)
  · next hgone =>
      obtain rfl := Except.error.inj hc
      have hmem : c ∈ done := by
        by_contra hnot
        exact hgone (Fabric.contains_without.2 ⟨h.chips c (by simp [hsplit]), hnot⟩)
      exact .chip (hsplit ▸ two_le_count hmem)

/-- A core cannot be removed if it or its chip was removed before. -/
theorem DownInMesh.namesGone_of_removeCore (h : m.DownInMesh)
    (he : m.downCores.foldlM Fabric.removeCore (m.mesh.without m.downChips []) = .error e) :
    m.NamesGone e := by
  obtain ⟨done, l, rest, left, hsplit, hdone, hl⟩ := foldlM_eq_error_iff_exists.1 he
  obtain ⟨-, -, rfl⟩ := Fabric.foldlM_removeCore_eq_ok_iff.1 hdone
  have hlisted : l ∈ m.downCores := by simp [hsplit]
  have hcore := h.cores l hlisted
  rcases Fabric.removeCore_eq_error hl with ⟨hgone, rfl⟩ | ⟨hup, hnot, rfl⟩
  · refine .chipOfCore hlisted ?_
    by_contra hup
    rw [Fabric.contains_without.2 ⟨hcore.contains, hup⟩] at hgone
    exact absurd hgone (by simp)
  · have hmem : l ∈ done := by
      by_contra hfresh
      exact hnot (Fabric.hasCore_without.2 ⟨⟨hcore, (Fabric.contains_without.1 hup).2⟩, hfresh⟩)
    exact .core (hsplit ▸ two_le_count hmem)

/-- The mesh is refused over an entry that names what is gone. -/
theorem DownInMesh.namesGone (h : m.DownInMesh) (he : Fabric.ofMachine m = .error e) :
    m.NamesGone e := by
  rw [ofMachine_eq] at he
  rcases bind_eq_error_iff.1 he with he | ⟨left, hleft, he⟩
  · exact h.namesGone_of_removeChip he
  · obtain ⟨-, -, rfl⟩ := Fabric.foldlM_removeChip_eq_ok_iff.1 hleft
    exact h.namesGone_of_removeCore he

/-- The order in which parts are listed does not matter. -/
theorem DownInMesh.ofMachine_perm (h : m.DownInMesh) {chips : List ChipCoord}
    {cores : List Location} (hchips : chips.Perm m.downChips) (hcores : cores.Perm m.downCores) :
    Fabric.ofMachine { m with downChips := chips, downCores := cores } = .ok f ↔
      Fabric.ofMachine m = .ok f := by
  have h' : DownInMesh { m with downChips := chips, downCores := cores } :=
    ⟨fun c hc => h.chips c (hchips.mem_iff.1 hc), fun l hl => h.cores l (hcores.mem_iff.1 hl)⟩
  have honce : DownOnce { m with downChips := chips, downCores := cores } ↔ m.DownOnce :=
    ⟨fun honce => ⟨hchips.nodup_iff.1 honce.chips_nodup, hcores.nodup_iff.1 honce.cores_nodup,
      fun l hl hc => honce.chip_up l (hcores.mem_iff.2 hl) (hchips.mem_iff.2 hc)⟩,
    fun honce => ⟨hchips.nodup_iff.2 honce.chips_nodup, hcores.nodup_iff.2 honce.cores_nodup,
      fun l hl hc => honce.chip_up l (hcores.mem_iff.1 hl) (hchips.mem_iff.1 hc)⟩⟩
  rw [h'.ofMachine_eq_ok_iff, h.ofMachine_eq_ok_iff, honce,
    Fabric.without_congr (fun _ => hchips.mem_iff) (fun _ => hcores.mem_iff)]
  rfl

/-! ## The check of a configuration -/

/-- A chip of the mesh has the cores below the number of cores of a chip. -/
theorem hasCore_mesh_iff {l : Location} :
    m.mesh.HasCore l ↔ l.chip.x < m.width ∧ l.chip.y < m.height ∧ l.core < m.coresPerChip := by
  have hcore : ∀ t : ChipTemplate, ((Fabric.meshChip m.width m.height t m.wrapAround
      l.chip).core? l.core).isSome = true ↔ l.core < t.cores := by
    intro t
    rw [Chip.core?, (Fabric.meshChip_eq m.width m.height t m.wrapAround l.chip).2,
      List.find?_isSome, UInt32.lt_iff_toNat_lt]
    simp only [Chip.ofTemplate, Core.numbered, List.mem_map, List.mem_range, beq_iff_eq]
    constructor
    · rintro ⟨_, ⟨i, hi, rfl⟩, hid⟩
      have := t.cores.toNat_lt
      rw [← hid, UInt32.toNat_ofNat', Nat.mod_eq_of_lt (by omega)]
      exact hi
    · intro hlt
      exact ⟨_, ⟨l.core.toNat, hlt, rfl⟩, UInt32.ofNat_toNat⟩
  rw [Fabric.HasCore, mesh, Fabric.chip?_grid, ← and_assoc]
  by_cases hc : Fabric.InMesh m.width m.height l.chip
  · rw [if_pos hc]
    constructor
    · rintro ⟨chip, hchip, hsome⟩
      obtain rfl := Option.some.inj hchip
      exact ⟨hc, (hcore _).1 hsome⟩
    · intro h
      exact ⟨_, rfl, (hcore _).2 h.2⟩
  · rw [if_neg hc]
    exact iff_of_false (by simp) fun h => hc h.1

/-- The check looks up every entry in the whole mesh. -/
theorem downInMesh_of_validate (h : m.validate = .ok ()) : m.DownInMesh := by
  unfold validate at h
  obtain ⟨_, -, h⟩ := bind_eq_ok_iff.1 h
  obtain ⟨_, -, h⟩ := bind_eq_ok_iff.1 h
  obtain ⟨_, -, h⟩ := bind_eq_ok_iff.1 h
  obtain ⟨_, -, h⟩ := bind_eq_ok_iff.1 h
  obtain ⟨⟨⟩, hchips, hcores⟩ := bind_eq_ok_iff.1 h
  constructor
  · intro c hc
    have hrule := require_eq_ok_iff.1 (forM_eq_ok_iff.1 hchips c hc)
    exact Fabric.contains_grid_iff.2 (by simpa [Fabric.InMesh] using hrule)
  · intro l hl
    have hrule := require_eq_ok_iff.1 (forM_eq_ok_iff.1 hcores l hl)
    simpa [hasCore_mesh_iff, and_assoc] using hrule

end MachineConfig

/-- **What a configuration that passes its check is built to.** The mesh is built if and only if no
    entry names what another one names too and no core of a chip that is down is listed, and it is
    then the whole mesh without these chips, without the links to them and without these cores. If
    it is refused, then over such an entry. In which order the entries stand makes no difference. -/
theorem Config.validated_builds_iff {config : Config} (h : config.validate = .ok ()) :
    (∀ f, Fabric.ofMachine config.machine = .ok f ↔ config.machine.DownOnce ∧
      f = config.machine.mesh.without config.machine.downChips config.machine.downCores) ∧
    (∀ e, Fabric.ofMachine config.machine = .error e → config.machine.NamesGone e) ∧
    ∀ chips cores, chips.Perm config.machine.downChips → cores.Perm config.machine.downCores →
      ∀ f, Fabric.ofMachine { config.machine with downChips := chips, downCores := cores } = .ok f ↔
        Fabric.ofMachine config.machine = .ok f := by
  obtain ⟨⟨⟩, hmachine, -⟩ := bind_eq_ok_iff.1 h
  have hdown := MachineConfig.downInMesh_of_validate hmachine
  exact ⟨fun _ => hdown.ofMachine_eq_ok_iff, fun _ => hdown.namesGone,
    fun _ _ hchips hcores _ => hdown.ofMachine_perm hchips hcores⟩

/-- A configuration with a chip and a core of another chip that are down. -/
def worn : Config :=
  { machine := { downChips := [⟨1, 1⟩], downCores := [⟨⟨0, 0⟩, 2⟩] } }

theorem worn_builds : worn.validate = .ok () ∧
    Fabric.ofMachine worn.machine = .ok (worn.machine.mesh.without [⟨1, 1⟩] [⟨⟨0, 0⟩, 2⟩]) := by
  have hvalid : worn.validate = .ok () := by decide +kernel
  refine ⟨hvalid, ((Config.validated_builds_iff hvalid).1 _).2 ⟨⟨?_, ?_, ?_⟩, rfl⟩⟩
  · decide
  · decide
  · decide

/-- A configuration with a chip that is down, and a core of this chip. -/
def wornTwice : Config :=
  { machine := { downChips := [⟨1, 1⟩], downCores := [⟨⟨1, 1⟩, 3⟩] } }

/-- The configuration passes its check and yet has no mesh. -/
theorem wornTwice_refused : wornTwice.validate = .ok () ∧
    Fabric.ofMachine wornTwice.machine
      = .error (.invalidConstraint "core (1, 1, 3)" "chip does not exist") := by
  refine ⟨by decide +kernel, by decide +kernel⟩

end SpikeMesh
