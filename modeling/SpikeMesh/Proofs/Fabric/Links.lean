import SpikeMesh.Proofs.Fabric.Mesh

set_option autoImplicit false

/-! # Links lead there and back

A fabric is well formed if every link leads to another chip that has the opposite link back, if a
virtual chip hangs on one link to a real chip, and if the monitor runs on core 0. A mesh is well
formed, and every edit keeps it so. -/

namespace SpikeMesh

/-- Core 0, and no other one, runs the monitor. -/
def Chip.Monitored (chip : Chip) : Prop :=
  ∀ core ∈ chip.cores, core.isMonitor = true ↔ core.id = monitorCore

theorem Core.isMonitor_of_mem_numbered {count : Nat} {cpuCycles localMemory : UInt64} {core : Core}
    (h : core ∈ numbered count cpuCycles localMemory) :
    core.isMonitor = true ↔ core.id = monitorCore := by
  obtain ⟨i, -, rfl⟩ := List.mem_map.1 h
  exact beq_iff_eq

namespace Fabric

variable {f f' : Fabric}

/-! ## Well-formed fabrics -/

/-- A link as the chip at its start keeps it: under its own direction, and to another chip, whose
    link in the opposite direction leads back. -/
structure Joins (f : Fabric) (c : ChipCoord) (d : Direction) (link : Link) : Prop where
  direction_eq : link.direction = d
  speed_pos : 1 ≤ link.speed
  destination_ne : link.destination ≠ c
  exists_chip : ∃ chip, f.chip? link.destination = some chip
  exists_back : ∃ back, f.link? link.destination d.opposite = some back ∧ back.destination = c

/-- Links join chips both ways, and a virtual chip has at most one, which leads to a real chip. -/
structure Joined (f : Fabric) : Prop where
  joins : ∀ c d link, f.link? c d = some link → f.Joins c d link
  one_link : ∀ c, f.isVirtual c = true → ∀ d d' link link', f.link? c d = some link →
    f.link? c d' = some link' → d = d'
  link_real : ∀ c, f.isVirtual c = true → ∀ d link, f.link? c d = some link →
    f.isVirtual link.destination = false

/-- Chips are kept under their coordinates with their cores in order, of which core 0 is the
    monitor, and links join them both ways. -/
structure WellFormed (f : Fabric) : Prop extends f.Coherent, f.Joined where
  monitored : ∀ c chip, f.chip? c = some chip → chip.Monitored

theorem link?_eq_bind (f : Fabric) (c : ChipCoord) (d : Direction) :
    f.link? c d = (f.chip? c).bind fun chip => chip.router.link? d := rfl

/-! ## Meshes -/

theorem joined_grid (width height : UInt32) (t : ChipTemplate) (wrapAround : Bool) :
    (grid width height t wrapAround).Joined where
  joins := by
    intro c d link hlink
    rw [link?_grid] at hlink
    split at hlink
    · next hc =>
        obtain ⟨e, he, rfl⟩ := Option.map_eq_some_iff.1 hlink
        obtain ⟨hin, hne, hback⟩ := step?_back hc he
        refine ⟨rfl, UInt32.le_refl 1, hne, ?_, ?_⟩
        · rw [chip?_grid, if_pos hin]
          exact ⟨_, rfl⟩
        · rw [link?_grid, if_pos hin, hback]
          exact ⟨_, rfl, rfl⟩
    · exact absurd hlink (by simp)
  one_link := by
    intro c hvirtual
    rw [isVirtual_grid] at hvirtual
    exact absurd hvirtual (by simp)
  link_real := by
    intro c hvirtual
    rw [isVirtual_grid] at hvirtual
    exact absurd hvirtual (by simp)

theorem wellFormed_grid (width height : UInt32) (t : ChipTemplate) (wrapAround : Bool) :
    (grid width height t wrapAround).WellFormed where
  toCoherent := coherent_grid width height t wrapAround
  toJoined := joined_grid width height t wrapAround
  monitored := by
    intro c chip hchip
    rw [chip?_grid] at hchip
    split at hchip
    · obtain rfl := Option.some.inj hchip
      intro core hcore
      rw [(meshChip_eq width height t wrapAround c).2] at hcore
      exact Core.isMonitor_of_mem_numbered hcore
    · exact absurd hchip (by simp)

/-! ## Removing a chip -/

theorem link?_dropLinksTo (chip : Chip) (c : ChipCoord) (d : Direction) :
    (chip.dropLinksTo c).router.link? d
      = (chip.router.link? d).filter fun link => link.destination != c :=
  Std.ExtTreeMap.getElem?_filter'

theorem link?_removeChip {c : ChipCoord} (h : f.removeChip c = .ok f') (a : ChipCoord)
    (d : Direction) : f'.link? a d = if c = a then none
      else (f.link? a d).filter fun link => link.destination != c := by
  rw [link?_eq_bind, link?_eq_bind, chip?_removeChip h]
  split
  · rfl
  · cases f.chip? a with
    | none => rfl
    | some chip => exact link?_dropLinksTo chip c d

theorem isVirtual_removeChip {c : ChipCoord} (h : f.removeChip c = .ok f') (a : ChipCoord) :
    f'.isVirtual a = if c = a then false else f.isVirtual a := by
  rw [isVirtual_eq_any, isVirtual_eq_any, chip?_removeChip h]
  split
  · rfl
  · cases f.chip? a <;> rfl

/-- The links that are left after a chip was removed, and those that are lost. -/
theorem link?_removeChip_eq_some_iff {c : ChipCoord} (h : f.removeChip c = .ok f') {a : ChipCoord}
    {d : Direction} {link : Link} : f'.link? a d = some link ↔
      c ≠ a ∧ f.link? a d = some link ∧ link.destination ≠ c := by
  rw [link?_removeChip h]
  by_cases hc : c = a
  · simp [hc]
  · simp [hc, Option.filter_eq_some_iff]

theorem WellFormed.removeChip (h : f.WellFormed) {c : ChipCoord}
    (hremove : f.removeChip c = .ok f') : f'.WellFormed where
  toCoherent := h.toCoherent.removeChip hremove
  joins := by
    intro a d link hlink
    obtain ⟨ha, hlink, hdestination⟩ := (link?_removeChip_eq_some_iff hremove).1 hlink
    have hjoins := h.joins a d link hlink
    obtain ⟨chip, hchip⟩ := hjoins.exists_chip
    obtain ⟨back, hback, heq⟩ := hjoins.exists_back
    refine ⟨hjoins.direction_eq, hjoins.speed_pos, hjoins.destination_ne, ?_, ?_⟩
    · rw [chip?_removeChip hremove, if_neg (Ne.symm hdestination), hchip]
      exact ⟨_, rfl⟩
    · -- the link back leads to a chip that was not removed
      exact ⟨back, (link?_removeChip_eq_some_iff hremove).2
        ⟨Ne.symm hdestination, hback, by rw [heq]; exact Ne.symm ha⟩, heq⟩
  one_link := by
    intro a hvirtual d d' link link' hlink hlink'
    obtain ⟨ha, hlink, -⟩ := (link?_removeChip_eq_some_iff hremove).1 hlink
    obtain ⟨-, hlink', -⟩ := (link?_removeChip_eq_some_iff hremove).1 hlink'
    rw [isVirtual_removeChip hremove, if_neg ha] at hvirtual
    exact h.one_link a hvirtual d d' link link' hlink hlink'
  link_real := by
    intro a hvirtual d link hlink
    obtain ⟨ha, hlink, hdestination⟩ := (link?_removeChip_eq_some_iff hremove).1 hlink
    rw [isVirtual_removeChip hremove, if_neg ha] at hvirtual
    rw [isVirtual_removeChip hremove, if_neg (Ne.symm hdestination)]
    exact h.link_real a hvirtual d link hlink
  monitored := by
    intro a chip hchip
    rw [chip?_removeChip hremove] at hchip
    split at hchip
    · exact absurd hchip (by simp)
    · obtain ⟨before, hbefore, rfl⟩ := Option.map_eq_some_iff.1 hchip
      exact h.monitored a before hbefore

/-! ## Changing a chip -/

theorem link?_modifyChip (f : Fabric) (c : ChipCoord) (g : Chip → Chip) (a : ChipCoord)
    (d : Direction) : (f.modifyChip c g).link? a d = if c = a
      then (f.chip? a).bind fun chip => (g chip).router.link? d else f.link? a d := by
  rw [link?_eq_bind, link?_eq_bind, chip?_modifyChip]
  split
  · cases f.chip? a <;> rfl
  · rfl

theorem isVirtual_modifyChip (f : Fabric) (c : ChipCoord) {g : Chip → Chip}
    (hg : ∀ chip, (g chip).isVirtual = chip.isVirtual) (a : ChipCoord) :
    (f.modifyChip c g).isVirtual a = f.isVirtual a := by
  rw [isVirtual_eq_any, isVirtual_eq_any, chip?_modifyChip]
  split
  · cases f.chip? a with
    | none => rfl
    | some chip => exact hg chip
  · rfl

theorem isSome_chip?_modifyChip (f : Fabric) (c : ChipCoord) (g : Chip → Chip) (a : ChipCoord) :
    ((f.modifyChip c g).chip? a).isSome = (f.chip? a).isSome := by
  rw [chip?_modifyChip]
  split
  · exact Option.isSome_map
  · rfl

/-- Links that lead where they led before, at a speed that is not zero, still join chips. -/
theorem Joined.of_same_ends (h : f.Joined) (hchips : ∀ c, (f'.chip? c).isSome = (f.chip? c).isSome)
    (hvirtual : ∀ c, f'.isVirtual c = f.isVirtual c)
    (hlinks : ∀ c d, (f'.link? c d).map (fun link => (link.direction, link.destination))
      = (f.link? c d).map fun link => (link.direction, link.destination))
    (hspeed : ∀ c d link, f'.link? c d = some link → 1 ≤ link.speed) : f'.Joined := by
  have hbefore : ∀ c d link', f'.link? c d = some link' → ∃ link, f.link? c d = some link ∧
      link.direction = link'.direction ∧ link.destination = link'.destination := by
    intro c d link' hlink'
    have hends := hlinks c d
    rw [hlink', Option.map_some] at hends
    obtain ⟨link, hlink, heq⟩ := Option.map_eq_some_iff.1 hends.symm
    obtain ⟨hdirection, hdestination⟩ := Prod.mk.inj heq
    exact ⟨link, hlink, hdirection, hdestination⟩
  constructor
  · intro c d link' hlink'
    obtain ⟨link, hlink, hdirection, hdestination⟩ := hbefore c d link' hlink'
    have hjoins := h.joins c d link hlink
    obtain ⟨chip, hchip⟩ := hjoins.exists_chip
    obtain ⟨back, hback, heq⟩ := hjoins.exists_back
    rw [hdestination] at hchip hback
    have hends := hlinks link'.destination d.opposite
    rw [hback, Option.map_some] at hends
    obtain ⟨back', hback', heq'⟩ := Option.map_eq_some_iff.1 hends
    refine ⟨hdirection ▸ hjoins.direction_eq, hspeed c d link' hlink',
      hdestination ▸ hjoins.destination_ne, ?_, back', hback', ?_⟩
    · rw [← Option.isSome_iff_exists, hchips, hchip, Option.isSome_some]
    · rw [(Prod.mk.inj heq').2, heq]
  · intro c hc d d' link₁ link₂ hlink₁ hlink₂
    obtain ⟨before₁, hbefore₁, -⟩ := hbefore c d link₁ hlink₁
    obtain ⟨before₂, hbefore₂, -⟩ := hbefore c d' link₂ hlink₂
    exact h.one_link c (hvirtual c ▸ hc) d d' before₁ before₂ hbefore₁ hbefore₂
  · intro c hc d link' hlink'
    obtain ⟨link, hlink, -, hdestination⟩ := hbefore c d link' hlink'
    rw [hvirtual, ← hdestination]
    exact h.link_real c (hvirtual c ▸ hc) d link hlink

theorem WellFormed.removeCore (h : f.WellFormed) {l : Location}
    (hremove : f.removeCore l = .ok f') : f'.WellFormed := by
  have hcoherent := h.toCoherent.removeCore hremove
  obtain rfl := removeCore_eq_ok hremove
  have hlinks : ∀ c d, (f.modifyChip l.chip fun chip => chip.dropCore l.core).link? c d
      = f.link? c d := by
    intro c d
    rw [link?_modifyChip]
    split
    · rfl
    · rfl
  refine ⟨hcoherent, h.toJoined.of_same_ends (isSome_chip?_modifyChip f _ _)
    (isVirtual_modifyChip f _ fun _ => rfl) (fun c d => by rw [hlinks]) ?_, ?_⟩
  · intro c d link hlink
    rw [hlinks] at hlink
    exact (h.joins c d link hlink).speed_pos
  · intro c chip hchip
    rw [chip?_modifyChip] at hchip
    split at hchip
    · obtain ⟨before, hbefore, rfl⟩ := Option.map_eq_some_iff.1 hchip
      intro core hcore
      exact h.monitored c before hbefore core (List.mem_of_mem_filter hcore)
    · exact h.monitored c chip hchip

/-- The links of a chip, one of which got another speed. -/
theorem link?_withSpeed (chip : Chip) (e d : Direction) (speed : UInt32) :
    Router.link? { chip.router with
      links := chip.router.links.modify e fun link => { link with speed := max speed 1 } } d
      = if e = d then (chip.router.link? d).map fun link => { link with speed := max speed 1 }
        else chip.router.link? d :=
  getElem?_modify_of_lawful chip.router.links e d _

theorem WellFormed.setLinkSpeed (h : f.WellFormed) {c : ChipCoord} {e : Direction} {speed : UInt32}
    (hset : f.setLinkSpeed c e speed = .ok f') : f'.WellFormed := by
  obtain rfl := setLinkSpeed_eq_ok hset
  have hlinks : ∀ a d, (f.modifyChip c fun chip => { chip with router := { chip.router with
      links := chip.router.links.modify e fun link => { link with speed := max speed 1 }
      } }).link? a d
        = if c = a ∧ e = d then (f.link? a d).map fun link => { link with speed := max speed 1 }
          else f.link? a d := by
    intro a d
    rw [link?_modifyChip, link?_eq_bind]
    simp only [link?_withSpeed]
    by_cases hc : c = a
    · by_cases he : e = d
      · rw [if_pos hc, if_pos ⟨hc, he⟩]
        simp only [if_pos he]
        cases f.chip? a <;> rfl
      · rw [if_pos hc, if_neg (fun hboth => he hboth.2)]
        simp only [if_neg he]
    · rw [if_neg hc, if_neg (fun hboth => hc hboth.1)]
  refine ⟨h.toCoherent.modifyChip c (fun _ => rfl) (fun _ hchip => hchip),
    h.toJoined.of_same_ends (isSome_chip?_modifyChip f c _)
      (isVirtual_modifyChip f c fun _ => rfl) ?_ ?_, ?_⟩
  · intro a d
    rw [hlinks]
    split
    · cases f.link? a d <;> rfl
    · rfl
  · intro a d link hlink
    rw [hlinks] at hlink
    split at hlink
    · obtain ⟨before, -, rfl⟩ := Option.map_eq_some_iff.1 hlink
      show 1 ≤ if speed ≤ 1 then 1 else speed
      split
      · exact UInt32.le_refl 1
      · next hspeed => exact UInt32.le_of_lt (UInt32.not_le.1 hspeed)
    · exact (h.joins a d link hlink).speed_pos
  · intro a chip hchip
    rw [chip?_modifyChip] at hchip
    split at hchip
    · obtain ⟨before, hbefore, rfl⟩ := Option.map_eq_some_iff.1 hchip
      exact h.monitored a before hbefore
    · exact h.monitored a chip hchip

/-! ## The mesh of a configuration -/

theorem wellFormed_ofMachine {m : MachineConfig} (h : ofMachine m = .ok f) : f.WellFormed := by
  unfold ofMachine at h
  simp only at h
  obtain ⟨withoutChips, hchips, h⟩ := bind_eq_ok_iff.1 h
  have hwithout : withoutChips.WellFormed :=
    foldlM_ok_induction (fun _ f => f.WellFormed) (fun _ _ _ _ hf hstep => hf.removeChip hstep)
      (wellFormed_grid ..) hchips
  exact foldlM_ok_induction (fun _ f => f.WellFormed)
    (fun _ _ _ _ hf hstep => hf.removeCore hstep) hwithout h

end Fabric

end SpikeMesh
