import SpikeMesh.Proofs.Fabric.Links

set_option autoImplicit false

/-! # Attaching a virtual chip

A virtual chip that is attached takes a free coordinate and a free link of a real chip, and nothing
else of the fabric changes. So links still lead there and back, and the virtual chip hangs on one
link. -/

namespace SpikeMesh

namespace Fabric

variable {f f' : Fabric}

/-! ## What is joined -/

/-- A virtual chip can be joined to a real one: there is no chip at its coordinate, and the link of
    the real chip in its direction is free. -/
structure Joinable (f : Fabric) (spec : VirtualChipSpec) (real : Chip) : Prop where
  chip?_coord : f.chip? spec.coord = none
  chip?_connectedTo : f.chip? spec.connectedTo = some real
  isVirtual_real : real.isVirtual = false
  link?_real : real.router.link? spec.direction = none

/-- The fabric with a virtual chip that is joined to a real one. -/
def join (f : Fabric) (spec : VirtualChipSpec) (real : Chip) (core : Core) : Fabric :=
  (f.insertChip (spec.chip real core)).modifyChip spec.connectedTo
    fun chip => chip.setLink ⟨spec.direction, spec.coord, 1⟩

theorem attachment_eq_ok_iff {spec : VirtualChipSpec} {real : Chip} {core : Core} :
    f.attachment spec = .ok (real, core) ↔ f.chip? spec.connectedTo = some real ∧
      real.isVirtual = false ∧ real.router.link? spec.direction = none ∧
      real.applicationCores.head?.or real.cores.head? = some core := by
  constructor
  · intro h
    unfold attachment at h
    split at h
    · exact absurd h (by simp)
    · next found hfound =>
        split at h
        · exact absurd h (by simp)
        · next hreal =>
            split at h
            · exact absurd h (by simp)
            · next hfree =>
                split at h
                · exact absurd h (by simp)
                · next first hfirst =>
                    obtain ⟨rfl, rfl⟩ := Prod.mk.inj (Except.ok.inj h)
                    exact ⟨hfound, by simpa using hreal, hfree, hfirst⟩
  · rintro ⟨hchip, hreal, hfree, hfirst⟩
    simp only [attachment, hchip, hreal, hfree, hfirst, Bool.false_eq_true, if_false]

/-- A virtual chip is there. -/
def Shows (f : Fabric) (spec : VirtualChipSpec) : Prop :=
  ∃ existing, f.chip? spec.coord = some existing ∧ spec.describes existing = true

/-- A virtual chip that was attached was there before, or was joined to a real chip. -/
theorem exists_join_of_addVirtualChip {spec : VirtualChipSpec}
    (h : f.addVirtualChip spec = .ok f') :
    (f' = f ∧ f.Shows spec) ∨ ∃ real core, f.attachment spec = .ok (real, core) ∧
      f.Joinable spec real ∧ f' = f.join spec real core := by
  rcases addVirtualChip_eq_ok h with hsame | ⟨hnone, real, core, hattachment, heq⟩
  · exact .inl hsame
  · obtain ⟨hconnected, hreal, hfree, -⟩ := attachment_eq_ok_iff.1 hattachment
    exact .inr ⟨real, core, hattachment, ⟨hnone, hconnected, hreal, hfree⟩, heq⟩

section Join

variable {spec : VirtualChipSpec} {real : Chip}

theorem Joinable.coord_ne (h : f.Joinable spec real) : spec.coord ≠ spec.connectedTo := by
  intro heq
  have hnone := h.chip?_coord
  rw [heq, h.chip?_connectedTo] at hnone
  exact absurd hnone (by simp)

theorem Joinable.link?_connectedTo (h : f.Joinable spec real) :
    f.link? spec.connectedTo spec.direction = none := by
  rw [link?_eq_bind, h.chip?_connectedTo]
  exact h.link?_real

theorem Joinable.isVirtual_connectedTo (h : f.Joinable spec real) :
    f.isVirtual spec.connectedTo = false := by
  rw [isVirtual_eq_any, h.chip?_connectedTo]
  exact h.isVirtual_real

theorem chip?_join (h : f.Joinable spec real) (core : Core) (c : ChipCoord) :
    (f.join spec real core).chip? c = if spec.coord = c then some (spec.chip real core)
      else if spec.connectedTo = c then some (real.setLink ⟨spec.direction, spec.coord, 1⟩)
      else f.chip? c := by
  rw [join, chip?_modifyChip, chip?_insertChip]
  show (if spec.connectedTo = c then
    (if spec.coord = c then some (spec.chip real core) else f.chip? c).map _ else
      if spec.coord = c then some (spec.chip real core) else f.chip? c) = _
  by_cases hcoord : spec.coord = c
  · rw [if_pos hcoord, if_pos hcoord, if_neg (fun hc => h.coord_ne (hcoord.trans hc.symm))]
  · rw [if_neg hcoord, if_neg hcoord]
    split
    · next hc =>
        rw [← hc, h.chip?_connectedTo]
        rfl
    · rfl

theorem isVirtual_join (h : f.Joinable spec real) (core : Core) (c : ChipCoord) :
    (f.join spec real core).isVirtual c = if spec.coord = c then true else f.isVirtual c := by
  rw [isVirtual_eq_any, isVirtual_eq_any, chip?_join h]
  split
  · rfl
  · split
    · next hc =>
        rw [← hc, h.chip?_connectedTo]
        rfl
    · rfl

theorem link?_chip (spec : VirtualChipSpec) (real : Chip) (core : Core) (d : Direction) :
    (spec.chip real core).router.link? d = if spec.direction.opposite = d
      then some ⟨spec.direction.opposite, spec.connectedTo, 1⟩ else none := by
  rw [VirtualChipSpec.chip, link?_setLink]
  split
  · rfl
  · exact Std.ExtTreeMap.getElem?_empty

/-- The new links lead from the virtual chip to the real one and back. -/
theorem link?_join_eq_some_iff (h : f.Joinable spec real) (core : Core) {c : ChipCoord}
    {d : Direction} {link : Link} : (f.join spec real core).link? c d = some link ↔
      (c = spec.coord ∧ d = spec.direction.opposite ∧
        link = ⟨spec.direction.opposite, spec.connectedTo, 1⟩) ∨
      (c = spec.connectedTo ∧ d = spec.direction ∧ link = ⟨spec.direction, spec.coord, 1⟩) ∨
      f.link? c d = some link := by
  have hcoord : ∀ d, f.link? spec.coord d = none := by
    intro d
    rw [link?_eq_bind, h.chip?_coord]
    rfl
  rw [link?_eq_bind, chip?_join h]
  split
  · next hc =>
      subst hc
      rw [hcoord]
      show (spec.chip real core).router.link? d = some link ↔ _
      rw [link?_chip]
      simp only [h.coord_ne, eq_comm (a := d), eq_comm (a := link)]
      by_cases hd : spec.direction.opposite = d <;> simp [hd]
  · next hc =>
      split
      · next hconnected =>
          subst hconnected
          show (real.setLink ⟨spec.direction, spec.coord, 1⟩).router.link? d = some link ↔ _
          have hbefore : f.link? spec.connectedTo d = real.router.link? d := by
            rw [link?_eq_bind, h.chip?_connectedTo]
            rfl
          rw [link?_setLink, hbefore]
          by_cases hd : spec.direction = d
          · subst hd
            simp [h.coord_ne.symm, h.link?_real, eq_comm]
          · simp [h.coord_ne.symm, hd, Ne.symm hd]
      · next hconnected => simp [Ne.symm hc, Ne.symm hconnected, link?_eq_bind]

/-- No link leads to the coordinate of the new chip. -/
theorem Joinable.destination_ne (h : f.Joinable spec real) (hjoined : f.Joined) {c : ChipCoord}
    {d : Direction} {link : Link} (hlink : f.link? c d = some link) :
    spec.coord ≠ link.destination := by
  intro heq
  obtain ⟨chip, hchip⟩ := (hjoined.joins c d link hlink).exists_chip
  rw [← heq, h.chip?_coord] at hchip
  exact absurd hchip (by simp)

theorem Joins.join {c : ChipCoord} {d : Direction} {link : Link} (hjoins : f.Joins c d link)
    (h : f.Joinable spec real) (core : Core) (hne : spec.coord ≠ link.destination) :
    (f.join spec real core).Joins c d link := by
  obtain ⟨chip, hchip⟩ := hjoins.exists_chip
  obtain ⟨back, hback, heq⟩ := hjoins.exists_back
  refine ⟨hjoins.direction_eq, hjoins.speed_pos, hjoins.destination_ne, ?_,
    back, (link?_join_eq_some_iff h core).2 (.inr (.inr hback)), heq⟩
  rw [chip?_join h, if_neg hne, hchip]
  split
  · exact ⟨_, rfl⟩
  · exact ⟨_, rfl⟩

theorem Joined.join (hjoined : f.Joined) (h : f.Joinable spec real) (core : Core) :
    (f.join spec real core).Joined := by
  have hcoord := h.coord_ne
  have hforth := (link?_join_eq_some_iff h core).2 (.inr (.inl ⟨rfl, rfl, rfl⟩))
  have hback := (link?_join_eq_some_iff h core).2 (.inl ⟨rfl, rfl, rfl⟩)
  -- a virtual chip that was there before is not the one to which the new chip is joined
  have hreal : ∀ c, f.isVirtual c = true → c ≠ spec.connectedTo := by
    rintro c hc rfl
    rw [h.isVirtual_connectedTo] at hc
    exact absurd hc (by simp)
  constructor
  · intro c d link hlink
    rcases (link?_join_eq_some_iff h core).1 hlink with ⟨rfl, rfl, rfl⟩ | ⟨rfl, rfl, rfl⟩ | hbefore
    · refine ⟨rfl, UInt32.le_refl 1, hcoord.symm, ?_,
        ⟨spec.direction, spec.coord, 1⟩, ?_, rfl⟩
      · rw [chip?_join h, if_neg hcoord, if_pos rfl]
        exact ⟨_, rfl⟩
      · rw [Direction.opposite_opposite]
        exact hforth
    · refine ⟨rfl, UInt32.le_refl 1, hcoord, ?_, _, hback, rfl⟩
      rw [chip?_join h, if_pos rfl]
      exact ⟨_, rfl⟩
    · exact (hjoined.joins c d link hbefore).join h core (h.destination_ne hjoined hbefore)
  · intro c hc d d' link link' hlink hlink'
    rw [isVirtual_join h] at hc
    rw [link?_join_eq_some_iff h core] at hlink hlink'
    split at hc
    · next heq =>
        subst heq
        rw [link?_eq_bind, h.chip?_coord] at hlink hlink'
        simp only [hcoord, false_and, Option.bind_none, reduceCtorEq, or_false] at hlink hlink'
        rw [hlink.2.1, hlink'.2.1]
    · next hne =>
        simp only [Ne.symm hne, hreal c hc, false_and, false_or] at hlink hlink'
        exact hjoined.one_link c hc d d' link link' hlink hlink'
  · intro c hc d link hlink
    rw [isVirtual_join h] at hc ⊢
    rw [link?_join_eq_some_iff h core] at hlink
    split at hc
    · next heq =>
        subst heq
        rw [link?_eq_bind, h.chip?_coord] at hlink
        simp only [hcoord, false_and, Option.bind_none, reduceCtorEq, or_false] at hlink
        rw [hlink.2.2, if_neg hcoord]
        exact h.isVirtual_connectedTo
    · next hne =>
        simp only [Ne.symm hne, hreal c hc, false_and, false_or] at hlink
        rw [if_neg (h.destination_ne hjoined hlink)]
        exact hjoined.link_real c hc d link hlink

end Join

theorem WellFormed.addVirtualChip (h : f.WellFormed) {spec : VirtualChipSpec}
    (hadd : f.addVirtualChip spec = .ok f') : f'.WellFormed := by
  have hcoherent := h.toCoherent.addVirtualChip hadd
  rcases exists_join_of_addVirtualChip hadd with ⟨rfl, -⟩ | ⟨real, core, -, hjoinable, rfl⟩
  · exact h
  · refine ⟨hcoherent, h.toJoined.join hjoinable core, ?_⟩
    intro c chip hchip
    rw [chip?_join hjoinable] at hchip
    split at hchip
    · obtain rfl := Option.some.inj hchip
      exact fun _ hcore => Core.isMonitor_of_mem_numbered hcore
    · split at hchip
      · obtain rfl := Option.some.inj hchip
        exact h.monitored spec.connectedTo real hjoinable.chip?_connectedTo
      · exact h.monitored c chip hchip

end Fabric

end SpikeMesh
