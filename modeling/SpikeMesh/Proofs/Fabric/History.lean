import SpikeMesh.Proofs.Fabric.Attachment

set_option autoImplicit false

/-! # Edits in place

A fabric is edited where it stands, so a call that fails could leave it half changed. What each call
leaves is followed here step by step, in the order in which it looks and writes. A call that fails
leaves the fabric as it was, and after any calls, from a mesh on, the fabric is well formed. -/

namespace SpikeMesh

namespace Fabric

/-- A call that edits a fabric. -/
inductive Edit
  | removeChip (c : ChipCoord)
  | removeCore (l : Location)
  | setLinkSpeed (c : ChipCoord) (d : Direction) (speed : UInt32)
  | addVirtualChip (spec : VirtualChipSpec)

/-- What the call returns. -/
def Edit.result (f : Fabric) : Edit → Except PipelineError Fabric
  | removeChip c => f.removeChip c
  | removeCore l => f.removeCore l
  | setLinkSpeed c d speed => f.setLinkSpeed c d speed
  | addVirtualChip spec => f.addVirtualChip spec

/-- What stands in place of the fabric after the call, whatever it returns. A chip is taken out
    before it is known whether it was there, and the cores of a chip are filtered before it is known
    whether one is missing. The speed of a link is written where there is one, and a virtual chip is
    written after all that it needs was found. -/
def Edit.inPlace (f : Fabric) : Edit → Fabric
  | removeChip c =>
    let rest := f.chips.erase c
    if f.contains c then ⟨rest.map fun _ chip => chip.dropLinksTo c⟩ else ⟨rest⟩
  | removeCore l => f.modifyChip l.chip fun chip => chip.dropCore l.core
  | setLinkSpeed c d speed => f.modifyChip c fun chip => { chip with router := { chip.router with
      links := chip.router.links.modify d fun link => { link with speed := max speed 1 } } }
  | addVirtualChip spec =>
    if f.contains spec.coord then f
    else match f.attachment spec with
    | .error _ => f
    | .ok (real, core) => f.join spec real core

/-- The fabric after some calls, each of which found what the one before it left. -/
def afterEdits (f : Fabric) (edits : List Edit) : Fabric := edits.foldl Edit.inPlace f

/-- A fabric before the first edit: a mesh, or the mesh of a configuration without what is down. -/
inductive Initial : Fabric → Prop
  | grid (width height : UInt32) (t : ChipTemplate) (wrapAround : Bool) :
      Initial (.grid width height t wrapAround)
  | ofMachine {m : MachineConfig} {f : Fabric} : ofMachine m = .ok f → Initial f

variable {f f' : Fabric}

/-! ## Edits that fail -/

theorem modifyChip_eq_self {c : ChipCoord} {g : Chip → Chip}
    (h : ∀ chip, f.chip? c = some chip → g chip = chip) : f.modifyChip c g = f := by
  have hlookup : ∀ d, (f.modifyChip c g).chip? d = f.chip? d := by
    intro d
    rw [chip?_modifyChip]
    split
    · next hc =>
        subst hc
        cases hchip : f.chip? c with
        | none => rfl
        | some chip => rw [Option.map_some, h chip hchip]
    · rfl
  exact congrArg Fabric.mk (Std.ExtTreeMap.ext_getElem? fun d => hlookup d)

theorem contains_eq_isSome (f : Fabric) (c : ChipCoord) : f.contains c = (f.chip? c).isSome :=
  Std.ExtTreeMap.contains_eq_isSome_getElem?

theorem contains_grid_iff {width height : UInt32} {t : ChipTemplate} {wrapAround : Bool}
    {c : ChipCoord} :
    (grid width height t wrapAround).contains c = true ↔ InMesh width height c := by
  rw [contains_eq_isSome, chip?_grid]
  by_cases hc : InMesh width height c
  · rw [if_pos hc]
    exact iff_of_true rfl hc
  · rw [if_neg hc]
    exact iff_of_false (by simp) hc

theorem erase_eq_self {c : ChipCoord} (h : f.chip? c = none) : f.chips.erase c = f.chips := by
  refine Std.ExtTreeMap.ext_getElem? fun d => ?_
  rw [getElem?_erase_of_lawful]
  split
  · next hc => exact hc ▸ h.symm
  · rfl

theorem Chip.dropCore_eq_self {chip : Chip} {id : UInt32} (h : chip.core? id = none) :
    chip.dropCore id = chip := by
  have hcores : (chip.cores.filter fun core => core.id != id) = chip.cores := by
    rw [List.filter_eq_self]
    intro core hcore
    have hne := List.find?_eq_none.1 h core hcore
    simpa using hne
  rw [Chip.dropCore, hcores]

theorem modify_eq_self {links : Std.ExtTreeMap Direction Link} {d : Direction} {g : Link → Link}
    (h : links[d]? = none) : links.modify d g = links := by
  refine Std.ExtTreeMap.ext_getElem? fun d' => ?_
  rw [getElem?_modify_of_lawful]
  split
  · next hd => rw [← hd, h, Option.map_none]
  · rfl

/-- A call that succeeds leaves what it returns, and one that fails leaves the fabric as it was. -/
theorem Edit.inPlace_eq (f : Fabric) (e : Edit) :
    e.inPlace f = match e.result f with
      | .ok f' => f'
      | .error _ => f := by
  cases e with
  | removeChip c =>
      simp only [inPlace, result, Fabric.removeChip]
      cases hc : f.contains c with
      | true => rfl
      | false =>
          rw [contains_eq_isSome, Option.isSome_eq_false_iff, Option.isNone_iff_eq_none] at hc
          simp [erase_eq_self hc]
  | removeCore l =>
      simp only [inPlace, result, Fabric.removeCore]
      cases hchip : f.chip? l.chip with
      | none => exact modifyChip_eq_self fun chip h => absurd (hchip.symm.trans h) (by simp)
      | some chip =>
          simp only
          cases hcore : chip.core? l.core with
          | none =>
              refine modifyChip_eq_self fun chip' h => ?_
              obtain rfl := Option.some.inj (hchip.symm.trans h)
              exact Chip.dropCore_eq_self hcore
          | some core => rfl
  | setLinkSpeed c d speed =>
      simp only [inPlace, result, Fabric.setLinkSpeed]
      cases hlink : f.link? c d with
      | none =>
          refine modifyChip_eq_self fun chip hchip => ?_
          rw [link?_eq_bind, hchip] at hlink
          rw [modify_eq_self hlink]
      | some link => rfl
  | addVirtualChip spec =>
      simp only [inPlace, result, Fabric.addVirtualChip, contains_eq_isSome]
      cases f.chip? spec.coord with
      | some existing =>
          simp only [Option.isSome_some, if_true]
          cases spec.describes existing <;> rfl
      | none => cases f.attachment spec <;> rfl

theorem Edit.inPlace_of_error {e : Edit} {err : PipelineError} (h : e.result f = .error err) :
    e.inPlace f = f := by
  rw [inPlace_eq, h]

theorem Edit.inPlace_of_ok {e : Edit} (h : e.result f = .ok f') : e.inPlace f = f' := by
  rw [inPlace_eq, h]

/-! ## Edits of a well-formed fabric -/

theorem Initial.wellFormed (h : f.Initial) : f.WellFormed := by
  cases h with
  | grid width height t wrapAround => exact wellFormed_grid width height t wrapAround
  | ofMachine hmachine => exact wellFormed_ofMachine hmachine

theorem WellFormed.inPlace (h : f.WellFormed) (e : Edit) : (e.inPlace f).WellFormed := by
  cases hresult : e.result f with
  | error err => rwa [Edit.inPlace_of_error hresult]
  | ok f' =>
      rw [Edit.inPlace_of_ok hresult]
      cases e with
      | removeChip c => exact h.removeChip hresult
      | removeCore l => exact h.removeCore hresult
      | setLinkSpeed c d speed => exact h.setLinkSpeed hresult
      | addVirtualChip spec => exact h.addVirtualChip hresult

theorem WellFormed.afterEdits (h : f.WellFormed) (edits : List Edit) :
    (f.afterEdits edits).WellFormed := by
  induction edits generalizing f with
  | nil => exact h
  | cons e rest ih => exact ih (h.inPlace e)

/-- **Links lead there and back after any edits.** From a mesh on, whatever calls were made, the
    fabric is well formed; and one more call leaves what it returns, or the fabric as it was if it
    fails. -/
theorem wellFormed_afterEdits (h : f.Initial) (edits : List Edit) (e : Edit) :
    (f.afterEdits edits).WellFormed ∧
      (∀ f', e.result (f.afterEdits edits) = .ok f' → e.inPlace (f.afterEdits edits) = f') ∧
      ∀ err, e.result (f.afterEdits edits) = .error err →
        e.inPlace (f.afterEdits edits) = f.afterEdits edits :=
  ⟨h.wellFormed.afterEdits edits, fun _ => Edit.inPlace_of_ok, fun _ => Edit.inPlace_of_error⟩

/-- Two chips that wrap around, of which one makes room for a virtual chip. Another virtual chip
    cannot take the same link, but comes to it when the first one is gone. -/
def dockEdits : List Edit :=
  [.removeChip ⟨1, 0⟩, .addVirtualChip ⟨⟨1, 0⟩, ⟨0, 0⟩, .west⟩, .removeCore ⟨⟨1, 0⟩, 3⟩,
    .addVirtualChip ⟨⟨7, 7⟩, ⟨0, 0⟩, .west⟩, .removeChip ⟨1, 0⟩,
    .addVirtualChip ⟨⟨7, 7⟩, ⟨0, 0⟩, .west⟩, .setLinkSpeed ⟨7, 7⟩ .east 0]

theorem dock_wellFormed :
    ((grid 2 1 ⟨4, 10, 10, 40, 8⟩ true).afterEdits dockEdits).WellFormed ∧
      ((grid 2 1 ⟨4, 10, 10, 40, 8⟩ true).afterEdits dockEdits).link? ⟨7, 7⟩ .east
        = some ⟨.east, ⟨0, 0⟩, 1⟩ ∧
      Edit.inPlace ((grid 2 1 ⟨4, 10, 10, 40, 8⟩ true).afterEdits dockEdits) (.removeChip ⟨1, 0⟩)
        = (grid 2 1 ⟨4, 10, 10, 40, 8⟩ true).afterEdits dockEdits := by
  obtain ⟨hwell, -, hunchanged⟩ := wellFormed_afterEdits
    (.grid 2 1 ⟨4, 10, 10, 40, 8⟩ true) dockEdits (.removeChip ⟨1, 0⟩)
  refine ⟨hwell, by decide +kernel, hunchanged (.invalidConstraint "chip (1, 0)"
    "cannot mark a nonexistent chip as down") (by decide +kernel)⟩

end Fabric

end SpikeMesh
