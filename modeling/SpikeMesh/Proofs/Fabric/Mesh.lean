import SpikeMesh.Proofs.Fabric.Edits

set_option autoImplicit false

/-! # The links of a mesh

A step across a mesh leads to another chip of the mesh, and the step in the opposite direction leads
back from there. This holds at the edges as well: a mesh that is one chip wide does not wrap around,
and around one that is two chips wide the steps in opposite directions lead to the same chip. So a
mesh has a link exactly where there is a step. -/

namespace SpikeMesh

/-! ## Steps -/

theorem Direction.offset_opposite (d : Direction) :
    d.opposite.offset = (-d.offset.1, -d.offset.2) := by
  cases d <;> rfl

/-- A step changes column and row by at most one each, and one of them at least. -/
theorem Direction.offset_cases (d : Direction) :
    (d.offset.1 = -1 ∨ d.offset.1 = 0 ∨ d.offset.1 = 1) ∧
      (d.offset.2 = -1 ∨ d.offset.2 = 0 ∨ d.offset.2 = 1) ∧
      (d.offset.1 ≠ 0 ∨ d.offset.2 ≠ 0) := by
  cases d <;> decide

namespace Fabric

/-- One step along a row or a column that wraps around: to the next place, or from one end to the
    other. -/
theorem wrap_cases {x size : Nat} {d : Int} (hx : x < size) (hd : d = -1 ∨ d = 0 ∨ d = 1) :
    ((wrap (x + d) size : Int) = x + d ∧ 0 ≤ x + d ∧ x + d < size) ∨
    (d = 1 ∧ x + 1 = size ∧ wrap (x + d) size = 0) ∨
    (d = -1 ∧ x = 0 ∧ wrap (x + d) size = size - 1) := by
  unfold wrap
  by_cases hlow : (x : Int) + d < 0
  · have hx0 : x = 0 := by omega
    have hd1 : d = -1 := by omega
    have hmod : ((x : Int) + d) % size = size - 1 := by
      rw [← Int.add_emod_right, Int.emod_eq_of_lt (by omega) (by omega)]
      omega
    exact .inr (.inr ⟨hd1, hx0, by rw [hmod]; omega⟩)
  · by_cases hhigh : (x : Int) + d < size
    · rw [Int.emod_eq_of_lt (by omega) hhigh]
      exact .inl ⟨by omega, by omega, hhigh⟩
    · have hmod : ((x : Int) + d) % size = 0 := by
        have hend : (x : Int) + d = size := by omega
        rw [hend, Int.emod_self]
      exact .inr (.inl ⟨by omega, by omega, by rw [hmod]; rfl⟩)

theorem wrap_lt {x size : Nat} {d : Int} (hx : x < size) (hd : d = -1 ∨ d = 0 ∨ d = 1) :
    wrap (x + d) size < size := by
  rcases wrap_cases hx hd with h | h | h <;> omega

/-- The step back leads back. -/
theorem wrap_back {x size : Nat} {d : Int} (hx : x < size) (hd : d = -1 ∨ d = 0 ∨ d = 1) :
    wrap (wrap (x + d) size + -d) size = x := by
  have hback := wrap_cases (wrap_lt hx hd) (d := -d) (by omega)
  rcases wrap_cases hx hd with h | h | h <;> omega

/-- A step along a row or a column of two places or more leads to another place. -/
theorem wrap_ne {x size : Nat} {d : Int} (hx : x < size) (hd : d = -1 ∨ d = 0 ∨ d = 1)
    (hne : d ≠ 0) (hsize : 2 ≤ size) : wrap (x + d) size ≠ x := by
  rcases wrap_cases hx hd with h | h | h <;> omega

/-- A place of a mesh. -/
def InMesh (width height : UInt32) (c : ChipCoord) : Prop := c.x < width ∧ c.y < height

instance (width height : UInt32) (c : ChipCoord) : Decidable (InMesh width height c) :=
  inferInstanceAs (Decidable (_ ∧ _))

variable {width height : UInt32} {wrapAround : Bool} {c e : ChipCoord} {d : Direction}

/-- A coordinate is told from the numbers of its column and row. -/
theorem mk_ofNat_eq_iff {x y : Nat} (hx : x < width.toNat) (hy : y < height.toNat) :
    (⟨UInt32.ofNat x, UInt32.ofNat y⟩ : ChipCoord) = e ↔ e.x.toNat = x ∧ e.y.toNat = y := by
  have hwidth := width.toNat_lt
  have hheight := height.toNat_lt
  obtain ⟨ex, ey⟩ := e
  rw [ChipCoord.mk.injEq, ← UInt32.toNat_inj, ← UInt32.toNat_inj, UInt32.toNat_ofNat',
    UInt32.toNat_ofNat', Nat.mod_eq_of_lt (by omega), Nat.mod_eq_of_lt (by omega)]
  exact and_congr eq_comm eq_comm

/-- Where a step leads: by the offset around the mesh, or by the offset if it stays in the mesh. -/
theorem step?_eq_some_iff (hc : InMesh width height c) :
    step? width height wrapAround c d = some e ↔
      if wrapAround then
        (d.offset.1 ≠ 0 → 2 ≤ width.toNat) ∧ (d.offset.2 ≠ 0 → 2 ≤ height.toNat) ∧
          e.x.toNat = wrap (c.x.toNat + d.offset.1) width.toNat ∧
          e.y.toNat = wrap (c.y.toNat + d.offset.2) height.toNat
      else InMesh width height e ∧ (e.x.toNat : Int) = c.x.toNat + d.offset.1 ∧
        (e.y.toNat : Int) = c.y.toNat + d.offset.2 := by
  obtain ⟨hx, hy⟩ := hc
  rw [UInt32.lt_iff_toNat_lt] at hx hy
  obtain ⟨hdx, hdy, -⟩ := d.offset_cases
  rw [InMesh, UInt32.lt_iff_toNat_lt, UInt32.lt_iff_toNat_lt]
  simp only [step?]
  cases wrapAround with
  | true =>
      simp only [if_true]
      split
      · next hnarrow =>
          simp only [reduceCtorEq, false_iff]
          rintro ⟨hwide, hhigh, -⟩
          rcases hnarrow with ⟨hne, hlt⟩ | ⟨hne, hlt⟩
          · exact absurd (hwide hne) (by omega)
          · exact absurd (hhigh hne) (by omega)
      · next hwide =>
          rw [Option.some.injEq, mk_ofNat_eq_iff (wrap_lt hx hdx) (wrap_lt hy hdy)]
          constructor
          · rintro ⟨hex, hey⟩
            exact ⟨fun hne => by omega, fun hne => by omega, hex, hey⟩
          · rintro ⟨-, -, hex, hey⟩
            exact ⟨hex, hey⟩
  | false =>
      simp only [Bool.false_eq_true, if_false]
      split
      · next hin =>
          rw [Option.some.injEq, mk_ofNat_eq_iff (show _ < width.toNat by omega)
            (show _ < height.toNat by omega)]
          omega
      · next hout =>
          simp only [reduceCtorEq, false_iff]
          omega

/-- A step leads to another place of the mesh, from which the opposite step leads back. -/
theorem step?_back (hc : InMesh width height c) (h : step? width height wrapAround c d = some e) :
    InMesh width height e ∧ e ≠ c ∧ step? width height wrapAround e d.opposite = some c := by
  rw [step?_eq_some_iff hc] at h
  obtain ⟨hdx, hdy, hmoves⟩ := d.offset_cases
  have hplace := hc
  rw [InMesh, UInt32.lt_iff_toNat_lt, UInt32.lt_iff_toNat_lt] at hplace
  have hin : InMesh width height e := by
    split at h
    · obtain ⟨-, -, hex, hey⟩ := h
      rw [InMesh, UInt32.lt_iff_toNat_lt, UInt32.lt_iff_toNat_lt, hex, hey]
      exact ⟨wrap_lt hplace.1 hdx, wrap_lt hplace.2 hdy⟩
    · exact h.1
  refine ⟨hin, ?_, ?_⟩
  · rintro rfl
    split at h
    · obtain ⟨hwide, hhigh, hex, hey⟩ := h
      rcases hmoves with hne | hne
      · exact wrap_ne hplace.1 hdx hne (hwide hne) hex.symm
      · exact wrap_ne hplace.2 hdy hne (hhigh hne) hey.symm
    · omega
  · rw [step?_eq_some_iff hin, Direction.offset_opposite]
    split at h
    · next hwrap =>
        obtain ⟨hwide, hhigh, hex, hey⟩ := h
        rw [if_pos hwrap]
        refine ⟨fun hne => hwide (by simpa using hne), fun hne => hhigh (by simpa using hne),
          ?_, ?_⟩
        · rw [hex]
          exact (wrap_back hplace.1 hdx).symm
        · rw [hey]
          exact (wrap_back hplace.2 hdy).symm
    · next hflat =>
        obtain ⟨-, hex, hey⟩ := h
        rw [if_neg hflat]
        exact ⟨hc, by simp only; omega, by simp only; omega⟩

/-! ## Links -/

theorem link?_setLink (chip : Chip) (link : Link) (d : Direction) :
    (chip.setLink link).router.link? d
      = if link.direction = d then some link else chip.router.link? d :=
  getElem?_insert_of_lawful chip.router.links link.direction d link

theorem mem_rectangle_iff : c ∈ rectangle width.toNat height.toNat ↔ InMesh width height c := by
  rw [InMesh, UInt32.lt_iff_toNat_lt, UInt32.lt_iff_toNat_lt, rectangle]
  simp only [List.mem_flatMap, List.mem_map, List.mem_range]
  constructor
  · rintro ⟨x, hx, y, hy, heq⟩
    obtain ⟨hex, hey⟩ := (mk_ofNat_eq_iff hx hy).1 heq
    omega
  · rintro ⟨hx, hy⟩
    exact ⟨c.x.toNat, hx, c.y.toNat, hy, (mk_ofNat_eq_iff hx hy).2 ⟨rfl, rfl⟩⟩

/-- The chips of a mesh are those at its places. -/
theorem chip?_grid (width height : UInt32) (t : ChipTemplate) (wrapAround : Bool) (c : ChipCoord) :
    (grid width height t wrapAround).chip? c = if InMesh width height c
      then some (meshChip width height t wrapAround c) else none := by
  have hfold : ∀ (coords : List ChipCoord) (chips : Std.ExtTreeMap ChipCoord Chip),
      (coords.foldl
          (fun chips c => chips.insert c (meshChip width height t wrapAround c)) chips)[c]?
        = if c ∈ coords then some (meshChip width height t wrapAround c) else chips[c]? := by
    intro coords
    induction coords with
    | nil => intro chips; simp
    | cons e rest ih =>
        intro chips
        rw [List.foldl_cons, ih, getElem?_insert_of_lawful]
        by_cases hrest : c ∈ rest
        · rw [if_pos hrest, if_pos (List.mem_cons_of_mem e hrest)]
        · rw [if_neg hrest]
          by_cases he : e = c
          · rw [if_pos he, if_pos (by simp [he]), he]
          · rw [if_neg he, if_neg (by simp [hrest, Ne.symm he])]
  rw [grid, chip?, hfold, if_congr mem_rectangle_iff rfl rfl]
  rfl

/-- The links of a chip after those to its neighbours in listed directions were set. -/
theorem link?_foldl_setLink (width height : UInt32) (wrapAround : Bool) (c : ChipCoord)
    (d : Direction) (directions : List Direction) (chip : Chip) :
    (directions.foldl (fun chip d => match step? width height wrapAround c d with
      | some destination => chip.setLink ⟨d, destination, 1⟩
      | none => chip) chip).router.link? d
    = (if d ∈ directions then (step? width height wrapAround c d).map fun e => ⟨d, e, 1⟩
        else none).or (chip.router.link? d) := by
  induction directions generalizing chip with
  | nil => simp
  | cons d' rest ih =>
      rw [List.foldl_cons, ih]
      by_cases hd : d' = d
      · subst hd
        cases step? width height wrapAround c d' with
        | none => simp
        | some e =>
            rw [link?_setLink, if_pos rfl, if_pos List.mem_cons_self]
            split <;> rfl
      · have hmem : d ∈ d' :: rest ↔ d ∈ rest := by simp [Ne.symm hd]
        rw [if_congr hmem rfl rfl]
        cases step? width height wrapAround c d' with
        | none => rfl
        | some e => rw [link?_setLink, if_neg hd]

/-- A chip of a mesh has a standard link in each direction in which there is a step. -/
theorem link?_meshChip (width height : UInt32) (t : ChipTemplate) (wrapAround : Bool)
    (c : ChipCoord) (d : Direction) : (meshChip width height t wrapAround c).router.link? d
      = (step? width height wrapAround c d).map fun e => ⟨d, e, 1⟩ := by
  have hall : d ∈ Direction.all := by cases d <;> decide
  refine (link?_foldl_setLink width height wrapAround c d Direction.all (.ofTemplate c t)).trans ?_
  rw [if_pos hall]
  exact Option.or_none

theorem link?_grid (width height : UInt32) (t : ChipTemplate) (wrapAround : Bool) (c : ChipCoord)
    (d : Direction) : (grid width height t wrapAround).link? c d = if InMesh width height c
      then (step? width height wrapAround c d).map (fun e => ⟨d, e, 1⟩) else none := by
  rw [link?, chip?_grid]
  by_cases hc : InMesh width height c
  · rw [if_pos hc, if_pos hc]
    exact link?_meshChip width height t wrapAround c d
  · rw [if_neg hc, if_neg hc]
    rfl

theorem isVirtual_meshChip (width height : UInt32) (t : ChipTemplate) (wrapAround : Bool)
    (c : ChipCoord) : (meshChip width height t wrapAround c).isVirtual = false := by
  unfold meshChip
  refine List.foldlRecOn Direction.all _
    (motive := fun chip : Chip => chip.isVirtual = false) rfl ?_
  intro chip hchip d _
  split
  · exact hchip
  · exact hchip

theorem isVirtual_grid (width height : UInt32) (t : ChipTemplate) (wrapAround : Bool)
    (c : ChipCoord) : (grid width height t wrapAround).isVirtual c = false := by
  rw [isVirtual_eq_any, chip?_grid]
  split
  · exact isVirtual_meshChip width height t wrapAround c
  · rfl

end Fabric

end SpikeMesh
