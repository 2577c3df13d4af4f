import SpikeMesh.Mapping.Slicing
import SpikeMesh.Proofs.Graph.Numbering
import SpikeMesh.Proofs.Graph.Rules

set_option autoImplicit false

/-! # Slices tile their units

Each unit is cut into ranges that follow one another, none of them empty, so that every atom of
the unit lies in exactly one slice. -/

namespace SpikeMesh

/-! ## Cutting ranges -/

/-- The search for a size never goes below its start. -/
theorem le_largestPassing (passes : Nat → Bool) (lo hi : Nat) :
    lo ≤ largestPassing passes lo hi := by
  induction lo, hi using largestPassing.induct passes with
  | case1 lo hi hlt mid hpass ih =>
      rw [largestPassing, if_pos hlt, if_pos hpass]
      exact Nat.le_trans (Nat.le_add_right ..) ih
  | case2 lo hi hlt mid hpass ih =>
      rw [largestPassing, if_pos hlt, if_neg hpass]
      exact ih
  | case3 lo hi hge =>
      have heq : largestPassing passes lo hi = lo := by rw [largestPassing, if_neg hge]
      exact Nat.le_of_eq heq.symm

/-- Ranges into which atoms are cut: none of them is empty, they follow one another, and every
    atom lies in one. -/
structure AtomRange.Tile (atoms : UInt32) (ranges : List AtomRange) : Prop where
  lo_lt_hi : ∀ r ∈ ranges, r.lo < r.hi
  hi_le : ∀ r ∈ ranges, r.hi ≤ atoms
  ascending : ranges.Pairwise (fun r r' => r.hi ≤ r'.lo)
  covers : ∀ a < atoms, ∃ r ∈ ranges, r.contains a = true

/-- As many ranges are cut as have a first atom. -/
theorem lt_rangeCount_iff {atoms size i : Nat} (h : 0 < size) :
    i < (atoms + size - 1) / size ↔ i * size < atoms := by
  rw [Nat.lt_iff_add_one_le, Nat.le_div_iff_mul_le h, Nat.add_mul]
  omega

/-- The bounds of the ranges are positions of atoms, and fit into words. -/
theorem mem_cutRanges_iff {atoms : UInt32} {size : Nat} (h : 0 < size) {r : AtomRange} :
    r ∈ cutRanges atoms.toNat size ↔ ∃ i, i * size < atoms.toNat ∧ r.lo.toNat = i * size ∧
      r.hi.toNat = min ((i + 1) * size) atoms.toNat := by
  have hatoms := atoms.toNat_lt
  have hword : ∀ n, n ≤ atoms.toNat → (UInt32.ofNat n).toNat = n := by
    intro n hn
    rw [UInt32.toNat_ofNat', Nat.mod_eq_of_lt (by omega)]
  rw [cutRanges, List.mem_map]
  constructor
  · rintro ⟨i, hi, rfl⟩
    have hlt := (lt_rangeCount_iff h).1 (List.mem_range.1 hi)
    exact ⟨i, hlt, hword _ (by omega), hword _ (Nat.min_le_right ..)⟩
  · rintro ⟨i, hlt, hlo, hhi⟩
    refine ⟨i, List.mem_range.2 ((lt_rangeCount_iff h).2 hlt), ?_⟩
    rw [← hlo, ← hhi, UInt32.ofNat_toNat, UInt32.ofNat_toNat]

/-- Ranges of one size tile the atoms. -/
theorem cutRanges_tile {atoms : UInt32} {size : Nat} (h : 0 < size) :
    AtomRange.Tile atoms (cutRanges atoms.toNat size) where
  lo_lt_hi := by
    intro r hr
    obtain ⟨i, hlt, hlo, hhi⟩ := (mem_cutRanges_iff h).1 hr
    rw [UInt32.lt_iff_toNat_lt, hlo, hhi, Nat.add_mul]
    omega
  hi_le := by
    intro r hr
    obtain ⟨i, hlt, hlo, hhi⟩ := (mem_cutRanges_iff h).1 hr
    rw [UInt32.le_iff_toNat_le, hhi]
    exact Nat.min_le_right ..
  ascending := by
    have hatoms := atoms.toNat_lt
    rw [cutRanges, List.pairwise_map]
    refine List.pairwise_lt_range.imp_of_mem ?_
    intro i j hi hj hij
    have hi := (lt_rangeCount_iff h).1 (List.mem_range.1 hi)
    have hj := (lt_rangeCount_iff h).1 (List.mem_range.1 hj)
    have hle : (i + 1) * size ≤ j * size := Nat.mul_le_mul_right size hij
    rw [UInt32.le_iff_toNat_le, UInt32.toNat_ofNat', UInt32.toNat_ofNat',
      Nat.mod_eq_of_lt (by omega), Nat.mod_eq_of_lt (by omega)]
    omega
  covers := by
    intro a ha
    have hdiv := Nat.div_add_mod a.toNat size
    have hmod := Nat.mod_lt a.toNat h
    rw [UInt32.lt_iff_toNat_lt] at ha
    rw [Nat.mul_comm] at hdiv
    -- the range of an atom is found by dividing its number by the size
    have hlt : a.toNat / size * size < atoms.toNat := by omega
    refine ⟨⟨UInt32.ofNat (a.toNat / size * size),
      UInt32.ofNat (min ((a.toNat / size + 1) * size) atoms.toNat)⟩, ?_, ?_⟩
    · exact List.mem_map.2 ⟨a.toNat / size, List.mem_range.2 ((lt_rangeCount_iff h).2 hlt), rfl⟩
    · have hatoms := atoms.toNat_lt
      rw [AtomRange.contains_iff, UInt32.toNat_ofNat', UInt32.toNat_ofNat',
        Nat.mod_eq_of_lt (by omega), Nat.mod_eq_of_lt (by omega), Nat.add_mul]
      omega

namespace AtomRange.Tile

variable {atoms : UInt32} {ranges : List AtomRange}

/-- Some atom makes for some range. -/
theorem one_le_length (h : Tile atoms ranges) (hpos : 0 < atoms.toNat) : 1 ≤ ranges.length := by
  obtain ⟨r, hr, -⟩ := h.covers 0 (by rw [UInt32.lt_iff_toNat_lt]; exact hpos)
  exact List.length_pos_of_mem hr

end AtomRange.Tile

/-! ## Cutting units -/

namespace GraphUnit

variable {u : GraphUnit} {budget : Cost} {atomsPerCore : Std.ExtTreeMap String UInt32}

/-- A slice has at least one atom. -/
theorem one_le_sliceSize {size : Nat} (h : u.sliceSize budget atomsPerCore = .ok size) :
    1 ≤ size := by
  unfold sliceSize at h
  split at h
  · exact absurd h (by simp)
  · rw [← Except.ok.inj h]
    exact le_largestPassing ..

/-- The ranges into which a unit is cut; none if a single atom does not fit the budget. -/
def ranges (u : GraphUnit) (budget : Cost) (atomsPerCore : Std.ExtTreeMap String UInt32) :
    List AtomRange :=
  match u.sliceSize budget atomsPerCore with
  | .ok size => cutRanges u.atoms.toNat size
  | .error _ => []

/-- The ranges of a unit that can be cut tile it. -/
theorem ranges_tile {size : Nat} (h : u.sliceSize budget atomsPerCore = .ok size) :
    AtomRange.Tile u.atoms (u.ranges budget atomsPerCore) := by
  rw [ranges, h]
  exact cutRanges_tile (one_le_sliceSize h)

end GraphUnit

/-- What a slice holds, its number apart. -/
def Slice.content (s : Slice) : UnitId × AtomRange × Cost := (s.unit, s.atoms, s.cost)

/-- What the slices of a unit hold. -/
def GraphUnit.contents (u : GraphUnit) (budget : Cost)
    (atomsPerCore : Std.ExtTreeMap String UInt32) (id : UnitId) :
    List (UnitId × AtomRange × Cost) :=
  (u.ranges budget atomsPerCore).map fun r => (id, r, u.model.cost r.size)

namespace PartitionedGraph

/-- The graph holds the slices of listed units. -/
structure Sliced (p : PartitionedGraph) (budget : Cost)
    (atomsPerCore : Std.ExtTreeMap String UInt32) (units : List (UnitId × GraphUnit)) :
    Prop where
  numbered : p.Numbered
  contents_eq : p.slices.toList.map Slice.content
    = units.flatMap fun e => e.2.contents budget atomsPerCore e.1
  sliceSize_ok : ∀ e ∈ units, ∃ size, e.2.sliceSize budget atomsPerCore = .ok size

variable {p : PartitionedGraph} {budget : Cost} {atomsPerCore : Std.ExtTreeMap String UInt32}

theorem sliced_empty : empty.Sliced budget atomsPerCore [] :=
  ⟨numbered_empty, rfl, by simp⟩

/-- Traffic does not change what the slices are. -/
theorem Sliced.of_slices_eq {p' : PartitionedGraph} {units : List (UnitId × GraphUnit)}
    (h : p.Sliced budget atomsPerCore units) (hnumbered : p'.Numbered)
    (hslices : p'.slices = p.slices) : p'.Sliced budget atomsPerCore units :=
  ⟨hnumbered, hslices ▸ h.contents_eq, h.sliceSize_ok⟩

/-- What the slices hold after those of one more unit were added. -/
theorem addUnit_spec (h : p.Numbered) (id : UnitId) (u : GraphUnit) (size : Nat) :
    (p.addUnit id u size).Numbered ∧
      (p.addUnit id u size).slices.toList.map Slice.content = p.slices.toList.map Slice.content
        ++ (cutRanges u.atoms.toNat size).map (fun r => (id, r, u.model.cost r.size)) ∧
      (p.addUnit id u size).connections = p.connections := by
  unfold addUnit
  generalize cutRanges u.atoms.toNat size = ranges
  induction ranges generalizing p with
  | nil => exact ⟨h, by simp, rfl⟩
  | cons r rest ih =>
      obtain ⟨hnumbered, hcontents, hconnections⟩ := ih (h.addSlice id r (u.model.cost r.size))
      refine ⟨hnumbered, ?_, hconnections⟩
      rw [List.foldl_cons, hcontents, toList_slices_addSlice, List.map_append, List.append_assoc]
      rfl

theorem Sliced.addUnit {units : List (UnitId × GraphUnit)} {id : UnitId} {u : GraphUnit}
    {size : Nat} (h : p.Sliced budget atomsPerCore units)
    (hsize : u.sliceSize budget atomsPerCore = .ok size) :
    (p.addUnit id u size).Sliced budget atomsPerCore (units ++ [(id, u)]) := by
  obtain ⟨hnumbered, hcontents, -⟩ := addUnit_spec h.numbered id u size
  refine ⟨hnumbered, ?_, ?_⟩
  · rw [hcontents, h.contents_eq, List.flatMap_append, List.flatMap_singleton]
    simp only [GraphUnit.contents, GraphUnit.ranges, hsize]
  · intro e he
    rcases List.mem_append.1 he with he | he
    · exact h.sliceSize_ok e he
    · rw [List.mem_singleton.1 he]
      exact ⟨size, hsize⟩

end PartitionedGraph

/-- The slices of all units, before any traffic is added. -/
def ApplicationGraph.sliced (g : ApplicationGraph) (budget : Cost)
    (atomsPerCore : Std.ExtTreeMap String UInt32) : Except PipelineError PartitionedGraph :=
  g.numberedUnits.foldlM
    (fun p (id, u) => do return p.addUnit id u (← u.sliceSize budget atomsPerCore))
    PartitionedGraph.empty

/-- Slicing goes through all units, and adds no traffic. -/
theorem ApplicationGraph.sliced_eq_ok {g : ApplicationGraph} {budget : Cost}
    {atomsPerCore : Std.ExtTreeMap String UInt32} {p : PartitionedGraph}
    (h : g.sliced budget atomsPerCore = .ok p) :
    p.Sliced budget atomsPerCore g.numberedUnits ∧ p.connections = #[] := by
  refine foldlM_ok_induction
    (fun done p => p.Sliced budget atomsPerCore done ∧ p.connections = #[]) ?_ ?_ h
  · rintro done ⟨id, u⟩ p p' ⟨hp, hnone⟩ hstep
    obtain ⟨size, hsize, hstep⟩ := bind_eq_ok_iff.1 hstep
    obtain rfl := Except.ok.inj hstep
    obtain ⟨-, -, hconnections⟩ := PartitionedGraph.addUnit_spec hp.numbered id u size
    exact ⟨hp.addUnit hsize, hconnections.trans hnone⟩
  · exact ⟨PartitionedGraph.sliced_empty, rfl⟩

/-! ## Every atom lies in one slice -/

namespace PartitionedGraph

variable {p : PartitionedGraph} {budget : Cost} {atomsPerCore : Std.ExtTreeMap String UInt32}
  {units : List (UnitId × GraphUnit)}

/-- A slice of a unit holds an atom of the unit. -/
structure Holds (p : PartitionedGraph) (s : Slice) (id : UnitId) (a : UInt32) : Prop where
  mem_slices : s ∈ p.slices.toList
  unit_eq : s.unit = id
  contains : s.atoms.contains a = true

namespace Sliced

/-- A slice is a range of its unit. -/
theorem exists_unit (h : p.Sliced budget atomsPerCore units) {s : Slice}
    (hs : s ∈ p.slices.toList) :
    ∃ u, (s.unit, u) ∈ units ∧ s.atoms ∈ u.ranges budget atomsPerCore ∧
      s.cost = u.model.cost s.atoms.size := by
  have hcontent : s.content ∈ p.slices.toList.map Slice.content := List.mem_map_of_mem hs
  rw [h.contents_eq, List.mem_flatMap] at hcontent
  obtain ⟨⟨id, u⟩, he, hcontent⟩ := hcontent
  obtain ⟨r, hr, heq⟩ := List.mem_map.1 hcontent
  obtain ⟨rfl, heq⟩ := Prod.mk.inj heq
  obtain ⟨rfl, hcost⟩ := Prod.mk.inj heq
  exact ⟨u, he, hr, hcost.symm⟩

/-- Every range of a unit is a slice. -/
theorem exists_slice (h : p.Sliced budget atomsPerCore units) {id : UnitId} {u : GraphUnit}
    (he : (id, u) ∈ units) {r : AtomRange} (hr : r ∈ u.ranges budget atomsPerCore) :
    ∃ s ∈ p.slices.toList, s.unit = id ∧ s.atoms = r := by
  have hcontent : (id, r, u.model.cost r.size) ∈ p.slices.toList.map Slice.content := by
    rw [h.contents_eq, List.mem_flatMap]
    exact ⟨(id, u), he, List.mem_map_of_mem hr⟩
  obtain ⟨s, hs, heq⟩ := List.mem_map.1 hcontent
  exact ⟨s, hs, congrArg (fun c => c.1) heq, congrArg (fun c => c.2.1) heq⟩

/-- No slice is empty. -/
theorem lo_lt_hi (h : p.Sliced budget atomsPerCore units) {s : Slice}
    (hs : s ∈ p.slices.toList) : s.atoms.lo < s.atoms.hi := by
  obtain ⟨u, he, hr, -⟩ := h.exists_unit hs
  obtain ⟨size, hsize⟩ := h.sliceSize_ok _ he
  exact (GraphUnit.ranges_tile hsize).lo_lt_hi _ hr

/-- The slices of one unit follow one another. -/
theorem ascending (h : p.Sliced budget atomsPerCore units)
    (hids : units.Pairwise (fun a b => a.1 ≠ b.1)) :
    p.slices.toList.Pairwise (fun s s' => s.unit = s'.unit → s.atoms.hi ≤ s'.atoms.lo) := by
  have hcontents : (p.slices.toList.map Slice.content).Pairwise
      (fun c c' => c.1 = c'.1 → c.2.1.hi ≤ c'.2.1.lo) := by
    rw [h.contents_eq, List.pairwise_flatMap]
    constructor
    · intro e he
      obtain ⟨size, hsize⟩ := h.sliceSize_ok e he
      rw [GraphUnit.contents, List.pairwise_map]
      refine (GraphUnit.ranges_tile hsize).ascending.imp ?_
      intro r r' hle _
      exact hle
    · refine hids.imp ?_
      intro e e' hne c hc c' hc' heq
      obtain ⟨r, -, rfl⟩ := List.mem_map.1 hc
      obtain ⟨r', -, rfl⟩ := List.mem_map.1 hc'
      exact absurd heq hne
  rwa [List.pairwise_map] at hcontents

/-- Every atom of a unit lies in a slice of the unit. -/
theorem exists_holds (h : p.Sliced budget atomsPerCore units) {id : UnitId} {u : GraphUnit}
    (he : (id, u) ∈ units) {a : UInt32} (ha : a < u.atoms) : ∃ s, p.Holds s id a := by
  obtain ⟨size, hsize⟩ := h.sliceSize_ok _ he
  obtain ⟨r, hr, hcontains⟩ := (GraphUnit.ranges_tile hsize).covers a ha
  obtain ⟨s, hs, hunit, rfl⟩ := h.exists_slice he hr
  exact ⟨s, hs, hunit, hcontains⟩

/-- No atom lies in two slices. -/
theorem eq_of_holds (h : p.Sliced budget atomsPerCore units)
    (hids : units.Pairwise (fun a b => a.1 ≠ b.1)) {s s' : Slice} {id : UnitId} {a : UInt32}
    (hs : p.Holds s id a) (hs' : p.Holds s' id a) : s = s' := by
  -- slices follow one another in one order or the other, which is symmetric
  have hsep := (h.ascending hids).imp
    (S := fun s s' => s.unit = s'.unit → s.atoms.hi ≤ s'.atoms.lo ∨ s'.atoms.hi ≤ s.atoms.lo)
    (fun hle hunit => Or.inl (hle hunit))
  have : Std.Symm (fun (s s' : Slice) =>
      s.unit = s'.unit → s.atoms.hi ≤ s'.atoms.lo ∨ s'.atoms.hi ≤ s.atoms.lo) :=
    ⟨fun _ _ hle hunit => (hle hunit.symm).symm⟩
  by_contra hne
  have hin := AtomRange.contains_iff.1 hs.contains
  have hin' := AtomRange.contains_iff.1 hs'.contains
  have hle := hsep.forall hs.mem_slices hs'.mem_slices hne (hs.unit_eq.trans hs'.unit_eq.symm)
  rw [UInt32.le_iff_toNat_le, UInt32.le_iff_toNat_le] at hle
  omega

/-- There are no more units than slices. -/
theorem length_units_le (h : p.Sliced budget atomsPerCore units)
    (hpos : ∀ e ∈ units, 0 < e.2.atoms.toNat) : units.length ≤ p.slices.size := by
  have hlength : (p.slices.toList.map Slice.content).length = p.slices.size := by
    rw [List.length_map, Array.length_toList]
  rw [← hlength, h.contents_eq]
  refine length_le_length_flatMap ?_
  intro e he
  obtain ⟨size, hsize⟩ := h.sliceSize_ok e he
  rw [GraphUnit.contents, List.length_map]
  exact (GraphUnit.ranges_tile hsize).one_le_length (hpos e he)

end Sliced

end PartitionedGraph

end SpikeMesh
