import Mathlib.Order.Bounds.Basic
import SpikeMesh.Proofs.Mapping.Budget

set_option autoImplicit false

/-! # As few slices as possible

All slices of a unit but the last have one size, the largest that the ceilings and the budget allow.
The size is found by halving, which is right since costs grow with the number of atoms: whatever is
smaller than a size that fits, fits too. A unit that is cut into ranges of the largest size is cut
into as few as possible. -/

namespace SpikeMesh

/-! ## Ranges that follow one another -/

namespace AtomRange

/-- Ranges that lead from one atom to another: none of them is empty, and each begins where the one
    before ends. -/
inductive Chain : UInt32 → UInt32 → List AtomRange → Prop
  | nil (a : UInt32) : Chain a a []
  | cons {r : AtomRange} {rest : List AtomRange} {hi : UInt32} :
      r.lo < r.hi → Chain r.hi hi rest → Chain r.lo hi (r :: rest)

theorem toNat_size {r : AtomRange} (h : r.lo ≤ r.hi) : r.size.toNat = r.hi.toNat - r.lo.toNat :=
  UInt32.toNat_sub_of_le _ _ h

/-- Ranges of limited size need to be enough in number. -/
theorem Chain.le_add_mul {lo hi : UInt32} {ranges : List AtomRange} (h : Chain lo hi ranges)
    {size : Nat} (hsize : ∀ r ∈ ranges, r.size.toNat ≤ size) :
    hi.toNat ≤ lo.toNat + ranges.length * size := by
  induction h with
  | nil a => exact Nat.le_add_right ..
  | @cons r rest hi hlt _ ih =>
      rw [List.forall_mem_cons, toNat_size (UInt32.le_of_lt hlt)] at hsize
      have hrest := ih hsize.2
      have hfirst := hsize.1
      rw [List.length_cons, Nat.succ_mul]
      omega

end AtomRange

/-- The ranges of one size lead from the first atom to the last. -/
theorem cutRanges_chain {atoms : UInt32} {size : Nat} (h : 0 < size) :
    AtomRange.Chain 0 atoms (cutRanges atoms.toNat size) := by
  have hatoms := atoms.toNat_lt
  have hword : ∀ n, n ≤ atoms.toNat → (UInt32.ofNat n).toNat = n := by
    intro n hn
    rw [UInt32.toNat_ofNat', Nat.mod_eq_of_lt (by omega)]
  -- the last ranges, from any of them on
  have hfrom : ∀ count i, i + count = (atoms.toNat + size - 1) / size →
      AtomRange.Chain (UInt32.ofNat (min (i * size) atoms.toNat)) atoms
        ((List.range' i count).map fun i =>
          ⟨UInt32.ofNat (i * size), UInt32.ofNat (min ((i + 1) * size) atoms.toNat)⟩) := by
    intro count
    induction count with
    | zero =>
        intro i hi
        have hend : ¬ i * size < atoms.toNat := by
          rw [← lt_rangeCount_iff h]
          omega
        rw [Nat.min_eq_right (by omega), UInt32.ofNat_toNat]
        exact .nil atoms
    | succ count ih =>
        intro i hi
        have hlt : i * size < atoms.toNat := (lt_rangeCount_iff h).1 (by omega)
        have hfirst : UInt32.ofNat (i * size)
            < UInt32.ofNat (min ((i + 1) * size) atoms.toNat) := by
          rw [UInt32.lt_iff_toNat_lt, hword _ (Nat.le_of_lt hlt), hword _ (Nat.min_le_right ..),
            Nat.add_mul]
          omega
        rw [Nat.min_eq_left (Nat.le_of_lt hlt), List.range'_succ, List.map_cons]
        exact .cons (r := ⟨_, _⟩) hfirst (ih (i + 1) (by omega))
  have hall := hfrom _ 0 (Nat.zero_add _)
  rwa [Nat.zero_mul, Nat.zero_min, ← List.range_eq_range'] at hall

theorem size_le_of_mem_cutRanges {atoms : UInt32} {size : Nat} (h : 0 < size) {r : AtomRange}
    (hr : r ∈ cutRanges atoms.toNat size) : r.size.toNat ≤ size := by
  obtain ⟨i, hlt, hlo, hhi⟩ := (mem_cutRanges_iff h).1 hr
  have hle : r.lo ≤ r.hi := UInt32.le_of_lt ((cutRanges_tile h).lo_lt_hi r hr)
  rw [AtomRange.toNat_size hle, hlo, hhi, Nat.add_mul]
  omega

/-- All ranges but the last have the size. -/
theorem size_eq_of_mem_dropLast {atoms : UInt32} {size : Nat} (h : 0 < size) {r : AtomRange}
    (hr : r ∈ (cutRanges atoms.toNat size).dropLast) : r.size.toNat = size := by
  have hatoms := atoms.toNat_lt
  have hbefore : ∀ count, (List.range count).dropLast = List.range (count - 1) := by
    intro count
    cases count with
    | zero => rfl
    | succ count => rw [List.range_succ, List.dropLast_concat, Nat.add_sub_cancel]
  rw [cutRanges, ← List.map_dropLast, hbefore, List.mem_map] at hr
  obtain ⟨i, hi, rfl⟩ := hr
  have hi := List.mem_range.1 hi
  -- there is a range after this one
  have hnext : (i + 1) * size < atoms.toNat := (lt_rangeCount_iff h).1 (by omega)
  rw [Nat.add_mul, Nat.one_mul] at hnext
  rw [AtomRange.toNat_size, UInt32.toNat_ofNat', UInt32.toNat_ofNat', Nat.mod_eq_of_lt (by omega),
    Nat.mod_eq_of_lt (by omega), Nat.add_mul]
  · omega
  · rw [UInt32.le_iff_toNat_le, UInt32.toNat_ofNat', UInt32.toNat_ofNat',
      Nat.mod_eq_of_lt (by omega), Nat.mod_eq_of_lt (by omega), Nat.add_mul]
    omega

/-- No ranges of at most the size are fewer. -/
theorem length_cutRanges_le {atoms : UInt32} {size : Nat} (h : 0 < size) {ranges : List AtomRange}
    (hranges : AtomRange.Chain 0 atoms ranges) (hsize : ∀ r ∈ ranges, r.size.toNat ≤ size) :
    (cutRanges atoms.toNat size).length ≤ ranges.length := by
  have hcover : atoms.toNat ≤ (0 : UInt32).toNat + ranges.length * size :=
    hranges.le_add_mul hsize
  rw [UInt32.toNat_zero, Nat.zero_add] at hcover
  rw [cutRanges, List.length_map, List.length_range]
  by_contra hmore
  have hlt := (lt_rangeCount_iff h).1 (Nat.not_le.1 hmore)
  omega

/-! ## The largest size -/

/-- If whatever is less than a number that passes does, too, then no number that passes is above
    the one that is found. -/
theorem le_largestPassing_of_passes (passes : Nat → Bool) {lo hi n : Nat}
    (hdown : ∀ m n, m ≤ n → n ≤ hi → passes n = true → passes m = true) (hlo : lo ≤ n)
    (hhi : n ≤ hi) (hn : passes n = true) : n ≤ largestPassing passes lo hi := by
  induction lo, hi using largestPassing.induct passes with
  | case1 lo hi hlt mid hpass ih =>
      rw [largestPassing, if_pos hlt, if_pos hpass]
      by_cases hmid : mid ≤ n
      · exact ih hdown hmid hhi
      · exact Nat.le_trans (by omega) (le_largestPassing passes mid hi)
  | case2 lo hi hlt mid hpass ih =>
      rw [largestPassing, if_pos hlt, if_neg hpass]
      -- the middle does not pass, so nothing from there on does
      have hbelow : n < mid := by
        by_contra hmid
        exact hpass (hdown mid n (by omega) hhi hn)
      exact ih (fun m n hmn hnhi => hdown m n hmn (by omega)) hlo (by omega)
  | case3 lo hi hge =>
      rw [largestPassing, if_neg hge]
      omega

namespace GraphUnit

/-- The most atoms of a slice: no more than the unit has and than the ceilings of the unit and of
    its label say, but at least one. -/
def mostAtoms (u : GraphUnit) (atomsPerCore : Std.ExtTreeMap String UInt32) : Nat :=
  max 1 (min u.atoms.toNat (min (u.maxAtomsPerCore.getD u.atoms).toNat
    (atomsPerCore.getD u.label u.atoms).toNat))

/-- The sizes that slices of a unit may have. -/
def sizes (u : GraphUnit) (budget : Cost) (atomsPerCore : Std.ExtTreeMap String UInt32) : Set Nat :=
  { n | 1 ≤ n ∧ n ≤ u.mostAtoms atomsPerCore ∧ (u.model.cost (UInt32.ofNat n)).fits budget = true }

/-- A unit is cut into slices that follow one another, each at its cost and within the budget, as
    large as possible and as few as possible. -/
structure CutInto (u : GraphUnit) (budget : Cost) (atomsPerCore : Std.ExtTreeMap String UInt32)
    (slices : List Slice) : Prop where
  chain : AtomRange.Chain 0 u.atoms (slices.map Slice.atoms)
  cost_eq : ∀ s ∈ slices, s.cost = u.model.cost s.atoms.size
  cost_fits : ∀ s ∈ slices, s.cost.fits budget = true
  /-- All slices but the last have the largest size that there may be. -/
  size_eq : ∃ size, IsGreatest (u.sizes budget atomsPerCore) size ∧
    (∀ s ∈ slices.dropLast, s.atoms.size.toNat = size) ∧ ∀ s ∈ slices, s.atoms.size.toNat ≤ size
  /-- No other ranges that are allowed and fit the budget are fewer. -/
  fewest : ∀ ranges, AtomRange.Chain 0 u.atoms ranges →
    (∀ r ∈ ranges, r.size.toNat ≤ u.mostAtoms atomsPerCore ∧
      (u.model.cost r.size).fits budget = true) → slices.length ≤ ranges.length

variable {u : GraphUnit} {budget : Cost} {atomsPerCore : Std.ExtTreeMap String UInt32}

theorem ceiling_eq (u : GraphUnit) (atomsPerCore : Std.ExtTreeMap String UInt32) :
    u.ceiling atomsPerCore = u.mostAtoms atomsPerCore := by
  unfold ceiling mostAtoms
  rw [Std.ExtTreeMap.getD_eq_getD_getElem?]
  cases u.maxAtomsPerCore with
  | none =>
      cases atomsPerCore[u.label]? with
      | none => simp
      | some n => simp
  | some m =>
      cases atomsPerCore[u.label]? with
      | none => simp [Nat.min_comm]
      | some n => simp

/-- The size of the slices is the largest that there may be. -/
theorem isGreatest_sliceSize {size : Nat} (h : u.sliceSize budget atomsPerCore = .ok size) :
    IsGreatest (u.sizes budget atomsPerCore) size := by
  have hword : ∀ n, n ≤ u.mostAtoms atomsPerCore → n < UInt32.size := by
    intro n hn
    have hatoms := u.atoms.toNat_lt
    have hle := (u.ceiling_le atomsPerCore).2
    rw [ceiling_eq] at hle
    simp only [UInt32.size]
    omega
  have hpos := one_le_sliceSize h
  obtain ⟨-, hfits⟩ := sliceSize_spec h
  unfold sliceSize at h
  split at h
  · exact absurd h (by simp)
  · obtain rfl := Except.ok.inj h
    rw [ceiling_eq] at hpos hfits ⊢
    refine ⟨⟨hpos, largestPassing_le _ (Nat.le_max_left ..), hfits⟩, ?_⟩
    intro n hn
    obtain ⟨hone, hmost, hn⟩ := hn
    refine le_largestPassing_of_passes _ ?_ hone hmost hn
    -- fewer atoms cost no more
    intro a b hab hb hfits
    have hle : UInt32.ofNat a ≤ UInt32.ofNat b := by
      rw [UInt32.le_iff_toNat_le, UInt32.toNat_ofNat', UInt32.toNat_ofNat',
        Nat.mod_eq_of_lt (hword a (Nat.le_trans hab hb)), Nat.mod_eq_of_lt (hword b hb)]
      exact hab
    exact Cost.fits_trans (u.model.cost_fits hle) hfits

/-- **Cutting a unit.** The slices are as large and as few as possible. -/
theorem cutInto_of_contents {size : Nat} (h : u.sliceSize budget atomsPerCore = .ok size)
    {id : UnitId} {slices : List Slice}
    (hslices : slices.map Slice.content = u.contents budget atomsPerCore id) :
    u.CutInto budget atomsPerCore slices := by
  have hgreatest := isGreatest_sliceSize h
  have hpos := one_le_sliceSize h
  have hranges : u.ranges budget atomsPerCore = cutRanges u.atoms.toNat size := by
    rw [ranges, h]
  have hatoms : slices.map Slice.atoms = cutRanges u.atoms.toNat size := by
    have hsecond := congrArg (List.map fun c => c.2.1) hslices
    rw [contents, List.map_map, List.map_map, hranges] at hsecond
    exact hsecond.trans (List.map_id _)
  have hmem : ∀ s ∈ slices, s.atoms ∈ u.ranges budget atomsPerCore := by
    intro s hs
    rw [hranges, ← hatoms]
    exact List.mem_map_of_mem hs
  have hcost : ∀ s ∈ slices, s.cost = u.model.cost s.atoms.size := by
    intro s hs
    have hcontent : s.content ∈ slices.map Slice.content := List.mem_map_of_mem hs
    rw [hslices] at hcontent
    obtain ⟨r, -, heq⟩ := List.mem_map.1 hcontent
    obtain ⟨-, heq⟩ := Prod.mk.inj heq
    obtain ⟨rfl, hcost⟩ := Prod.mk.inj heq
    exact hcost.symm
  refine ⟨?_, hcost, ?_, ⟨size, hgreatest, ?_, ?_⟩, ?_⟩
  · rw [hatoms]
    exact cutRanges_chain hpos
  · intro s hs
    rw [hcost s hs]
    exact cost_fits_of_mem_ranges (hmem s hs)
  · intro s hs
    have hinner : s.atoms ∈ (cutRanges u.atoms.toNat size).dropLast := by
      rw [← hatoms, ← List.map_dropLast]
      exact List.mem_map_of_mem hs
    exact size_eq_of_mem_dropLast hpos hinner
  · intro s hs
    exact size_le_of_mem_cutRanges hpos (hranges ▸ hmem s hs)
  · intro others hothers hallowed
    have hlength : slices.length = (cutRanges u.atoms.toNat size).length := by
      rw [← hatoms, List.length_map]
    rw [hlength]
    refine length_cutRanges_le hpos hothers ?_
    intro r hr
    by_cases hempty : r.size.toNat = 0
    · omega
    · obtain ⟨hmost, hfits⟩ := hallowed r hr
      exact hgreatest.2 ⟨by omega, hmost, by rwa [UInt32.ofNat_toNat]⟩

end GraphUnit

end SpikeMesh
