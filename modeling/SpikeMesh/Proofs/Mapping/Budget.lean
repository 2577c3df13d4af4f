import Mathlib.Data.List.Perm.Subperm
import SpikeMesh.Proofs.Fabric.Edits
import SpikeMesh.Proofs.Mapping.Traffic

set_option autoImplicit false

/-! # Slices fit the budget

Costs grow with the number of atoms. The size of the slices of a unit is one that fits the budget,
so every slice fits it, also the last one, which may be smaller. -/

namespace SpikeMesh

/-! ## Costs that grow -/

namespace Amount

theorem add_le_add {a a' b b' : UInt64} (ha : a ≤ a') (hb : b ≤ b') : add a b ≤ add a' b' := by
  rw [UInt64.le_iff_toNat_le] at *
  rw [toNat_add, toNat_add]
  omega

theorem scale_le_scale (a : UInt64) {m n : Nat} (h : m ≤ n) : scale a m ≤ scale a n := by
  have hmul := Nat.mul_le_mul_left a.toNat h
  rw [UInt64.le_iff_toNat_le, toNat_scale, toNat_scale]
  omega

end Amount

namespace Cost

theorem fits_refl (a : Cost) : a.fits a = true :=
  fits_iff.2 ⟨UInt64.le_refl _, UInt64.le_refl _, UInt64.le_refl _⟩

theorem fits_trans {a b c : Cost} (hab : a.fits b = true) (hbc : b.fits c = true) :
    a.fits c = true := by
  rw [fits_iff] at *
  exact ⟨UInt64.le_trans hab.1 hbc.1, UInt64.le_trans hab.2.1 hbc.2.1,
    UInt64.le_trans hab.2.2 hbc.2.2⟩

theorem fits_add {a a' b b' : Cost} (ha : a.fits a' = true) (hb : b.fits b' = true) :
    (a + b).fits (a' + b') = true := by
  rw [fits_iff] at *
  exact ⟨Amount.add_le_add ha.1 hb.1, Amount.add_le_add ha.2.1 hb.2.1,
    Amount.add_le_add ha.2.2 hb.2.2⟩

theorem fits_scale (c : Cost) {m n : Nat} (h : m ≤ n) : (c.scale m).fits (c.scale n) = true :=
  fits_iff.2 ⟨Amount.scale_le_scale _ h, Amount.scale_le_scale _ h, Amount.scale_le_scale _ h⟩

theorem fits_sum_map {α : Type} {cost cost' : α → Cost}
    (h : ∀ a, (cost a).fits (cost' a) = true) (items : List α) :
    (sum (items.map cost)).fits (sum (items.map cost')) = true := by
  have hfold : ∀ (items : List α) (start start' : Cost), start.fits start' = true →
      ((items.map cost).foldl (· + ·) start).fits ((items.map cost').foldl (· + ·) start')
        = true := by
    intro items
    induction items with
    | nil => intro start start' hstart; exact hstart
    | cons a rest ih => intro start start' hstart; exact ih _ _ (fits_add hstart (h a))
  exact hfold items zero zero (fits_refl zero)

end Cost

theorem linearCost_fits (fixed perAtom : Cost) {m n : UInt32} (h : m ≤ n) :
    (linearCost fixed perAtom m).fits (linearCost fixed perAtom n) = true :=
  Cost.fits_add (Cost.fits_refl fixed) (Cost.fits_scale perAtom (UInt32.le_iff_toNat_le.1 h))

/-- More atoms cost no less. -/
theorem UnitModel.cost_fits (model : UnitModel) {m n : UInt32} (h : m ≤ n) :
    (model.cost m).fits (model.cost n) = true := by
  cases model with
  | linear model =>
      rw [cost, cost]
      exact linearCost_fits model.fixed model.perAtom h
  | composed model =>
      have hcomponent : ∀ b : ParameterBlock, (linearCost b.fixed b.perAtom m).fits
          (linearCost b.fixed b.perAtom n) = true :=
        fun b => linearCost_fits b.fixed b.perAtom h
      rw [cost, cost, ComposedModel.cost, ComposedModel.cost]
      exact Cost.fits_sum_map hcomponent model.components
  | stateless model reason =>
      rw [cost, cost]
      exact linearCost_fits model.fixed model.perAtom h
  | custom model => exact model.cost_fits m n h

/-! ## The size of slices -/

/-- The search ends at a size that passes, if it starts at one. -/
theorem passes_largestPassing (passes : Nat → Bool) {lo hi : Nat} (h : passes lo = true) :
    passes (largestPassing passes lo hi) = true := by
  induction lo, hi using largestPassing.induct passes with
  | case1 lo hi hlt mid hpass ih =>
      rw [largestPassing, if_pos hlt, if_pos hpass]
      exact ih hpass
  | case2 lo hi hlt mid hpass ih =>
      rw [largestPassing, if_pos hlt, if_neg hpass]
      exact ih h
  | case3 lo hi hge => rwa [largestPassing, if_neg hge]

/-- The search never goes above its end. -/
theorem largestPassing_le (passes : Nat → Bool) {lo hi : Nat} (h : lo ≤ hi) :
    largestPassing passes lo hi ≤ hi := by
  induction lo, hi using largestPassing.induct passes with
  | case1 lo hi hlt mid hpass ih =>
      rw [largestPassing, if_pos hlt, if_pos hpass]
      exact ih (by omega)
  | case2 lo hi hlt mid hpass ih =>
      rw [largestPassing, if_pos hlt, if_neg hpass]
      exact Nat.le_trans (ih (by omega)) (by omega)
  | case3 lo hi hge => rwa [largestPassing, if_neg hge]

namespace GraphUnit

variable {u : GraphUnit} {budget : Cost} {atomsPerCore : Std.ExtTreeMap String UInt32}

theorem ceiling_le (u : GraphUnit) (atomsPerCore : Std.ExtTreeMap String UInt32) :
    1 ≤ u.ceiling atomsPerCore ∧ u.ceiling atomsPerCore ≤ max 1 u.atoms.toNat := by
  have hfold : ∀ (bounds : List UInt32) (start : Nat),
      bounds.foldl (fun least n => min least n.toNat) start ≤ start := by
    intro bounds
    induction bounds with
    | nil => intro start; exact Nat.le_refl start
    | cons n rest ih => intro start; exact Nat.le_trans (ih _) (Nat.min_le_left ..)
  have hle := hfold (u.maxAtomsPerCore.toList ++ atomsPerCore[u.label]?.toList) u.atoms.toNat
  rw [ceiling]
  omega

/-- The atoms of one slice fit the budget, and their number fits into a word. -/
theorem sliceSize_spec {size : Nat} (h : u.sliceSize budget atomsPerCore = .ok size) :
    size < UInt32.size ∧ (u.model.cost (UInt32.ofNat size)).fits budget = true := by
  unfold sliceSize at h
  split at h
  · exact absurd h (by simp)
  · next hone =>
      obtain ⟨hpos, hle⟩ := u.ceiling_le atomsPerCore
      have hatoms := u.atoms.toNat_lt
      have hfits : (u.model.cost (UInt32.ofNat 1)).fits budget = true := by
        show ((u.model.cost 1).firstExcess? budget).isNone = true
        rw [hone]
        rfl
      rw [← Except.ok.inj h]
      refine ⟨?_, passes_largestPassing
        (fun n => (u.model.cost (UInt32.ofNat n)).fits budget) hfits⟩
      have hbound := largestPassing_le
        (fun n => (u.model.cost (UInt32.ofNat n)).fits budget) hpos
      simp only [UInt32.size]
      omega

/-- A range of a unit holds no more atoms than fit the budget. -/
theorem cost_fits_of_mem_ranges {r : AtomRange} (hr : r ∈ u.ranges budget atomsPerCore) :
    (u.model.cost r.size).fits budget = true := by
  unfold ranges at hr
  split at hr
  · next size hsize =>
      obtain ⟨hword, hfits⟩ := sliceSize_spec hsize
      obtain ⟨i, hlt, hlo, hhi⟩ := (mem_cutRanges_iff (one_le_sliceSize hsize)).1 hr
      refine Cost.fits_trans (u.model.cost_fits ?_) hfits
      have hle : r.lo ≤ r.hi := by
        rw [UInt32.le_iff_toNat_le, hlo, hhi, Nat.add_mul]
        omega
      rw [UInt32.le_iff_toNat_le, AtomRange.size, UInt32.toNat_sub_of_le _ _ hle, hlo, hhi,
        UInt32.toNat_ofNat', Nat.mod_eq_of_lt hword, Nat.add_mul]
      omega
  · exact absurd hr (by simp)

end GraphUnit

/-- Every slice fits the budget for which its unit was cut. -/
theorem PartitionedGraph.Sliced.cost_fits {p : PartitionedGraph} {budget : Cost}
    {atomsPerCore : Std.ExtTreeMap String UInt32} {units : List (UnitId × GraphUnit)}
    (h : p.Sliced budget atomsPerCore units) {s : Slice} (hs : s ∈ p.slices.toList) :
    s.cost.fits budget = true := by
  obtain ⟨u, -, hr, hcost⟩ := h.exists_unit hs
  rw [hcost]
  exact GraphUnit.cost_fits_of_mem_ranges hr

/-! ## The budget of a fabric -/

/-- A chip has no more cores than there are ids. -/
theorem Chip.Ascending.length_le {chip : Chip} (h : chip.Ascending) :
    chip.cores.length ≤ UInt32.size := by
  have hnodup : ((chip.cores.map Core.id).map UInt32.toNat).Nodup := by
    rw [List.Nodup, List.pairwise_map]
    exact h.imp fun hlt => Nat.ne_of_lt (UInt32.lt_iff_toNat_lt.1 hlt)
  have hsub : (chip.cores.map Core.id).map UInt32.toNat ⊆ List.range UInt32.size := by
    intro n hn
    obtain ⟨id, -, rfl⟩ := List.mem_map.1 hn
    exact List.mem_range.2 id.toNat_lt
  have hle := (List.subperm_of_subset hnodup hsub).length_le
  rwa [List.length_map, List.length_map, List.length_range] at hle

/-- Every core that a chip has for the application can take a cost, and all of them together can
    have its shared memory. -/
structure Chip.HoldsAll (chip : Chip) (cost : Cost) : Prop where
  core_fits : ∀ core ∈ chip.applicationCores,
    cost.cpuCycles ≤ core.cpuCycles ∧ cost.localMemory ≤ core.localMemory
  shared_le : chip.applicationCores.length * cost.sharedMemory.toNat ≤ chip.sharedMemory.toNat

namespace Fabric

variable {f : Fabric} {budget cost : Cost} {chip : Chip}

/-- No real chip has more cores for the application than a word counts. This holds of every fabric
    that its operations build. -/
def Counted (f : Fabric) : Prop :=
  ∀ chip ∈ f.realChips, chip.applicationCores.length < UInt64.size

theorem Coherent.counted (h : f.Coherent) : f.Counted := by
  intro chip hchip
  have hcores : chip.applicationCores.length ≤ chip.cores.length := List.length_filter_le _ _
  have hids := (h.ascending_of_mem_realChips hchip).length_le
  simp only [UInt32.size] at hids
  simp only [UInt64.size]
  omega

theorem fits_leastBudget_iff {a b : Cost} :
    cost.fits (leastBudget a b) = true ↔ cost.fits a = true ∧ cost.fits b = true := by
  have hmin : ∀ x y z : UInt64, x ≤ min y z ↔ x ≤ y ∧ x ≤ z := by
    intro x y z
    show x ≤ (if y ≤ z then y else z) ↔ x ≤ y ∧ x ≤ z
    simp only [UInt64.le_iff_toNat_le]
    split <;> omega
  simp only [Cost.fits_iff, leastBudget, hmin]
  constructor
  · rintro ⟨⟨hca, hcb⟩, ⟨hla, hlb⟩, hsa, hsb⟩
    exact ⟨⟨hca, hla, hsa⟩, hcb, hlb, hsb⟩
  · rintro ⟨⟨hca, hla, hsa⟩, hcb, hlb, hsb⟩
    exact ⟨⟨hca, hcb⟩, ⟨hla, hlb⟩, hsa, hsb⟩

theorem fits_foldl_leastBudget_iff (first : Cost) (rest : List Cost) :
    cost.fits (rest.foldl leastBudget first) = true ↔
      ∀ share ∈ first :: rest, cost.fits share = true := by
  induction rest generalizing first with
  | nil => simp
  | cons next rest ih => simp [ih, fits_leastBudget_iff, and_assoc]

/-- What fits the budget of a fabric fits the share of every core, and nothing else does. -/
theorem fits_partitionBudget?_iff_shares (h : f.partitionBudget? = some budget) :
    cost.fits budget = true ↔ ∀ share ∈ f.realChips.flatMap coreShares, cost.fits share = true := by
  unfold partitionBudget? at h
  split at h
  · exact absurd h (by simp)
  · next first rest hshares =>
      rw [← Option.some.inj h, fits_foldl_leastBudget_iff, hshares]

/-- A cost fits the share of every core of a chip if all cores can hold it at once. -/
theorem fits_coreShares_iff (h : chip.applicationCores.length < UInt64.size) :
    (∀ share ∈ coreShares chip, cost.fits share = true) ↔ chip.HoldsAll cost := by
  have hshare : 0 < chip.applicationCores.length →
      (cost.sharedMemory ≤ chip.sharedMemory / UInt64.ofNat chip.applicationCores.length ↔
        chip.applicationCores.length * cost.sharedMemory.toNat ≤ chip.sharedMemory.toNat) := by
    intro hpos
    rw [UInt64.le_iff_toNat_le, UInt64.toNat_div, UInt64.toNat_ofNat', Nat.mod_eq_of_lt h,
      Nat.le_div_iff_mul_le hpos, Nat.mul_comm]
  simp only [coreShares, List.forall_mem_map, Cost.fits_iff]
  constructor
  · intro hfits
    refine ⟨fun core hcore => ⟨(hfits core hcore).1, (hfits core hcore).2.1⟩, ?_⟩
    cases hcores : chip.applicationCores with
    | nil => simp
    | cons core rest =>
        have hcore : core ∈ chip.applicationCores := hcores ▸ List.mem_cons_self
        rw [← hcores]
        exact (hshare (List.length_pos_of_mem hcore)).1 (hfits core hcore).2.2
  · intro hall core hcore
    obtain ⟨hcycles, hlocal⟩ := hall.core_fits core hcore
    exact ⟨hcycles, hlocal, (hshare (List.length_pos_of_mem hcore)).2 hall.shared_le⟩

/-- What fits the budget of a fabric is what all cores of every real chip can hold at once. -/
theorem fits_partitionBudget?_iff (hf : f.Counted) (h : f.partitionBudget? = some budget) :
    cost.fits budget = true ↔ ∀ chip ∈ f.realChips, chip.HoldsAll cost := by
  rw [fits_partitionBudget?_iff_shares h]
  constructor
  · intro hfits chip hchip
    refine (fits_coreShares_iff (hf chip hchip)).1 fun share hshare => ?_
    exact hfits share (List.mem_flatMap.2 ⟨chip, hchip, hshare⟩)
  · intro hall share hshare
    obtain ⟨chip, hchip, hshare⟩ := List.mem_flatMap.1 hshare
    exact (fits_coreShares_iff (hf chip hchip)).2 (hall chip hchip) share hshare

/-- A fabric has no budget if no real chip has a core for the application. -/
theorem partitionBudget?_eq_none_iff :
    f.partitionBudget? = none ↔ ∀ chip ∈ f.realChips, chip.applicationCores = [] := by
  have hshares : f.realChips.flatMap coreShares = [] ↔
      ∀ chip ∈ f.realChips, chip.applicationCores = [] := by
    simp [List.flatMap_eq_nil_iff, coreShares]
  rw [← hshares, partitionBudget?]
  split <;> simp_all

end Fabric

end SpikeMesh
