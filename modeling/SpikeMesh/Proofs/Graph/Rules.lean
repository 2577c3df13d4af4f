import SpikeMesh.Graph.Rule
import SpikeMesh.Proofs.Collections

set_option autoImplicit false

/-! # Rules on ranges

A rule tells two ranges of atoms to be linked exactly if it links a pair of their atoms
(`Rule.mayConnect_iff`). Listed pairs are scanned in order, and those of a range of source atoms
stand next to each other. For random rows this holds for every sequence of gaps: a row searched
from a lower bound gives a target that is no higher, and a target that was found is found again
from every bound up to it. -/

namespace SpikeMesh

/-! ## Atoms of ranges -/

namespace AtomRange

theorem contains_iff {r : AtomRange} {a : UInt32} :
    r.contains a = true ↔ r.lo.toNat ≤ a.toNat ∧ a.toNat < r.hi.toNat := by
  simp [contains, UInt32.le_iff_toNat_le, UInt32.lt_iff_toNat_lt]

/-- The listed atoms of a range are those that it contains. -/
theorem mem_atoms_iff {r : AtomRange} {a : UInt32} : a ∈ r.atoms ↔ r.contains a = true := by
  rw [contains_iff, atoms, List.mem_map]
  constructor
  · rintro ⟨n, hn, rfl⟩
    rw [List.mem_range'_1] at hn
    have := r.hi.toNat_lt
    rw [UInt32.toNat_ofNat', Nat.mod_eq_of_lt (by omega)]
    omega
  · rintro ⟨hlo, hhi⟩
    exact ⟨a.toNat, List.mem_range'_1.2 ⟨hlo, by omega⟩, by simp⟩

/-- Some atom of a range has a property if the search finds one. -/
theorem any_iff {r : AtomRange} {p : UInt32 → Bool} :
    r.any p = true ↔ ∃ a, r.contains a = true ∧ p a = true := by
  rw [any_eq_atoms_any, List.any_eq_true]
  simp only [mem_atoms_iff]

/-- A range whose bounds are in order is empty only if it contains no atom. -/
theorem isEmpty_eq_false_iff {r : AtomRange} (h : r.lo ≤ r.hi) :
    r.isEmpty = false ↔ ∃ a, r.contains a = true := by
  rw [UInt32.le_iff_toNat_le] at h
  rw [isEmpty, beq_eq_false_iff_ne, ne_eq, ← UInt32.toNat_inj]
  constructor
  · intro hne
    exact ⟨r.lo, contains_iff.2 ⟨Nat.le_refl _, by omega⟩⟩
  · rintro ⟨a, ha⟩
    have := contains_iff.1 ha
    omega

theorem isEmpty_or_isEmpty_eq_false_iff {r r' : AtomRange} (h : r.lo ≤ r.hi) (h' : r'.lo ≤ r'.hi) :
    (r.isEmpty || r'.isEmpty) = false ↔
      (∃ a, r.contains a = true) ∧ ∃ b, r'.contains b = true := by
  rw [Bool.or_eq_false_iff, isEmpty_eq_false_iff h, isEmpty_eq_false_iff h']

/-- Two ranges intersect if they have an atom in common. -/
theorem intersect?_isSome_iff {a b : AtomRange} :
    (a.intersect? b).isSome = true ↔ ∃ x, a.contains x = true ∧ b.contains x = true := by
  simp only [intersect?, contains_iff]
  have hmax : (max a.lo b.lo).toNat = max a.lo.toNat b.lo.toNat := by
    show (if a.lo ≤ b.lo then b.lo else a.lo).toNat = _
    split
    · next h => rw [UInt32.le_iff_toNat_le] at h; omega
    · next h => rw [UInt32.le_iff_toNat_le] at h; omega
  have hmin : (min a.hi b.hi).toNat = min a.hi.toNat b.hi.toNat := by
    show (if a.hi ≤ b.hi then a.hi else b.hi).toNat = _
    split
    · next h => rw [UInt32.le_iff_toNat_le] at h; omega
    · next h => rw [UInt32.le_iff_toNat_le] at h; omega
  split
  · next h =>
      rw [UInt32.lt_iff_toNat_lt, hmax, hmin] at h
      simp only [Option.isSome_some, true_iff]
      exact ⟨max a.lo b.lo, by omega, by omega⟩
  · next h =>
      rw [UInt32.lt_iff_toNat_lt, hmax, hmin] at h
      simp only [Option.isSome_none, Bool.false_eq_true, false_iff]
      rintro ⟨x, ha, hb⟩
      omega

end AtomRange

/-! ## Listed pairs -/

namespace AtomPair

/-- The pairs below a bound come before the others. -/
theorem pairwise_toList_below (linked : Std.ExtTreeSet AtomPair) (bound : AtomPair) :
    linked.toList.Pairwise fun p q =>
      (compare q bound).isLT = true → (compare p bound).isLT = true := by
  refine Std.ExtTreeSet.ordered_toList.imp ?_
  intro p q hpq hq
  rw [Ordering.isLT_iff_eq_lt] at hq ⊢
  exact Std.TransCmp.lt_trans hpq hq

theorem mem_between_iff {linked : Std.ExtTreeSet AtomPair} {first last p : AtomPair} :
    p ∈ between linked first last ↔
      p ∈ linked ∧ (compare p first).isLT = false ∧ (compare p last).isLT = true := by
  have hrest := (pairwise_toList_below linked last).sublist
    (List.dropWhile_sublist fun p => (compare p first).isLT)
  rw [between, mem_takeWhile_iff hrest,
    mem_dropWhile_iff (pairwise_toList_below linked first), Std.ExtTreeSet.mem_toList, and_assoc]

/-- No pair comes before the first pair of its source atom. -/
theorem isLT_compare_iff {p : AtomPair} {a : UInt32} :
    (compare p ⟨a, 0⟩).isLT = true ↔ p.pre < a := by
  have h : compare p ⟨a, 0⟩ = (compare p.pre a).then (compare p.post 0) := rfl
  rw [h, Ordering.isLT_iff_eq_lt, Ordering.then_eq_lt]
  have hpost : compare p.post 0 ≠ .lt := by
    rw [ne_eq, Std.compare_eq_lt]
    exact UInt32.not_lt_zero
  simp only [hpost, and_false, or_false, Std.compare_eq_lt]

/-- A scan from the first pair of the first atom of a range to the first pair of the atom after
    the last meets the pairs of all atoms of the range, and no others. -/
theorem mem_between_bounds_iff {linked : Std.ExtTreeSet AtomPair} {r : AtomRange} {p : AtomPair} :
    p ∈ between linked ⟨r.lo, 0⟩ ⟨r.hi, 0⟩ ↔ p ∈ linked ∧ r.contains p.pre = true := by
  rw [mem_between_iff, ← Bool.not_eq_true, isLT_compare_iff, isLT_compare_iff,
    AtomRange.contains_iff, UInt32.not_lt, UInt32.le_iff_toNat_le, UInt32.lt_iff_toNat_lt]

end AtomPair

/-! ## Searching a row -/

namespace FixedProbability

variable {σ : Type} {draw : σ → Nat × σ}

/-- One gap of a row is drawn; the target above it ends the search, or the search goes on. -/
theorem firstTarget?_step (draw : σ → Nat × σ) (bound : Nat) (state : σ) (next : Nat) :
    firstTarget? draw bound state next =
      if UInt32.size ≤ next + (draw state).1 then none
      else if bound ≤ next + (draw state).1 then some (next + (draw state).1)
      else firstTarget? draw bound (draw state).2 (next + (draw state).1 + 1) := by
  rw [firstTarget?]

/-- A target is at or above the bound, and an atom. -/
theorem firstTarget?_bounds {bound next target : Nat} {state : σ}
    (h : firstTarget? draw bound state next = some target) :
    bound ≤ target ∧ target < UInt32.size := by
  induction state, next using firstTarget?.induct draw bound with
  | case1 state next gap rest hdraw t hsize =>
      rw [firstTarget?_step, hdraw, if_pos hsize] at h
      exact absurd h (by simp)
  | case2 state next gap rest hdraw t hsize hbound =>
      rw [firstTarget?_step, hdraw, if_neg hsize, if_pos hbound, Option.some.injEq] at h
      omega
  | case3 state next gap rest hdraw t hsize hbound ih =>
      rw [firstTarget?_step, hdraw, if_neg hsize, if_neg hbound] at h
      exact ih h

/-- From a lower bound a target is found that is no higher. -/
theorem firstTarget?_of_le {bound bound' next target : Nat} {state : σ} (hle : bound' ≤ bound)
    (h : firstTarget? draw bound state next = some target) :
    ∃ t, firstTarget? draw bound' state next = some t ∧ t ≤ target := by
  have hbounds := firstTarget?_bounds h
  induction state, next using firstTarget?.induct draw bound with
  | case1 state next gap rest hdraw t hsize =>
      rw [firstTarget?_step, hdraw, if_pos hsize] at h
      exact absurd h (by simp)
  | case2 state next gap rest hdraw t hsize hbound =>
      rw [firstTarget?_step, hdraw, if_neg hsize, if_pos hbound, Option.some.injEq] at h
      refine ⟨next + gap, ?_, Nat.le_of_eq h⟩
      rw [firstTarget?_step, hdraw, if_neg hsize, if_pos (Nat.le_trans hle hbound)]
  | case3 state next gap rest hdraw t hsize hbound ih =>
      rw [firstTarget?_step, hdraw, if_neg hsize, if_neg hbound] at h
      rw [firstTarget?_step, hdraw, if_neg hsize]
      -- the search for the lower bound may end here already
      by_cases ht : bound' ≤ next + gap
      · rw [if_pos ht]
        exact ⟨next + gap, rfl, by omega⟩
      · rw [if_neg ht]
        exact ih h

/-- A target is found again from every bound between the first one and the target. -/
theorem firstTarget?_again {bound bound' next target : Nat} {state : σ}
    (h : firstTarget? draw bound state next = some target) (hle : bound ≤ bound')
    (hle' : bound' ≤ target) : firstTarget? draw bound' state next = some target := by
  induction state, next using firstTarget?.induct draw bound with
  | case1 state next gap rest hdraw t hsize =>
      rw [firstTarget?_step, hdraw, if_pos hsize] at h
      exact absurd h (by simp)
  | case2 state next gap rest hdraw t hsize hbound =>
      -- the same gaps are drawn, and the target at which they end is above both bounds
      rw [firstTarget?_step, hdraw, if_neg hsize, if_pos hbound, Option.some.injEq] at h
      rw [firstTarget?_step, hdraw, if_neg hsize,
        if_pos (show bound' ≤ next + gap by rw [h]; exact hle'), h]
  | case3 state next gap rest hdraw t hsize hbound ih =>
      rw [firstTarget?_step, hdraw, if_neg hsize, if_neg hbound] at h
      rw [firstTarget?_step, hdraw, if_neg hsize,
        if_neg (show ¬ bound' ≤ next + gap by omega)]
      exact ih h

/-- A row has a target in a range exactly if some atom of the range is found from itself. -/
theorem exists_firstTarget?_lt_iff (draw : σ → Nat × σ) (state : σ) (post : AtomRange) :
    (∃ t, firstTarget? draw post.lo.toNat state 0 = some t ∧ t < post.hi.toNat) ↔
      ∃ b, post.contains b = true ∧ firstTarget? draw b.toNat state 0 = some b.toNat := by
  constructor
  · rintro ⟨b, hb, hlt⟩
    have hbounds := firstTarget?_bounds hb
    have hnat : (UInt32.ofNat b).toNat = b := by
      rw [UInt32.toNat_ofNat', Nat.mod_eq_of_lt hbounds.2]
    refine ⟨UInt32.ofNat b, ?_, ?_⟩
    · rw [AtomRange.contains_iff, hnat]
      exact ⟨hbounds.1, hlt⟩
    · rw [hnat]
      exact firstTarget?_again hb hbounds.1 (Nat.le_refl b)
  · rintro ⟨b, hb, htarget⟩
    rw [AtomRange.contains_iff] at hb
    obtain ⟨t, ht, hle⟩ := firstTarget?_of_le hb.1 htarget
    exact ⟨t, ht, by omega⟩

/-! ## Random rules -/

/-- Whether two atoms are linked if the rows are drawn from some generator, which starts in a state
    of its own for each source atom. -/
def connectsBy (rule : FixedProbability) (draw : σ → Nat × σ) (start : UInt32 → σ)
    (pre post : UInt32) : Bool :=
  if rule.probability ≤ 0.0 then false
  else if 1.0 ≤ rule.probability then true
  else firstTarget? draw post.toNat (start pre) 0 == some post.toNat

/-- Whether two ranges are told to be linked if the rows are drawn from some generator. -/
def mayConnectBy (rule : FixedProbability) (draw : σ → Nat × σ) (start : UInt32 → σ)
    (pre post : AtomRange) : Bool :=
  if pre.isEmpty || post.isEmpty || rule.probability ≤ 0.0 then false
  else if 1.0 ≤ rule.probability then true
  else pre.any fun a =>
    match firstTarget? draw post.lo.toNat (start a) 0 with
    | some b => b < post.hi.toNat
    | none => false

/-- The row of an atom reaches into a range that is not empty. The search from the start of the
    range need not stop at every atom of it, but it stops at one if any other search does. -/
theorem mayConnectBy_iff (rule : FixedProbability) (draw : σ → Nat × σ) (start : UInt32 → σ)
    {pre post : AtomRange} (hpre : pre.lo ≤ pre.hi) (hpost : post.lo ≤ post.hi) :
    rule.mayConnectBy draw start pre post = true ↔ ∃ a b, pre.contains a = true ∧
      post.contains b = true ∧ rule.connectsBy draw start a b = true := by
  have hboth := AtomRange.isEmpty_or_isEmpty_eq_false_iff hpre hpost
  simp only [mayConnectBy, connectsBy]
  by_cases hzero : rule.probability ≤ 0.0
  · simp [hzero]
  by_cases hempty : (pre.isEmpty || post.isEmpty) = true
  · rw [if_pos (by simp [hempty])]
    refine ⟨fun h => absurd h (by simp), ?_⟩
    rintro ⟨a, b, ha, hb, -⟩
    have hfilled := hboth.2 ⟨⟨a, ha⟩, b, hb⟩
    exact absurd hempty (by simp [hfilled])
  rw [if_neg (by simp [hempty, hzero])]
  simp only [if_neg hzero]
  by_cases hone : 1.0 ≤ rule.probability
  · simp only [if_pos hone]
    obtain ⟨⟨a, ha⟩, b, hb⟩ := hboth.1 (by simpa using hempty)
    exact ⟨fun _ => ⟨a, b, ha, hb, trivial⟩, fun _ => trivial⟩
  simp only [if_neg hone]
  constructor
  · intro h
    obtain ⟨a, ha, hrow⟩ := AtomRange.any_iff.1 h
    cases htarget : firstTarget? draw post.lo.toNat (start a) 0 with
    | none =>
        rw [htarget] at hrow
        exact absurd hrow (by simp)
    | some t =>
        rw [htarget] at hrow
        obtain ⟨b, hb, hfound⟩ := (exists_firstTarget?_lt_iff draw (start a) post).1
          ⟨t, htarget, of_decide_eq_true hrow⟩
        exact ⟨a, b, ha, hb, beq_iff_eq.2 hfound⟩
  · rintro ⟨a, b, ha, hb, hfound⟩
    obtain ⟨t, htarget, hlt⟩ :=
      (exists_firstTarget?_lt_iff draw (start a) post).2 ⟨b, hb, beq_iff_eq.1 hfound⟩
    refine AtomRange.any_iff.2 ⟨a, ha, ?_⟩
    rw [htarget]
    exact decide_eq_true hlt

end FixedProbability

/-! ## Rules -/

namespace Rule

/-- Random rules draw their rows from the stream of the source atom. -/
theorem connects_fixedProbability (r : FixedProbability) :
    (fixedProbability r).connects =
      r.connectsBy (FixedProbability.drawGap (Float.log (1.0 - r.probability))) r.stream := rfl

theorem mayConnect_fixedProbability (r : FixedProbability) :
    (fixedProbability r).mayConnect =
      r.mayConnectBy (FixedProbability.drawGap (Float.log (1.0 - r.probability))) r.stream := rfl

/-- **Ranges are told to be linked exactly if some of their atoms are.** -/
theorem mayConnect_iff (rule : Rule) {pre post : AtomRange} (hpre : pre.lo ≤ pre.hi)
    (hpost : post.lo ≤ post.hi) :
    rule.mayConnect pre post = true ↔ ∃ a b, pre.contains a = true ∧ post.contains b = true ∧
      rule.connects a b = true := by
  cases rule with
  | allToAll =>
      simp only [mayConnect, connects, Bool.and_eq_true, Bool.not_eq_true',
        AtomRange.isEmpty_eq_false_iff hpre, AtomRange.isEmpty_eq_false_iff hpost]
      constructor
      · rintro ⟨⟨a, ha⟩, b, hb⟩
        exact ⟨a, b, ha, hb, trivial⟩
      · rintro ⟨a, b, ha, hb, -⟩
        exact ⟨⟨a, ha⟩, b, hb⟩
  | oneToOne =>
      simp only [mayConnect, connects, AtomRange.intersect?_isSome_iff, beq_iff_eq]
      constructor
      · rintro ⟨x, ha, hb⟩
        exact ⟨x, x, ha, hb, rfl⟩
      · rintro ⟨a, b, ha, hb, rfl⟩
        exact ⟨a, ha, hb⟩
  | pairs linked =>
      simp only [mayConnect, connects, List.any_eq_true, AtomPair.mem_between_bounds_iff,
        Std.ExtTreeSet.contains_iff_mem]
      constructor
      · rintro ⟨p, ⟨hp, ha⟩, hb⟩
        exact ⟨p.pre, p.post, ha, hb, hp⟩
      · rintro ⟨a, b, ha, hb, hp⟩
        exact ⟨⟨a, b⟩, ⟨hp, ha⟩, hb⟩
  | fixedProbability r =>
      rw [mayConnect_fixedProbability, connects_fixedProbability]
      exact r.mayConnectBy_iff _ r.stream hpre hpost
  | predicate linked =>
      simp only [mayConnect, connects, AtomRange.any_iff]
      constructor
      · rintro ⟨a, ha, b, hb, hab⟩
        exact ⟨a, b, ha, hb, hab⟩
      · rintro ⟨a, b, ha, hb, hab⟩
        exact ⟨a, ha, b, hb, hab⟩

end Rule

end SpikeMesh
