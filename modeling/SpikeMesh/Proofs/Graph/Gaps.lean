import SpikeMesh.Proofs.Decimal.Arithmetic
import SpikeMesh.Proofs.Graph.Rules

set_option autoImplicit false

/-! # The gaps of random rows

The gaps of a row are quotients of two logarithms: of one minus a uniform draw, and of one minus the
probability. One minus a probability of `2 ^ -54` or less is one as a double, so its logarithm is
zero and no quotient is a number. What is not a number is cut to the gap 0, and so every pair of
atoms is linked where nearly none should be. For all other probabilities between zero and one, the
divisor is negative and the quotients are finite and not negative
(`FixedProbability.gaps_of_probability`). -/

namespace SpikeMesh

open Decimal

namespace FixedProbability

variable {log : Float → Float} {rule : FixedProbability} {x p u : Float} {v r : ℚ} {seed : UInt64}

/-! ## Logarithms and gaps -/

/-- What the gaps rely on of a natural logarithm of doubles: the logarithm of one is zero, and below
    one it keeps to the bounds `1 - 1 / v ≤ ln v ≤ v - 1`, each up to a factor of two. -/
structure IsLogarithm (log : Float → Float) : Prop where
  one : log 1.0 = 0.0
  below_one {x : Float} {v : ℚ} : Denotes x v → 0 < v → v < 1 →
    ∃ w, Denotes (log x) w ∧ 2 * (1 - 1 / v) ≤ w ∧ w ≤ (v - 1) / 2

/-- The quotient that is cut to a gap, from a uniform draw. -/
def gapRatio (log : Float → Float) (p u : Float) : Float := log (1.0 - u) / log (1.0 - p)

/-- The next gap of a row, by some logarithm. -/
def drawGapBy (log : Float → Float) (p : Float) (s : Random.Stream) : Nat × Random.Stream :=
  ((toWord64 (gapRatio log p s.nextUnit.1)).toNat, s.nextUnit.2)

/-- Rows are drawn by the logarithm of the library. -/
theorem connects_eq_connectsBy (rule : FixedProbability) :
    (Rule.fixedProbability rule).connects
      = rule.connectsBy (drawGapBy Float.log rule.probability) rule.stream := rfl

/-! ## Draws -/

theorem toNat_shiftRight_lt (w : UInt64) : (w >>> 11).toNat < 2 ^ 53 := by
  rw [UInt64.toNat_shiftRight, Nat.shiftRight_eq_div_pow]
  exact Nat.div_lt_of_lt_mul w.toNat_lt

theorem mul_two_zpow_lt_one {n : Nat} (h : n < 2 ^ 53) : (n : ℚ) * 2 ^ (-53 : Int) < 1 := by
  have hn : (n : ℚ) < 2 ^ 53 := by exact_mod_cast h
  calc (n : ℚ) * 2 ^ (-53 : Int) < 2 ^ 53 * 2 ^ (-53 : Int) :=
        mul_lt_mul_of_pos_right hn (two_zpow_pos _)
    _ = 1 := by norm_num

/-- A draw is the upper 53 bits of a word, as a multiple of `2 ^ -53`. -/
theorem denotes_nextUnit (s : Random.Stream) :
    Denotes s.nextUnit.1 ((s.nextWord64.1 >>> 11).toNat * 2 ^ (-53 : Int)) := by
  have hbits := toNat_shiftRight_lt s.nextWord64.1
  have hdecode : Binary64.ofFloat (Float.ofBits 0x3CA0000000000000)
      = .finite false (2 ^ 52) (-105) := by decide +kernel
  have hunit : Denotes (Float.ofBits 0x3CA0000000000000) (2 ^ (-53 : Int)) := by
    rw [Denotes, hdecode]
    norm_num [Binary64.value?, signed]
  have hlt := mul_two_zpow_lt_one hbits
  obtain ⟨r, hr, hround⟩ := exists_denotes_mul (denotes_toFloat hbits) hunit (Nat.cast_nonneg _)
    (two_zpow_pos _).le (hlt.trans one_lt_largeBound)
  rw [hround.eq_of_fits hbits (by decide)] at hr
  exact hr

/-- A draw is a number of the unit interval. -/
theorem exists_denotes_nextUnit (s : Random.Stream) :
    ∃ r, Denotes s.nextUnit.1 r ∧ 0 ≤ r ∧ r < 1 :=
  ⟨_, denotes_nextUnit s, mul_nonneg (Nat.cast_nonneg _) (two_zpow_pos _).le,
    mul_two_zpow_lt_one (toNat_shiftRight_lt _)⟩

/-! ## Dividends and divisors -/

/-- The logarithm of one minus a double of the unit interval. It is negative if the double is above
    half a step, and otherwise zero. -/
theorem exists_denotes_log_one_sub (hlog : IsLogarithm log) (h : Denotes x v) (hv : 0 ≤ v)
    (hv' : v < 1) : ∃ d, Denotes (log (1.0 - x)) d ∧ -2 ^ 55 ≤ d ∧ d ≤ 0 ∧
      (halfStep < v → d ≤ -halfStep) := by
  obtain ⟨w, hw, hlower, -, hless⟩ := exists_denotes_one_sub h hv hv'
  have hstep := halfStep_pos
  rcases le_or_gt v halfStep with hle | hgt
  · refine ⟨0, ?_, by norm_num, le_refl 0, fun hlt => absurd hle (not_le.2 hlt)⟩
    rw [one_sub_eq_one h hv hle, hlog.one]
    exact denotes_zero
  · have hw' := hless hgt
    have hpos : 0 < w := hstep.trans_le hlower
    have hinv : 1 / w ≤ 2 ^ 54 := by
      rw [one_div_le hpos (by norm_num)]
      exact hlower
    obtain ⟨d, hd, hd', hd''⟩ := hlog.below_one hw hpos (by linarith)
    exact ⟨d, hd, by linarith, by linarith, fun _ => by linarith⟩

/-- A probability above half a step gives quotients that are finite and not negative. -/
theorem exists_denotes_gapRatio (hlog : IsLogarithm log) (hp : Denotes p v) (hv : halfStep < v)
    (hv' : v < 1) (hu : Denotes u r) (hr : 0 ≤ r) (hr' : r < 1) :
    ∃ q, Denotes (gapRatio log p u) q ∧ 0 ≤ q := by
  have hstep := halfStep_pos
  obtain ⟨a, ha, ha', ha'', -⟩ := exists_denotes_log_one_sub hlog hu hr hr'
  obtain ⟨d, hd, -, -, hd'⟩ := exists_denotes_log_one_sub hlog hp (hstep.le.trans hv.le) hv'
  have hd' := hd' hv
  have hneg : d < 0 := by linarith
  have hbound : a / d < largeBound := by
    refine lt_largeBound (k := 110) ?_ (by decide)
    calc a / d = -a / -d := (neg_div_neg_eq a d).symm
      _ ≤ 2 ^ 55 / halfStep := div_le_div₀ (by norm_num) (by linarith) hstep (by linarith)
      _ < 2 ^ 110 := by norm_num [halfStep]
  obtain ⟨q, hq, hround⟩ := exists_denotes_div ha hd ha'' hneg hbound
  exact ⟨q, hq, hround.nonneg⟩

/-- Divided by zero, what is not positive gives no finite number, and is cut to zero. -/
theorem div_zero_of_nonpos (h : Denotes x v) (hv : v ≤ 0) :
    (¬ ∃ q, Denotes (x / 0.0) q) ∧ toWord64 (x / 0.0) = 0 := by
  have hnan : Binary64.ofFloat ⟨.pack .notANumber⟩ = .notANumber := by decide +kernel
  have hinfinite : Binary64.ofFloat ⟨.pack (.infinity .negative)⟩ = .infinite true := by
    decide +kernel
  have hdecode : Binary64.ofFloat (x / 0.0) = .notANumber ∨
      Binary64.ofFloat (x / 0.0) = .infinite true := by
    have hdiv : x / 0.0 = ⟨.pack (.div .binary64 x.toModel.unpack (.zero .positive))⟩ := rfl
    rw [hdiv]
    rcases hv.eq_or_lt with rfl | hneg
    · obtain ⟨s, hunpack⟩ := h.unpack_of_zero
      rw [hunpack]
      exact .inl hnan
    · obtain ⟨m, e, hm, hunpack, -, -⟩ := h.unpack_of_neg hneg
      rw [hunpack]
      exact .inr hinfinite
  rw [toWord64]
  rcases hdecode with hdecode | hdecode
  · simp [Denotes, hdecode, Binary64.value?]
  · simp [Denotes, hdecode, Binary64.value?]

/-- A probability of half a step or less gives quotients that are no numbers, and gaps of zero. -/
theorem gapRatio_of_le (hlog : IsLogarithm log) (hp : Denotes p v) (hv : 0 ≤ v) (hv' : v ≤ halfStep)
    (hu : Denotes u r) (hr : 0 ≤ r) (hr' : r < 1) :
    (¬ ∃ q, Denotes (gapRatio log p u) q) ∧ toWord64 (gapRatio log p u) = 0 := by
  obtain ⟨a, ha, -, ha', -⟩ := exists_denotes_log_one_sub hlog hu hr hr'
  rw [gapRatio, one_sub_eq_one hp hv hv', hlog.one]
  exact div_zero_of_nonpos ha ha'

theorem drawGapBy_of_le (hlog : IsLogarithm log) (hp : Denotes p v) (hv : 0 ≤ v)
    (hv' : v ≤ halfStep) (s : Random.Stream) : (drawGapBy log p s).1 = 0 := by
  obtain ⟨r, hr, hr0, hr1⟩ := exists_denotes_nextUnit s
  rw [drawGapBy, (gapRatio_of_le hlog hp hv hv' hr hr0 hr1).2]
  rfl

/-! ## Rows without gaps -/

/-- A row without gaps has every atom as a target. -/
theorem firstTarget?_of_no_gaps {σ : Type} {draw : σ → Nat × σ}
    (hdraw : ∀ state, (draw state).1 = 0) {bound : Nat} (hbound : bound < UInt32.size) (state : σ)
    {next : Nat} (hle : next ≤ bound) :
    firstTarget? draw bound state next = some bound := by
  induction hk : bound - next generalizing state next with
  | zero =>
      obtain rfl : next = bound := by omega
      rw [firstTarget?_step, hdraw, Nat.add_zero, if_neg (by omega), if_pos (le_refl _)]
  | succ k ih =>
      rw [firstTarget?_step, hdraw, Nat.add_zero, if_neg (by omega), if_neg (by omega)]
      exact ih _ (by omega) (by omega)

/-- A rule for a probability between zero and one is decided by its rows. -/
theorem connectsBy_of_no_gaps (rule : FixedProbability) {σ : Type} {draw : σ → Nat × σ}
    (hdraw : ∀ state, (draw state).1 = 0) (hpos : ¬ rule.probability ≤ 0.0) (start : UInt32 → σ)
    (pre post : UInt32) :
    rule.connectsBy draw start pre post = true := by
  rw [connectsBy, if_neg hpos]
  split
  · rfl
  · rw [firstTarget?_of_no_gaps hdraw post.toNat_lt _ (Nat.zero_le _), beq_self_eq_true]

/-! ## Probabilities -/

/-- A probability that is accepted, and is neither zero nor one, lies between them. -/
theorem exists_denotes_probability (hrule : ofProbability p seed = .ok rule)
    (hpos : ¬ rule.probability ≤ 0.0) (hlt : ¬ 1.0 ≤ rule.probability) :
    ∃ v, Denotes rule.probability v ∧ 0 < v ∧ v < 1 := by
  rw [ofProbability] at hrule
  split at hrule
  · next hrange =>
      rw [Except.ok.injEq] at hrule
      rw [← hrule] at hpos hlt ⊢
      simp only [Bool.and_eq_true, decide_eq_true_eq] at hrange
      obtain ⟨v, hv⟩ := denotes_of_between denotes_zero denotes_one hrange.1 hrange.2
      rw [hv.le_iff denotes_zero, not_le] at hpos
      rw [denotes_one.le_iff hv, not_le] at hlt
      exact ⟨v, hv, hpos, hlt⟩
  · exact absurd hrule (by simp)

/-- **The gaps of a row are finite numbers exactly if the probability is above `2 ^ -54`.** Of the
    probabilities that are accepted and lie strictly between zero and one, those above give a
    negative divisor, and for every draw a quotient that is finite and not negative. Those up to it
    give the divisor zero, and a quotient that is no number for any draw: each gap is zero, and the
    rule links every pair of atoms. -/
theorem gaps_of_probability (hlog : IsLogarithm log) (hrule : ofProbability p seed = .ok rule)
    (hpos : ¬ rule.probability ≤ 0.0) (hlt : ¬ 1.0 ≤ rule.probability) :
    ∃ v, Denotes rule.probability v ∧ 0 < v ∧ v < 1 ∧
      ((∃ d, Denotes (log (1.0 - rule.probability)) d ∧ d < 0) ↔ halfStep < v) ∧
      (∀ u r, Denotes u r → 0 ≤ r → r < 1 →
        ((∃ q, Denotes (gapRatio log rule.probability u) q ∧ 0 ≤ q) ↔ halfStep < v)) ∧
      (∀ s : Random.Stream, ∃ r, Denotes s.nextUnit.1 r ∧ 0 ≤ r ∧ r < 1) ∧
      (v ≤ halfStep → log (1.0 - rule.probability) = 0.0 ∧
        (∀ s, (drawGapBy log rule.probability s).1 = 0) ∧
        ∀ pre post,
          rule.connectsBy (drawGapBy log rule.probability) rule.stream pre post = true) := by
  obtain ⟨v, hv, hv0, hv1⟩ := exists_denotes_probability hrule hpos hlt
  have hzero : v ≤ halfStep → log (1.0 - rule.probability) = 0.0 := fun hle => by
    rw [one_sub_eq_one hv hv0.le hle, hlog.one]
  have hgaps : v ≤ halfStep → ∀ s, (drawGapBy log rule.probability s).1 = 0 :=
    drawGapBy_of_le hlog hv hv0.le
  refine ⟨v, hv, hv0, hv1, ⟨?_, ?_⟩, fun u r hu hr0 hr1 => ⟨?_, ?_⟩, exists_denotes_nextUnit,
    fun hle => ⟨hzero hle, hgaps hle, connectsBy_of_no_gaps rule (hgaps hle) hpos rule.stream⟩⟩
  · rintro ⟨d, hd, hneg⟩
    by_contra hle
    rw [hzero (not_lt.1 hle)] at hd
    exact hneg.ne (hd.value_eq denotes_zero)
  · intro hgt
    obtain ⟨d, hd, -, -, hneg⟩ := exists_denotes_log_one_sub hlog hv hv0.le hv1
    exact ⟨d, hd, (hneg hgt).trans_lt (neg_lt_zero.2 halfStep_pos)⟩
  · rintro ⟨q, hq, -⟩
    by_contra hle
    exact (gapRatio_of_le hlog hv hv0.le (not_lt.1 hle) hu hr0 hr1).1 ⟨q, hq⟩
  · intro hgt
    exact exists_denotes_gapRatio hlog hv hgt hv1 hu hr0 hr1

/-- The line that touches the logarithm at one; just below one no double is nearer to it. -/
def tangent (x : Float) : Float := if 1.0 ≤ x then 0.0 else -(1.0 - x)

theorem isLogarithm_tangent : IsLogarithm tangent where
  one := if_pos ((denotes_one.le_iff denotes_one).2 (le_refl 1))
  below_one {x v} h hv hv' := by
    have hbelow : ¬ 1.0 ≤ x := by rw [denotes_one.le_iff h]; exact not_le.2 hv'
    obtain ⟨w, hw, -, hlower, hupper⟩ := exists_isRounding_one_sub h hv.le hv'
    have hinv : 1 - v ≤ 1 / v - 1 := by
      have hone : 1 / v - 1 = (1 - v) / v := by rw [sub_div, div_self hv.ne']
      rw [hone]
      exact le_div_self (by linarith) hv hv'.le
    refine ⟨-w, ?_, by linarith, by linarith⟩
    rw [tangent, if_neg hbelow]
    exact hw.neg

/-- A probability of one step: draws of zero and of a step have the gaps zero and one. -/
theorem gaps_of_step :
    IsLogarithm tangent ∧
    ofProbability 1.1102230246251565e-16 7 = .ok ⟨1.1102230246251565e-16, 7⟩ ∧
    ¬ (1.1102230246251565e-16 : Float) ≤ 0.0 ∧ ¬ 1.0 ≤ (1.1102230246251565e-16 : Float) ∧
    (∃ d, Denotes (tangent (1.0 - 1.1102230246251565e-16)) d ∧ d < 0) ∧
    (∃ q, Denotes (gapRatio tangent 1.1102230246251565e-16 0.0) q ∧ 0 ≤ q) ∧
    ∃ q, Denotes (gapRatio tangent 1.1102230246251565e-16 1.1102230246251565e-16) q ∧ 0 ≤ q := by
  have hdecode : Binary64.ofFloat 1.1102230246251565e-16 = .finite false (2 ^ 52) (-105) := by
    decide +kernel
  have hstep : Denotes 1.1102230246251565e-16 (2 * halfStep) := by
    rw [Denotes, hdecode]
    norm_num [Binary64.value?, signed, halfStep]
  have hrule : ofProbability 1.1102230246251565e-16 7 = .ok ⟨1.1102230246251565e-16, 7⟩ :=
    if_pos (by decide +kernel)
  have hpos : ¬ (1.1102230246251565e-16 : Float) ≤ 0.0 := by decide +kernel
  have hlt : ¬ 1.0 ≤ (1.1102230246251565e-16 : Float) := by decide +kernel
  obtain ⟨v, hv, -, hv1, hdivisor, hratio, -⟩ :=
    gaps_of_probability isLogarithm_tangent hrule hpos hlt
  obtain rfl := hv.value_eq hstep
  have hseen : halfStep < 2 * halfStep := by linarith [halfStep_pos]
  exact ⟨isLogarithm_tangent, hrule, hpos, hlt, hdivisor.2 hseen,
    (hratio 0.0 0 denotes_zero (le_refl 0) zero_lt_one).2 hseen,
    (hratio _ _ hstep (by linarith [halfStep_pos]) hv1).2 hseen⟩

/-- A rule that should link one pair in `10 ^ 17` divides by zero, and links every pair. -/
theorem every_pair_linked :
    ofProbability 1e-17 7 = .ok ⟨1e-17, 7⟩ ∧ ¬ (1e-17 : Float) ≤ 0.0 ∧ ¬ 1.0 ≤ (1e-17 : Float) ∧
    ∀ log, IsLogarithm log → log (1.0 - 1e-17) = 0.0 ∧
      (∀ u r, Denotes u r → 0 ≤ r → r < 1 → ¬ ∃ q, Denotes (gapRatio log 1e-17 u) q) ∧
      ∀ pre post,
        connectsBy ⟨1e-17, 7⟩ (drawGapBy log 1e-17) (stream ⟨1e-17, 7⟩) pre post = true := by
  have hdecode : Binary64.ofFloat 1e-17 = .finite false 6490371073168535 (-109) := by decide +kernel
  have htiny : Denotes 1e-17 (6490371073168535 / 2 ^ 109) := by
    rw [Denotes, hdecode]
    norm_num [Binary64.value?, signed]
  have hnonneg : (0 : ℚ) ≤ 6490371073168535 / 2 ^ 109 := by norm_num
  have hle : (6490371073168535 / 2 ^ 109 : ℚ) ≤ halfStep := by norm_num [halfStep]
  have hpos : ¬ (1e-17 : Float) ≤ 0.0 := by decide +kernel
  refine ⟨if_pos (by decide +kernel), hpos, by decide +kernel, fun log hlog => ⟨?_, ?_, ?_⟩⟩
  · rw [one_sub_eq_one htiny hnonneg hle, hlog.one]
  · exact fun u r hu hr hr' => (gapRatio_of_le hlog htiny hnonneg hle hu hr hr').1
  · exact connectsBy_of_no_gaps ⟨1e-17, 7⟩ (drawGapBy_of_le hlog htiny hnonneg hle) hpos _

end FixedProbability

end SpikeMesh
