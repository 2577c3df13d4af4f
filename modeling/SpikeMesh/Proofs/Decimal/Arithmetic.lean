import SpikeMesh.Proofs.Decimal.Rounding

set_option autoImplicit false

/-! # Arithmetic of doubles

Differences, products and quotients of doubles that keep clear of the largest ones are roundings of
the exact results. One minus a double is one again for the numbers up to half a step, where a step
is the distance of one from the double below it (`one_sub_eq_one`). -/

namespace SpikeMesh.Decimal

open Float.Model (UnpackedFloat Format totalExponent)
open Float.Model.UnpackedFloat

variable {x y : Float} {v w u : ℚ} {m m' : Nat} {e e' : Int}

/-! ## Doubles that are not negative -/

/-- A double that denotes a positive number has a positive sign. -/
theorem Denotes.unpack_of_pos (h : Denotes x v) (hv : 0 < v) :
    ∃ m e hm, x.toModel.unpack = .finite .positive m e hm ∧ Canonical m e ∧ v = m * 2 ^ e := by
  rcases h.unpack with ⟨s, -, hzero⟩ | ⟨s, m, e, hm, hunpack, hcanonical, hvalue⟩
  · exact absurd hzero hv.ne'
  · cases s with
    | positive => exact ⟨m, e, hm, hunpack, hcanonical, hvalue⟩
    | negative =>
        rw [hvalue] at hv
        exact absurd hv (not_lt.2 (neg_nonpos.2 (magnitude_pos hm e).le))

theorem Denotes.unpack_of_neg (h : Denotes x v) (hv : v < 0) :
    ∃ m e hm, x.toModel.unpack = .finite .negative m e hm ∧ Canonical m e ∧ v = -(m * 2 ^ e) := by
  rcases h.unpack with ⟨s, -, hzero⟩ | ⟨s, m, e, hm, hunpack, hcanonical, hvalue⟩
  · exact absurd hzero hv.ne
  · cases s with
    | negative => exact ⟨m, e, hm, hunpack, hcanonical, hvalue⟩
    | positive =>
        rw [hvalue] at hv
        exact absurd hv (not_lt.2 (magnitude_pos hm e).le)

theorem Denotes.unpack_of_zero (h : Denotes x 0) : ∃ s, x.toModel.unpack = .zero s := by
  rcases h.unpack with ⟨s, hunpack, -⟩ | ⟨s, m, e, hm, -, -, hvalue⟩
  · exact ⟨s, hunpack⟩
  · cases s with
    | positive => exact absurd hvalue (magnitude_pos hm e).ne
    | negative => exact absurd hvalue (neg_ne_zero.2 (magnitude_pos hm e).ne').symm

/-- The value of a double is its own rounding. -/
theorem Canonical.isRounding (h : Canonical m e) : IsRounding (m * 2 ^ e) (m * 2 ^ e) := by
  refine ⟨m, e, ⟨h.least_le, ?_, ?_, ?_⟩, rfl⟩
  · rw [show (2 : ℚ) ^ (e + 53) = 2 ^ e * 2 ^ 53 from two_zpow_add e 53, mul_comm]
    exact mul_lt_mul_of_pos_left (by exact_mod_cast h.mantissa_lt) (two_zpow_pos e)
  · refine h.normal.imp_left fun hle => ?_
    rw [show (2 : ℚ) ^ (e + 52) = 2 ^ e * 2 ^ 52 from two_zpow_add e 52, mul_comm]
    exact mul_le_mul_of_nonneg_right (by exact_mod_cast hle) (two_zpow_pos e).le
  · rw [mul_div_cancel_right₀ _ (two_zpow_pos e).ne']
    exact ⟨by linarith, by linarith, by rintro (h | h) <;> linarith⟩

theorem isRounding_zero : IsRounding 0 0 := by
  have hcanonical : Canonical 0 (-1074) := ⟨by decide, by decide, by decide, .inr rfl⟩
  simpa using hcanonical.isRounding

/-! ## Differences -/

/-- A mantissa at a lower exponent. -/
theorem cast_shiftLeft_mul {t : Int} (hle : t ≤ e) :
    ((m <<< (e - t).toNat : Nat) : ℚ) * 2 ^ t = m * 2 ^ e := by
  obtain ⟨k, rfl⟩ := Int.le.dest hle
  rw [add_sub_cancel_left, Int.toNat_natCast, Nat.shiftLeft_eq, two_zpow_add]
  push_cast
  ring

/-- The difference of two doubles of which the first is the greater. -/
theorem exists_denotes_sub (hx : Denotes x v) (hy : Denotes y w) (hw : 0 ≤ w) (hlt : w < v)
    (hbound : v < largeBound) : ∃ u, Denotes (x - y) u ∧ IsRounding (v - w) u := by
  obtain ⟨m, e, hm, hux, hcx, rfl⟩ := hx.unpack_of_pos (hw.trans_lt hlt)
  rcases hw.eq_or_lt with rfl | hw
  · obtain ⟨s, huy⟩ := hy.unpack_of_zero
    have hsub : x - y = ⟨.pack (.finite .positive m e hm)⟩ := by
      show (⟨.pack (sub Format.binary64 x.toModel.unpack y.toModel.unpack)⟩ : Float) = _
      rw [hux, huy]
      rfl
    rw [hsub, sub_zero]
    exact ⟨_, denotes_of_unpack_finite (unpack_pack .positive hm hcx), hcx.isRounding⟩
  · obtain ⟨m', e', hm', huy, hcy, rfl⟩ := hy.unpack_of_pos hw
    -- both mantissas are brought to the lower exponent
    have hsub : x - y = ⟨.pack (UnpackedFloat.normalize Format.binary64
        (((m <<< (e - min e e').toNat : Nat) : Int) - (m' <<< (e' - min e e').toNat : Nat))
        (min e e') .positive)⟩ := by
      show (⟨.pack (sub Format.binary64 x.toModel.unpack y.toModel.unpack)⟩ : Float) = _
      rw [hux, huy]
      rfl
    have hx := cast_shiftLeft_mul (m := m) (min_le_left e e')
    have hy := cast_shiftLeft_mul (m := m') (min_le_right e e')
    generalize m <<< (e - min e e').toNat = a at *
    generalize m' <<< (e' - min e e').toNat = b at *
    generalize min e e' = t at *
    rw [← hx, ← hy] at hlt
    have hba : b < a := by exact_mod_cast lt_of_mul_lt_mul_right hlt (two_zpow_pos t).le
    have hround : x - y = ⟨.pack (UnpackedFloat.round Format.binary64 .positive (a - b) t)⟩ := by
      rw [← Int.toNat_sub, hsub, UnpackedFloat.normalize, Int.compare_eq_gt.2 (by omega)]
    have hvalue : ((a - b : Nat) : ℚ) * 2 ^ t = m * 2 ^ e - m' * 2 ^ e' := by
      rw [Nat.cast_sub hba.le, sub_mul, hx, hy]
    rw [hround, ← hvalue]
    exact exists_denotes_round (by omega) (by rw [hvalue]; linarith)

/-! ## Products -/

/-- Mantissas multiply to one that is fine enough to be rounded. -/
theorem Canonical.mul_fine (h : Canonical m e) (h' : Canonical m' e') (hm : 0 < m) (hm' : 0 < m') :
    e + e' ≤ unitExponent (m * m') (e + e') := by
  have hunit := unitExponent_eq (m * m') (e + e')
  have hlog : 2 ^ 52 ≤ m * m' → 52 ≤ (m * m').log2 :=
    (Nat.le_log2 (Nat.mul_pos hm hm').ne').2
  rcases h.normal with hnormal | hleast
  · have := hlog (hnormal.trans (Nat.le_mul_of_pos_right m hm'))
    omega
  · rcases h'.normal with hnormal | hleast'
    · have := hlog (hnormal.trans (Nat.le_mul_of_pos_left m' hm))
      omega
    · omega

/-- The product of two doubles that are not negative is a zero, or rounds the product of their
    mantissas. -/
theorem Denotes.mul_cases (hx : Denotes x v) (hy : Denotes y w) (hv : 0 ≤ v) (hw : 0 ≤ w) :
    (v * w = 0 ∧ ∃ s, x * y = ⟨.pack (.zero s)⟩) ∨
    ∃ m e m' e', 0 < m ∧ 0 < m' ∧ Canonical m e ∧ Canonical m' e' ∧
      v * w = (m * m' : Nat) * 2 ^ (e + e') ∧
      x * y = ⟨.pack (roundWithAccuracy Format.binary64 .positive (m * m') (e + e') .exact)⟩ := by
  have hmul : x * y = ⟨.pack (mul Format.binary64 x.toModel.unpack y.toModel.unpack)⟩ := rfl
  rcases hv.eq_or_lt with rfl | hv
  · obtain ⟨s, hux⟩ := hx.unpack_of_zero
    refine .inl ⟨zero_mul w, ?_⟩
    rcases hy.unpack with ⟨s', huy, -⟩ | ⟨s', m', e', hm', huy, -, -⟩ <;> rw [hmul, hux, huy] <;>
      exact ⟨_, rfl⟩
  obtain ⟨m, e, hm, hux, hcx, rfl⟩ := hx.unpack_of_pos hv
  rcases hw.eq_or_lt with rfl | hw
  · obtain ⟨s', huy⟩ := hy.unpack_of_zero
    rw [hmul, hux, huy]
    exact .inl ⟨mul_zero _, _, rfl⟩
  obtain ⟨m', e', hm', huy, hcy, rfl⟩ := hy.unpack_of_pos hw
  refine .inr ⟨m, e, m', e', hm, hm', hcx, hcy, ?_, by rw [hmul, hux, huy]; rfl⟩
  rw [zpow_add₀ (by norm_num)]
  push_cast
  ring

/-- The product of two doubles that are not negative. -/
theorem exists_denotes_mul (hx : Denotes x v) (hy : Denotes y w) (hv : 0 ≤ v) (hw : 0 ≤ w)
    (hbound : v * w < largeBound) : ∃ u, Denotes (x * y) u ∧ IsRounding (v * w) u := by
  rcases hx.mul_cases hy hv hw with ⟨hzero, s, hmul⟩ |
    ⟨m, e, m', e', hm, hm', hcx, hcy, hvalue, hmul⟩
  · rw [hzero, hmul]
    exact ⟨0, denotes_pack_zero s, isRounding_zero⟩
  · rw [hmul]
    refine exists_denotes_roundWithAccuracy ?_ (hcx.mul_fine hcy hm hm') hbound
    rw [hvalue, mul_div_cancel_right₀ _ (two_zpow_pos _).ne']
    exact standsFor_exact _

theorem sign_of_unpack {b : BitVec Format.binary64.numBits} {s : Sign} {hm : 0 < m}
    (h : unpack Format.binary64 b = .finite s m e hm) : s = .ofBitVec (unpackSign b) := by
  simp only [unpack] at h
  split at h
  · split at h <;> exact absurd h (by simp)
  · split at h
    · split at h
      · exact absurd h (by simp)
      · exact (UnpackedFloat.finite.inj h).1.symm
    · exact (UnpackedFloat.finite.inj h).1.symm

/-- A number that is packed with a positive sign stays so, if it does not become infinite. -/
theorem nonneg_of_denotes_pack {hm : 0 < m}
    (h : Denotes ⟨.pack (.finite .positive m e hm)⟩ u) : 0 ≤ u := by
  have hpacked : ∃ E M, pack Format.binary64 (.finite .positive m e hm)
      = packComponents Format.binary64 .positive E M := by
    simp only [pack, packedInfinity]
    split
    · exact ⟨_, _, rfl⟩
    · split <;> exact ⟨_, _, rfl⟩
  rcases h.unpack with ⟨-, -, rfl⟩ | ⟨s, m', e', hm', hunpack, -, rfl⟩
  · exact le_refl 0
  · have hs := sign_of_unpack
      (show unpack Format.binary64 (pack Format.binary64 _) = _ from hunpack)
    obtain ⟨E, M, hpacked⟩ := hpacked
    rw [hpacked, unpackSign_packComponents, Sign.ofBitVec_toBitVec] at hs
    rw [hs]
    exact mul_nonneg m'.cast_nonneg (two_zpow_pos e').le

/-- The product of two doubles that are not negative is not negative, if it is not infinite. -/
theorem Denotes.mul_nonneg (hx : Denotes x v) (hy : Denotes y w) (hv : 0 ≤ v) (hw : 0 ≤ w)
    (hxy : Denotes (x * y) u) : 0 ≤ u := by
  rcases hx.mul_cases hy hv hw with ⟨-, s, hmul⟩ | ⟨m, e, m', e', hm, hm', hcx, hcy, -, hmul⟩ <;>
    rw [hmul] at hxy
  · exact (hxy.value_eq (denotes_pack_zero s)).ge
  · simp only [roundWithAccuracy] at hxy
    split at hxy
    · exact (hxy.value_eq (denotes_pack_zero _)).ge
    · exact nonneg_of_denotes_pack hxy

/-! ## Quotients -/

/-- What a mantissa lacks is compared with a half. -/
theorem standsFor_inexact (m : Nat) {f : ℚ} {o : Ordering} (hpos : 0 < f) (hlt : f < 1)
    (ho : Orders o f (1 / 2)) : StandsFor (.ofMantissaAndAccuracy m (.inexact o)) (m + f) := by
  have hlt_iff := ho.lt_iff
  have heq_iff := ho.eq_iff
  cases o with
  | lt =>
      have hless := hlt_iff.1 rfl
      refine ⟨?_, ?_, ?_, ?_⟩ <;> simp only [ExtendedMantissa.ofMantissaAndAccuracy]
      · linarith
      · linarith
      · simpa using hless
      · simp only [Bool.true_eq_false, false_iff, not_or]
        exact ⟨by linarith, fun h => by linarith⟩
  | eq =>
      have hhalf := heq_iff.1 rfl
      refine ⟨?_, ?_, ?_, ?_⟩ <;> simp only [ExtendedMantissa.ofMantissaAndAccuracy, hhalf]
      · linarith
      · linarith
      · simp
      · simp
  | gt =>
      have hmore : 1 / 2 < f := lt_of_le_of_ne (by simpa using hlt_iff) fun h => by
        simpa using heq_iff.2 h.symm
      refine ⟨?_, ?_, ?_, ?_⟩ <;> simp only [ExtendedMantissa.ofMantissaAndAccuracy]
      · linarith
      · linarith
      · simpa using hmore.le
      · simp only [Bool.true_eq_false, false_iff, not_or]
        exact ⟨fun h => by linarith, fun h => by linarith⟩

/-- The remainder of a division tells what the quotient lacks. -/
theorem standsFor_div (M : Nat) {d : Nat} (hd : 0 < d) :
    StandsFor (.ofMantissaAndAccuracy (M / d) (accuracyOfFraction (M % d) d)) ((M : ℚ) / d) := by
  have hd' : (0 : ℚ) < d := by exact_mod_cast hd
  have hquotient : (M : ℚ) / d = (M / d : Nat) + (M % d : Nat) / d := by
    rw [div_eq_iff hd'.ne', add_mul, div_mul_cancel₀ _ hd'.ne', mul_comm]
    exact_mod_cast (Nat.div_add_mod M d).symm
  have hlt := Nat.mod_lt M hd
  rw [hquotient]
  generalize M / d = q at *
  generalize M % d = r at *
  rcases Nat.eq_zero_or_pos r with rfl | hr
  · rw [Nat.cast_zero, zero_div, add_zero]
    exact standsFor_exact q
  rw [accuracyOfFraction, if_neg hr.ne']
  refine standsFor_inexact q (div_pos (by exact_mod_cast hr) hd')
    ((div_lt_one hd').2 (by exact_mod_cast hlt)) ⟨?_, ?_⟩
  · rw [Nat.compare_eq_lt, div_lt_div_iff₀ hd' two_pos, one_mul, mul_comm (r : ℚ)]
    exact_mod_cast Iff.rfl
  · rw [Nat.compare_eq_eq, div_eq_div_iff hd'.ne' two_ne_zero, one_mul, mul_comm (r : ℚ)]
    exact_mod_cast Iff.rfl

/-- The exponent at which the mantissas of two doubles are divided. -/
def quotientExponent (m : Nat) (e : Int) (m' : Nat) (e' : Int) : Int :=
  min (e - e') (Format.binary64.targetExponent (totalExponent m e - totalExponent m' e'))

/-- Mantissas are divided to one that is fine enough to be rounded. -/
theorem div_fine (e e' : Int) (hm : 0 < m) (hm' : 0 < m') {t : Int}
    (ht : t = quotientExponent m e m' e') :
    t ≤ unitExponent (m <<< (e - e' - t).toNat / m') t := by
  have hunit := unitExponent_eq (m <<< (e - e' - t).toNat / m') t
  rw [quotientExponent, targetExponent_eq, totalExponent, totalExponent] at ht
  -- unless the exponent is the least one, the first mantissa is longer by 53 bits
  by_cases hleast : t ≤ -1074
  · omega
  have hbits : m'.log2 + 53 ≤ (m <<< (e - e' - t).toNat).log2 := by
    rw [log2_shiftLeft hm]
    omega
  have hlong : 2 ^ 52 * m' ≤ m <<< (e - e' - t).toNat := by
    calc 2 ^ 52 * m' ≤ 2 ^ 52 * 2 ^ (m'.log2 + 1) := Nat.mul_le_mul_left _ Nat.lt_log2_self.le
      _ = 2 ^ (m'.log2 + 53) := by rw [← Nat.pow_add, Nat.add_comm 52]
      _ ≤ m <<< (e - e' - t).toNat :=
          (Nat.le_log2 (by rw [Nat.shiftLeft_eq]; positivity)).1 hbits
  have hquotient : 2 ^ 52 ≤ m <<< (e - e' - t).toNat / m' := (Nat.le_div_iff_mul_le hm').2 hlong
  have hlog : 52 ≤ (m <<< (e - e' - t).toNat / m').log2 :=
    (Nat.le_log2 (by omega)).2 hquotient
  omega

/-- The quotient of two doubles that are not positive. -/
theorem exists_denotes_div (hx : Denotes x v) (hy : Denotes y w) (hv : v ≤ 0) (hw : w < 0)
    (hbound : v / w < largeBound) : ∃ u, Denotes (x / y) u ∧ IsRounding (v / w) u := by
  have hdiv : x / y = ⟨.pack (div Format.binary64 x.toModel.unpack y.toModel.unpack)⟩ := rfl
  obtain ⟨m', e', hm', huy, hcy, rfl⟩ := hy.unpack_of_neg hw
  rcases hv.eq_or_lt with rfl | hv
  · obtain ⟨s, hux⟩ := hx.unpack_of_zero
    rw [zero_div, hdiv, hux, huy]
    exact ⟨0, denotes_pack_zero _, isRounding_zero⟩
  obtain ⟨m, e, hm, hux, hcx, rfl⟩ := hx.unpack_of_neg hv
  obtain ⟨t, ht⟩ : ∃ t, t = quotientExponent m e m' e' := ⟨_, rfl⟩
  have hround : x / y = ⟨.pack (roundWithAccuracy Format.binary64 .positive
      (m <<< (e - e' - t).toNat / m') t
      (accuracyOfFraction (m <<< (e - e' - t).toNat % m') m'))⟩ := by
    rw [hdiv, hux, huy, ht]
    rfl
  have hle : t ≤ e - e' := by rw [ht]; exact min_le_left _ _
  have hvalue : -((m : ℚ) * 2 ^ e) / -(m' * 2 ^ e') / 2 ^ t
      = ((m <<< (e - e' - t).toNat : Nat) : ℚ) / m' := by
    have hshift := cast_shiftLeft_mul (m := m) hle
    rw [zpow_sub₀ (by norm_num)] at hshift
    have hm' : (m' : ℚ) ≠ 0 := by exact_mod_cast hm'.ne'
    rw [neg_div_neg_eq, div_eq_div_iff (two_zpow_pos t).ne' hm', hshift, mul_div_mul_comm,
      mul_right_comm, div_mul_cancel₀ _ hm']
  rw [hround]
  refine exists_denotes_roundWithAccuracy ?_ (div_fine e e' hm hm' ht) hbound
  rw [hvalue]
  exact standsFor_div _ hm'

/-! ## Negations and whole numbers -/

theorem denotes_zero : Denotes 0.0 0 := denotes_of_unpack_zero (s := .positive) rfl

theorem denotes_one : Denotes 1.0 1 := by
  have hdecode : Binary64.ofFloat 1.0 = .finite false (2 ^ 52) (-52) := by decide +kernel
  rw [Denotes, hdecode]
  norm_num [Binary64.value?, signed]

theorem Denotes.neg (h : Denotes x v) : Denotes (-x) (-v) := by
  have hneg : -x = ⟨.pack x.toModel.unpack.neg⟩ := rfl
  rcases h.unpack with ⟨s, hunpack, rfl⟩ | ⟨s, m, e, hm, hunpack, hcanonical, rfl⟩ <;>
    rw [hneg, hunpack]
  · rw [neg_zero]
    exact denotes_pack_zero _
  · have hvalue : -signed (isNegative s) (m * 2 ^ e) = signed (isNegative (-s)) (m * 2 ^ e) := by
      cases s with
      | positive => rfl
      | negative => exact neg_neg _
    rw [hvalue]
    exact denotes_of_unpack_finite (unpack_pack (-s) hm hcanonical)

/-- Whole numbers of at most 53 bits are not rounded. -/
theorem denotes_toFloat {n : UInt64} (h : n.toNat < 2 ^ 53) : Denotes n.toFloat n.toNat := by
  have hfloat : n.toFloat =
      ⟨.pack (UnpackedFloat.normalize Format.binary64 n.toNat 0 .positive)⟩ := rfl
  rw [hfloat, UnpackedFloat.normalize]
  rcases Nat.eq_zero_or_pos n.toNat with hzero | hpos
  · rw [hzero]
    exact denotes_pack_zero _
  · have hbound : (n.toNat : ℚ) * 2 ^ (0 : Int) < largeBound := by
      rw [zpow_zero, mul_one]
      exact lt_largeBound (k := 53) (by exact_mod_cast h) (by decide)
    obtain ⟨v, hv, hround⟩ := exists_denotes_round hpos hbound
    rw [Int.compare_eq_gt.2 (by omega), ← mul_one (n.toNat : ℚ), ← zpow_zero (2 : ℚ),
      ← hround.eq_of_fits h (by decide)]
    exact hv

/-! ## Differences from one -/

/-- Half the distance of one from the double below it. -/
def halfStep : ℚ := 1 / 2 ^ 54

theorem halfStep_pos : 0 < halfStep := by norm_num [halfStep]

theorem two_zpow_neg (k : Nat) : (2 : ℚ) ^ (-(k : Int)) = 1 / 2 ^ k := by
  rw [zpow_neg, zpow_natCast, one_div]

/-- A double below one is so by a whole step. -/
theorem Denotes.le_one_sub (h : Denotes x v) (hv : v < 1) : v ≤ 1 - 2 * halfStep := by
  rcases le_or_gt v 0 with hneg | hpos
  · exact hneg.trans (by norm_num [halfStep])
  obtain ⟨m, e, hm, -, hcanonical, rfl⟩ := h.unpack_of_pos hpos
  by_cases he : e ≤ -53
  · have hm : (m : ℚ) ≤ 2 ^ 53 - 1 := by
      have := hcanonical.mantissa_lt
      have : ((m + 1 : Nat) : ℚ) ≤ (2 ^ 53 : Nat) := by exact_mod_cast this
      push_cast at this
      linarith
    calc (m : ℚ) * 2 ^ e ≤ (2 ^ 53 - 1) * 2 ^ (-53 : Int) :=
          mul_le_mul hm (zpow_le_zpow_right₀ one_le_two he) (two_zpow_pos e).le (by norm_num)
      _ = 1 - 2 * halfStep := by norm_num [halfStep]
  · have hm : (2 : ℚ) ^ 52 ≤ m := by
      exact_mod_cast hcanonical.normal.resolve_right (by omega)
    refine absurd hv (not_lt.2 ?_)
    calc (1 : ℚ) = 2 ^ 52 * 2 ^ (-52 : Int) := by norm_num
      _ ≤ m * 2 ^ e := mul_le_mul hm (zpow_le_zpow_right₀ one_le_two (by omega))
          (two_zpow_pos _).le m.cast_nonneg

/-- The unit of the numbers from a half to one. -/
theorem NearestMultiple.unit_eq {q : ℚ} {r : Nat} {t : Int} (h : NearestMultiple q r t)
    (hq : 1 / 2 ≤ q) (hq' : q < 1) : t = -53 := by
  have hlower : (2 : ℚ) ^ (-1 : Int) < 2 ^ (t + 53) := by
    refine lt_of_le_of_lt ?_ h.lt
    norm_num
    linarith
  have hlower := (zpow_lt_zpow_iff_right₀ one_lt_two).1 hlower
  rcases h.normal with hnormal | hleast
  · have hupper : (2 : ℚ) ^ (t + 52) < 2 ^ (0 : Int) := hnormal.trans_lt (by simpa using hq')
    have := (zpow_lt_zpow_iff_right₀ one_lt_two).1 hupper
    omega
  · omega

theorem NearestMultiple.le_half {q : ℚ} {r : Nat} {t : Int} (h : NearestMultiple q r t)
    (hq : q < 1 / 2) : (r : ℚ) * 2 ^ t ≤ 1 / 2 := by
  have ht : t ≤ -54 := by
    rcases h.normal with hnormal | hleast
    · have hlt : (2 : ℚ) ^ (t + 52) < 2 ^ (-1 : Int) := by
        refine hnormal.trans_lt ?_
        norm_num
        linarith
      have := (zpow_lt_zpow_iff_right₀ one_lt_two).1 hlt
      omega
    · omega
  have hr : (r : ℚ) ≤ 2 ^ 53 := by exact_mod_cast h.le
  calc (r : ℚ) * 2 ^ t ≤ 2 ^ 53 * 2 ^ (-54 : Int) :=
        mul_le_mul hr (zpow_le_zpow_right₀ one_le_two ht) (two_zpow_pos t).le (by norm_num)
    _ = 1 / 2 := by norm_num

/-- One minus a number, as a double: one if the number is half a step at most, as one is even, and
    less by a whole step otherwise. -/
theorem IsRounding.one_sub (h : IsRounding (1 - v) w) (hv : 0 < v) :
    (v ≤ halfStep → w = 1) ∧ (halfStep < v → w ≤ 1 - 2 * halfStep) := by
  obtain ⟨r, t, hnearest, rfl⟩ := h
  have hstep : halfStep = 1 / 2 ^ 54 := rfl
  rcases lt_or_ge (1 / 2) v with hlarge | hsmall
  · have hhalf := hnearest.le_half (by linarith)
    norm_num [hstep]
    exact ⟨fun hle => by linarith, fun _ => by linarith⟩
  · obtain rfl := hnearest.unit_eq (by linarith) (by linarith)
    have hrounds := hnearest.rounds
    have hunit : (2 : ℚ) ^ (-53 : Int) = 1 / 2 ^ 53 := two_zpow_neg 53
    have hscaled : (1 - v) / (1 / 2 ^ 53) = 2 ^ 53 - 2 ^ 53 * v := by
      rw [div_div_eq_mul_div, div_one]
      ring
    rw [hunit, hscaled] at hrounds
    rw [hunit, hstep]
    refine ⟨fun hle => ?_, fun hlt => ?_⟩
    · have hr : r = 2 ^ 53 :=
        hrounds.eq_of_even (by decide) (by push_cast; linarith) (by push_cast; linarith)
      rw [hr]
      norm_num
    · have hr : r ≤ 2 ^ 53 - 1 := hrounds.le_of_lt (by norm_num; linarith)
      have hr' : (r : ℚ) ≤ 9007199254740991 := by exact_mod_cast hr
      linarith

/-- One minus a double of the unit interval is never rounded to zero. -/
theorem exists_isRounding_one_sub (h : Denotes x v) (hv : 0 ≤ v) (hv' : v < 1) :
    ∃ w, Denotes (1.0 - x) w ∧ IsRounding (1 - v) w ∧ (1 - v) / 2 ≤ w ∧ w ≤ 2 * (1 - v) := by
  obtain ⟨w, hw, hround⟩ := exists_denotes_sub denotes_one h hv hv' one_lt_largeBound
  have hleast : (2 : ℚ) ^ (-1074 : Int) ≤ halfStep :=
    (zpow_le_zpow_right₀ one_le_two (by decide)).trans (two_zpow_neg 54).le
  have hstep := h.le_one_sub hv'
  exact ⟨w, hw, hround, hround.between (by linarith [halfStep_pos])⟩

/-- One minus a double of the unit interval. -/
theorem exists_denotes_one_sub (h : Denotes x v) (hv : 0 ≤ v) (hv' : v < 1) :
    ∃ w, Denotes (1.0 - x) w ∧ halfStep ≤ w ∧ (v ≤ halfStep → w = 1) ∧
      (halfStep < v → w ≤ 1 - 2 * halfStep) := by
  obtain ⟨w, hw, hround, hlower, -⟩ := exists_isRounding_one_sub h hv hv'
  refine ⟨w, hw, by linarith [h.le_one_sub hv'], ?_⟩
  rcases hv.eq_or_lt with rfl | hpos
  · have hone : IsRounding ((1 : Nat) * 2 ^ (0 : Int)) w := by simpa using hround
    have hw := hone.eq_of_fits (by decide) (by decide)
    exact ⟨fun _ => by simpa using hw, fun hlt => absurd hlt (not_lt.2 halfStep_pos.le)⟩
  · exact hround.one_sub hpos

/-- Half a step, or less, taken from one leaves one. -/
theorem one_sub_eq_one (h : Denotes x v) (hv : 0 ≤ v) (hv' : v ≤ halfStep) : 1.0 - x = 1.0 := by
  obtain ⟨w, hw, -, hone, -⟩ := exists_denotes_one_sub h hv (hv'.trans_lt (by norm_num [halfStep]))
  rw [hone hv'] at hw
  exact hw.unique denotes_one one_ne_zero

end SpikeMesh.Decimal
