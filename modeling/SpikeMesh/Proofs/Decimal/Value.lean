import Mathlib
import SpikeMesh.Decimal.Binary64

set_option autoImplicit false

/-! # The numbers that doubles denote

A finite double denotes the rational number that its bits decode to. It is given by a mantissa of at
most 53 bits and an exponent, and the mantissa has all 53 bits unless the exponent is the least one.
So doubles compare as the numbers that they denote (`Denotes.le_iff`, `Denotes.lt_iff`), and only
the two zeros denote the same number (`Denotes.unique`). -/

namespace SpikeMesh.Decimal

open Float.Model (UnpackedFloat Format)
open Float.Model.UnpackedFloat (Sign)

/-! ## Values -/

/-- A number with a sign before it. -/
def signed (negative : Bool) (q : ℚ) : ℚ := if negative then -q else q

/-- The number that a decoded double denotes, if it is finite. -/
def Binary64.value? : Binary64 → Option ℚ
  | finite negative m e => some (signed negative (m * 2 ^ e))
  | infinite _ | notANumber => none

/-- A double is finite and denotes a number. -/
def Denotes (x : Float) (v : ℚ) : Prop := (Binary64.ofFloat x).value? = some v

/-- The mantissa and the exponent of a finite double. -/
structure Canonical (m : Nat) (e : Int) : Prop where
  mantissa_lt : m < 2 ^ 53
  least_le : -1074 ≤ e
  le_greatest : e ≤ 971
  normal : 2 ^ 52 ≤ m ∨ e = -1074

variable {x y : Float} {v w : ℚ} {m m' : Nat} {e e' : Int}

/-! ## Decoding -/

/-- Whether a sign is that of negative numbers. -/
def isNegative : Sign → Bool
  | .negative => true
  | .positive => false

/-- A double as the arithmetic of doubles unpacks it. -/
def Binary64.ofUnpacked : UnpackedFloat → Binary64
  | .infinity s => infinite (isNegative s)
  | .notANumber => notANumber
  | .zero s => finite (isNegative s) 0 minExponent
  | .finite s m e _ => finite (isNegative s) m e

theorem toNat_unpackExponent (bits : UInt64) :
    (@UnpackedFloat.unpackExponent Format.binary64 bits.toBitVec).toNat
      = bits.toNat >>> 52 % 2048 := by
  simp [UnpackedFloat.unpackExponent]

theorem toNat_unpackMantissa (bits : UInt64) :
    (@UnpackedFloat.unpackMantissa Format.binary64 bits.toBitVec).toNat
      = bits.toNat % 2 ^ 52 := by
  simp [UnpackedFloat.unpackMantissa]

theorem isNegative_unpackSign (bits : UInt64) :
    isNegative (.ofBitVec (@UnpackedFloat.unpackSign Format.binary64 bits.toBitVec))
      = (bits.toNat >>> 63 == 1) := by
  have hsign : (@UnpackedFloat.unpackSign Format.binary64 bits.toBitVec).toNat
      = bits.toNat >>> 63 := by
    have := bits.toNat_lt
    simp [UnpackedFloat.unpackSign]
    omega
  have hlt := (@UnpackedFloat.unpackSign Format.binary64 bits.toBitVec).isLt
  rw [Sign.ofBitVec, ← hsign]
  split
  · next h => simp [h, isNegative]
  · next h =>
      rw [← BitVec.toNat_inj] at h
      have hone : (@UnpackedFloat.unpackSign Format.binary64 bits.toBitVec).toNat = 1 := by
        simp only [BitVec.toNat_ofNat] at h
        omega
      simp [hone, isNegative]

/-- The bit that is not stored stands before the mantissa. -/
theorem toNat_one_append (M : BitVec 52) : (1#1 ++ M).toNat = 2 ^ 52 + M.toNat := by
  rw [BitVec.toNat_append, ← Nat.shiftLeft_add_eq_or_of_lt M.isLt]
  rfl

/-- Decoding the bits of a double is unpacking it. -/
theorem Binary64.ofFloat_eq_ofUnpacked (x : Float) :
    ofFloat x = ofUnpacked x.toModel.unpack := by
  have hE := toNat_unpackExponent x.toModel.toBits
  have hM := toNat_unpackMantissa x.toModel.toBits
  have hS := isNegative_unpackSign x.toModel.toBits
  have hdecode : ofFloat x = ofBits x.toModel.toBits := rfl
  have hhidden : hiddenBit = 2 ^ 52 := rfl
  have hbias : Format.binary64.exponentBias = 1023 := rfl
  simp only [hdecode, ofBits, hhidden, fractionBits, ← hE, ← hM, ← hS, beq_iff_eq, minExponent]
  rw [Float.Model.unpack, UnpackedFloat.unpack]
  simp only [← BitVec.toNat_inj, BitVec.neg_one_eq_allOnes, BitVec.toNat_allOnes,
    BitVec.toNat_ofNat, Nat.zero_mod, hbias, toNat_one_append]
  -- the branches of the two sides are the same: exponents all ones, all zeros, and the others
  by_cases hones : (@UnpackedFloat.unpackExponent Format.binary64
      x.toModel.toBits.toBitVec).toNat = 2047
  · rw [if_pos hones, if_pos hones]
    split <;> rfl
  · rw [if_neg hones, if_neg hones]
    split
    · next hzeros =>
        rw [hzeros]
        split
        · next hzero => simp only [ofUnpacked, hzero, minExponent]
        · next hzero => rfl
    · next hzeros =>
        simp only [ofUnpacked]
        congr 1
        omega

/-- A finite double decodes to a mantissa and an exponent of its format. -/
theorem canonical_of_ofFloat {negative : Bool} (h : Binary64.ofFloat x = .finite negative m e) :
    Canonical m e := by
  have hhidden : Binary64.hiddenBit = 2 ^ 52 := rfl
  simp only [Binary64.ofFloat, Binary64.ofBits, hhidden, Binary64.fractionBits,
    Binary64.minExponent, beq_iff_eq] at h
  have hfraction := Nat.mod_lt x.toBits.toNat (Nat.two_pow_pos 52)
  have hbiased := Nat.mod_lt (x.toBits.toNat >>> 52) (show 2048 > 0 by decide)
  split at h
  · split at h <;> exact absurd h (by simp)
  · split at h
    · next hzeros =>
        simp only [Binary64.finite.injEq] at h
        obtain ⟨-, rfl, rfl⟩ := h
        exact ⟨by omega, by omega, by omega, .inr rfl⟩
    · next hones hzeros =>
        simp only [Binary64.finite.injEq] at h
        obtain ⟨-, rfl, rfl⟩ := h
        exact ⟨by omega, by omega, by omega, .inl (by omega)⟩

/-- A finite double as the arithmetic of doubles unpacks it. -/
theorem Denotes.unpack (h : Denotes x v) :
    (∃ s, x.toModel.unpack = .zero s ∧ v = 0) ∨
    ∃ s m e hm, x.toModel.unpack = .finite s m e hm ∧ Canonical m e ∧
      v = signed (isNegative s) (m * 2 ^ e) := by
  rw [Denotes, Binary64.ofFloat_eq_ofUnpacked] at h
  cases hunpack : x.toModel.unpack with
  | infinity s => rw [hunpack] at h; exact absurd h (by simp [Binary64.ofUnpacked, Binary64.value?])
  | notANumber => rw [hunpack] at h; exact absurd h (by simp [Binary64.ofUnpacked, Binary64.value?])
  | zero s =>
      rw [hunpack, Binary64.ofUnpacked, Binary64.value?, Option.some.injEq] at h
      refine .inl ⟨s, rfl, ?_⟩
      rw [← h]
      cases s <;> simp [signed, isNegative]
  | finite s m e hm =>
      rw [hunpack, Binary64.ofUnpacked, Binary64.value?, Option.some.injEq] at h
      have hdecode : Binary64.ofFloat x = .finite (isNegative s) m e := by
        rw [Binary64.ofFloat_eq_ofUnpacked, hunpack, Binary64.ofUnpacked]
      exact .inr ⟨s, m, e, hm, rfl, canonical_of_ofFloat hdecode, h.symm⟩

/-- A double that denotes a number that is not negative decodes to it, whatever its sign. -/
theorem Denotes.decode_of_nonneg (h : Denotes x v) (hv : 0 ≤ v) :
    ∃ negative m e, Binary64.ofFloat x = .finite negative m e ∧ v = m * 2 ^ e := by
  rw [Denotes] at h
  cases hdecode : Binary64.ofFloat x with
  | infinite negative | notANumber => exact absurd h (by simp [hdecode, Binary64.value?])
  | finite negative m e =>
      rw [hdecode, Binary64.value?, Option.some.injEq] at h
      refine ⟨negative, m, e, rfl, ?_⟩
      cases negative with
      | false => exact h.symm
      | true =>
          have hvalue : -((m : ℚ) * 2 ^ e) = v := h
          have hmagnitude : 0 ≤ (m : ℚ) * 2 ^ e :=
            mul_nonneg m.cast_nonneg (zpow_nonneg (by norm_num) e)
          linarith

theorem Denotes.value_eq (h : Denotes x v) (h' : Denotes x w) : v = w :=
  Option.some.inj (h.symm.trans h')

theorem denotes_of_isFinite (h : x.isFinite = true) : ∃ v, Denotes x v := by
  have hfinite : x.toModel.unpack.isFinite = true := h
  simp only [Denotes, Binary64.ofFloat_eq_ofUnpacked]
  cases hunpack : x.toModel.unpack with
  | infinity s => rw [hunpack] at hfinite; exact absurd hfinite (by simp [UnpackedFloat.isFinite])
  | notANumber => rw [hunpack] at hfinite; exact absurd hfinite (by simp [UnpackedFloat.isFinite])
  | zero s => exact ⟨_, rfl⟩
  | finite s m e hm => exact ⟨_, rfl⟩

/-! ## Order -/

theorem two_zpow_pos (e : Int) : (0 : ℚ) < 2 ^ e := zpow_pos (by norm_num) e

theorem magnitude_pos (hm : 0 < m) (e : Int) : (0 : ℚ) < m * 2 ^ e :=
  mul_pos (by exact_mod_cast hm) (two_zpow_pos e)

/-- Of two doubles the one with the greater exponent is the greater. -/
theorem Canonical.lt_of_exponent (h : Canonical m e) (h' : Canonical m' e') (hlt : e < e') :
    (m : ℚ) * 2 ^ e < m' * 2 ^ e' := by
  have hm : (m : ℚ) < 2 ^ 53 := by exact_mod_cast h.mantissa_lt
  have hm' : (2 : ℚ) ^ 52 ≤ m' := by
    have := h.least_le
    exact_mod_cast h'.normal.resolve_right (by omega)
  calc (m : ℚ) * 2 ^ e < 2 ^ 53 * 2 ^ e := mul_lt_mul_of_pos_right hm (two_zpow_pos e)
    _ = 2 ^ 52 * 2 ^ (e + 1) := by rw [zpow_add_one₀ (by norm_num)]; ring
    _ ≤ 2 ^ 52 * 2 ^ e' :=
        mul_le_mul_of_nonneg_left (zpow_le_zpow_right₀ (by norm_num) (by omega)) (by norm_num)
    _ ≤ m' * 2 ^ e' := mul_le_mul_of_nonneg_right hm' (two_zpow_pos e').le

/-- An outcome of a comparison says how two numbers lie. -/
structure Orders (o : Ordering) (v w : ℚ) : Prop where
  lt_iff : o = .lt ↔ v < w
  eq_iff : o = .eq ↔ v = w

theorem orders_lt (h : v < w) : Orders .lt v w := ⟨by simp [h], by simp [h.ne]⟩

theorem orders_gt (h : w < v) : Orders .gt v w := ⟨by simp [h.le], by simp [h.ne']⟩

theorem Orders.neg {o : Ordering} (h : Orders o v w) : Orders o.swap (-v) (-w) := by
  have hlt := h.lt_iff
  have heq := h.eq_iff
  cases o with
  | lt => exact orders_gt (by simpa using hlt)
  | eq => exact ⟨by simp [heq.1 rfl], by simp [heq.1 rfl]⟩
  | gt =>
      refine orders_lt (neg_lt_neg (lt_of_le_of_ne ?_ fun h => ?_))
      · simpa using hlt
      · exact absurd (heq.2 h.symm) (by simp)

/-- Exponents are compared first, then mantissas. -/
theorem Canonical.orders (h : Canonical m e) (h' : Canonical m' e') :
    Orders ((compare e e').then (compare m m')) (m * 2 ^ e) (m' * 2 ^ e') := by
  rcases lt_trichotomy e e' with hlt | rfl | hgt
  · rw [Int.compare_eq_lt.2 hlt]
    exact orders_lt (h.lt_of_exponent h' hlt)
  · constructor
    · simp [mul_lt_mul_iff_left₀ (two_zpow_pos e), Nat.compare_eq_lt]
    · simp [(two_zpow_pos e).ne']
  · rw [Int.compare_eq_gt.2 hgt]
    exact orders_gt (h'.lt_of_exponent h hgt)

/-- Finite doubles compare as the numbers that they denote. -/
theorem Denotes.exists_compare (hx : Denotes x v) (hy : Denotes y w) :
    ∃ o, x.toModel.unpack.compare y.toModel.unpack = some o ∧ Orders o v w := by
  have hneg : ∀ {m : Nat}, 0 < m → ∀ e : Int, -((m : ℚ) * 2 ^ e) < 0 := fun hm e =>
    neg_lt_zero.2 (magnitude_pos hm e)
  rcases hx.unpack with ⟨s, hux, rfl⟩ | ⟨s, m, e, hm, hux, hcx, rfl⟩ <;>
    rcases hy.unpack with ⟨s', huy, rfl⟩ | ⟨s', m', e', hm', huy, hcy, rfl⟩ <;>
    rw [hux, huy]
  · exact ⟨.eq, rfl, by simp, by simp⟩
  · cases s' with
    | negative => exact ⟨.gt, rfl, orders_gt (hneg hm' e')⟩
    | positive => exact ⟨.lt, rfl, orders_lt (magnitude_pos hm' e')⟩
  · cases s with
    | negative => exact ⟨.lt, rfl, orders_lt (hneg hm e)⟩
    | positive => exact ⟨.gt, rfl, orders_gt (magnitude_pos hm e)⟩
  · cases s <;> cases s'
    · exact ⟨_, rfl, (hcx.orders hcy).neg⟩
    · exact ⟨.lt, rfl, orders_lt ((hneg hm e).trans (magnitude_pos hm' e'))⟩
    · exact ⟨.gt, rfl, orders_gt ((hneg hm' e').trans (magnitude_pos hm e))⟩
    · exact ⟨_, rfl, hcx.orders hcy⟩

theorem Denotes.lt_iff (hx : Denotes x v) (hy : Denotes y w) : x < y ↔ v < w := by
  obtain ⟨o, hcompare, horders⟩ := hx.exists_compare hy
  rw [← horders.lt_iff]
  have hlt : x < y ↔ (x.toModel.unpack.compare y.toModel.unpack == some .lt) = true := by
    show (decide (x.toModel < y.toModel) = true) ↔ _
    rw [decide_eq_true_eq]
    rfl
  rw [hlt, hcompare]
  simp

theorem Denotes.le_iff (hx : Denotes x v) (hy : Denotes y w) : x ≤ y ↔ v ≤ w := by
  obtain ⟨o, hcompare, horders⟩ := hx.exists_compare hy
  rw [le_iff_lt_or_eq, ← horders.lt_iff, ← horders.eq_iff]
  have hle : x ≤ y ↔ (x.toModel.unpack.compare y.toModel.unpack).any (·.isLE) = true := by
    show (decide (x.toModel ≤ y.toModel) = true) ↔ _
    rw [decide_eq_true_eq]
    rfl
  rw [hle, hcompare]
  cases o <;> simp

/-- A double between two finite doubles is finite. -/
theorem denotes_of_between {z : Float} (hx : Denotes x v) (hz : Denotes z w) (hxy : x ≤ y)
    (hyz : y ≤ z) : ∃ u, Denotes y u := by
  have hxy : (x.toModel.unpack.compare y.toModel.unpack).any (·.isLE) = true :=
    of_decide_eq_true hxy
  have hyz : (y.toModel.unpack.compare z.toModel.unpack).any (·.isLE) = true :=
    of_decide_eq_true hyz
  apply denotes_of_isFinite
  show y.toModel.unpack.isFinite = true
  cases hy : y.toModel.unpack with
  | zero _ | finite _ _ _ _ => rfl
  | notANumber =>
      rw [hy] at hxy
      rcases hx.unpack with ⟨s, hux, -⟩ | ⟨s, m, e, hm, hux, -, -⟩ <;> rw [hux] at hxy <;>
        exact absurd hxy (by simp [UnpackedFloat.compare])
  | infinity s =>
      rw [hy] at hxy hyz
      cases s with
      | negative =>
          rcases hx.unpack with ⟨s, hux, -⟩ | ⟨s, m, e, hm, hux, -, -⟩ <;> rw [hux] at hxy <;>
            exact absurd hxy (by simp [UnpackedFloat.compare])
      | positive =>
          rcases hz.unpack with ⟨s, huz, -⟩ | ⟨s, m, e, hm, huz, -, -⟩ <;> rw [huz] at hyz <;>
            exact absurd hyz (by simp [UnpackedFloat.compare])

/-! ## Uniqueness -/

/-- No two doubles denote the same number, the two zeros aside. -/
theorem Denotes.unique (hx : Denotes x v) (hy : Denotes y v) (hv : v ≠ 0) : x = y := by
  obtain ⟨o, hcompare, horders⟩ := hx.exists_compare hy
  obtain rfl := horders.eq_iff.2 rfl
  rcases hx.unpack with ⟨-, -, hzero⟩ | ⟨s, m, e, hm, hux, hcx, hvx⟩
  · exact absurd hzero hv
  rcases hy.unpack with ⟨-, -, hzero⟩ | ⟨s', m', e', hm', huy, hcy, hvy⟩
  · exact absurd hzero hv
  -- equal signs are left, and mantissas and exponents that compare as equal
  rw [hux, huy] at hcompare
  have hsame : s = s' ∧ m = m' ∧ e = e' := by
    cases s <;> cases s' <;> simp [UnpackedFloat.compare] at hcompare ⊢
    · exact hcompare.symm
    · exact hcompare.symm
  obtain ⟨rfl, rfl, rfl⟩ := hsame
  have hbits := (UnpackedFloat.unpack_inj_of_valid x.toModel.valid y.toModel.valid).1
    (hux.trans huy.symm)
  exact Float.toBits_inj.1 (UInt64.toBitVec_inj.1 hbits)

end SpikeMesh.Decimal
