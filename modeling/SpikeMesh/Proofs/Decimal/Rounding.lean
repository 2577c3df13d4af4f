import SpikeMesh.Proofs.Decimal.Value

set_option autoImplicit false

/-! # Rounding to doubles

An operation on doubles gives a mantissa, an exponent, and how much the mantissa lacks of the exact
result. The mantissa is shifted to the unit of the result (`unitExponent`), where two residual bits
keep what is shifted out (`StandsFor`), and it is rounded to the nearest whole one, from halfway to
the even one (`RoundsToEven`). Packed into the bits of a double it is unpacked as it was
(`unpack_pack`). So the double denotes the multiple of the unit that is nearest to the exact result
(`IsRounding`), unless that is so large that it becomes infinite. -/

namespace SpikeMesh.Decimal

open Float.Model (UnpackedFloat Format totalExponent)
open Float.Model.UnpackedFloat

variable {m : Nat} {e : Int} {q v : ℚ}

/-! ## Residual bits -/

/-- A mantissa with its two residual bits stands for a number: the first bit tells whether half of
    a unit is reached, the second one whether there is more. -/
structure StandsFor (em : ExtendedMantissa) (q : ℚ) : Prop where
  mantissa_le : (em.mantissa : ℚ) ≤ q
  lt_succ : q < em.mantissa + 1
  round_iff : em.roundBit = true ↔ (em.mantissa : ℚ) + 1 / 2 ≤ q
  sticky_iff : em.stickyBit = false ↔ q = em.mantissa ∨ q = em.mantissa + 1 / 2

theorem standsFor_exact (m : Nat) : StandsFor (.ofMantissaAndAccuracy m .exact) m := by
  constructor <;> simp [ExtendedMantissa.ofMantissaAndAccuracy]

/-- A bit that is shifted out of the mantissa tells whether half of the new unit is reached, and
    both residual bits become the one that tells whether there is more. -/
theorem StandsFor.shiftRightOne {em : ExtendedMantissa} (h : StandsFor em q) :
    StandsFor em.shiftRightOne (q / 2) := by
  obtain ⟨m, round, sticky⟩ := em
  obtain ⟨hle, hlt, hround, hsticky⟩ := h
  simp only at hle hlt hround hsticky
  have hexact : (round || sticky) = false ↔ q = m := by
    rw [Bool.or_eq_false_iff, hsticky, ← Bool.not_eq_true, hround]
    constructor
    · rintro ⟨hhalf, hq | hq⟩
      · exact hq
      · exact absurd hq.ge hhalf
    · rintro rfl
      exact ⟨by linarith, .inl rfl⟩
  have hm : (m : ℚ) = 2 * (m / 2 : Nat) + (m % 2 : Nat) := by
    exact_mod_cast (Nat.div_add_mod m 2).symm
  rcases Nat.mod_two_eq_zero_or_one m with hmod | hmod <;> rw [hmod] at hm <;> push_cast at hm
  · refine ⟨by simp only [ExtendedMantissa.shiftRightOne]; linarith,
      by simp only [ExtendedMantissa.shiftRightOne]; linarith, ?_, ?_⟩
    · simp only [ExtendedMantissa.shiftRightOne, hmod, bne_self_eq_false, Bool.false_eq_true,
        false_iff, not_le]
      linarith
    · simp only [ExtendedMantissa.shiftRightOne, hexact]
      constructor
      · intro hq
        exact .inl (by linarith)
      · rintro (hq | hq) <;> linarith
  · refine ⟨by simp only [ExtendedMantissa.shiftRightOne]; linarith,
      by simp only [ExtendedMantissa.shiftRightOne]; linarith, ?_, ?_⟩
    · simp only [ExtendedMantissa.shiftRightOne, hmod]
      simp
      linarith
    · simp only [ExtendedMantissa.shiftRightOne, hexact]
      constructor
      · intro hq
        exact .inr (by linarith)
      · rintro (hq | hq) <;> linarith

theorem StandsFor.shiftRight {em : ExtendedMantissa} (h : StandsFor em q) (k : Nat) :
    StandsFor (em >>> k) (q / 2 ^ k) := by
  show StandsFor (k.repeat ExtendedMantissa.shiftRightOne em) _
  induction k with
  | zero => rwa [pow_zero, div_one]
  | succ k ih =>
      rw [pow_succ, ← div_div]
      exact ih.shiftRightOne

/-- A number is rounded to the nearest whole one, and from halfway to the even one. -/
structure RoundsToEven (q : ℚ) (r : Nat) : Prop where
  lower : (r : ℚ) ≤ q + 1 / 2
  upper : q ≤ r + 1 / 2
  even_of_half : (r = q + 1 / 2 ∨ q = r + 1 / 2) → r % 2 = 0

theorem StandsFor.roundedMantissa {em : ExtendedMantissa} (h : StandsFor em q) :
    RoundsToEven q em.roundedMantissa := by
  obtain ⟨m, round, sticky⟩ := em
  obtain ⟨hle, hlt, hround, hsticky⟩ := h
  simp only at hle hlt hround hsticky
  cases round with
  | false =>
      have hhalf : q < m + 1 / 2 := by simpa using hround
      have hrounded : ExtendedMantissa.roundedMantissa ⟨m, false, sticky⟩ = m := by
        cases sticky <;> rfl
      rw [hrounded]
      exact ⟨by linarith, by linarith, by rintro (h | h) <;> linarith⟩
  | true =>
      have hhalf : (m : ℚ) + 1 / 2 ≤ q := hround.1 rfl
      cases sticky with
      | false =>
          have hq : q = m + 1 / 2 := (hsticky.1 rfl).resolve_left (by linarith)
          have hrounded : ExtendedMantissa.roundedMantissa ⟨m, true, false⟩ = m + m % 2 := rfl
          rw [hrounded]
          rcases Nat.mod_two_eq_zero_or_one m with hmod | hmod <;> rw [hmod]
          · exact ⟨by push_cast; linarith, by push_cast; linarith, fun _ => by omega⟩
          · exact ⟨by push_cast; linarith, by push_cast; linarith, fun _ => by omega⟩
      | true =>
          have hmore : q ≠ m + 1 / 2 := fun hq => absurd (hsticky.2 (.inr hq)) (by simp)
          have hrounded : ExtendedMantissa.roundedMantissa ⟨m, true, true⟩ = m + 1 := rfl
          rw [hrounded]
          refine ⟨by push_cast; linarith, by push_cast; linarith, ?_⟩
          push_cast
          rintro (h | h)
          · exact absurd (by linarith) hmore
          · linarith

theorem RoundsToEven.le_of_lt {r n : Nat} (h : RoundsToEven q r) (hlt : q < n + 1 / 2) :
    r ≤ n := by
  have hlower := h.lower
  have : (r : ℚ) < (n + 1 : Nat) := by push_cast; linarith
  exact Nat.lt_succ_iff.1 (by exact_mod_cast this)

theorem RoundsToEven.le_of_gt {r n : Nat} (h : RoundsToEven q r) (hgt : n < q + 1 / 2) :
    n ≤ r := by
  have hupper := h.upper
  have : (n : ℚ) < (r + 1 : Nat) := by push_cast; linarith
  exact Nat.lt_succ_iff.1 (by exact_mod_cast this)

/-- An even number wins over both its neighbours. -/
theorem RoundsToEven.eq_of_even {r n : Nat} (h : RoundsToEven q r) (hn : n % 2 = 0)
    (hle : n ≤ q + 1 / 2) (hge : q ≤ n + 1 / 2) : r = n := by
  rcases Nat.lt_trichotomy r n with hlt | heq | hgt
  · have hr : ((r + 1 : Nat) : ℚ) ≤ n := by exact_mod_cast hlt
    push_cast at hr
    have heven := h.even_of_half (.inr (le_antisymm h.upper (by linarith)))
    have hnext : n ≤ r + 1 := by
      have hupper := h.upper
      have : (n : ℚ) < (r + 2 : Nat) := by push_cast; linarith
      exact Nat.lt_succ_iff.1 (by exact_mod_cast this)
    omega
  · exact heq
  · have hr : ((n + 1 : Nat) : ℚ) ≤ r := by exact_mod_cast hgt
    push_cast at hr
    have heven := h.even_of_half (.inl (le_antisymm h.lower (by linarith)))
    have hnext : r ≤ n + 1 := h.le_of_lt (by push_cast; linarith)
    omega

/-! ## The unit of a number -/

theorem targetExponent_eq (total : Int) :
    Format.binary64.targetExponent total = max (total - 53) (-1074) := rfl

/-- The exponent to which a mantissa is rounded: the one that leaves 53 bits, but not below the
    least. -/
def unitExponent (m : Nat) (e : Int) : Int := Format.binary64.targetExponent (totalExponent m e)

theorem unitExponent_eq (m : Nat) (e : Int) :
    unitExponent m e = max (m.log2 + e - 52) (-1074) := by
  rw [unitExponent, targetExponent_eq, totalExponent]
  congr 1
  ring

/-- A number is rounded to a multiple of the last bit of the doubles of its size. -/
structure NearestMultiple (q : ℚ) (r : Nat) (t : Int) : Prop where
  least_le : -1074 ≤ t
  lt : q < 2 ^ (t + 53)
  normal : 2 ^ (t + 52) ≤ q ∨ t = -1074
  rounds : RoundsToEven (q / 2 ^ t) r

variable {r : Nat} {t : Int}

theorem two_zpow_add (t : Int) (k : Nat) : (2 : ℚ) ^ (t + k) = 2 ^ t * 2 ^ k := by
  rw [zpow_add₀ (by norm_num), zpow_natCast]

theorem NearestMultiple.le (h : NearestMultiple q r t) : r ≤ 2 ^ 53 := by
  have hlt : q / 2 ^ t < 2 ^ 53 := by
    rw [div_lt_iff₀' (two_zpow_pos t), ← two_zpow_add t 53]
    exact h.lt
  exact h.rounds.le_of_lt (by push_cast; linarith)

theorem NearestMultiple.mantissa_normal (h : NearestMultiple q r t) : 2 ^ 52 ≤ r ∨ t = -1074 := by
  refine h.normal.imp_left fun hle => ?_
  have hle : (2 : ℚ) ^ 52 ≤ q / 2 ^ t := by
    rw [le_div_iff₀' (two_zpow_pos t), ← two_zpow_add t 52]
    exact hle
  exact h.rounds.le_of_gt (by push_cast; linarith)

/-- A mantissa has 53 bits above its unit at most. -/
theorem succ_mul_le_unit (m : Nat) (e : Int) :
    ((m : ℚ) + 1) * 2 ^ e ≤ 2 ^ (unitExponent m e + 53) := by
  have hunit := unitExponent_eq m e
  have hm : (m : ℚ) + 1 ≤ 2 ^ (m.log2 + 1) := by exact_mod_cast Nat.succ_le_of_lt Nat.lt_log2_self
  calc ((m : ℚ) + 1) * 2 ^ e ≤ 2 ^ (m.log2 + 1) * 2 ^ e :=
        mul_le_mul_of_nonneg_right hm (two_zpow_pos e).le
    _ = 2 ^ (e + (m.log2 + 1 : Nat)) := by rw [two_zpow_add, mul_comm]
    _ ≤ 2 ^ (unitExponent m e + 53) := zpow_le_zpow_right₀ (by norm_num) (by omega)

/-- Unless its unit is the least one, a mantissa that is fine enough has all 53 bits. -/
theorem unit_le_mul (hfine : e ≤ unitExponent m e) :
    2 ^ (unitExponent m e + 52) ≤ (m : ℚ) * 2 ^ e ∨ unitExponent m e = -1074 := by
  have hunit := unitExponent_eq m e
  by_cases hleast : unitExponent m e = -1074
  · exact .inr hleast
  have hzero : m ≠ 0 := by
    rintro rfl
    rw [Nat.log2_zero] at hunit
    omega
  have hm : ((2 : ℚ) ^ m.log2) ≤ m := by exact_mod_cast Nat.log2_self_le hzero
  refine .inl ?_
  calc (2 : ℚ) ^ (unitExponent m e + 52) = 2 ^ (e + (m.log2 : Nat)) := by congr 1; omega
    _ = 2 ^ m.log2 * 2 ^ e := by rw [two_zpow_add, mul_comm]
    _ ≤ m * 2 ^ e := mul_le_mul_of_nonneg_right hm (two_zpow_pos e).le

theorem shiftToTargetExponent_eq (m : Nat) (e : Int) (acc : Accuracy) {k : Nat}
    (hk : (unitExponent m e - e).toNat = k) :
    shiftToTargetExponent Format.binary64 m e acc =
      (ExtendedMantissa.ofMantissaAndAccuracy m acc >>> k, e + k) := by
  rw [← hk]
  rfl

/-- A mantissa that is fine enough is brought to the unit of the number that it stands for. -/
theorem exists_shiftToTargetExponent {acc : Accuracy}
    (hq : StandsFor (.ofMantissaAndAccuracy m acc) (q / 2 ^ e)) (hfine : e ≤ unitExponent m e) :
    ∃ em, shiftToTargetExponent Format.binary64 m e acc = (em, unitExponent m e) ∧
      NearestMultiple q em.roundedMantissa (unitExponent m e) := by
  obtain ⟨k, hk⟩ := Int.le.dest hfine
  have hshift : shiftToTargetExponent Format.binary64 m e acc =
      (ExtendedMantissa.ofMantissaAndAccuracy m acc >>> k, unitExponent m e) := by
    rw [shiftToTargetExponent_eq m e acc (k := k) (by omega), hk]
  have hstands := hq.shiftRight k
  rw [div_div, ← two_zpow_add, hk] at hstands
  have hmantissa : (ExtendedMantissa.ofMantissaAndAccuracy m acc).mantissa = m := by
    cases acc with
    | exact => rfl
    | inexact o => cases o <;> rfl
  have hle := hq.mantissa_le
  have hlt := hq.lt_succ
  rw [hmantissa, le_div_iff₀ (two_zpow_pos e)] at hle
  rw [hmantissa, div_lt_iff₀ (two_zpow_pos e)] at hlt
  have hunit := unitExponent_eq m e
  exact ⟨_, hshift, by omega, hlt.trans_le (succ_mul_le_unit m e),
    (unit_le_mul hfine).imp_left fun h => h.trans hle, hstands.roundedMantissa⟩

/-- A rounded mantissa as a double; one of 54 bits is carried to the next exponent. -/
def carried (s : Sign) (r : Nat) (t : Int) : UnpackedFloat :=
  if h : r = 0 then .zero s
  else if r < 2 ^ 53 then .finite s r t (Nat.pos_of_ne_zero h)
  else .finite s (2 ^ 52) (t + 1) (by decide)

/-- Rounding gives the nearest multiple of the unit. -/
theorem exists_roundWithAccuracy (s : Sign) {acc : Accuracy}
    (hq : StandsFor (.ofMantissaAndAccuracy m acc) (q / 2 ^ e)) (hfine : e ≤ unitExponent m e) :
    ∃ r t, NearestMultiple q r t ∧ roundWithAccuracy Format.binary64 s m e acc = carried s r t := by
  obtain ⟨em, hshift, hnearest⟩ := exists_shiftToTargetExponent hq hfine
  refine ⟨_, _, hnearest, ?_⟩
  have hle := hnearest.le
  have hleast := hnearest.least_le
  generalize unitExponent m e = t at *
  rw [roundWithAccuracy, hshift]
  simp only
  generalize em.roundedMantissa = r at *
  have hunit := unitExponent_eq r t
  -- the second shift is over no bit, or over the one bit that rounding has added
  by_cases hlt : r < 2 ^ 53
  · have hnone : shiftToTargetExponent Format.binary64 r t .exact = (⟨r, false, false⟩, t) := by
      have hamount : (unitExponent r t - t).toNat = 0 := by
        have : r.log2 ≤ 52 := by
          by_cases hr : r = 0
          · simp [hr]
          · exact Nat.lt_succ_iff.1 ((Nat.log2_lt hr).2 hlt)
        omega
      rw [shiftToTargetExponent_eq r t .exact hamount, Nat.cast_zero, Int.add_zero]
      rfl
    simp only [hnone, carried, if_pos hlt]
  · obtain rfl : r = 2 ^ 53 := by omega
    have hone : shiftToTargetExponent Format.binary64 (2 ^ 53) t .exact =
        (⟨2 ^ 52, false, false⟩, t + 1) := by
      have hamount : (unitExponent (2 ^ 53) t - t).toNat = 1 := by
        rw [Nat.log2_two_pow] at hunit
        omega
      rw [shiftToTargetExponent_eq (2 ^ 53) t .exact hamount]
      rfl
    simp only [hone, carried]
    rfl

/-! ## Packing -/

theorem unpack_packComponents_normal (s : Sign) {E : BitVec 11} (M : BitVec 52)
    (hones : E.toNat ≠ 2047) (hzeros : E.toNat ≠ 0) :
    ∃ hm, unpack Format.binary64 (packComponents Format.binary64 s E M)
      = .finite s (2 ^ 52 + M.toNat) (E.toNat - 1075) hm := by
  have hones' : E ≠ -1#11 := fun h => hones (by rw [h]; rfl)
  have hzeros' : E ≠ 0#11 := fun h => hzeros (by rw [h]; rfl)
  refine ⟨by positivity, ?_⟩
  simp only [unpack, unpackExponent_packComponents, unpackMantissa_packComponents,
    unpackSign_packComponents, Sign.ofBitVec_toBitVec, if_neg hones', if_neg hzeros',
    toNat_one_append]
  rfl

theorem unpack_packComponents_subnormal (s : Sign) {M : BitVec 52} (hM : M.toNat ≠ 0) :
    ∃ hm, unpack Format.binary64 (packComponents Format.binary64 s 0#11 M)
      = .finite s M.toNat (-1074) hm := by
  have hM' : M ≠ 0#52 := fun h => hM (by rw [h]; rfl)
  refine ⟨Nat.pos_of_ne_zero hM, ?_⟩
  simp only [unpack, unpackExponent_packComponents, unpackMantissa_packComponents,
    unpackSign_packComponents, Sign.ofBitVec_toBitVec, dif_neg hM']
  rfl

/-- A mantissa and an exponent of the format are unpacked as they were packed. -/
theorem unpack_pack (s : Sign) (hm : 0 < m) (h : Canonical m e) :
    (Float.Model.pack (.finite s m e hm)).unpack = .finite s m e hm := by
  obtain ⟨hlt, hleast, hgreatest, hnormal⟩ := h
  show unpack Format.binary64 (pack Format.binary64 (.finite s m e hm)) = _
  have hbias : Format.binary64.exponentBias = 1023 := rfl
  have hbits : Format.binary64.mantissaBits = 53 := rfl
  have hbiased : (e + Format.binary64.exponentBias + (52 : Nat)).toNat = (e + 1075).toNat := by
    rw [hbias]
    congr 1
    omega
  simp only [pack, hbits, hbiased]
  rw [if_neg (by omega)]
  split
  · next hlog =>
      have hfull := (Nat.log2_eq_iff (k := 52) hm.ne').1 (by omega)
      have hE : (BitVec.ofNat 11 (e + 1075).toNat).toNat = (e + 1075).toNat := by
        rw [BitVec.toNat_ofNat, Nat.mod_eq_of_lt (by omega)]
      have hM : (BitVec.ofNat 52 m).toNat = m - 2 ^ 52 := by
        rw [BitVec.toNat_ofNat]
        omega
      obtain ⟨hm', hunpack⟩ := unpack_packComponents_normal s (BitVec.ofNat 52 m)
        (E := BitVec.ofNat 11 (e + 1075).toNat) (by omega) (by omega)
      have hmantissa : 2 ^ 52 + (BitVec.ofNat 52 m).toNat = m := by omega
      have hexponent : ((BitVec.ofNat 11 (e + 1075).toNat).toNat : Int) - 1075 = e := by omega
      simp only [hmantissa, hexponent] at hunpack
      exact hunpack
  · next hlog =>
      have hshort : m < 2 ^ 52 := by
        by_contra hge
        exact hlog (by rw [(Nat.log2_eq_iff (k := 52) hm.ne').2 ⟨by omega, by omega⟩])
      obtain rfl := hnormal.resolve_left (by omega)
      have hM : (BitVec.ofNat 52 m).toNat = m := by
        rw [BitVec.toNat_ofNat, Nat.mod_eq_of_lt hshort]
      obtain ⟨hm', hunpack⟩ := unpack_packComponents_subnormal s (M := BitVec.ofNat 52 m) (by omega)
      simp only [hM] at hunpack
      exact hunpack

theorem denotes_of_unpack_zero {x : Float} {s : Sign} (h : x.toModel.unpack = .zero s) :
    Denotes x 0 := by
  rw [Denotes, Binary64.ofFloat_eq_ofUnpacked, h]
  cases s <;> simp [Binary64.ofUnpacked, Binary64.value?, signed, isNegative]

theorem denotes_of_unpack_finite {x : Float} {s : Sign} {hm : 0 < m}
    (h : x.toModel.unpack = .finite s m e hm) :
    Denotes x (signed (isNegative s) (m * 2 ^ e)) := by
  rw [Denotes, Binary64.ofFloat_eq_ofUnpacked, h]
  rfl

theorem denotes_pack_zero (s : Sign) : Denotes ⟨.pack (.zero s)⟩ 0 :=
  denotes_of_unpack_zero (s := s) (by cases s <;> rfl)

/-- A rounded number that is not too large is the number that its double denotes. -/
theorem NearestMultiple.denotes (h : NearestMultiple q r t) (ht : t ≤ 970) (s : Sign) :
    Denotes ⟨.pack (carried s r t)⟩ (signed (isNegative s) (r * 2 ^ t)) := by
  have hleast := h.least_le
  rw [carried]
  split
  · next hr =>
      have hzero : signed (isNegative s) ((r : ℚ) * 2 ^ t) = 0 := by
        rw [hr]
        cases s <;> simp [signed, isNegative]
      rw [hzero]
      exact denotes_pack_zero s
  · next hr =>
      split
      · next hlt =>
          exact denotes_of_unpack_finite
            (unpack_pack s (Nat.pos_of_ne_zero hr) ⟨hlt, hleast, by omega, h.mantissa_normal⟩)
      · next hlt =>
          obtain rfl : r = 2 ^ 53 := by have := h.le; omega
          have hvalue : ((2 ^ 53 : Nat) : ℚ) * 2 ^ t = (2 ^ 52 : Nat) * 2 ^ (t + 1) := by
            rw [zpow_add_one₀ (by norm_num)]
            push_cast
            ring
          rw [hvalue]
          exact denotes_of_unpack_finite
            (unpack_pack s (by decide) ⟨by decide, by omega, by omega, .inl (Nat.le_refl _)⟩)

/-! ## Rounding -/

/-- A number that is not negative is rounded to the nearest double, and from halfway to the one
    with the even mantissa. -/
def IsRounding (q v : ℚ) : Prop := ∃ r t, NearestMultiple q r t ∧ v = r * 2 ^ t

/-- The numbers up to this one are rounded to finite doubles. -/
def largeBound : ℚ := 2 ^ 1000

theorem lt_largeBound {k : Nat} (hq : q < 2 ^ k) (hk : k ≤ 1000) : q < largeBound :=
  hq.trans_le (pow_le_pow_right₀ one_le_two hk)

theorem one_lt_largeBound : 1 < largeBound := lt_largeBound (k := 1) (by norm_num) (by decide)

theorem exists_denotes_roundWithAccuracy {acc : Accuracy}
    (hq : StandsFor (.ofMantissaAndAccuracy m acc) (q / 2 ^ e)) (hfine : e ≤ unitExponent m e)
    (hbound : q < largeBound) :
    ∃ v, Denotes ⟨.pack (roundWithAccuracy Format.binary64 .positive m e acc)⟩ v ∧
      IsRounding q v := by
  obtain ⟨r, t, hnearest, hround⟩ := exists_roundWithAccuracy .positive hq hfine
  have ht : t ≤ 970 := by
    rcases hnearest.normal with hnormal | hleast
    · have hlt := (zpow_lt_zpow_iff_right₀ (by norm_num : (1 : ℚ) < 2)).1
        (hnormal.trans_lt (show q < 2 ^ (1000 : Int) from hbound))
      omega
    · omega
  rw [hround]
  exact ⟨_, hnearest.denotes ht .positive, r, t, hnearest, rfl⟩

theorem log2_shiftLeft (hm : 0 < m) (k : Nat) : (m <<< k).log2 = m.log2 + k := by
  have hpos := Nat.two_pow_pos k
  rw [Nat.shiftLeft_eq, Nat.log2_eq_iff (Nat.mul_pos hm hpos).ne', Nat.add_right_comm, Nat.pow_add,
    Nat.pow_add]
  exact ⟨Nat.mul_le_mul_right _ (Nat.log2_self_le hm.ne'),
    Nat.mul_lt_mul_of_pos_right Nat.lt_log2_self hpos⟩

theorem exists_denotes_round (hm : 0 < m) (hbound : m * 2 ^ e < largeBound) :
    ∃ v, Denotes ⟨.pack (UnpackedFloat.round Format.binary64 .positive m e)⟩ v ∧
      IsRounding (m * 2 ^ e) v := by
  obtain ⟨k, hk⟩ : ∃ k, (e - unitExponent m e).toNat = k := ⟨_, rfl⟩
  have hround : UnpackedFloat.round Format.binary64 .positive m e =
      roundWithAccuracy Format.binary64 .positive (m <<< k) (e - k) .exact := by
    rw [← hk]
    rfl
  have hlog := log2_shiftLeft hm k
  have hunit := unitExponent_eq m e
  have hunit' := unitExponent_eq (m <<< k) (e - k)
  have hvalue : (m : ℚ) * 2 ^ e / 2 ^ (e - k) = (m <<< k : Nat) := by
    rw [div_eq_iff (two_zpow_pos _).ne', Nat.shiftLeft_eq, Nat.cast_mul, Nat.cast_pow, mul_assoc,
      mul_comm ((2 : Nat) ^ k : ℚ), Nat.cast_ofNat, ← two_zpow_add, Int.sub_add_cancel]
  rw [hround]
  refine exists_denotes_roundWithAccuracy ?_ (by omega) hbound
  rw [hvalue]
  exact standsFor_exact _

theorem IsRounding.nonneg (h : IsRounding q v) : 0 ≤ v := by
  obtain ⟨r, t, -, rfl⟩ := h
  exact mul_nonneg r.cast_nonneg (two_zpow_pos t).le

/-- Rounding changes a number that is not smaller than all doubles by no more than a half. -/
theorem IsRounding.between (h : IsRounding q v) (hq : 2 ^ (-1074 : Int) ≤ q) :
    q / 2 ≤ v ∧ v ≤ 2 * q := by
  obtain ⟨r, t, hnearest, rfl⟩ := h
  have hunit : 1 ≤ q / 2 ^ t := by
    rw [one_le_div₀ (two_zpow_pos t)]
    rcases hnearest.normal with hnormal | rfl
    · exact (zpow_le_zpow_right₀ (by norm_num) (by omega)).trans hnormal
    · exact hq
  have hlower := hnearest.rounds.lower
  have hupper := hnearest.rounds.upper
  have hvalue : q / 2 ^ t * 2 ^ t = q := div_mul_cancel₀ q (two_zpow_pos t).ne'
  constructor
  · calc q / 2 = q / 2 ^ t / 2 * 2 ^ t := by rw [div_mul_eq_mul_div, hvalue]
      _ ≤ r * 2 ^ t := mul_le_mul_of_nonneg_right (by linarith) (two_zpow_pos t).le
  · calc (r : ℚ) * 2 ^ t ≤ 2 * (q / 2 ^ t) * 2 ^ t :=
          mul_le_mul_of_nonneg_right (by linarith) (two_zpow_pos t).le
      _ = 2 * q := by rw [mul_assoc, hvalue]

/-- A number with a mantissa of 53 bits is not changed. -/
theorem IsRounding.eq_of_fits {k : Nat} (h : IsRounding (k * 2 ^ e) v) (hk : k < 2 ^ 53)
    (he : -1074 ≤ e) : v = k * 2 ^ e := by
  obtain ⟨r, t, hnearest, rfl⟩ := h
  have hte : t ≤ e := by
    rcases hnearest.normal with hnormal | hleast
    · have hlt : (2 : ℚ) ^ (t + 52) < 2 ^ (e + 53) := by
        refine hnormal.trans_lt ?_
        rw [show (2 : ℚ) ^ (e + 53) = 2 ^ e * 2 ^ 53 from two_zpow_add e 53, mul_comm]
        exact mul_lt_mul_of_pos_left (by exact_mod_cast hk) (two_zpow_pos e)
      have := (zpow_lt_zpow_iff_right₀ (by norm_num : (1 : ℚ) < 2)).1 hlt
      omega
    · omega
  obtain ⟨j, rfl⟩ := Int.le.dest hte
  -- the number is a whole multiple of the unit, so nothing is rounded
  have hwhole : (k : ℚ) * 2 ^ (t + j) / 2 ^ t = (k * 2 ^ j : Nat) := by
    rw [two_zpow_add, div_eq_iff (two_zpow_pos t).ne']
    push_cast
    ring
  have hrounds := hnearest.rounds
  rw [hwhole] at hrounds
  have hr : r = k * 2 ^ j :=
    Nat.le_antisymm (hrounds.le_of_lt (by linarith)) (hrounds.le_of_gt (by linarith))
  rw [hr, two_zpow_add]
  push_cast
  ring

end SpikeMesh.Decimal
