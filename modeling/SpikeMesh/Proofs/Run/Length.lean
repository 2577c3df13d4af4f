import SpikeMesh.Proofs.Decimal.Arithmetic
import SpikeMesh.Proofs.Text.Numbers
import SpikeMesh.Run.Duration

set_option autoImplicit false

/-! # Run lengths in time steps

A run length is multiplied to nanoseconds as a double, and the product must be near to a whole
number of them (`RunLength.IsNanoseconds`). A length that fits into 64 bits gives a number of time
steps that make up the length exactly, or it is rejected. One length above them is let through, that
of `2 ^ 64` nanoseconds: it is cut to the largest word, as are the nanoseconds of a time step that
is longer, so the run gets one time step although none fits (`RunLength.timeSteps_exact_iff`). -/

namespace SpikeMesh

open Decimal (Denotes Binary64)

variable {x ms : Float} {v : ℚ} {m d n r : Nat} {step k : UInt64}

/-! ## Whole numbers -/

/-- How far a number may be from a whole one. -/
def tolerance : ℚ := wholeTolerance / 2 ^ 60

theorem tolerance_nonneg : 0 ≤ tolerance := by norm_num [tolerance, wholeTolerance]

theorem tolerance_lt_half : tolerance < 1 / 2 := by norm_num [tolerance, wholeTolerance]

/-- The distance of a quotient from a whole number, as the numerators have it. -/
theorem abs_sub_le_tolerance_iff (hd : 0 < d) :
    |(m : ℚ) / d - n| ≤ tolerance ↔ ((m - n * d) + (n * d - m)) <<< 60 ≤ wholeTolerance * d := by
  have hd' : (0 : ℚ) < d := by exact_mod_cast hd
  have hdistance : |(m : ℚ) - n * d| = ((m - n * d) + (n * d - m) : Nat) := by
    rcases le_total m (n * d) with h | h
    · have h' : (m : ℚ) ≤ n * d := by exact_mod_cast h
      rw [Nat.sub_eq_zero_of_le h, Nat.zero_add, Nat.cast_sub h, abs_sub_comm,
        abs_of_nonneg (by linarith)]
      push_cast
      rfl
    · have h' : (n : ℚ) * d ≤ m := by exact_mod_cast h
      rw [Nat.sub_eq_zero_of_le h, Nat.add_zero, Nat.cast_sub h, abs_of_nonneg (by linarith)]
      push_cast
      rfl
  rw [div_sub' hd'.ne', abs_div, abs_of_pos hd', div_le_iff₀ hd', mul_comm (d : ℚ), hdistance,
    tolerance, div_mul_eq_mul_div, le_div_iff₀ (by norm_num), Nat.shiftLeft_eq]
  exact_mod_cast Iff.rfl

/-- The whole number that is found is the one that is near enough. -/
theorem nearestWhole?_eq_some_iff (hd : 0 < d) :
    nearestWhole? m d = some n ↔ |(m : ℚ) / d - n| ≤ tolerance := by
  rw [abs_sub_le_tolerance_iff hd, nearestWhole?]
  constructor
  · intro h
    split at h
    · exact absurd h (by simp)
    · next hnear =>
        rw [Option.some.injEq] at h
        rw [← h]
        exact Nat.le_of_not_lt hnear
  · intro h
    -- a number that is near enough is nearer than a half
    have hnearest : (2 * m + d) / (2 * d) = n := by
      rw [Nat.shiftLeft_eq, wholeTolerance] at h
      rw [Nat.div_eq_iff (by omega), Nat.mul_left_comm]
      generalize n * d = whole at *
      omega
    rw [hnearest, if_neg (Nat.not_lt.2 h)]

theorem abs_cast_sub_le_tolerance_iff : |(m : ℚ) - n| ≤ tolerance ↔ m = n := by
  constructor
  · intro h
    have hlt : |((m : Int) - n : ℚ)| < 1 := by
      push_cast
      linarith [tolerance_lt_half]
    have hzero := Int.abs_lt_one_iff.1 (show |(m : Int) - n| < 1 by exact_mod_cast hlt)
    omega
  · rintro rfl
    rw [sub_self, abs_zero]
    exact tolerance_nonneg

/-- A double counts as a number of nanoseconds if it is near enough to it. -/
theorem wholeNanoseconds?_eq_some_iff (hx : Denotes x v) (hv : 0 ≤ v) :
    wholeNanoseconds? x = some n ↔ |v - n| ≤ tolerance := by
  obtain ⟨negative, m, e, hdecode, rfl⟩ := hx.decode_of_nonneg hv
  rw [wholeNanoseconds?, hdecode]
  simp only
  split
  · next he =>
      obtain ⟨k, rfl⟩ := Int.eq_ofNat_of_zero_le he
      have hwhole : (m : ℚ) * 2 ^ (k : Int) = (m <<< k : Nat) := by
        rw [Nat.shiftLeft_eq, zpow_natCast]
        push_cast
        rfl
      rw [Option.some.injEq, hwhole, abs_cast_sub_le_tolerance_iff, Int.toNat_natCast]
  · next he =>
      obtain ⟨k, rfl⟩ : ∃ k : Nat, e = -k := ⟨(-e).toNat, by omega⟩
      have hquotient : (m : ℚ) * (2 : ℚ) ^ (-(k : Int)) = m / (1 <<< k : Nat) := by
        rw [Nat.shiftLeft_eq, zpow_neg, zpow_natCast, one_mul]
        push_cast
        rfl
      rw [hquotient, neg_neg, Int.toNat_natCast]
      exact nearestWhole?_eq_some_iff (by rw [Nat.shiftLeft_eq]; positivity)

theorem exists_denotes_of_wholeNanoseconds? (h : wholeNanoseconds? x = some n) :
    ∃ v, Denotes x v := by
  rw [wholeNanoseconds?] at h
  split at h
  · next hdecode => exact ⟨_, by rw [Denotes, hdecode]; rfl⟩
  · exact absurd h (by simp)
  · exact absurd h (by simp)

/-- A double that does not fit into 53 bits is an even number. -/
theorem lt_or_even_of_wholeNanoseconds? (h : wholeNanoseconds? x = some n) :
    n < 2 ^ 53 ∨ n % 2 = 0 := by
  rw [wholeNanoseconds?] at h
  split at h
  · next negative m e hdecode =>
      have hcanonical := Decimal.canonical_of_ofFloat hdecode
      have hm := hcanonical.mantissa_lt
      split at h
      · next he =>
          obtain ⟨k, rfl⟩ := Int.eq_ofNat_of_zero_le he
          rw [Option.some.injEq, Int.toNat_natCast, Nat.shiftLeft_eq] at h
          cases k with
          | zero => exact .inl (by omega)
          | succ k => exact .inr (by rw [← h, Nat.pow_succ, ← Nat.mul_assoc, Nat.mul_mod_left])
      · have hd : 0 < 1 <<< (-e).toNat := by rw [Nat.shiftLeft_eq]; positivity
        have hnear := (nearestWhole?_eq_some_iff hd).1 h
        have hle : (m : ℚ) / (1 <<< (-e).toNat : Nat) ≤ m :=
          div_le_self m.cast_nonneg (by exact_mod_cast hd)
        have hn : (n : ℚ) < (m + 1 : Nat) := by
          push_cast
          linarith [(abs_le.1 hnear).1, tolerance_lt_half]
        exact .inl (lt_of_le_of_lt (Nat.lt_succ_iff.1 (by exact_mod_cast hn)) hm)
  · exact absurd h (by simp)
  · exact absurd h (by simp)

/-! ## Lengths -/

namespace RunLength

/-- A length in milliseconds is a duration of some whole number of nanoseconds. -/
structure IsNanoseconds (ms : Float) (n : Nat) : Prop where
  finite : ms.isFinite = true
  not_negative : ¬ ms < 0.0
  near : ∃ v, Denotes (ms * 1000000.0) v ∧ |v - n| ≤ tolerance

theorem denotes_million : Denotes 1000000.0 1000000 := by
  have hdecode : Binary64.ofFloat 1000000.0 = .finite false 8589934592000000 (-33) := by
    decide +kernel
  rw [Denotes, hdecode]
  norm_num [Binary64.value?, Decimal.signed]

theorem product_nonneg (hfinite : ms.isFinite = true) (hnegative : ¬ ms < 0.0)
    (h : Denotes (ms * 1000000.0) v) : 0 ≤ v := by
  obtain ⟨w, hw⟩ := Decimal.denotes_of_isFinite hfinite
  refine hw.mul_nonneg denotes_million ?_ (by norm_num) h
  rw [hw.lt_iff Decimal.denotes_zero] at hnegative
  exact not_lt.1 hnegative

theorem IsNanoseconds.wholeNanoseconds? (h : IsNanoseconds ms n) :
    wholeNanoseconds? (ms * 1000000.0) = some n := by
  obtain ⟨hfinite, hnegative, v, hv, hnear⟩ := h
  exact (wholeNanoseconds?_eq_some_iff hv (product_nonneg hfinite hnegative hv)).2 hnear

theorem IsNanoseconds.unique {n' : Nat} (h : IsNanoseconds ms n) (h' : IsNanoseconds ms n') :
    n = n' :=
  Option.some.inj (h.wholeNanoseconds?.symm.trans h'.wholeNanoseconds?)

/-- The nanoseconds of a length that is not rejected, cut to the largest word. -/
theorem nanoseconds_eq_ok_iff : nanoseconds ms = .ok r ↔
    ∃ n, IsNanoseconds ms n ∧ n ≤ UInt64.size ∧ r = min n (UInt64.size - 1) := by
  constructor
  · intro h
    rw [nanoseconds] at h
    split at h
    · exact absurd h (by simp)
    · next hduration =>
        simp only [Bool.or_eq_true, Bool.not_eq_true', decide_eq_true_eq, not_or,
          Bool.not_eq_false] at hduration
        split at h
        · exact absurd h (by simp)
        · next n hwhole =>
            split at h
            · exact absurd h (by simp)
            · next hsize =>
                obtain ⟨v, hv⟩ := exists_denotes_of_wholeNanoseconds? hwhole
                have hnonneg := product_nonneg hduration.1 hduration.2 hv
                have hnear := (wholeNanoseconds?_eq_some_iff hv hnonneg).1 hwhole
                rw [Except.ok.injEq, Amount.toNat_clamp] at h
                exact ⟨n, ⟨hduration.1, hduration.2, v, hv, hnear⟩, Nat.not_lt.1 hsize, h.symm⟩
  · rintro ⟨n, hn, hsize, rfl⟩
    have hduration : ¬ (!ms.isFinite || decide (ms < 0.0)) = true := by
      simp [hn.finite, hn.not_negative]
    rw [nanoseconds, if_neg hduration, hn.wholeNanoseconds?]
    simp only [if_neg (Nat.not_lt.2 hsize), Amount.toNat_clamp]

/-- No length is the largest word, which is odd and has more than 53 bits. -/
theorem IsNanoseconds.ne_largest (h : IsNanoseconds ms n) : n ≠ UInt64.size - 1 := by
  have := lt_or_even_of_wholeNanoseconds? h.wholeNanoseconds?
  have hsize : UInt64.size = 2 ^ 64 := rfl
  omega

/-! ## Time steps -/

/-- Whether a number of nanoseconds and a time step of `s` nanoseconds go together once both are cut
    to the largest word. -/
def Fits (n s : Nat) : Prop := n < UInt64.size ∧ s ∣ n ∨ n = UInt64.size ∧ UInt64.size ≤ s

/-- A time step is a whole number of microseconds, and the largest word is odd. -/
theorem not_dvd_largest {s : Nat} (hs : 1000 ∣ s) : ¬ s ∣ UInt64.size - 1 := fun h =>
  absurd (hs.trans h) (by decide)

variable {s : Nat}

theorem cut_mod_eq_zero_iff (hs : 1000 ∣ s) (hn : n ≤ UInt64.size) (hne : n ≠ UInt64.size - 1) :
    min n (UInt64.size - 1) % min s (UInt64.size - 1) = 0 ↔ Fits n s := by
  have hsize : 0 < UInt64.size := by decide
  rw [Fits]
  rcases Nat.lt_or_ge s UInt64.size with hlt | hge
  · rw [Nat.min_eq_left (Nat.le_sub_one_of_lt hlt), ← Nat.dvd_iff_mod_eq_zero]
    rcases hn.lt_or_eq with hn | rfl
    · rw [Nat.min_eq_left (Nat.le_sub_one_of_lt hn)]
      simp only [hn, hn.ne, true_and, false_and, or_false]
    · rw [Nat.min_eq_right (Nat.sub_le _ _)]
      simp only [not_dvd_largest hs, Nat.lt_irrefl, Nat.not_le.2 hlt, false_and, and_false,
        or_false]
  · rw [Nat.min_eq_right (Nat.le_trans (Nat.sub_le _ _) hge)]
    rcases hn.lt_or_eq with hn | rfl
    · have hless : n < UInt64.size - 1 := by omega
      rw [Nat.min_eq_left hless.le, Nat.mod_eq_of_lt hless]
      simp only [hn, hn.ne, true_and, false_and, or_false]
      exact ⟨fun h => h ▸ Nat.dvd_zero s, fun h => Nat.eq_zero_of_dvd_of_lt h (by omega)⟩
    · rw [Nat.min_eq_right (Nat.sub_le _ _), Nat.mod_self]
      simp only [hge, and_self, or_true]

/-- What is left over is the same for a time step that is not cut. -/
theorem cut_mod_eq (hn : n ≤ UInt64.size) (hne : n ≠ UInt64.size - 1) (h : ¬ Fits n s) :
    min n (UInt64.size - 1) % min s (UInt64.size - 1) = min n (UInt64.size - 1) % s := by
  rcases Nat.lt_or_ge s UInt64.size with hlt | hge
  · rw [Nat.min_eq_left (Nat.le_sub_one_of_lt hlt)]
  · have hless : n < UInt64.size - 1 := by
      rcases hn.lt_or_eq with hn | rfl
      · omega
      · exact absurd (.inr ⟨rfl, hge⟩) h
    rw [Nat.min_eq_right (Nat.le_trans (Nat.sub_le _ _) hge), Nat.min_eq_left hless.le,
      Nat.mod_eq_of_lt hless, Nat.mod_eq_of_lt (by omega)]

/-- The number of time steps that go into a number of nanoseconds. -/
theorem cut_div_eq_iff {q : Nat} (hpos : 0 < s) (hne : n ≠ UInt64.size - 1) (h : Fits n s) :
    min n (UInt64.size - 1) / min s (UInt64.size - 1) = q ↔
      n < UInt64.size ∧ q * s = n ∨ n = UInt64.size ∧ UInt64.size ≤ s ∧ q = 1 := by
  have hsize : 0 < UInt64.size - 1 := by decide
  rcases h with ⟨hn, q', rfl⟩ | ⟨rfl, hge⟩
  · have hquotient : min (s * q') (UInt64.size - 1) / min s (UInt64.size - 1) = q' := by
      rw [Nat.min_eq_left (Nat.le_sub_one_of_lt hn)]
      rcases Nat.lt_or_ge s UInt64.size with hlt | hge
      · rw [Nat.min_eq_left (Nat.le_sub_one_of_lt hlt), Nat.mul_div_cancel_left _ hpos]
      · -- a time step that long goes into no shorter length but the empty one
        obtain rfl : q' = 0 := by
          by_contra hq
          have := Nat.le_mul_of_pos_right s (Nat.pos_of_ne_zero hq)
          omega
        rw [Nat.mul_zero, Nat.zero_div]
    rw [hquotient, Nat.mul_comm q, Nat.mul_right_inj hpos.ne']
    simp only [hn, hn.ne, true_and, false_and, or_false, eq_comm]
  · rw [Nat.min_eq_right (Nat.sub_le _ _), Nat.min_eq_right (Nat.le_trans (Nat.sub_le _ _) hge),
      Nat.div_self hsize]
    simp only [Nat.lt_irrefl, hge, true_and, false_and, false_or, eq_comm]

/-- The time steps of a number of nanoseconds. -/
theorem boundedSteps_of_isNanoseconds (hstep : 1 ≤ step.toNat) (h : IsNanoseconds ms n)
    (hn : n ≤ UInt64.size) :
    (Fits n (step.toNat * 1000) ∧ boundedSteps ms step = .ok (UInt64.ofNat
      (min n (UInt64.size - 1) / min (step.toNat * 1000) (UInt64.size - 1)))) ∨
    (¬ Fits n (step.toNat * 1000) ∧ boundedSteps ms step = .error
      (.fractionalStep ms step (min n (UInt64.size - 1) % (step.toNat * 1000)))) := by
  have hns : nanoseconds ms = .ok (min n (UInt64.size - 1)) :=
    nanoseconds_eq_ok_iff.2 ⟨n, h, hn, rfl⟩
  have hzero : ¬ (step == 0) = true := by
    rw [beq_iff_eq, ← UInt64.toNat_inj]
    exact Nat.pos_iff_ne_zero.1 hstep
  have hfits := cut_mod_eq_zero_iff (Nat.dvd_mul_left 1000 step.toNat) hn h.ne_largest
  rw [boundedSteps, if_neg hzero, hns]
  simp only [Amount.toNat_scale, Except.bind, bind, pure, beq_iff_eq]
  by_cases hmod : Fits n (step.toNat * 1000)
  · rw [if_pos (hfits.2 hmod)]
    exact .inl ⟨hmod, rfl⟩
  · rw [if_neg (mt hfits.1 hmod), cut_mod_eq hn h.ne_largest hmod]
    exact .inr ⟨hmod, rfl⟩

theorem nanoseconds_eq_error {e : TimingError} (h : nanoseconds ms = .error e) :
    e = .notDuration ms ∨ e = .fractionalNanosecond ms := by
  rw [nanoseconds] at h
  split at h
  · exact .inl (Except.error.inj h).symm
  · split at h
    · exact .inr (Except.error.inj h).symm
    · split at h
      · exact .inr (Except.error.inj h).symm
      · exact absurd h (by simp)

/-- The causes for which a length is rejected. -/
theorem boundedSteps_eq_error {e : TimingError} (h : boundedSteps ms step = .error e) :
    e = .zeroStep ∨ e = .notDuration ms ∨ e = .fractionalNanosecond ms ∨
      ∃ r, e = .fractionalStep ms step r := by
  rw [boundedSteps] at h
  split at h
  · exact .inl (Except.error.inj h).symm
  · cases hns : nanoseconds ms with
    | error e' =>
        rw [hns] at h
        obtain rfl : e' = e := Except.error.inj h
        rcases nanoseconds_eq_error hns with rfl | rfl
        · exact .inr (.inl rfl)
        · exact .inr (.inr (.inl rfl))
    | ok ns =>
        rw [hns] at h
        simp only [Except.bind, bind] at h
        split at h
        · exact absurd h (by simp [pure, Except.pure])
        · exact .inr (.inr (.inr ⟨_, (Except.error.inj h).symm⟩))

/-- What is accepted, or left over, is a number of nanoseconds that fits into 64 bits or is just one
    too large. -/
theorem exists_isNanoseconds (h : (∃ k, boundedSteps ms step = .ok k) ∨
    ∃ r, boundedSteps ms step = .error (.fractionalStep ms step r)) :
    ∃ n, IsNanoseconds ms n ∧ n ≤ UInt64.size := by
  cases hns : nanoseconds ms with
  | ok r =>
      obtain ⟨n, hn, hsize, -⟩ := nanoseconds_eq_ok_iff.1 hns
      exact ⟨n, hn, hsize⟩
  | error e =>
      rw [boundedSteps, hns] at h
      rcases nanoseconds_eq_error hns with rfl | rfl <;> split at h <;>
        simp [bind, Except.bind] at h

/-- The time steps of a length fill it, or the length is `2 ^ 64` nanoseconds and the only time step
    is no shorter. -/
theorem boundedSteps_eq_ok_iff (hstep : 1 ≤ step.toNat) : boundedSteps ms step = .ok k ↔
    ∃ n, IsNanoseconds ms n ∧ (n < UInt64.size ∧ k.toNat * (step.toNat * 1000) = n ∨
      n = UInt64.size ∧ UInt64.size ≤ step.toNat * 1000 ∧ k.toNat = 1) := by
  have hpos : 0 < step.toNat * 1000 := by omega
  have hword : ∀ {a b}, UInt64.ofNat (min a (UInt64.size - 1) / b) = k ↔
      min a (UInt64.size - 1) / b = k.toNat := by
    intro a b
    have hlt : min a (UInt64.size - 1) / b < UInt64.size :=
      lt_of_le_of_lt ((Nat.div_le_self _ _).trans (Nat.min_le_right _ _)) (by decide)
    rw [← UInt64.toNat_inj, UInt64.toNat_ofNat', Nat.mod_eq_of_lt hlt]
  constructor
  · intro h
    obtain ⟨n, hlength, hn⟩ := exists_isNanoseconds (.inl ⟨k, h⟩)
    rcases boundedSteps_of_isNanoseconds hstep hlength hn with ⟨hfits, hsteps⟩ | ⟨-, hsteps⟩ <;>
      rw [hsteps] at h
    · rw [Except.ok.injEq, hword, cut_div_eq_iff hpos hlength.ne_largest hfits] at h
      exact ⟨n, hlength, h⟩
    · exact absurd h (by simp)
  · rintro ⟨n, hlength, h⟩
    have hfits : Fits n (step.toNat * 1000) := by
      rcases h with ⟨hn, hk⟩ | ⟨hn, hlong, -⟩
      · exact .inl ⟨hn, k.toNat, by rw [← hk, Nat.mul_comm]⟩
      · exact .inr ⟨hn, hlong⟩
    have hn : n ≤ UInt64.size := by
      rcases h with ⟨hn, -⟩ | ⟨hn, -, -⟩
      · exact hn.le
      · exact hn.le
    have hsteps := ((boundedSteps_of_isNanoseconds hstep hlength hn).resolve_right
      fun h => h.1 hfits).2
    rw [hsteps, Except.ok.injEq, hword, cut_div_eq_iff hpos hlength.ne_largest hfits]
    exact h

theorem boundedSteps_eq_fractionalStep_iff (hstep : 1 ≤ step.toNat) :
    boundedSteps ms step = .error (.fractionalStep ms step r) ↔
    ∃ n, IsNanoseconds ms n ∧ n ≤ UInt64.size ∧ ¬ Fits n (step.toNat * 1000) ∧
      r = min n (UInt64.size - 1) % (step.toNat * 1000) := by
  constructor
  · intro h
    obtain ⟨n, hlength, hn⟩ := exists_isNanoseconds (.inr ⟨r, h⟩)
    rcases boundedSteps_of_isNanoseconds hstep hlength hn with ⟨-, hsteps⟩ | ⟨hfits, hsteps⟩ <;>
      rw [hsteps] at h
    · exact absurd h (by simp)
    · simp only [Except.error.injEq, TimingError.fractionalStep.injEq, true_and] at h
      exact ⟨n, hlength, hn, hfits, h.symm⟩
  · rintro ⟨n, hlength, hn, hfits, rfl⟩
    exact ((boundedSteps_of_isNanoseconds hstep hlength hn).resolve_left fun h => hfits h.1).2

/-! ## Messages -/

theorem getLast?_toList_append (a : String) {b : String} {c : Char}
    (h : b.toList.getLast? = some c) : (a ++ b).toList.getLast? = some c := by
  rw [String.toList_append, List.getLast?_append, h, Option.some_or]

/-- The last characters of the messages. -/
theorem getLast?_reason (e : TimingError) : e.reason.toList.getLast? = some
    (match e with
    | .zeroStep => 'e'
    | .notDuration _ => 'n'
    | .fractionalNanosecond _ => 's'
    | .fractionalStep .. => ')') := by
  cases e with
  | zeroStep => decide
  | notDuration ms | fractionalNanosecond ms | fractionalStep ms step r =>
      exact getLast?_toList_append _ (by simp)

/-- The message on a remainder is no other one, and names the remainder. -/
theorem eq_fractionalStep_of_reason {e : TimingError} (h : boundedSteps ms step = .error e)
    (hreason : e.reason = (TimingError.fractionalStep ms step r).reason) :
    e = .fractionalStep ms step r := by
  have hlast := congrArg (·.toList.getLast?) hreason
  simp only [getLast?_reason, Option.some.injEq] at hlast
  rcases boundedSteps_eq_error h with rfl | rfl | rfl | ⟨r', rfl⟩
  · exact absurd hlast (by simp)
  · exact absurd hlast (by simp)
  · exact absurd hlast (by simp)
  · have hnatural : Text.natural r' = Text.natural r := by
      simpa [TimingError.reason] using hreason
    rw [Text.natural_injective hnatural]

theorem timeSteps_bounded_eq_ok_iff :
    timeSteps (.bounded ms) step = .ok (some k) ↔ boundedSteps ms step = .ok k := by
  rw [timeSteps]
  cases boundedSteps ms step with
  | ok steps => simp
  | error e => simp

theorem timeSteps_bounded_eq_fractionalStep_iff :
    timeSteps (.bounded ms) step
        = .error (.invalidTiming (TimingError.fractionalStep ms step r).reason) ↔
      boundedSteps ms step = .error (.fractionalStep ms step r) := by
  constructor
  · intro h
    cases hsteps : boundedSteps ms step with
    | ok steps =>
        simp only [timeSteps, hsteps] at h
        exact absurd h (by simp)
    | error e =>
        simp only [timeSteps, hsteps, Except.error.injEq, PipelineError.invalidTiming.injEq] at h
        rw [eq_fractionalStep_of_reason hsteps h]
  · intro h
    simp only [timeSteps, h]

/-! ## Exactness -/

/-- The whole number nearest to a double, a half going up. -/
def RoundsTo (x : Float) (n : Nat) : Prop :=
  ∃ v, Denotes x v ∧ (n : ℚ) - 1 / 2 ≤ v ∧ v < n + 1 / 2

theorem RoundsTo.eq_of_isNanoseconds {n' : Nat} (h : RoundsTo (ms * 1000000.0) n)
    (h' : IsNanoseconds ms n') : n = n' := by
  obtain ⟨v, hv, hlower, hupper⟩ := h
  obtain ⟨v', hv', hnear⟩ := h'.near
  obtain rfl := hv.value_eq hv'
  obtain ⟨hlower', hupper'⟩ := abs_le.1 hnear
  have hhalf := tolerance_lt_half
  have hle : (n : ℚ) < (n' + 1 : Nat) := by push_cast; linarith
  have hge : (n' : ℚ) < (n + 1 : Nat) := by push_cast; linarith
  exact Nat.le_antisymm (Nat.lt_succ_iff.1 (by exact_mod_cast hle))
    (Nat.lt_succ_iff.1 (by exact_mod_cast hge))

/-- **The time steps of a bounded run make up its length exactly, unless that is `2 ^ 64`
    nanoseconds.** A length that is accepted is a whole number of nanoseconds, up to the tolerance,
    and of time steps; only `2 ^ 64` nanoseconds count as one time step of at least that length,
    which they never are. A length is rejected for a remainder exactly if it is a whole number of
    nanoseconds and does not fit, and then it is no multiple of the time step. -/
theorem timeSteps_exact_iff (hstep : 1 ≤ step.toNat) :
    (∀ k, timeSteps (.bounded ms) step = .ok (some k) ↔
      ∃ n, IsNanoseconds ms n ∧ (n < UInt64.size ∧ k.toNat * (step.toNat * 1000) = n ∨
        n = UInt64.size ∧ UInt64.size ≤ step.toNat * 1000 ∧ k.toNat = 1)) ∧
    (∀ r, timeSteps (.bounded ms) step
        = .error (.invalidTiming (TimingError.fractionalStep ms step r).reason) ↔
      ∃ n, IsNanoseconds ms n ∧ n ≤ UInt64.size ∧ ¬ Fits n (step.toNat * 1000) ∧
        r = min n (UInt64.size - 1) % (step.toNat * 1000)) ∧
    ∀ n, RoundsTo (ms * 1000000.0) n →
      (∀ k, timeSteps (.bounded ms) step = .ok (some k) →
        (k.toNat * (step.toNat * 1000) = n ↔ n ≠ UInt64.size)) ∧
      ∀ r, timeSteps (.bounded ms) step
          = .error (.invalidTiming (TimingError.fractionalStep ms step r).reason) →
        ¬ step.toNat * 1000 ∣ n := by
  have hmicro : 1000 ∣ step.toNat * 1000 := Nat.dvd_mul_left 1000 _
  have hsize : ¬ 1000 ∣ UInt64.size := by decide
  simp only [timeSteps_bounded_eq_ok_iff, timeSteps_bounded_eq_fractionalStep_iff]
  refine ⟨fun _ => boundedSteps_eq_ok_iff hstep, fun _ => boundedSteps_eq_fractionalStep_iff hstep,
    fun n hn => ⟨fun k hk => ?_, fun r hr => ?_⟩⟩
  · obtain ⟨n', hlength, hsteps⟩ := (boundedSteps_eq_ok_iff hstep).1 hk
    obtain rfl := hn.eq_of_isNanoseconds hlength
    rcases hsteps with ⟨hlt, hfill⟩ | ⟨rfl, -, hone⟩
    · exact ⟨fun _ => hlt.ne, fun _ => hfill⟩
    · rw [hone, Nat.one_mul]
      exact ⟨fun h => absurd (h ▸ hmicro) hsize, fun h => absurd rfl h⟩
  · obtain ⟨n', hlength, hle, hfits, -⟩ := (boundedSteps_eq_fractionalStep_iff hstep).1 hr
    obtain rfl := hn.eq_of_isNanoseconds hlength
    intro hdvd
    rcases hle.lt_or_eq with hlt | rfl
    · exact hfits (.inl ⟨hlt, hdvd⟩)
    · exact hsize (hmicro.trans hdvd)

theorem isNanoseconds_fifty : IsNanoseconds 50.0 50000000 := by
  have hdecode : Binary64.ofFloat (50.0 * 1000000.0) = .finite false 6710886400000000 (-27) := by
    decide +kernel
  refine ⟨by decide +kernel, by decide +kernel, 50000000, ?_, ?_⟩
  · rw [Denotes, hdecode]
    norm_num [Binary64.value?, Decimal.signed]
  · norm_num [tolerance_nonneg]

theorem timeSteps_fifty : 1 ≤ (100 : UInt64).toNat ∧
    timeSteps (.bounded 50.0) 100 = .ok (some 500) ∧
    ∀ n, RoundsTo (50.0 * 1000000.0) n → (500 * (100 * 1000) = n ↔ n ≠ UInt64.size) := by
  have hstep : 1 ≤ (100 : UInt64).toNat := by decide
  have hsteps := ((timeSteps_exact_iff hstep).1 500).2
    ⟨50000000, isNanoseconds_fifty, .inl ⟨by decide, by decide⟩⟩
  exact ⟨hstep, hsteps, fun n hn => ((timeSteps_exact_iff hstep).2.2 n hn).1 500 hsteps⟩

/-- The longest length that is let through has `2 ^ 64` nanoseconds. -/
theorem denotes_longest : Denotes (18446744073709.55078125 * 1000000.0) (2 ^ 64 : Nat) := by
  have hdecode : Binary64.ofFloat (18446744073709.55078125 * 1000000.0)
      = .finite false 4503599627370496 12 := by decide +kernel
  rw [Denotes, hdecode]
  norm_num [Binary64.value?, Decimal.signed]

/-- `2 ^ 64` nanoseconds are accepted as one time step of 384 nanoseconds more. -/
theorem timeSteps_longest :
    1 ≤ (18446744073709552 : UInt64).toNat ∧
    RoundsTo (18446744073709.55078125 * 1000000.0) (2 ^ 64) ∧
    timeSteps (.bounded 18446744073709.55078125) 18446744073709552 = .ok (some 1) ∧
    (1 : UInt64).toNat * ((18446744073709552 : UInt64).toNat * 1000) = 2 ^ 64 + 384 := by
  have hlength : IsNanoseconds 18446744073709.55078125 (2 ^ 64) :=
    ⟨by decide +kernel, by decide +kernel, _, denotes_longest,
      by rw [sub_self, abs_zero]; exact tolerance_nonneg⟩
  refine ⟨by decide, ⟨_, denotes_longest, by norm_num, by norm_num⟩, ?_, by decide⟩
  exact timeSteps_bounded_eq_ok_iff.2 ((boundedSteps_eq_ok_iff (by decide)).2
    ⟨_, hlength, .inr ⟨rfl, by decide, rfl⟩⟩)

end RunLength

end SpikeMesh
