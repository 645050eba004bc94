/-
GoRestApi.Ieee.Rounding — what the rounding of Lean's logical model of
floating-point numbers does to a positive number, for any format.

`round` shifts a mantissa to the exponent of the format, rounds it to the
nearest even integer and, if that has carried into one more bit, shifts once
more. The result is a point of the grid of the format between whose neighbours
the number lies: it is at least every point of the grid that is at most the
number, and at most every point that is at least the number (`round_spec`).
So a number on the grid is kept, and rounding is monotone; how ties are broken
is not needed here.
-/
import Mathlib

namespace GoRestApi.Ieee

open Float.Model Float.Model.UnpackedFloat

/-! ## Points of the grid -/

/-- The number with a mantissa and an exponent. -/
def dyadic (m : ℕ) (e : ℤ) : ℚ := m * 2 ^ e

theorem dyadic_pos {m : ℕ} (hm : 0 < m) (e : ℤ) : 0 < dyadic m e := by
  unfold dyadic
  positivity

/-- Bits can be moved from the exponent to the mantissa. -/
theorem dyadic_shift (m k : ℕ) (e : ℤ) : dyadic (m * 2 ^ k) e = dyadic m (e + k) := by
  unfold dyadic
  rw [zpow_add₀ two_ne_zero, zpow_natCast]
  push_cast
  ring

theorem dyadic_le_dyadic {m n : ℕ} {e : ℤ} : dyadic m e ≤ dyadic n e ↔ m ≤ n := by
  unfold dyadic
  rw [mul_le_mul_iff_left₀ (by positivity), Nat.cast_le]

theorem dyadic_lt_dyadic {m n : ℕ} {e : ℤ} : dyadic m e < dyadic n e ↔ m < n := by
  rw [← not_le, dyadic_le_dyadic, not_le]

theorem dyadic_mono_exponent {e f : ℤ} (m : ℕ) (h : e ≤ f) : dyadic m e ≤ dyadic m f := by
  unfold dyadic
  gcongr
  exact one_le_two

/-- A number the format has, but for the upper end of its exponents. -/
structure OnGrid (S : Format) (m : ℕ) (e : ℤ) : Prop where
  mantissa_lt : m < 2 ^ S.mantissaBits
  exponent_ge : S.minExponent ≤ e

/-- In the form that packing keeps: with its leading bit set, or subnormal. -/
structure Canonical (S : Format) (m : ℕ) (e : ℤ) : Prop extends OnGrid S m e where
  leading : 2 ^ S.mantissaBitsWithoutImplicit ≤ m ∨ e = S.minExponent

theorem two_pow_mantissaBits (S : Format) :
    2 ^ S.mantissaBits = 2 * 2 ^ S.mantissaBitsWithoutImplicit := by
  rw [Format.mantissaBits, pow_add, pow_one]

/-- Below a leading bit there are only smaller numbers. -/
theorem OnGrid.lt_of_exponent_lt {S : Format} {a m : ℕ} {f e : ℤ} (h : OnGrid S a f) (hfe : f < e)
    (hm : 2 ^ S.mantissaBitsWithoutImplicit ≤ m) : dyadic a f < dyadic m e := by
  calc dyadic a f < dyadic (2 ^ S.mantissaBits) f := dyadic_lt_dyadic.mpr h.mantissa_lt
    _ = dyadic (2 ^ S.mantissaBitsWithoutImplicit) (f + 1) := by
        rw [two_pow_mantissaBits, mul_comm]
        exact_mod_cast dyadic_shift (2 ^ S.mantissaBitsWithoutImplicit) 1 f
    _ ≤ dyadic (2 ^ S.mantissaBitsWithoutImplicit) e := dyadic_mono_exponent _ hfe
    _ ≤ dyadic m e := dyadic_le_dyadic.mpr hm

/-! ## Shifting and rounding a mantissa -/

theorem mantissa_shiftRight (em : ExtendedMantissa) (k : ℕ) :
    (em >>> k).mantissa = em.mantissa / 2 ^ k := by
  induction k with
  | zero => exact (Nat.div_one _).symm
  | succ k ih =>
    have hstep : (em >>> (k + 1)).mantissa = (em >>> k).mantissa / 2 := rfl
    rw [hstep, ih, Nat.div_div_eq_div_mul, pow_succ]

theorem shiftRight_exact (m k : ℕ) :
    (⟨m * 2 ^ k, false, false⟩ : ExtendedMantissa) >>> k = ⟨m, false, false⟩ := by
  induction k generalizing m with
  | zero => simp [HShiftRight.hShiftRight, Nat.repeat]
  | succ k ih =>
    have hstep : ∀ em : ExtendedMantissa, em >>> (k + 1) = (em >>> k).shiftRightOne :=
      fun _ => rfl
    have hmul : m * 2 ^ (k + 1) = (m * 2) * 2 ^ k := by ring
    rw [hstep, hmul, ih]
    simp [ExtendedMantissa.shiftRightOne]

/-- Rounding keeps the mantissa or adds one to it. -/
theorem roundedMantissa_bounds (em : ExtendedMantissa) :
    em.mantissa ≤ em.roundedMantissa ∧ em.roundedMantissa ≤ em.mantissa + 1 := by
  obtain ⟨m, round, sticky⟩ := em
  cases round <;> cases sticky <;>
    simp only [ExtendedMantissa.roundedMantissa, ExtendedMantissa.accuracy,
      Accuracy.roundToNearestEven]
  all_goals omega

/-- The mantissa `m`, shifted by `k` bits and rounded. -/
def rounded (m k : ℕ) : ℕ := ((⟨m, false, false⟩ : ExtendedMantissa) >>> k).roundedMantissa

theorem rounded_exact (m k : ℕ) : rounded (m * 2 ^ k) k = m := by
  rw [rounded, shiftRight_exact]
  rfl

theorem le_rounded {m k a : ℕ} (h : a * 2 ^ k ≤ m) : a ≤ rounded m k := by
  have hdiv : a ≤ m / 2 ^ k := (Nat.le_div_iff_mul_le (by positivity)).mpr h
  refine hdiv.trans ?_
  rw [rounded, ← mantissa_shiftRight ⟨m, false, false⟩]
  exact (roundedMantissa_bounds _).1

theorem rounded_le {m k a : ℕ} (h : m ≤ a * 2 ^ k) : rounded m k ≤ a := by
  rcases h.eq_or_lt with rfl | hlt
  · exact (rounded_exact a k).le
  · have hdiv : m / 2 ^ k < a := (Nat.div_lt_iff_lt_mul (by positivity)).mpr hlt
    have hbound := (roundedMantissa_bounds ((⟨m, false, false⟩ : ExtendedMantissa) >>> k)).2
    rw [mantissa_shiftRight] at hbound
    exact hbound.trans hdiv

/-! ## Rounding a number -/

variable {S : Format} {sign : Sign} {m : ℕ} {e : ℤ}

/-- The unpacked number, which is zero without a mantissa. -/
def ofParts (sign : Sign) (m : ℕ) (e : ℤ) : UnpackedFloat :=
  if h : m = 0 then .zero sign else .finite sign m e (Nat.pos_of_ne_zero h)

theorem log2_lt_mantissaBits (h : m < 2 ^ S.mantissaBits) : m.log2 < S.mantissaBits := by
  by_cases hm : m = 0
  · simp [hm, Format.mantissaBits]
  · exact (Nat.log2_lt hm).mpr h

theorem log2_mul_two_pow (hm : m ≠ 0) (j : ℕ) : (m * 2 ^ j).log2 = m.log2 + j := by
  induction j with
  | zero => simp
  | succ j ih =>
    have hne : m * 2 ^ j ≠ 0 := by positivity
    rw [pow_succ, ← mul_assoc, mul_comm, Nat.log2_two_mul hne, ih, add_assoc]

/-- A mantissa that fits stays where it is. -/
theorem shiftToTargetExponent_of_onGrid (h : OnGrid S m e) :
    shiftToTargetExponent S m e .exact = (⟨m, false, false⟩, e) := by
  have hlog := log2_lt_mantissaBits h.mantissa_lt
  have htarget : S.targetExponent (totalExponent m e) ≤ e := by
    have hmin := h.exponent_ge
    unfold Format.targetExponent totalExponent
    omega
  have hshift : (S.targetExponent (totalExponent m e) - e).toNat = 0 := by omega
  simp [shiftToTargetExponent, shiftToExponent, hshift, HShiftRight.hShiftRight, Nat.repeat,
    ExtendedMantissa.ofMantissaAndAccuracy]

/-- One that has carried is shifted by a bit. -/
theorem shiftToTargetExponent_carry (he : S.minExponent ≤ e) :
    shiftToTargetExponent S (2 ^ S.mantissaBits) e .exact =
      (⟨2 ^ S.mantissaBitsWithoutImplicit, false, false⟩, e + 1) := by
  have htarget : S.targetExponent (totalExponent (2 ^ S.mantissaBits) e) = e + 1 := by
    simp only [Format.targetExponent, totalExponent, Nat.log2_two_pow]
    omega
  have hexact := shiftRight_exact (2 ^ S.mantissaBitsWithoutImplicit) 1
  rw [pow_one, mul_comm, ← two_pow_mantissaBits] at hexact
  simp [shiftToTargetExponent, htarget, shiftToExponent, ExtendedMantissa.ofMantissaAndAccuracy,
    hexact]

/-- What is done with the rounded mantissa at the exponent of the format. -/
theorem settle (he : S.minExponent ≤ e) {r : ℕ} (hr : r ≤ 2 ^ S.mantissaBits)
    (hlead : 2 ^ S.mantissaBitsWithoutImplicit ≤ r ∨ e = S.minExponent) :
    ∃ m' e', Canonical S m' e' ∧ dyadic m' e' = dyadic r e ∧
      shiftToTargetExponent S r e .exact = (⟨m', false, false⟩, e') := by
  rcases hr.lt_or_eq with hlt | rfl
  · exact ⟨r, e, ⟨⟨hlt, he⟩, hlead⟩, rfl, shiftToTargetExponent_of_onGrid ⟨hlt, he⟩⟩
  · refine ⟨2 ^ S.mantissaBitsWithoutImplicit, e + 1, ⟨⟨?_, by omega⟩, .inl le_rfl⟩, ?_,
      shiftToTargetExponent_carry he⟩
    · rw [two_pow_mantissaBits]
      have : 0 < 2 ^ S.mantissaBitsWithoutImplicit := by positivity
      omega
    · rw [two_pow_mantissaBits, mul_comm]
      exact (dyadic_shift (2 ^ S.mantissaBitsWithoutImplicit) 1 e).symm

/-- The exponent of the format for a number: the number has at most the bits
of a mantissa there, and all of them above the least exponent. -/
theorem target_bounds (hm : 0 < m) {k : ℕ} (hk : S.targetExponent (totalExponent m e) = e + k) :
    S.minExponent ≤ e + k ∧ m < 2 ^ S.mantissaBits * 2 ^ k ∧
      (2 ^ S.mantissaBitsWithoutImplicit * 2 ^ k ≤ m ∨ e + k = S.minExponent) := by
  unfold Format.targetExponent totalExponent at hk
  refine ⟨by omega, ?_, ?_⟩
  · rw [← pow_add]
    exact (Nat.log2_lt hm.ne').mp (by omega)
  · by_cases hmin : e + k = S.minExponent
    · exact .inr hmin
    · rw [← pow_add]
      refine .inl ((Nat.le_log2 hm.ne').mp ?_)
      have hbits : S.mantissaBits = 1 + S.mantissaBitsWithoutImplicit := rfl
      omega

/-- A number below the exponent of the format, rounded. -/
theorem roundWithAccuracy_eq (hm : 0 < m) {k : ℕ}
    (hk : S.targetExponent (totalExponent m e) = e + k) :
    ∃ m' e', Canonical S m' e' ∧ dyadic m' e' = dyadic (rounded m k) (e + k) ∧
      roundWithAccuracy S sign m e .exact = ofParts sign m' e' := by
  obtain ⟨hmin, hlt, hlead⟩ := target_bounds hm hk
  have hr : rounded m k ≤ 2 ^ S.mantissaBits := rounded_le hlt.le
  obtain ⟨m', e', hcanon, hvalue, hshift⟩ := settle hmin hr (hlead.imp_left le_rounded)
  refine ⟨m', e', hcanon, hvalue, ?_⟩
  have hamount : (e + (k : ℤ) - e).toNat = k := by omega
  have hfirst : shiftToTargetExponent S m e .exact =
      ((⟨m, false, false⟩ : ExtendedMantissa) >>> k, e + k) := by
    simp only [shiftToTargetExponent, hk, shiftToExponent, hamount,
      ExtendedMantissa.ofMantissaAndAccuracy]
  simp only [roundWithAccuracy, hfirst]
  have hsecond : shiftToTargetExponent S
      ((⟨m, false, false⟩ : ExtendedMantissa) >>> k).roundedMantissa (e + k) .exact =
        (⟨m', false, false⟩, e') := hshift
  simp only [hsecond]
  rfl

/-- A point of the grid at or above the exponent of the format is a multiple
of its unit. -/
theorem dyadic_of_le {a : ℕ} {f t : ℤ} (h : t ≤ f) :
    dyadic a f = dyadic (a * 2 ^ (f - t).toNat) t := by
  rw [dyadic_shift, Int.toNat_of_nonneg (by omega)]
  congr 1
  omega

theorem le_dyadic_rounded (hm : 0 < m) {k : ℕ}
    (hk : S.targetExponent (totalExponent m e) = e + k) {a : ℕ} {f : ℤ} (h : OnGrid S a f)
    (hle : dyadic a f ≤ dyadic m e) : dyadic a f ≤ dyadic (rounded m k) (e + k) := by
  by_cases hf : e + k ≤ f
  · rw [dyadic_of_le hf, ← dyadic_shift, dyadic_le_dyadic] at hle
    rw [dyadic_of_le hf, dyadic_le_dyadic]
    exact le_rounded hle
  · obtain ⟨-, -, hlead | hmin⟩ := target_bounds hm hk
    · exact (h.lt_of_exponent_lt (by omega) (le_rounded hlead)).le
    · exact absurd (hmin ▸ h.exponent_ge) hf

theorem dyadic_rounded_le (hm : 0 < m) {k : ℕ}
    (hk : S.targetExponent (totalExponent m e) = e + k) {a : ℕ} {f : ℤ} (h : OnGrid S a f)
    (hle : dyadic m e ≤ dyadic a f) : dyadic (rounded m k) (e + k) ≤ dyadic a f := by
  by_cases hf : e + k ≤ f
  · rw [dyadic_of_le hf, ← dyadic_shift, dyadic_le_dyadic] at hle
    rw [dyadic_of_le hf, dyadic_le_dyadic]
    exact rounded_le hle
  · obtain ⟨-, -, hlead | hmin⟩ := target_bounds hm hk
    · -- the point would be below the leading bit of the number
      have hlt := h.lt_of_exponent_lt (lt_of_not_ge hf) le_rfl
      rw [← dyadic_shift] at hlt
      exact absurd (hle.trans_lt hlt) (not_lt_of_ge (dyadic_le_dyadic.mpr hlead))
    · exact absurd (hmin ▸ h.exponent_ge) hf

/-- **Rounding goes to a neighbour.** What a positive number is rounded to is
on the grid, above the points of the grid below the number and below those
above it. -/
theorem round_spec (hm : 0 < m) :
    ∃ m' e', Canonical S m' e' ∧ UnpackedFloat.round S sign m e = ofParts sign m' e' ∧
      (∀ a f, OnGrid S a f → dyadic a f ≤ dyadic m e → dyadic a f ≤ dyadic m' e') ∧
      ∀ a f, OnGrid S a f → dyadic m e ≤ dyadic a f → dyadic m' e' ≤ dyadic a f := by
  -- the number with its exponent at or below that of the format
  let j := (e - S.targetExponent (totalExponent m e)).toNat
  have hpos : 0 < m * 2 ^ j := by positivity
  have hvalue : dyadic (m * 2 ^ j) (e - j) = dyadic m e := by
    rw [dyadic_shift, Int.sub_add_cancel]
  have htotal : totalExponent (m * 2 ^ j) (e - j) = totalExponent m e := by
    simp only [totalExponent, log2_mul_two_pow hm.ne']
    push_cast
    ring
  obtain ⟨k, hk⟩ : ∃ k : ℕ, S.targetExponent (totalExponent (m * 2 ^ j) (e - j)) = e - j + k := by
    rw [htotal]
    exact ⟨(S.targetExponent (totalExponent m e) - (e - j)).toNat, by omega⟩
  obtain ⟨m', e', hcanon, hrounded, hround⟩ := @roundWithAccuracy_eq S sign _ _ hpos _ hk
  refine ⟨m', e', hcanon, ?_, fun a f h hle => ?_, fun a f h hle => ?_⟩
  · rw [← hround]
    simp only [UnpackedFloat.round, decreaseExponent, Nat.shiftLeft_eq]
    rfl
  · rw [hrounded]
    exact le_dyadic_rounded hpos hk h (hle.trans hvalue.ge)
  · rw [hrounded]
    exact dyadic_rounded_le hpos hk h (hvalue.le.trans hle)

end GoRestApi.Ieee
