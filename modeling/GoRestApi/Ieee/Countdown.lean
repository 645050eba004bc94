/-
GoRestApi.Ieee.Countdown — subtracting one from a `Float` again and again.

From 1 to 2 ^ 53 the difference is exact (`toRat?_sub_one`), and 2 ^ 53 + 2 is
rounded to 2 ^ 53, so that a countdown from there comes below 1. It does not
from 2 ^ 53 + 4 on, where the difference is rounded back, nor from an infinity
or NaN: `exists_lt_one_iff`.
-/
import GoRestApi.Ieee.Binary64

namespace GoRestApi.Ieee

open Float.Model Float.Model.UnpackedFloat

variable {x : Float} {p : ℚ}

theorem toRat?_one : toRat? 1 = some 1 := by decide +kernel

theorem toRat?_zero : toRat? 0 = some 0 := by decide +kernel

/-! ## The values of large numbers -/

theorem dyadic_zero_exponent (m : ℕ) : dyadic m 0 = m := by simp [dyadic]

/-- The form of a number is its only one. -/
theorem Canonical.unique {S : Format} {m n : ℕ} {e f : ℤ} (h : Canonical S m e)
    (h' : Canonical S n f) (heq : dyadic m e = dyadic n f) : m = n ∧ e = f := by
  have hcmp := compare_canonical h h'
  rw [heq, compare_eq_iff_eq.mpr rfl, Ordering.then_eq_eq] at hcmp
  exact ⟨compare_eq_iff_eq.mp hcmp.2, compare_eq_iff_eq.mp hcmp.1⟩

/-- Beyond 2 ^ 53 all numbers are even. -/
theorem even_of_gt (hx : toRat? x = some p) (hp : 2 ^ 53 < p) : ∃ n : ℕ, p = 2 * n := by
  obtain ⟨m, e, hm, -, rfl, hcanon, -⟩ := exists_of_pos hx (lt_trans (by positivity) hp)
  have he : 1 ≤ e := by
    by_contra hlt
    have hle : dyadic m e ≤ m := by
      rw [← dyadic_zero_exponent]
      exact dyadic_mono_exponent m (by omega)
    have hlt' : (m : ℚ) < 2 ^ 53 := by exact_mod_cast hcanon.mantissa_lt
    linarith
  refine ⟨m * 2 ^ (e - 1).toNat, ?_⟩
  rw [dyadic_of_le he, dyadic]
  push_cast
  ring

/-- A number whose value is that of a canonical form, unpacked. -/
theorem unpack_eq (hx : toRat? x = some p) {m : ℕ} {e : ℤ} (hm : 0 < m)
    (h : Canonical .binary64 m e) (hp : p = dyadic m e) :
    x.toModel.unpack = .finite .positive m e hm := by
  obtain ⟨n, f, hn, hu, hpn, hcanon, -⟩ := exists_of_pos hx (hp ▸ dyadic_pos hm e)
  obtain ⟨rfl, rfl⟩ := h.unique hcanon (hp.symm.trans hpn)
  exact hu

/-! ## Subtracting one -/

/-- **One is subtracted exactly** up to 2 ^ 53. -/
theorem toRat?_sub_one (hx : toRat? x = some p) (hp : 1 ≤ p) (hle : p ≤ 2 ^ 53) :
    toRat? (x - 1) = some (p - 1) := by
  rcases hp.eq_or_lt with rfl | hlt
  · rw [toRat?_sub_self hx toRat?_one one_pos, sub_self]
  obtain ⟨r, hr, hlo, hhi⟩ := toRat?_sub hx toRat?_one one_pos hlt
  suffices h : ∃ a f, OnGrid .binary64 a f ∧ dyadic a f = p - 1 by
    obtain ⟨a, f, hgrid, heq⟩ := h
    rw [hr, ← heq]
    exact congrArg some (le_antisymm (hhi a f hgrid heq.ge) (hlo a f hgrid heq.le))
  obtain ⟨m, e, hm, -, rfl, hcanon, -⟩ := exists_of_pos hx (one_pos.trans hlt)
  by_cases he : e ≤ 0
  · -- one is a multiple of the unit of `x`
    obtain ⟨k, rfl⟩ : ∃ k : ℕ, e = -k := ⟨(-e).toNat, by omega⟩
    have hone : dyadic (2 ^ k) (-k) = 1 := by
      rw [← one_mul (2 ^ k), dyadic_shift, neg_add_cancel, dyadic_zero_exponent, Nat.cast_one]
    have hsub : 2 ^ k ≤ m := by
      rw [← @dyadic_le_dyadic _ _ (-k), hone]
      exact hp
    refine ⟨m - 2 ^ k, -k, ⟨?_, hcanon.exponent_ge⟩, ?_⟩
    · exact (Nat.sub_le _ _).trans_lt hcanon.mantissa_lt
    · rw [dyadic_sub _ hsub, hone]
  · -- only 2 ^ 53 is left
    have hlead : 2 ^ 52 ≤ m := hcanon.leading.resolve_right (by
      have : Format.minExponent .binary64 = -1074 := by decide
      omega)
    have hge : (2 : ℚ) ^ 53 ≤ dyadic m e := by
      calc (2 : ℚ) ^ 53 = dyadic (2 ^ 52) 1 := by norm_num [dyadic]
        _ ≤ dyadic m 1 := dyadic_le_dyadic.mpr hlead
        _ ≤ dyadic m e := dyadic_mono_exponent m (by omega)
    refine ⟨2 ^ 53 - 1, 0, ⟨by decide, by decide⟩, ?_⟩
    rw [le_antisymm hle hge, dyadic_zero_exponent]
    norm_num

theorem toRat?_sub_one_of_unpack {u : UnpackedFloat} (hu : x.toModel.unpack = u) :
    toRat? (x - 1) = unpackedRat? (UnpackedFloat.unpack .binary64 (UnpackedFloat.pack .binary64
      (UnpackedFloat.sub .binary64 u (1 : Float).toModel.unpack))) := by
  rw [toRat?, unpack_sub, hu]

/-- The tie below 2 ^ 53 + 2 is broken towards 2 ^ 53. -/
theorem toRat?_sub_one_tie_down (hx : toRat? x = some (2 ^ 53 + 2)) :
    toRat? (x - 1) = some (2 ^ 53) := by
  have hu := unpack_eq hx (m := 2 ^ 52 + 1) (e := 1) (by decide)
    ⟨⟨by decide, by decide⟩, .inl (by decide)⟩ (by norm_num [dyadic])
  rw [toRat?_sub_one_of_unpack hu]
  decide +kernel

/-- The tie below 2 ^ 53 + 4 is broken towards 2 ^ 53 + 4. -/
theorem toRat?_sub_one_tie_up (hx : toRat? x = some (2 ^ 53 + 4)) :
    toRat? (x - 1) = some (2 ^ 53 + 4) := by
  have hu := unpack_eq hx (m := 2 ^ 52 + 2) (e := 1) (by decide)
    ⟨⟨by decide, by decide⟩, .inl (by decide)⟩ (by norm_num [dyadic])
  rw [toRat?_sub_one_of_unpack hu]
  decide +kernel

theorem sub_one_ge (hx : toRat? x = some p) (hp : 2 ^ 53 + 4 ≤ p) :
    ∃ r, 2 ^ 53 + 4 ≤ r ∧ toRat? (x - 1) = some r := by
  rcases hp.eq_or_lt with rfl | hlt
  · exact ⟨_, le_rfl, toRat?_sub_one_tie_up hx⟩
  · obtain ⟨n, rfl⟩ := even_of_gt hx (lt_trans (by norm_num) hlt)
    have hge : (2 : ℚ) ^ 53 + 5 ≤ 2 * n := by
      have hn : 2 ^ 53 + 4 < 2 * n := by exact_mod_cast hlt
      have : 2 ^ 53 + 5 ≤ 2 * n := hn
      exact_mod_cast this
    obtain ⟨r, hr, hlo, -⟩ := toRat?_sub hx toRat?_one one_pos (by linarith)
    have hgrid : dyadic (2 ^ 52 + 2) 1 = 2 ^ 53 + 4 := by norm_num [dyadic]
    refine ⟨r, ?_, hr⟩
    rw [← hgrid]
    exact hlo _ _ ⟨by decide, by decide⟩ (by rw [hgrid]; linarith)

/-! ## The numbers that are not at most zero -/

theorem isFinite_eq (x : Float) : x.isFinite = x.toModel.unpack.isFinite := rfl

theorem isFinite_iff : x.isFinite = true ↔ ∃ p, toRat? x = some p := by
  rw [isFinite_eq, toRat?]
  cases x.toModel.unpack with
  | infinity sign => simp [UnpackedFloat.isFinite, unpackedRat?]
  | notANumber => simp [UnpackedFloat.isFinite, unpackedRat?]
  | zero sign => simp [UnpackedFloat.isFinite, unpackedRat?]
  | finite sign m e hm => cases sign <;> simp [UnpackedFloat.isFinite, unpackedRat?]

/-- An infinity or NaN. -/
def Beyond (x : Float) : Prop :=
  x.toModel.unpack = .notANumber ∨ x.toModel.unpack = .infinity .positive

/-- What passes a check that it is not at most zero. -/
theorem cases_of_not_le_zero (h : ¬ x ≤ 0) : (∃ p, 0 < p ∧ toRat? x = some p) ∨ Beyond x := by
  by_cases hrat : ∃ p, toRat? x = some p
  · obtain ⟨p, hp⟩ := hrat
    rw [le_iff hp toRat?_zero, not_le] at h
    exact .inl ⟨p, h, hp⟩
  · refine .inr ?_
    rw [← isFinite_iff, isFinite_eq] at hrat
    rw [le_iff_unpack] at h
    unfold Beyond
    cases hu : x.toModel.unpack with
    | infinity sign =>
      cases sign with
      | negative => exact absurd (hu ▸ by decide +kernel) h
      | positive => exact .inr rfl
    | notANumber => exact .inl rfl
    | zero sign => exact absurd (hu ▸ rfl) hrat
    | finite sign m e hm => exact absurd (hu ▸ rfl) hrat

theorem Beyond.not_isFinite (h : Beyond x) : ¬ x.isFinite = true := by
  rw [isFinite_eq]
  rcases h with h | h <;> rw [h] <;> decide

theorem Beyond.not_lt_one (h : Beyond x) : ¬ x < 1 := by
  rw [lt_iff_unpack]
  rcases h with h | h <;> rw [h] <;> decide +kernel

theorem Beyond.sub_one (h : Beyond x) : Beyond (x - 1) := by
  unfold Beyond
  rw [unpack_sub]
  rcases h with h | h <;> rw [h]
  · exact .inl rfl
  · exact .inr rfl

/-! ## Counting down -/

theorem toRat?_last : toRat? 9007199254740994 = some (2 ^ 53 + 2) := by decide +kernel

/-- A number from which a countdown does not come below 1. -/
def Inexhaustible (x : Float) : Prop := Beyond x ∨ ∃ p, 2 ^ 53 + 4 ≤ p ∧ toRat? x = some p

theorem Inexhaustible.sub_one (h : Inexhaustible x) : Inexhaustible (x - 1) := by
  rcases h with h | ⟨p, hp, hx⟩
  · exact .inl h.sub_one
  · exact .inr (sub_one_ge hx hp)

theorem Inexhaustible.not_lt_one (h : Inexhaustible x) : ¬ x < 1 := by
  rcases h with h | ⟨p, hp, hx⟩
  · exact h.not_lt_one
  · rw [lt_iff hx toRat?_one]
    linarith

theorem Inexhaustible.iterate (h : Inexhaustible x) (n : ℕ) : Inexhaustible ((· - 1)^[n] x) := by
  induction n generalizing x with
  | zero => exact h
  | succ n ih =>
    rw [Function.iterate_succ_apply]
    exact ih h.sub_one

theorem not_le_last_of_beyond (h : Beyond x) : ¬ x ≤ 9007199254740994 := by
  rw [le_iff_unpack]
  rcases h with h | h <;> rw [h] <;> decide +kernel

theorem inexhaustible_of_not_le (hpos : ¬ x ≤ 0) (hle : ¬ x ≤ 9007199254740994) :
    Inexhaustible x := by
  rcases cases_of_not_le_zero hpos with ⟨p, -, hx⟩ | h
  · rw [le_iff hx toRat?_last, not_le] at hle
    obtain ⟨n, rfl⟩ := even_of_gt hx (lt_trans (by norm_num) hle)
    have hn : 2 ^ 53 + 2 < 2 * n := by exact_mod_cast hle
    have hge : 2 ^ 53 + 4 ≤ 2 * n := by omega
    exact .inr ⟨_, by exact_mod_cast hge, hx⟩
  · exact .inl h

/-- An exact countdown comes below 1. -/
theorem exists_lt_one_of_le (n : ℕ) (hx : toRat? x = some p) (hle : p ≤ 2 ^ 53) (hlt : p < n + 1) :
    ∃ k, (· - 1)^[k] x < 1 := by
  induction n generalizing x p with
  | zero =>
    refine ⟨0, ?_⟩
    rw [Function.iterate_zero_apply, lt_iff hx toRat?_one]
    simpa using hlt
  | succ n ih =>
    by_cases hone : p < 1
    · exact ⟨0, (lt_iff hx toRat?_one).mpr hone⟩
    · push_cast at hlt
      obtain ⟨k, hk⟩ := ih (toRat?_sub_one hx (not_lt.mp hone) hle) (by linarith) (by linarith)
      exact ⟨k + 1, hk⟩

/-- **Where a countdown ends.** From a number that is not at most 0, a
countdown comes below 1 exactly if the number is at most 2 ^ 53 + 2. -/
theorem exists_lt_one_iff (hpos : ¬ x ≤ 0) :
    (∃ n, (· - 1)^[n] (x - 1) < 1) ↔ x ≤ 9007199254740994 := by
  constructor
  · rintro ⟨n, hn⟩
    by_contra hle
    exact ((inexhaustible_of_not_le hpos hle).sub_one.iterate n).not_lt_one hn
  · intro hle
    obtain ⟨p, hp, hx⟩ :=
      (cases_of_not_le_zero hpos).resolve_right fun h => not_le_last_of_beyond h hle
    rw [le_iff hx toRat?_last] at hle
    -- the first difference is a number from which all others are exact
    obtain ⟨q, hq, hfirst⟩ : ∃ q : ℚ, q ≤ 2 ^ 53 ∧ toRat? (x - 1) = some q := by
      rcases lt_or_ge p 1 with hlt | hge
      · obtain ⟨r, hr, hsub⟩ := toRat?_sub_nonpos hx toRat?_one hp hlt
        exact ⟨r, hr.trans (by positivity), hsub⟩
      · rcases le_or_gt p (2 ^ 53) with hexact | hgt
        · exact ⟨p - 1, by linarith, toRat?_sub_one hx hge hexact⟩
        · obtain ⟨n, rfl⟩ := even_of_gt hx hgt
          have hn : 2 ^ 53 < 2 * n ∧ 2 * n ≤ 2 ^ 53 + 2 := by exact_mod_cast And.intro hgt hle
          have heq : (2 : ℚ) * n = 2 ^ 53 + 2 := by
            have : 2 * n = 2 ^ 53 + 2 := by omega
            exact_mod_cast this
          exact ⟨2 ^ 53, le_rfl, toRat?_sub_one_tie_down (heq ▸ hx)⟩
    exact exists_lt_one_of_le (2 ^ 53) hfirst hq (by push_cast; linarith)

end GoRestApi.Ieee
