/-
GoRestApi.Ieee.Binary64 — numbers of type `Float`, by the rationals they stand
for.

`toRat?` is the rational of a number that has one. A number is packed into 64
bits and unpacked again wherever an operation returns it, and what is unpacked
is in canonical form (`canonical_of_unpack`), which packing keeps
(`unpack_pack_ofParts`). So numbers are compared as their rationals are
(`lt_iff`, `le_iff`), and a difference is rounded as `round_spec` says
(`toRat?_sub`).
-/
import GoRestApi.Ieee.Rounding

namespace GoRestApi.Ieee

open Float.Model Float.Model.UnpackedFloat

/-! ## Packing -/

section Packing

variable {S : Format} {sign : Sign} {m : ℕ} {e : ℤ}

/-- The greatest exponent of a finite number. -/
def maxExponent (S : Format) : ℤ := S.exponentBias - S.mantissaBitsWithoutImplicit

theorem minExponent_eq (S : Format) :
    S.minExponent = 1 - (S.exponentBias : ℤ) - S.mantissaBitsWithoutImplicit := by
  have hpow : 1 ≤ 2 ^ (S.exponentBits - 1) := Nat.one_le_two_pow
  simp only [Format.minExponent, Format.exponentBias, Format.mantissaBits]
  push_cast [hpow]
  ring

theorem two_pow_exponentBits (S : Format) : 2 ^ S.exponentBits = 2 * S.exponentBias + 2 := by
  have hpow : 1 ≤ 2 ^ (S.exponentBits - 1) := Nat.one_le_two_pow
  have hbits : 2 ^ S.exponentBits = 2 * 2 ^ (S.exponentBits - 1) := by
    rw [← pow_succ', Nat.sub_add_cancel S.he]
  simp only [Format.exponentBias]
  omega

theorem toNat_implicit {n : ℕ} (mantissa : BitVec n) :
    (1#1 ++ mantissa).toNat = 2 ^ n + mantissa.toNat := by
  rw [BitVec.toNat_append, ← Nat.shiftLeft_add_eq_or_of_lt mantissa.isLt]
  simp [Nat.shiftLeft_eq]

/-- A biased exponent between the two that are set apart. -/
theorem toNat_biased {b : ℕ} (hpos : 0 < b) (hlt : b + 1 < 2 ^ S.exponentBits) :
    (BitVec.ofNat S.exponentBits b).toNat = b ∧ BitVec.ofNat S.exponentBits b ≠ 0#_ ∧
      BitVec.ofNat S.exponentBits b ≠ -1#_ := by
  have hval : (BitVec.ofNat S.exponentBits b).toNat = b := by
    rw [BitVec.toNat_ofNat, Nat.mod_eq_of_lt (by omega)]
  refine ⟨hval, fun h => ?_, fun h => ?_⟩
  · rw [h, BitVec.toNat_ofNat, Nat.zero_mod] at hval
    omega
  · rw [h, BitVec.neg_one_eq_allOnes, BitVec.toNat_allOnes] at hval
    omega

theorem zero_ne_neg_one (S : Format) : 0#S.exponentBits ≠ -1#_ := by
  rw [ne_eq, BitVec.zero_eq_neg_one_iff]
  exact S.he.ne'

/-- A number with its leading bit set, packed and unpacked. -/
theorem unpack_pack_normal (h : Canonical S m e) (hmax : e ≤ maxExponent S)
    (hlead : 2 ^ S.mantissaBitsWithoutImplicit ≤ m) (hm : 0 < m) :
    UnpackedFloat.unpack S (UnpackedFloat.pack S (.finite sign m e hm)) = .finite sign m e hm := by
  have hmin := h.exponent_ge
  have hlt := h.mantissa_lt
  rw [minExponent_eq] at hmin
  unfold maxExponent at hmax
  obtain ⟨b, hb⟩ : ∃ b : ℕ, e + S.exponentBias + S.mantissaBitsWithoutImplicit = b :=
    Int.eq_ofNat_of_zero_le (by omega)
  have hfits : b + 1 < 2 ^ S.exponentBits := by
    rw [two_pow_exponentBits]
    omega
  have hlog : m.log2 + 1 = S.mantissaBits := by
    have hlower := (Nat.le_log2 hm.ne').mpr hlead
    have hupper := (Nat.log2_lt hm.ne').mpr hlt
    have hbits : S.mantissaBits = 1 + S.mantissaBitsWithoutImplicit := rfl
    omega
  have hmantissa : (1#1 ++ BitVec.ofNat S.mantissaBitsWithoutImplicit m).toNat = m := by
    rw [two_pow_mantissaBits] at hlt
    rw [toNat_implicit, BitVec.toNat_ofNat, Nat.mod_eq_sub_mod hlead,
      Nat.mod_eq_of_lt (by omega)]
    omega
  obtain ⟨hval, hzero, hones⟩ := @toNat_biased S b (by omega) hfits
  simp only [UnpackedFloat.pack, hb, Int.toNat_natCast, Nat.not_le.mpr hfits, if_false, hlog,
    if_true]
  simp only [UnpackedFloat.unpack, unpackMantissa_packComponents, unpackExponent_packComponents,
    unpackSign_packComponents, Sign.ofBitVec_toBitVec, hones, hzero, if_false, hval, hmantissa]
  congr 1
  omega

theorem unpack_pack_subnormal (h : Canonical S m e) (hmax : e ≤ maxExponent S)
    (hlead : m < 2 ^ S.mantissaBitsWithoutImplicit) (hm : 0 < m) :
    UnpackedFloat.unpack S (UnpackedFloat.pack S (.finite sign m e hm)) = .finite sign m e hm := by
  have hmin : e = S.minExponent := h.leading.resolve_left (Nat.not_le.mpr hlead)
  rw [minExponent_eq] at hmin
  unfold maxExponent at hmax
  have hbiased : e + S.exponentBias + S.mantissaBitsWithoutImplicit = (1 : ℕ) := by omega
  have hfits : ¬ 2 ^ S.exponentBits ≤ 1 + 1 := by
    rw [two_pow_exponentBits]
    omega
  have hlog : m.log2 + 1 ≠ S.mantissaBits := by
    have hupper := (Nat.log2_lt hm.ne').mpr hlead
    have hbits : S.mantissaBits = 1 + S.mantissaBitsWithoutImplicit := rfl
    omega
  have hmantissa : (BitVec.ofNat S.mantissaBitsWithoutImplicit m).toNat = m := by
    rw [BitVec.toNat_ofNat, Nat.mod_eq_of_lt hlead]
  have hne : BitVec.ofNat S.mantissaBitsWithoutImplicit m ≠ 0#_ := by
    intro hzero
    rw [hzero, BitVec.toNat_ofNat, Nat.zero_mod] at hmantissa
    omega
  simp only [UnpackedFloat.pack, hbiased, Int.toNat_natCast, hfits, if_false, hlog]
  simp only [UnpackedFloat.unpack, unpackMantissa_packComponents, unpackExponent_packComponents,
    unpackSign_packComponents, Sign.ofBitVec_toBitVec, zero_ne_neg_one, if_false, if_true, hne,
    dif_neg, not_false_eq_true, hmantissa]
  congr 1
  simp only [BitVec.toNat_ofNat, Nat.zero_mod]
  omega

theorem unpack_pack_ofParts (h : Canonical S m e) (hmax : e ≤ maxExponent S) :
    UnpackedFloat.unpack S (UnpackedFloat.pack S (ofParts sign m e)) = ofParts sign m e := by
  by_cases hm : m = 0
  · rw [ofParts, dif_pos hm]
    exact unpack_packedZero
  · rw [ofParts, dif_neg hm]
    rcases Nat.lt_or_ge m (2 ^ S.mantissaBitsWithoutImplicit) with hlt | hge
    · exact unpack_pack_subnormal h hmax hlt _
    · exact unpack_pack_normal h hmax hge _

/-- What is unpacked is in the form that packing keeps. -/
theorem canonical_of_unpack (hbias : 0 < S.exponentBias) {b : BitVec S.numBits} {hm : 0 < m}
    (h : UnpackedFloat.unpack S b = .finite sign m e hm) :
    Canonical S m e ∧ e ≤ maxExponent S := by
  have hbits := two_pow_exponentBits S
  have hmantissa := (unpackMantissa b).isLt
  have hpow := two_pow_mantissaBits S
  have hmin := minExponent_eq S
  have hexp := (unpackExponent b).isLt
  simp only [UnpackedFloat.unpack] at h
  split_ifs at h with hones hzero hsub
  · -- subnormal numbers have the least exponent
    cases h
    have hval : (unpackExponent b).toNat = 0 := by rw [hsub]; simp
    unfold maxExponent
    exact ⟨⟨⟨by omega, by omega⟩, .inr (by omega)⟩, by omega⟩
  · cases h
    have hpos : (unpackExponent b).toNat ≠ 0 := fun h0 => hsub (BitVec.eq_of_toNat_eq (by simpa))
    have hlast : (unpackExponent b).toNat ≠ 2 ^ S.exponentBits - 1 := by
      intro h1
      refine hones (BitVec.eq_of_toNat_eq ?_)
      rw [h1, BitVec.neg_one_eq_allOnes, BitVec.toNat_allOnes]
    rw [toNat_implicit]
    unfold maxExponent
    exact ⟨⟨⟨by omega, by omega⟩, .inl (Nat.le_add_right ..)⟩, by omega⟩

end Packing

/-! ## Rationals -/

/-- The rational of an unpacked number, if it has one. -/
def unpackedRat? : UnpackedFloat → Option ℚ
  | .zero _ => some 0
  | .finite .positive m e _ => some (dyadic m e)
  | .finite .negative m e _ => some (-dyadic m e)
  | .infinity _ | .notANumber => none

/-- The rational of a number; an infinity and NaN have none. -/
def toRat? (x : Float) : Option ℚ := unpackedRat? x.toModel.unpack

theorem unpackedRat?_ofParts_positive (m : ℕ) (e : ℤ) :
    unpackedRat? (ofParts .positive m e) = some (dyadic m e) := by
  by_cases hm : m = 0
  · simp [ofParts, hm, unpackedRat?, dyadic]
  · simp [ofParts, hm, unpackedRat?]

theorem unpackedRat?_ofParts_negative (m : ℕ) (e : ℤ) :
    unpackedRat? (ofParts .negative m e) = some (-dyadic m e) := by
  by_cases hm : m = 0
  · simp [ofParts, hm, unpackedRat?, dyadic]
  · simp [ofParts, hm, unpackedRat?]

/-- The three kinds of numbers that have a rational. -/
inductive Reads : UnpackedFloat → ℚ → Prop
  | zero (sign : Sign) : Reads (.zero sign) 0
  | positive {m : ℕ} {e : ℤ} (hm : 0 < m) (h : Canonical .binary64 m e)
      (hmax : e ≤ maxExponent .binary64) : Reads (.finite .positive m e hm) (dyadic m e)
  | negative {m : ℕ} {e : ℤ} (hm : 0 < m) (h : Canonical .binary64 m e)
      (hmax : e ≤ maxExponent .binary64) : Reads (.finite .negative m e hm) (-dyadic m e)

theorem reads_of_toRat? {x : Float} {p : ℚ} (hx : toRat? x = some p) :
    Reads x.toModel.unpack p := by
  unfold toRat? at hx
  cases hu : x.toModel.unpack with
  | infinity sign => simp [hu, unpackedRat?] at hx
  | notANumber => simp [hu, unpackedRat?] at hx
  | zero sign =>
    simp only [hu, unpackedRat?, Option.some.injEq] at hx
    exact hx ▸ .zero sign
  | finite sign m e hm =>
    obtain ⟨hcanon, hmax⟩ := canonical_of_unpack (by decide) hu
    cases sign with
    | positive =>
      simp only [hu, unpackedRat?, Option.some.injEq] at hx
      exact hx ▸ .positive hm hcanon hmax
    | negative =>
      simp only [hu, unpackedRat?, Option.some.injEq] at hx
      exact hx ▸ .negative hm hcanon hmax

/-! ## Comparisons -/

section Order

variable {S : Format} {m n : ℕ} {e f : ℤ}

/-- Exponents first, then mantissas: numbers in canonical form are compared as
their values are. -/
theorem compare_canonical (h : Canonical S m e) (h' : Canonical S n f) :
    (compare e f).then (compare m n) = compare (dyadic m e) (dyadic n f) := by
  have hlower : ∀ {m n : ℕ} {e f : ℤ}, Canonical S m e → Canonical S n f → e < f →
      dyadic m e < dyadic n f := by
    intro m n e f h h' hlt
    rcases h'.leading with hlead | hmin
    · exact h.lt_of_exponent_lt hlt hlead
    · exact absurd (hmin ▸ h.exponent_ge) (not_le_of_gt hlt)
  rcases lt_trichotomy e f with hlt | rfl | hgt
  · rw [compare_lt_iff_lt.mpr hlt, compare_lt_iff_lt.mpr (hlower h h' hlt)]
    rfl
  · rw [compare_eq_iff_eq.mpr rfl, Ordering.eq_then]
    rcases lt_trichotomy m n with hlt | rfl | hgt
    · rw [compare_lt_iff_lt.mpr hlt, compare_lt_iff_lt.mpr (dyadic_lt_dyadic.mpr hlt)]
    · simp
    · rw [compare_gt_iff_gt.mpr hgt, compare_gt_iff_gt.mpr (dyadic_lt_dyadic.mpr hgt)]
  · rw [compare_gt_iff_gt.mpr hgt, compare_gt_iff_gt.mpr (hlower h' h hgt)]
    rfl

/-- A greater exponent makes a number greater. -/
theorem Canonical.exponent_le (h : Canonical S m e) (h' : OnGrid S n f)
    (hle : dyadic m e ≤ dyadic n f) : e ≤ f := by
  by_contra hlt
  rcases h.leading with hlead | hmin
  · exact absurd (h'.lt_of_exponent_lt (lt_of_not_ge hlt) hlead) (not_lt_of_ge hle)
  · exact hlt (hmin ▸ h'.exponent_ge)

end Order

theorem compare_neg_neg (p q : ℚ) : compare (-p) (-q) = (compare p q).swap := by
  rcases lt_trichotomy p q with hlt | rfl | hgt
  · rw [compare_lt_iff_lt.mpr hlt, compare_gt_iff_gt.mpr (neg_lt_neg hlt)]
    rfl
  · simp
  · rw [compare_gt_iff_gt.mpr hgt, compare_lt_iff_lt.mpr (neg_lt_neg hgt)]
    rfl

theorem Reads.compare_eq {u v : UnpackedFloat} {p q : ℚ} (hu : Reads u p) (hv : Reads v q) :
    u.compare v = some (compare p q) := by
  cases hu with
  | zero =>
    cases hv with
    | zero => simp [UnpackedFloat.compare]
    | positive hm => simp [UnpackedFloat.compare, compare_lt_iff_lt.mpr (dyadic_pos hm _)]
    | negative hm =>
      simp [UnpackedFloat.compare, compare_gt_iff_gt.mpr (neg_lt_zero.mpr (dyadic_pos hm _))]
  | positive hm h =>
    have hpos := dyadic_pos hm
    cases hv with
    | zero => simp [UnpackedFloat.compare, compare_gt_iff_gt.mpr (hpos _)]
    | positive hn h' => simp [UnpackedFloat.compare, compare_canonical h h']
    | negative hn =>
      have hneg := fun e => neg_lt_zero.mpr (dyadic_pos hn e)
      simp [UnpackedFloat.compare, compare_gt_iff_gt.mpr ((hneg _).trans (hpos _))]
  | negative hm h =>
    have hneg := fun e => neg_lt_zero.mpr (dyadic_pos hm e)
    cases hv with
    | zero => simp [UnpackedFloat.compare, compare_lt_iff_lt.mpr (hneg _)]
    | positive hn =>
      simp [UnpackedFloat.compare, compare_lt_iff_lt.mpr ((hneg _).trans (dyadic_pos hn _))]
    | negative hn h' =>
      simp [UnpackedFloat.compare, compare_canonical h h', compare_neg_neg]

variable {x y : Float} {p q : ℚ}

/-- The comparisons are made on the unpacked numbers. -/
theorem lt_iff_unpack (x y : Float) : x < y ↔ x.toModel.unpack.lt y.toModel.unpack = true :=
  decide_eq_true_iff

theorem le_iff_unpack (x y : Float) : x ≤ y ↔ x.toModel.unpack.le y.toModel.unpack = true :=
  decide_eq_true_iff

theorem lt_iff (hx : toRat? x = some p) (hy : toRat? y = some q) : x < y ↔ p < q := by
  rw [lt_iff_unpack, UnpackedFloat.lt, (reads_of_toRat? hx).compare_eq (reads_of_toRat? hy)]
  simp [compare_lt_iff_lt]

theorem le_iff (hx : toRat? x = some p) (hy : toRat? y = some q) : x ≤ y ↔ p ≤ q := by
  rw [le_iff_unpack, UnpackedFloat.le, (reads_of_toRat? hx).compare_eq (reads_of_toRat? hy)]
  simp [Ordering.isLE_iff_ne_gt, compare_gt_iff_gt]

/-! ## Differences -/

/-- The difference of two mantissas at the smaller of their exponents. -/
theorem sub_finite {S : Format} {m n : ℕ} {e f : ℤ} (hm : 0 < m) (hn : 0 < n) :
    ∃ (a b : ℕ) (s : ℤ), dyadic a s = dyadic m e ∧ dyadic b s = dyadic n f ∧
      UnpackedFloat.sub S (.finite .positive m e hm) (.finite .positive n f hn) =
        UnpackedFloat.normalize S (a - b) s .positive := by
  refine ⟨m * 2 ^ (e - min e f).toNat, n * 2 ^ (f - min e f).toNat, min e f, ?_, ?_, ?_⟩
  · exact (dyadic_of_le (min_le_left e f)).symm
  · exact (dyadic_of_le (min_le_right e f)).symm
  · simp [UnpackedFloat.sub, decreaseExponent, Sign.apply, Nat.shiftLeft_eq]

theorem dyadic_sub {a b : ℕ} (s : ℤ) (h : b ≤ a) :
    dyadic (a - b) s = dyadic a s - dyadic b s := by
  unfold dyadic
  push_cast [h]
  ring

/-- A difference is packed and unpacked. -/
theorem unpack_sub (x y : Float) :
    (x - y).toModel.unpack = UnpackedFloat.unpack .binary64 (UnpackedFloat.pack .binary64
      (UnpackedFloat.sub .binary64 x.toModel.unpack y.toModel.unpack)) := rfl

/-- A difference in canonical form is the result. -/
theorem toRat?_of_sub {sign : Sign} {m : ℕ} {e : ℤ} (h : Canonical .binary64 m e)
    (hmax : e ≤ maxExponent .binary64)
    (hsub : UnpackedFloat.sub .binary64 x.toModel.unpack y.toModel.unpack = ofParts sign m e) :
    toRat? (x - y) = unpackedRat? (ofParts sign m e) := by
  rw [toRat?, unpack_sub, hsub, unpack_pack_ofParts h hmax]

/-- A positive number, unpacked. -/
theorem exists_of_pos (hx : toRat? x = some p) (hp : 0 < p) :
    ∃ m e hm, x.toModel.unpack = .finite .positive m e hm ∧ p = dyadic m e ∧
      Canonical .binary64 m e ∧ e ≤ maxExponent .binary64 := by
  generalize hu : x.toModel.unpack = u
  have hread := reads_of_toRat? hx
  rw [hu] at hread
  cases hread with
  | zero => exact absurd hp (lt_irrefl _)
  | positive hm h hmax => exact ⟨_, _, hm, rfl, rfl, h, hmax⟩
  | negative hm => exact absurd hp (neg_lt_zero.mpr (dyadic_pos hm _)).not_gt

/-- What is rounded from at most a number of the format is in its range. -/
theorem exponent_le_max (hx : toRat? x = some p) (hp : 0 < p) {d : ℚ} (hd : d ≤ p) {m : ℕ} {e : ℤ}
    (h : Canonical .binary64 m e)
    (hhi : ∀ a f, OnGrid .binary64 a f → d ≤ dyadic a f → dyadic m e ≤ dyadic a f) :
    e ≤ maxExponent .binary64 := by
  obtain ⟨n, f, -, -, rfl, hcanon, hmax⟩ := exists_of_pos hx hp
  exact (h.exponent_le hcanon.toOnGrid (hhi n f hcanon.toOnGrid hd)).trans hmax

/-- The difference of two positive numbers, at a common exponent. -/
theorem sub_of_pos (hx : toRat? x = some p) (hy : toRat? y = some q) (hp : 0 < p) (hq : 0 < q) :
    ∃ (a b : ℕ) (s : ℤ), dyadic a s = p ∧ dyadic b s = q ∧
      UnpackedFloat.sub .binary64 x.toModel.unpack y.toModel.unpack =
        UnpackedFloat.normalize .binary64 (a - b) s .positive := by
  obtain ⟨m, e, hm, hux, rfl, -⟩ := exists_of_pos hx hp
  obtain ⟨n, f, hn, huy, rfl, -⟩ := exists_of_pos hy hq
  rw [hux, huy]
  exact sub_finite hm hn

/-- **A positive difference** is rounded to a neighbour. -/
theorem toRat?_sub (hx : toRat? x = some p) (hy : toRat? y = some q) (hq : 0 < q) (hlt : q < p) :
    ∃ r, toRat? (x - y) = some r ∧
      (∀ a f, OnGrid .binary64 a f → dyadic a f ≤ p - q → dyadic a f ≤ r) ∧
      ∀ a f, OnGrid .binary64 a f → p - q ≤ dyadic a f → r ≤ dyadic a f := by
  have hp := hq.trans hlt
  obtain ⟨a, b, s, ha, hb, hsub⟩ := sub_of_pos hx hy hp hq
  have hba : b < a := by
    rw [← @dyadic_lt_dyadic _ _ s, ha, hb]
    exact hlt
  have hdiff : dyadic (a - b) s = p - q := by rw [dyadic_sub s hba.le, ha, hb]
  obtain ⟨m', e', hcanon, hround, hlo, hhi⟩ :=
    @round_spec .binary64 .positive (a - b) s (Nat.sub_pos_of_lt hba)
  rw [hdiff] at hlo hhi
  have hnorm : UnpackedFloat.normalize .binary64 ((a : ℤ) - b) s .positive =
      ofParts .positive m' e' := by
    have hcast : ((a : ℤ) - b) = ((a - b : ℕ) : ℤ) := by omega
    have hgt : compare ((a - b : ℕ) : ℤ) 0 = .gt := compare_gt_iff_gt.mpr (by omega)
    simp only [UnpackedFloat.normalize, hcast, hgt, Int.toNat_natCast, hround]
  have hmax := exponent_le_max hx hp (sub_le_self p hq.le) hcanon hhi
  refine ⟨dyadic m' e', ?_, hlo, hhi⟩
  rw [toRat?_of_sub hcanon hmax (hsub.trans hnorm), unpackedRat?_ofParts_positive]

theorem toRat?_sub_self (hx : toRat? x = some p) (hy : toRat? y = some p) (hp : 0 < p) :
    toRat? (x - y) = some 0 := by
  obtain ⟨a, b, s, ha, hb, hsub⟩ := sub_of_pos hx hy hp hp
  obtain rfl : a = b :=
    le_antisymm (dyadic_le_dyadic.mp (ha.trans hb.symm).le)
      (dyadic_le_dyadic.mp (hb.trans ha.symm).le)
  have hzero : Canonical .binary64 0 (Format.minExponent .binary64) :=
    ⟨⟨by decide, le_rfl⟩, .inr rfl⟩
  have hnorm : UnpackedFloat.normalize .binary64 ((a : ℤ) - a) s .positive =
      ofParts .positive 0 (Format.minExponent .binary64) := by
    simp [UnpackedFloat.normalize, ofParts]
  rw [toRat?_of_sub hzero (by decide) (hsub.trans hnorm)]
  rfl

theorem toRat?_sub_nonpos (hx : toRat? x = some p) (hy : toRat? y = some q) (hp : 0 < p)
    (hlt : p < q) : ∃ r ≤ 0, toRat? (x - y) = some r := by
  have hq := hp.trans hlt
  obtain ⟨a, b, s, ha, hb, hsub⟩ := sub_of_pos hx hy hp hq
  have hab : a < b := by
    rw [← @dyadic_lt_dyadic _ _ s, ha, hb]
    exact hlt
  have hdiff : dyadic (b - a) s = q - p := by rw [dyadic_sub s hab.le, ha, hb]
  obtain ⟨m', e', hcanon, hround, -, hhi⟩ :=
    @round_spec .binary64 .negative (b - a) s (Nat.sub_pos_of_lt hab)
  have hnorm : UnpackedFloat.normalize .binary64 ((a : ℤ) - b) s .positive =
      ofParts .negative m' e' := by
    have hneg : compare ((a : ℤ) - b) 0 = .lt := compare_lt_iff_lt.mpr (by omega)
    have hcast : (-((a : ℤ) - b)).toNat = b - a := by omega
    simp only [UnpackedFloat.normalize, hneg, hcast, hround]
  rw [hdiff] at hhi
  have hmax := exponent_le_max hy hq (sub_le_self q hp.le) hcanon hhi
  refine ⟨-dyadic m' e', ?_, ?_⟩
  · unfold dyadic
    rw [neg_nonpos]
    positivity
  · rw [toRat?_of_sub hcanon hmax (hsub.trans hnorm), unpackedRat?_ofParts_negative]

end GoRestApi.Ieee
