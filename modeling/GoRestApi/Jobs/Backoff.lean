/-
GoRestApi.Jobs.Backoff — the delay before a retry, in closed form.

The loop invariant of `backoff` is that the base is `2 ^ i` seconds with
`i ≤ 5`. The sixth doubling gives 64 s, which is above the minute and still
far below the range of `int64`, so no doubling wraps.

`backoff` counts the iterations down on unbounded numbers and wraps the base.
`backoffLoop64` is the loop on the words it is executed on, with the counter
`i` and with the products before they are reduced; `backoffLoop64_spec` shows
that it leaves in time and returns the same delay.
-/
import GoRestApi.Jobs.Queue
import Mathlib.Algebra.Ring.Int.Defs

namespace GoRestApi.Jobs

open Go

/-- `2 ^ i` seconds, up to a minute. -/
def delaySeconds (i : Nat) : Int := min (2 ^ i) 60

/-- A doubling of the loop, while the base is below the minute. -/
theorem wrapInt64_double :
    ∀ i < 6, wrapInt64 (2 ^ i * Time.second * 2) = 2 ^ (i + 1) * Time.second := by
  decide

/-- The sixth doubling is the first above the minute. -/
theorem minute_lt_iff : ∀ i < 6, 2 ^ (i + 1) * Time.second > Time.minute ↔ i = 5 := by
  decide

theorem delaySeconds_of_lt : ∀ i < 6, delaySeconds i = 2 ^ i := by
  decide

theorem delaySeconds_of_le {i : Nat} (hi : 6 ≤ i) : delaySeconds i = 60 := by
  have h : (2 : Int) ^ 6 ≤ 2 ^ i := by
    exact_mod_cast Nat.pow_le_pow_right (by decide) hi
  unfold delaySeconds
  omega

/-- **The loop.** With `n` iterations left and the base at `2 ^ i` seconds. -/
theorem backoffLoop_eq (n : Nat) {i : Nat} (hi : i < 6) :
    backoffLoop n (2 ^ i * Time.second) = delaySeconds (i + n) * Time.second := by
  induction n generalizing i with
  | zero => rw [backoffLoop, Nat.add_zero, delaySeconds_of_lt i hi]
  | succ n ih =>
    simp only [backoffLoop, wrapInt64_double i hi, minute_lt_iff i hi]
    split
    · rename_i h5
      rw [delaySeconds_of_le (by omega), Time.minute]
    · rw [ih (by omega), Nat.add_right_comm, Nat.add_assoc]

theorem backoff_eq (attempt : Int) :
    backoff attempt = delaySeconds (attempt - 1).toNat * Time.second := by
  have h := backoffLoop_eq (attempt - 1).toNat (i := 0) (by decide)
  rw [Nat.zero_add, Int.pow_zero, Int.one_mul] at h
  exact h

theorem delaySeconds_mono {i j : Nat} (h : i ≤ j) : delaySeconds i ≤ delaySeconds j := by
  have hpow : (2 : Int) ^ i ≤ 2 ^ j := by
    exact_mod_cast Nat.pow_le_pow_right (by decide) h
  unfold delaySeconds
  omega

/-! ## The loop as it is executed -/

/-- `backoff` from the head of its loop on, which is cut off after `fuel` tests
of the condition. Beside the delay stand the products of `base *= 2`, as
integers. -/
def backoffLoop64 (attempt : Int64) : Nat → Int64 → Int64 → Option (Int64 × List Int)
  | 0, _, _ => none
  | fuel + 1, i, base =>
    if i < attempt then
      let product := base.toInt * 2
      let base := base * 2
      if base > Int64.ofInt Time.minute then some (Int64.ofInt Time.minute, [product])
      else (backoffLoop64 attempt fuel (i + 1) base).map (Prod.map id (product :: ·))
    else some (base, [])

theorem toInt_double (base : Int64) : (base * 2).toInt = wrapInt64 (base.toInt * 2) := by
  rw [wrapInt64, Int64.toInt_ofInt, Int64.toInt_mul]
  rfl

theorem toInt_minute : (Int64.ofInt Time.minute).toInt = Time.minute := by decide

/-- The words at the head of the loop after `k` doublings. -/
structure AtHead (k : Nat) (i base : Int64) : Prop where
  lt : k < 6
  counter : i.toInt = k + 1
  base : base.toInt = 2 ^ k * Time.second

namespace AtHead

variable {k : Nat} {i base : Int64}

theorem double (h : AtHead k i base) : (base * 2).toInt = 2 ^ (k + 1) * Time.second := by
  rw [toInt_double, h.base, wrapInt64_double k h.lt]

theorem product (h : AtHead k i base) : wrapInt64 (base.toInt * 2) = base.toInt * 2 := by
  rw [← toInt_double, h.double, h.base, pow_succ]
  exact mul_right_comm ..

theorem over_iff (h : AtHead k i base) : base * 2 > Int64.ofInt Time.minute ↔ k = 5 := by
  rw [gt_iff_lt, Int64.lt_iff_toInt_lt, toInt_minute, h.double]
  exact minute_lt_iff k h.lt

/-- The counter is far from the end of its range, so it does not wrap. -/
theorem next (h : AtHead k i base) (h5 : k ≠ 5) : AtHead (k + 1) (i + 1) (base * 2) where
  lt := by
    have := h.lt
    omega
  counter := by
    have hsmall : ((k : Int) + 1 + 1).bmod (2 ^ 64) = k + 1 + 1 := by
      have := h.lt
      refine Int.bmod_eq_of_le ?_ ?_ <;> omega
    rw [Int64.toInt_add, h.counter]
    exact hsmall
  base := h.double

end AtHead

/-- **The executed loop.** From its head after `k` doublings, it leaves within
`6 - k` tests of the condition and returns what `backoffLoop` does. -/
theorem backoffLoop64_spec (attempt : Int64) {fuel k : Nat} {i base : Int64}
    (hfuel : k + fuel = 6) (h : AtHead k i base) :
    ∃ delay products, backoffLoop64 attempt fuel i base = some (delay, products) ∧
      delay.toInt = backoffLoop (attempt.toInt - i.toInt).toNat base.toInt ∧
      products.length ≤ fuel ∧ ∀ x ∈ products, wrapInt64 x = x := by
  induction fuel generalizing k i base with
  | zero => exact absurd h.lt (by omega)
  | succ fuel ih =>
    by_cases hlt : i < attempt
    · have hleft : (attempt.toInt - i.toInt).toNat = (attempt.toInt - (i.toInt + 1)).toNat + 1 := by
        have := Int64.lt_iff_toInt_lt.mp hlt
        omega
      have hover : wrapInt64 (base.toInt * 2) > Time.minute ↔ k = 5 := by
        rw [← toInt_double, h.double]
        exact minute_lt_iff k h.lt
      rw [hleft]
      by_cases h5 : k = 5
      · refine ⟨Int64.ofInt Time.minute, [base.toInt * 2], ?_, ?_, Nat.le_add_left 1 fuel, ?_⟩
        · simp only [backoffLoop64, hlt, h.over_iff, h5, ↓reduceIte]
        · simp only [backoffLoop, hover, h5, ↓reduceIte, toInt_minute]
        · simpa using h.product
      · obtain ⟨delay, products, hloop, hdelay, hlen, hwrap⟩ := ih (by omega) (h.next h5)
        refine ⟨delay, base.toInt * 2 :: products, ?_, ?_, Nat.succ_le_succ hlen, ?_⟩
        · simp only [backoffLoop64, hlt, h.over_iff, h5, ↓reduceIte, hloop]
          rfl
        · have hcounter : (i + 1).toInt = i.toInt + 1 := by
            rw [(h.next h5).counter, h.counter, Nat.cast_add, Nat.cast_one]
          rw [hdelay, hcounter, toInt_double]
          simp only [backoffLoop, hover, h5, ↓reduceIte]
        · exact List.forall_mem_cons.mpr ⟨h.product, hwrap⟩
    · have hdone : (attempt.toInt - i.toInt).toNat = 0 := by
        rw [Int64.lt_iff_toInt_lt] at hlt
        omega
      refine ⟨base, [], ?_, ?_, Nat.zero_le _, by simp⟩
      · simp only [backoffLoop64, hlt, ↓reduceIte]
      · rw [hdone, backoffLoop]

/-- **Backoff in closed form.** For every attempt the delay is
`2 ^ (attempt - 1)` seconds, from one second up to a minute. On 64-bit words
the loop returns it after at most six doublings, of which none wraps. The delay
does not go down from one attempt to a later one. -/
theorem backoff_closed_form :
    (∀ attempt : Int,
      backoff attempt = min (2 ^ (max (attempt - 1) 0).toNat) 60 * Time.second) ∧
    (∀ attempt : Int64, ∃ delay products,
      backoffLoop64 attempt 6 1 (Int64.ofInt Time.second) = some (delay, products) ∧
      delay.toInt = backoff attempt.toInt ∧
      products.length ≤ 6 ∧ ∀ x ∈ products, wrapInt64 x = x) ∧
    ∀ attempt attempt' : Int, attempt ≤ attempt' → backoff attempt ≤ backoff attempt' := by
  refine ⟨fun attempt => ?_, fun attempt => ?_, fun attempt attempt' h => ?_⟩
  · have hmax : (max (attempt - 1) 0).toNat = (attempt - 1).toNat := by omega
    rw [hmax, backoff_eq]
    rfl
  · exact backoffLoop64_spec attempt rfl ⟨by decide, by decide, by decide⟩
  · rw [backoff_eq, backoff_eq]
    have hle := delaySeconds_mono (i := (attempt - 1).toNat) (j := (attempt' - 1).toNat) (by omega)
    exact Int.mul_le_mul_of_nonneg_right hle (by decide)

end GoRestApi.Jobs
