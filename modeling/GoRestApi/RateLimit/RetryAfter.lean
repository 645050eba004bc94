/-
GoRestApi.RateLimit.RetryAfter — how long `RetryAfter` tells a client to wait.

After a call of `Allow` that returned false, `RetryAfter` gives the time in
which the rest of a token comes in, rounded down to nanoseconds, and a
millisecond. A call that comes so much later or still later is allowed
(`Truthful`) exactly if a full bucket has a token at all, if the wait fits an
`int64`, and if the clock has not gone back by more than the slack:
`retryAfter_truthful_iff`. Nothing is assumed of the calls before, nor of what
they have read from the clock.
-/
import GoRestApi.RateLimit.LimiterTheorems
import Mathlib.Data.Rat.Floor

namespace GoRestApi.RateLimit

open Go Limit

namespace InMemoryLimiter

/-- What `RetryAfter` says at `t` is positive, and a call for `k` that comes
so much later is allowed, if none for `k` comes in between. -/
def Truthful (l : InMemoryLimiter) (k : String) (t : Time) : Prop :=
  0 < l.retryAfter t k ∧
    ∀ between : List Call, (∀ c ∈ between, c.key ≠ k) → ∀ t', t + l.retryAfter t k ≤ t' →
      ((l.after between).allow t' k).2 = true

/-- The time in which the rest of a token comes in, in nanoseconds. -/
def wait (rate : ℚ) (b : Bucket) : ℚ := (1 - b.tokens) / rate * Time.second

/-! ## The bucket of a refused call -/

theorem readings_eq_nil {k : String} {cs : List Call} (h : ∀ c ∈ cs, c.key ≠ k) :
    readings k cs = [] := by
  unfold readings
  rw [List.filter_eq_nil_iff.mpr (by simpa using h), List.map_nil]

/-- A call that is refused leaves a bucket with less than a token, and its time
is not before the call. -/
theorem bucket_of_refused {l : InMemoryLimiter} {k : String} {t : Time} {b : Bucket}
    (hrefused : (l.allow t k).2 = false) (hb : (l.allow t k).1.buckets k = some b) :
    ∃ b₀, l.buckets k = some b₀ ∧ b = l.meter.fill b₀ t ∧ b.tokens < 1 ∧ t ≤ b.last := by
  rw [allow_eq] at hrefused hb
  simp only [setBucket, Function.update_self, Option.some.injEq] at hb
  cases hbefore : l.buckets k with
  | none =>
    rw [hbefore] at hrefused
    cases hrefused
  | some b₀ =>
    have hgone : l.meter.gone b₀.last t = false := rfl
    simp only [hbefore, Meter.allow, hgone, Bool.false_eq_true, ↓reduceIte, Meter.take]
      at hrefused hb
    split at hrefused
    · rename_i hless
      rw [if_pos hless] at hb
      subst hb
      refine ⟨b₀, rfl, rfl, hless, ?_⟩
      unfold Meter.fill
      split
      · exact Int.le_refl t
      · rename_i hpos
        exact Int.not_lt.mp fun hlt => hpos (seconds_pos_iff.mpr (sub_pos_iff.mpr hlt))
    · cases hrefused

/-- What `RetryAfter` says about it, at the time of the call. -/
theorem retryAfter_of_bucket {l : InMemoryLimiter} {k : String} {t : Time} {b : Bucket}
    (hb : l.buckets k = some b) (hless : b.tokens < 1) (hlast : t ≤ b.last) :
    l.retryAfter t k =
      (Int64.ofInt (toDuration (wait l.rate b) + Time.millisecond)).toInt := by
  have hpast : ¬ seconds (Time.sub t b.last) > 0 := fun h =>
    Int.not_lt.mpr hlast (sub_pos_iff.mp (seconds_pos_iff.mp h))
  have hmissing : ¬ 1 - b.tokens ≤ 0 := by linarith
  simp only [retryAfter, hb, available, hpast, ↓reduceIte, retryAfterOf, hmissing, wait]

theorem wait_pos {rate : ℚ} (hrate : 0 < rate) {b : Bucket} (hless : b.tokens < 1) :
    0 < wait rate b := by
  have hsecond : (0 : ℚ) < Time.second := by norm_num [Time.second]
  have hmissing : 0 < 1 - b.tokens := by linarith
  unfold wait
  positivity

/-- A bucket that owes nothing is never further off than a whole token. -/
theorem wait_le_second_div {rate : ℚ} (hrate : 0 < rate) {b : Bucket} (htokens : 0 ≤ b.tokens) :
    wait rate b ≤ Time.second / rate := by
  have hsecond : (0 : ℚ) < Time.second := by norm_num [Time.second]
  unfold wait
  rw [div_mul_eq_mul_div]
  gcongr
  nlinarith

/-- When a call with the bucket is allowed. -/
theorem allow_of_bucket {l : InMemoryLimiter} (hrate : 0 < l.rate) {k : String} {t' : Time}
    {b : Bucket} (hb : l.buckets k = some b) (hless : b.tokens < 1) :
    (l.allow t' k).2 = true ↔ 1 ≤ l.burst ∧ wait l.rate b ≤ Time.sub t' b.last := by
  have hwait := wait_pos hrate hless
  have henough : wait l.rate b ≤ Time.sub t' b.last ↔
      1 ≤ b.tokens + seconds (Time.sub t' b.last) * l.rate := by
    unfold wait seconds
    have hsecond : ((Time.second : ℤ) : ℚ) = 1000000000 := by norm_num [Time.second]
    rw [hsecond, div_mul_eq_mul_div, div_le_iff₀ hrate]
    constructor <;> intro h <;> linarith
  unfold allow
  simp only [hb]
  by_cases hpos : seconds (Time.sub t' b.last) > 0
  · simp only [hpos, ↓reduceIte, minFloat_eq]
    split
    · rename_i hlow
      refine iff_of_false (by simp) ?_
      rintro ⟨hone, hle⟩
      exact absurd hlow (not_lt.mpr (le_min hone (henough.mp hle)))
    · rename_i hhigh
      obtain ⟨hone, hle⟩ := le_min_iff.mp (not_lt.mp hhigh)
      exact iff_of_true rfl ⟨hone, henough.mpr hle⟩
  · simp only [hpos, ↓reduceIte, hless]
    refine iff_of_false (by simp) ?_
    rintro ⟨-, hle⟩
    refine hpos (seconds_pos_iff.mpr ?_)
    exact_mod_cast hwait.trans_le hle

/-! ## The duration -/

/-- `d + time.Millisecond` in `int64`, for a duration that is not negative. -/
theorem add_millisecond_pos_iff {d : Int} (hd : 0 ≤ d) (hmax : d ≤ 9223372036854775807) :
    0 < (Int64.ofInt (d + Time.millisecond)).toInt ↔
      d + Time.millisecond ≤ 9223372036854775807 := by
  rw [Int64.toInt_ofInt]
  simp only [Time.millisecond, Int64.size, Int.bmod]
  omega

theorem add_millisecond_eq {d : Int} (hd : 0 ≤ d)
    (hmax : d + Time.millisecond ≤ 9223372036854775807) :
    (Int64.ofInt (d + Time.millisecond)).toInt = d + Time.millisecond := by
  rw [Int64.toInt_ofInt]
  simp only [Time.millisecond, Int64.size, Int.bmod] at hmax ⊢
  omega

theorem sub_le_max (t u : Int) : Time.sub t u ≤ 9223372036854775807 := by
  dsimp only [Time.sub, Duration]
  omega

theorem toDuration_of_nonneg {x : ℚ} (hx : 0 ≤ x) (hmax : x ≤ 9223372036854775807) :
    toDuration x = ⌊x⌋ := by
  have hrange : -9223372036854775808 ≤ x ∧ x < 9223372036854775808 := by
    constructor <;> linarith
  rw [toDuration, if_pos hrange, if_neg (not_lt.mpr hx)]
  rfl

/-! ## When it tells the truth -/

/-- The conditions, for a limiter with a bucket whose time is not before `t`. -/
theorem truthful_iff_of_bucket {l : InMemoryLimiter} (hrate : 0 < l.rate) {k : String} {t : Time}
    {b : Bucket} (hb : l.buckets k = some b) (hless : b.tokens < 1) (hlast : t ≤ b.last) :
    l.Truthful k t ↔
      1 ≤ l.burst ∧ ⌊wait l.rate b⌋ + Time.millisecond ≤ 9223372036854775807 ∧
        (b.last - t : ℤ) + wait l.rate b ≤ ⌊wait l.rate b⌋ + Time.millisecond := by
  have hwait := wait_pos hrate hless
  have hfloor : 0 ≤ ⌊wait l.rate b⌋ := Int.floor_nonneg.mpr hwait.le
  have hbelow : wait l.rate b < ⌊wait l.rate b⌋ + 1 := Int.lt_floor_add_one _
  -- the calls in between leave the bucket and the numbers of the limiter
  have hlater : ∀ between : List Call, (∀ c ∈ between, c.key ≠ k) → ∀ t',
      ((l.after between).allow t' k).2 = true ↔
        1 ≤ l.burst ∧ wait l.rate b ≤ Time.sub t' b.last := by
    intro between hbetween t'
    have hmeter := meter_after l between
    have hbucket : (l.after between).buckets k = some b := by
      rw [buckets_after, readings_eq_nil hbetween, Meter.after_nil, hb]
    have hr : (l.after between).rate = l.rate := congrArg Meter.rate hmeter
    have hburst : (l.after between).burst = l.burst := congrArg Meter.burst hmeter
    rw [allow_of_bucket (by rw [hr]; exact hrate) hbucket hless, hr, hburst]
  rw [Truthful, retryAfter_of_bucket hb hless hlast]
  constructor
  case mp =>
    rintro ⟨hpos, hallowed⟩
    obtain ⟨hone, hle⟩ := (hlater [] (by simp) _).mp (hallowed [] (by simp) _ (Int.le_refl _))
    have hmax : wait l.rate b ≤ 9223372036854775807 := by
      refine hle.trans ?_
      exact_mod_cast sub_le_max _ _
    rw [toDuration_of_nonneg hwait.le hmax] at hpos hle
    have hfloorMax : ⌊wait l.rate b⌋ ≤ 9223372036854775807 :=
      Int.cast_le.mp ((Int.floor_le _).trans hmax)
    have hfit := (add_millisecond_pos_iff hfloor hfloorMax).mp hpos
    rw [add_millisecond_eq hfloor hfit] at hle
    refine ⟨hone, hfit, ?_⟩
    have hlt : b.last < t + (⌊wait l.rate b⌋ + Time.millisecond) := by
      refine sub_pos_iff.mp ?_
      exact_mod_cast hwait.trans_le hle
    have hcap : wait l.rate b ≤ (t + (⌊wait l.rate b⌋ + Time.millisecond) - b.last : ℤ) :=
      hle.trans (Int.cast_le.mpr (sub_le hlt))
    push_cast at hcap ⊢
    linarith
  case mpr =>
    rintro ⟨hone, hfit, hslack⟩
    have hfloorMax : ⌊wait l.rate b⌋ + 1 ≤ 9223372036854775807 := by
      simp only [Time.millisecond] at hfit
      omega
    have hmax : wait l.rate b ≤ 9223372036854775807 := by
      refine hbelow.le.trans ?_
      exact_mod_cast hfloorMax
    rw [toDuration_of_nonneg hwait.le hmax, add_millisecond_eq hfloor hfit]
    refine ⟨?_, fun between hbetween t' ht' => (hlater between hbetween t').mpr ⟨hone, ?_⟩⟩
    · exact Int.add_pos_of_nonneg_of_pos hfloor (by decide)
    · -- the wait is over, and no longer than what the difference is capped at
      have hover : ⌈wait l.rate b⌉ ≤ t' - b.last := by
        refine Int.ceil_le.mpr ?_
        have hreach : ((t + (⌊wait l.rate b⌋ + Time.millisecond) : ℤ) : ℚ) ≤ t' :=
          Int.cast_le.mpr ht'
        push_cast at hreach hslack ⊢
        linarith
      have hceil : ⌈wait l.rate b⌉ ≤ 9223372036854775807 := Int.ceil_le.mpr (by exact_mod_cast hmax)
      exact (Int.le_ceil _).trans (Int.cast_le.mpr (min_le_sub hceil hover))

/-- **`RetryAfter` tells the truth under three conditions.** `Allow` has
returned false at `t`, after any calls, and left the bucket `b`. The conditions
are that a full bucket has a token, that the wait and the millisecond fit an
`int64`, and that the time of the bucket, if it is after `t`, is so by no more
than the slack. If no call has read a later time than `t`, then it is enough
that a full bucket has a token and that a whole token comes in within the
longest duration. -/
theorem retryAfter_truthful_iff {rate burst : ℚ} (hrate : 0 < rate) (hburst : 0 < burst)
    (before : List Call) {k : String} {t : Time} {b : Bucket}
    (hrefused : (((newWithNow rate burst).after before).allow t k).2 = false)
    (hb : (((newWithNow rate burst).after before).allow t k).1.buckets k = some b) :
    let l := (((newWithNow rate burst).after before).allow t k).1
    (l.Truthful k t ↔
      1 ≤ burst ∧ ⌊wait rate b⌋ + Time.millisecond ≤ 9223372036854775807 ∧
        (b.last - t : ℤ) + wait rate b ≤ ⌊wait rate b⌋ + Time.millisecond) ∧
    ((∀ c ∈ before, c.key = k → c.now ≤ t) → 1 ≤ burst →
      Time.second / rate + Time.millisecond ≤ 9223372036854775807 → l.Truthful k t) := by
  intro l
  obtain ⟨hr, hburst'⟩ := meter_newWithNow hrate hburst
  have hmeter : l.meter = (newWithNow rate burst).meter :=
    (meter_allow _ ⟨k, t⟩).trans (meter_after _ before)
  have hlrate : l.rate = rate := (congrArg Meter.rate hmeter).trans hr
  have hlburst : l.burst = burst := (congrArg Meter.burst hmeter).trans hburst'
  have hlpos : 0 < l.rate := by rw [hlrate]; exact hrate
  obtain ⟨b₀, hb₀, hfill, hless, hlast⟩ := bucket_of_refused hrefused hb
  have hiff := truthful_iff_of_bucket hlpos hb hless hlast
  rw [hlrate, hlburst] at hiff
  refine ⟨hiff, fun hclock hone hlong => hiff.mpr ⟨hone, ?_⟩⟩
  rw [meter_after] at hfill
  rw [buckets_after] at hb₀
  have hlawful : (newWithNow rate burst).meter.Lawful :=
    meter_lawful (le_of_lt (show 0 < (newWithNow rate burst).meter.rate by rw [hr]; exact hrate))
  -- the clock has not gone back, so the bucket has the time of the call
  have hold : b₀.last ≤ t := by
    refine seconds_le_iff.mp (Meter.gauge_after_le _ (by rintro x ⟨⟩) ?_ b₀ hb₀)
    intro u hu
    obtain ⟨c, hc, rfl⟩ := List.mem_map.mp hu
    obtain ⟨hc, hk⟩ := List.mem_filter.mp hc
    exact seconds_le_iff.mpr (hclock c hc (of_decide_eq_true hk))
  have hsame : b.last = t := by
    refine Int.le_antisymm ?_ hlast
    rw [hfill]
    unfold Meter.fill
    split
    · exact Int.le_refl t
    · exact hold
  have htokens : 0 ≤ b.tokens := by
    have hwithin := (Meter.within_after hlawful (by rintro x ⟨⟩) _ b₀ hb₀).fill hlawful t
    rw [← hfill] at hwithin
    have hfloor := hwithin.floor
    rw [hburst', min_eq_left (by linarith)] at hfloor
    exact hfloor
  have hshort := wait_le_second_div hrate htokens
  have hfloor : (⌊wait rate b⌋ : ℚ) ≤ wait rate b := Int.floor_le _
  have hbelow : wait rate b < ⌊wait rate b⌋ + 1 := Int.lt_floor_add_one _
  constructor
  · have hfit : ((⌊wait rate b⌋ + Time.millisecond : ℤ) : ℚ) ≤ (9223372036854775807 : ℤ) := by
      push_cast
      linarith
    exact Int.cast_le.mp hfit
  · have hslack : (1 : ℚ) ≤ Time.millisecond := by norm_num [Time.millisecond]
    rw [hsame, Int.sub_self, Int.cast_zero]
    linarith

/-- Two tokens and one more each second: a client that has used them up is told
to wait for a second and a millisecond. -/
theorem retryAfter_truthful_second :
    let l := (newWithNow 1 2).after [⟨"a", 0⟩, ⟨"a", 0⟩]
    (l.allow 0 "a").2 = false ∧
      (l.allow 0 "a").1.retryAfter 0 "a" = Time.second + Time.millisecond ∧
      (l.allow 0 "a").1.Truthful "a" 0 := by
  refine ⟨by decide +kernel, by decide +kernel, ?_⟩
  exact (retryAfter_truthful_iff (b := ⟨0, 0⟩) (by norm_num) (by norm_num) [⟨"a", 0⟩, ⟨"a", 0⟩]
    (by decide +kernel) (by decide +kernel)).2 (by decide) (by norm_num)
    (by norm_num [Time.second, Time.millisecond])

/-- With half a token in a full bucket the second call is refused, and the
client told to wait for a second and a half and a millisecond; but whenever it
comes back it is refused again. With one token in 10 000 000 000 seconds the
wait does not fit the type, and is announced as a negative one. -/
theorem retryAfter_untruthful :
    let half := (newWithNow 1 (1 / 2)).after [⟨"a", 0⟩]
    let slow := (newWithNow (1 / 10000000000) 1).after [⟨"a", 0⟩]
    ((half.allow 0 "a").2 = false ∧
      (half.allow 0 "a").1.retryAfter 0 "a" = 1501 * Time.millisecond ∧
      ∀ t', ((half.allow 0 "a").1.allow t' "a").2 = false) ∧
    (slow.allow 0 "a").2 = false ∧ (slow.allow 0 "a").1.retryAfter 0 "a" < 0 := by
  intro half slow
  refine ⟨⟨by decide +kernel, by decide +kernel, fun t' => ?_⟩, by decide +kernel,
    by decide +kernel⟩
  have hbucket : (half.allow 0 "a").1.buckets "a" = some ⟨-1 / 2, 0⟩ := by decide +kernel
  have hburst : (half.allow 0 "a").1.burst = 1 / 2 := by decide +kernel
  have hrate : 0 < (half.allow 0 "a").1.rate := by decide +kernel
  rw [← Bool.not_eq_true, allow_of_bucket hrate hbucket (by norm_num), hburst]
  norm_num

end InMemoryLimiter

end GoRestApi.RateLimit
