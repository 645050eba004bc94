/-
GoRestApi.RateLimit.LimiterTheorems — what the limiters grant.

A bucket of either limiter is one of `Limit.TokenBucket`: `allow_eq` and
`script_eq` say which, and for the Redis limiter, whose bucket expires, under
which condition. `allow_granted_le` is then the library's bound, for one key
among calls with any keys and any clock readings.

`limiters_agree_iff` compares the two. Redis drops a bucket 60 seconds after
the last call, and the next call starts with a full one, while the in-memory
bucket has what came in since. That is no less than a full bucket only if
`burst` tokens come in within the minute.
-/
import GoRestApi.RateLimit.Limiter
import Mathlib.Tactic.NormNum
import Mathlib.Tactic.Positivity

namespace GoRestApi.RateLimit

open Go Limit RedisServer

/-! ## Numbers -/

theorem minFloat_eq (a b : ℚ) : minFloat a b = min a b := by
  unfold minFloat
  split
  · exact (min_eq_left ‹a < b›.le).symm
  · exact (min_eq_right (not_lt.mp ‹_›)).symm

theorem seconds_le_iff {a b : Duration} : seconds a ≤ seconds b ↔ a ≤ b := by
  unfold seconds
  rw [div_le_div_iff_of_pos_right (by norm_num)]
  exact Int.cast_le

theorem seconds_pos_iff {d : Duration} : 0 < seconds d ↔ 0 < d := by
  unfold seconds
  rw [div_pos_iff_of_pos_right (by norm_num)]
  exact Int.cast_pos

theorem seconds_nonneg {d : Duration} (h : 0 ≤ d) : 0 ≤ seconds d :=
  div_nonneg (Int.cast_nonneg h) (by norm_num)

theorem seconds_sub (a b : Duration) : seconds (a - b) = seconds a - seconds b := by
  unfold seconds
  push_cast
  ring

theorem sub_pos_iff {t u : Int} : (0 : Int) < Time.sub t u ↔ u < t := by
  simp only [Time.sub]
  omega

theorem sub_le {t u : Int} (h : u < t) : Time.sub t u ≤ t - u := by
  dsimp only [Time.sub, Duration]
  omega

/-- The difference is capped only when it is longer than any duration. -/
theorem min_le_sub {t u d : Int} (hd : d ≤ 9223372036854775807) (h : d ≤ t - u) :
    d ≤ Time.sub t u := by
  simp only [Time.sub]
  omega

theorem sub_eq {t u : Int} (h : u ≤ t) (hd : t - u ≤ 9223372036854775807) :
    Time.sub t u = t - u := by
  dsimp only [Time.sub, Duration]
  omega

/-! ## The in-memory limiter -/

namespace InMemoryLimiter

/-- The token bucket that a limiter keeps for each key. -/
def meter (l : InMemoryLimiter) : Meter ℚ Time where
  rate := l.rate
  burst := l.burst
  gauge := seconds
  elapsed s t := seconds (Time.sub t s)
  gone _ _ := false

theorem meter_lawful {l : InMemoryLimiter} (hrate : 0 ≤ l.rate) : l.meter.Lawful where
  rate_nonneg := hrate
  elapsed_le s t hpos := by
    have hlt : s < t := sub_pos_iff.mp (seconds_pos_iff.mp hpos)
    show seconds (Time.sub t s) ≤ seconds t - seconds s
    rw [← seconds_sub]
    exact seconds_le_iff.mpr (sub_le hlt)
  gauge_le s t hpos := by
    have hle : ¬ s < t := fun hlt => hpos (seconds_pos_iff.mpr (sub_pos_iff.mpr hlt))
    exact seconds_le_iff.mpr (Int.not_lt.mp hle)

theorem meter_covered (l : InMemoryLimiter) : l.meter.Covered := by
  intro s t h
  cases h

/-- **A call is one of the bucket of its key.** -/
theorem allow_eq (l : InMemoryLimiter) (now : Time) (key : String) :
    l.allow now key = (l.setBucket key (l.meter.allow (l.buckets key) now).1,
      (l.meter.allow (l.buckets key) now).2) := by
  unfold allow
  cases l.buckets key with
  | none => rfl
  | some b =>
    have hgone : l.meter.gone b.last now = false := rfl
    have hfill : (if seconds (Time.sub now b.last) > 0 then
        ⟨minFloat l.burst (b.tokens + seconds (Time.sub now b.last) * l.rate), now⟩ else b) =
        l.meter.fill b now := by
      rw [minFloat_eq]
      rfl
    simp only [hfill, Meter.allow, hgone, Bool.false_eq_true, ↓reduceIte, Meter.take]
    split <;> rfl

/-- A call of `Allow`, with the reading of the clock. -/
structure Call where
  key : String
  now : Time
  deriving DecidableEq, Repr

/-- The limiter after calls. -/
def after (l : InMemoryLimiter) (cs : List Call) : InMemoryLimiter :=
  cs.foldl (fun l c => (l.allow c.now c.key).1) l

def answers (l : InMemoryLimiter) : List Call → List Bool
  | [] => []
  | c :: cs => (l.allow c.now c.key).2 :: answers (l.allow c.now c.key).1 cs

/-- How many of the calls with the key `k` return true. -/
def granted (l : InMemoryLimiter) (k : String) (cs : List Call) : Nat :=
  ((cs.zip (l.answers cs)).filter fun x => x.1.key = k && x.2).length

/-- The clock readings of the calls with the key `k`. -/
def readings (k : String) (cs : List Call) : List Time :=
  (cs.filter fun c => c.key = k).map Call.now

section Calls

variable (l : InMemoryLimiter) (k : String)

theorem readings_cons (c : Call) (cs : List Call) :
    readings k (c :: cs) = if c.key = k then c.now :: readings k cs else readings k cs := by
  unfold readings
  split <;> simp_all

theorem readings_map (ts : List Time) : readings k (ts.map (Call.mk k)) = ts := by
  induction ts with
  | nil => rfl
  | cons t ts ih => rw [List.map_cons, readings_cons, if_pos rfl, ih]

/-- A call leaves the buckets of the other keys. -/
theorem buckets_allow (c : Call) :
    (l.allow c.now c.key).1.buckets k =
      if c.key = k then some (l.meter.allow (l.buckets k) c.now).1 else l.buckets k := by
  rw [allow_eq]
  split
  · rename_i hk
    subst hk
    exact Function.update_self ..
  · rename_i hk
    exact Function.update_of_ne (Ne.symm hk) ..

theorem meter_allow (c : Call) : (l.allow c.now c.key).1.meter = l.meter := by
  rw [allow_eq]
  rfl

theorem meter_after (cs : List Call) : (l.after cs).meter = l.meter := by
  induction cs generalizing l with
  | nil => rfl
  | cons c cs ih => exact (ih _).trans (meter_allow l c)

theorem buckets_after (cs : List Call) :
    (l.after cs).buckets k = l.meter.after (l.buckets k) (readings k cs) := by
  induction cs generalizing l with
  | nil => rfl
  | cons c cs ih =>
    have hrest := ih (l.allow c.now c.key).1
    rw [meter_allow, buckets_allow] at hrest
    rw [readings_cons]
    split <;> simp_all [after, Meter.after]

/-- What is granted to a key is what its bucket grants. -/
theorem granted_eq (cs : List Call) :
    l.granted k cs = l.meter.grants (l.buckets k) (readings k cs) := by
  induction cs generalizing l with
  | nil => rfl
  | cons c cs ih =>
    have hrest := ih (l.allow c.now c.key).1
    rw [meter_allow, buckets_allow] at hrest
    have hanswer : (l.allow c.now c.key).2 = (l.meter.allow (l.buckets c.key) c.now).2 := by
      rw [allow_eq]
    unfold granted at hrest ⊢
    rw [readings_cons]
    by_cases hk : c.key = k
    · subst hk
      rw [if_pos rfl] at hrest
      unfold Meter.grants at hrest ⊢
      rw [if_pos rfl, Meter.answers_cons, ← hanswer]
      cases h : (l.allow c.now c.key).2 <;> simp [answers, h, hrest]
    · rw [if_neg hk] at hrest ⊢
      simp [answers, hk, hrest]

/-- The calls of one key. -/
theorem answers_eq (ts : List Time) :
    l.answers (ts.map (Call.mk k)) = l.meter.answers (l.buckets k) ts := by
  induction ts generalizing l with
  | nil => rfl
  | cons t ts ih =>
    have hrest := ih (l.allow t k).1
    rw [meter_allow l ⟨k, t⟩, buckets_allow l k ⟨k, t⟩, if_pos rfl] at hrest
    simp only [List.map_cons, answers, Meter.answers_cons, hrest]
    rw [allow_eq]

end Calls

theorem meter_newWithNow {rate burst : ℚ} (hrate : 0 < rate) (hburst : 0 < burst) :
    (newWithNow rate burst).meter.rate = rate ∧ (newWithNow rate burst).meter.burst = burst := by
  simp [newWithNow, meter, rateOr, burstOr, not_le.mpr hrate, not_le.mpr hburst]

/-- **The token-bucket bound.** Of the calls with the key `k` in a segment
`cs` of a sequence of calls, the first of which reads `t` and none more than
`last`, at most `max 1 burst + rate * (last - t)` return true, whatever calls
come `before` and in between, and whatever they read. -/
theorem allow_granted_le {rate burst : ℚ} (hrate : 0 < rate) (hburst : 0 < burst)
    (before cs : List Call) {k : String} {t last : Time} {ts : List Time}
    (hcs : readings k cs = t :: ts) (hlast : ∀ u ∈ t :: ts, u ≤ last) :
    (((newWithNow rate burst).after before).granted k cs : ℚ) ≤
      max 1 burst + rate * seconds (last - t) := by
  obtain ⟨hr, hb⟩ := meter_newWithNow hrate hburst
  have hlawful : (newWithNow rate burst).meter.Lawful :=
    meter_lawful (le_of_lt (show 0 < (newWithNow rate burst).meter.rate by rw [hr]; exact hrate))
  rw [granted_eq, meter_after, buckets_after, hcs, seconds_sub]
  conv_rhs => rw [← hr, ← hb]
  apply Meter.grants_le hlawful (meter_covered _)
  · exact Meter.within_after hlawful (by rintro x ⟨⟩) _
  · exact seconds_le_iff.mpr (hlast t List.mem_cons_self)
  · exact fun u hu => seconds_le_iff.mpr (hlast u (List.mem_cons_of_mem t hu))

/-- With two tokens and one more each second, three of four calls within a
second are granted, which is the bound. -/
theorem allow_granted_le_second :
    let cs : List Call := [⟨"a", 0⟩, ⟨"b", 0⟩, ⟨"a", 0⟩, ⟨"a", 0⟩, ⟨"a", Time.second⟩]
    ((newWithNow 1 2).after []).granted "a" cs = 3 ∧
      (((newWithNow 1 2).after []).granted "a" cs : ℚ) ≤ max 1 2 + 1 * seconds (Time.second - 0) :=
  ⟨by decide +kernel,
    allow_granted_le (t := 0) (by norm_num) (by norm_num) [] _ rfl (by decide)⟩

end InMemoryLimiter

/-! ## The Redis limiter -/

namespace RedisLimiter

/-- The token bucket of a key of Redis. -/
def meter (l : RedisLimiter) : Meter ℚ Time where
  rate := l.rate
  burst := l.burst
  gauge := seconds
  elapsed s t := seconds (t - s)
  gone s t := s + keyTTL ≤ t

theorem meter_lawful {l : RedisLimiter} (hrate : 0 ≤ l.rate) : l.meter.Lawful where
  rate_nonneg := hrate
  elapsed_le s t _ := le_of_eq (seconds_sub t s)
  gauge_le s t hpos := by
    have hle : ¬ 0 < t - s := fun h => hpos (seconds_pos_iff.mpr h)
    exact seconds_le_iff.mpr (Int.not_lt.mp fun h => hle (Int.sub_pos_of_lt h))

/-- The bucket that a limiter keeps as long as the key is there. -/
def steady (l : RedisLimiter) : Meter ℚ Time := { l.meter with gone := fun _ _ => false }

theorem steady_lawful {l : RedisLimiter} (hrate : 0 ≤ l.rate) : l.steady.Lawful :=
  ⟨hrate, (meter_lawful hrate).elapsed_le, (meter_lawful hrate).gauge_le⟩

theorem steady_allow_some (l : RedisLimiter) (b : Bucket) (now : Time) :
    l.steady.allow (some b) now = Meter.take (l.steady.fill b now) := rfl

theorem script_eq_steady (l : RedisLimiter) (now : Time) (data : Option Bucket) :
    l.script now data = l.steady.allow data now := by
  cases data with
  | none => rfl
  | some b =>
    rw [steady_allow_some]
    by_cases hpos : seconds (now - b.last) > 0
    · have hfill : l.steady.fill b now =
          ⟨min l.burst (b.tokens + seconds (now - b.last) * l.rate), now⟩ := if_pos hpos
      simp only [hfill, script, hpos, ↓reduceIte, Meter.take]
    · have hfill : l.steady.fill b now = b := if_neg hpos
      simp only [hfill, script, hpos, ↓reduceIte, Meter.take]

/-- The script keeps the latest of the readings it was given. -/
theorem last_allow_some (l : RedisLimiter) (b : Bucket) (now : Time) :
    (l.steady.allow (some b) now).1.last = max b.last now := by
  rw [steady_allow_some, (Meter.take_tokens _).2]
  by_cases hpos : b.last < now
  · have hfill : 0 < seconds (now - b.last) := seconds_pos_iff.mpr (Int.sub_pos_of_lt hpos)
    rw [Meter.fill, if_pos (show 0 < l.steady.elapsed b.last now from hfill)]
    exact (max_eq_right (le_of_lt hpos)).symm
  · have hfill : ¬ 0 < seconds (now - b.last) := by
      rw [seconds_pos_iff]
      exact fun h => hpos (Int.lt_of_sub_pos h)
    rw [Meter.fill, if_neg (show ¬ 0 < l.steady.elapsed b.last now from hfill)]
    exact (max_eq_left (not_lt.mp hpos)).symm

/-- A bucket whose last call was at `last`, as all are when the clock does not
go back. -/
structure Timed (b : RedisBucket) (now : Time) : Prop where
  expireAt : b.expireAt = b.value.last + keyTTL
  last_le : b.value.last ≤ now

/-- What the script is given of a key. -/
def found (data : Option RedisBucket) (now : Time) : Option Bucket :=
  (data.filter fun b => now < b.expireAt).map Key.value

/-- **A call is one of the bucket of its key.** -/
theorem script_eq (l : RedisLimiter) {data : Option RedisBucket} {now : Time}
    (hdata : ∀ b ∈ data, Timed b now) :
    l.script now (found data now) = l.meter.allow (data.map Key.value) now ∧
      (l.script now (found data now)).1.last = now := by
  rw [script_eq_steady]
  cases data with
  | none => exact ⟨rfl, rfl⟩
  | some b =>
    obtain ⟨hexpires, hlast⟩ := hdata b rfl
    by_cases hlive : now < b.expireAt
    · have hfound : found (some b) now = some b.value := by simp [found, Option.filter, hlive]
      have hgone : l.meter.gone b.value.last now = false := by
        rw [hexpires] at hlive
        simpa [meter] using hlive
      rw [hfound]
      refine ⟨?_, by rw [last_allow_some, max_eq_right hlast]⟩
      simp only [Option.map_some, Meter.allow, hgone, Bool.false_eq_true, ↓reduceIte]
      rfl
    · have hfound : found (some b) now = none := by simp [found, Option.filter, hlive]
      have hgone : l.meter.gone b.value.last now = true := by
        rw [hexpires] at hlive
        simpa [meter] using hlive
      rw [hfound]
      refine ⟨?_, rfl⟩
      simp only [Option.map_some, Meter.allow, hgone, ↓reduceIte]
      rfl

/-- Redis after calls with one key, none of which fails. -/
def after (l : RedisLimiter) (name : String) (r : Redis) (ts : List Time) : Redis :=
  ts.foldl (fun r t => (l.allow r t true name).1) r

def answers (l : RedisLimiter) (name : String) : Redis → List Time → List Bool
  | _, [] => []
  | r, t :: ts =>
    (l.allow r t true name).2 :: answers l name (l.allow r t true name).1 ts

/-- The bucket that Redis holds for a client, whether or not it has
expired. -/
def bucketOf (r : Redis) (name : String) : Option Bucket :=
  (r.keys (keyFor name)).map Key.value

theorem allow_spec (l : RedisLimiter) {r : Redis} {now : Time} {name : String}
    (hr : ∀ b ∈ r.keys (keyFor name), Timed b now) :
    let r' := l.allow r now true name
    bucketOf r'.1 name = some (l.meter.allow (bucketOf r name) now).1 ∧
      r'.2 = (l.meter.allow (bucketOf r name) now).2 ∧
      ∀ b ∈ r'.1.keys (keyFor name), ∀ t, now ≤ t → Timed b t := by
  obtain ⟨hallow, hlast⟩ := l.script_eq hr
  have hcall : l.allow r now true name =
      (r.put (keyFor name) ⟨(l.meter.allow (bucketOf r name) now).1, now + keyTTL⟩,
        (l.meter.allow (bucketOf r name) now).2) := by
    rw [bucketOf, ← hallow]
    rfl
  rw [hallow] at hlast
  intro r'
  rw [show r' = _ from hcall]
  refine ⟨by simp [bucketOf], rfl, fun b hb t ht => ?_⟩
  rw [Keys.keys_put_self, Option.mem_some_iff] at hb
  subst hb
  exact ⟨congrArg (· + keyTTL) hlast.symm, hlast.trans_le ht⟩

/-- The calls of one key at instants that do not go back. -/
theorem answers_eq (l : RedisLimiter) (name : String) {r : Redis} {ts : List Time}
    (hts : ts.Pairwise (· ≤ ·))
    (hr : ∀ b ∈ r.keys (keyFor name), ∀ t ∈ ts, Timed b t) :
    l.answers name r ts = l.meter.answers (bucketOf r name) ts ∧
      bucketOf (l.after name r ts) name = l.meter.after (bucketOf r name) ts := by
  induction ts generalizing r with
  | nil => exact ⟨rfl, rfl⟩
  | cons t ts ih =>
    obtain ⟨hle, hts⟩ := List.pairwise_cons.mp hts
    obtain ⟨hbucket, hanswer, htimed⟩ := l.allow_spec fun b hb => hr b hb t List.mem_cons_self
    obtain ⟨hanswers, hafter⟩ := ih hts fun b hb u hu => htimed b hb u (hle u hu)
    rw [hbucket] at hanswers hafter
    exact ⟨by rw [answers, Meter.answers_cons, hanswers, hanswer], hafter⟩

end RedisLimiter

/-! ## The two limiters -/

open RedisLimiter InMemoryLimiter

/-- For the same rate and burst, the Redis limiter differs from the in-memory
one by forgetting buckets. -/
theorem forgetful_meter (rate burst : ℚ) :
    Meter.Forgetful (newWithNow rate burst).meter (newRedis rate burst).meter where
  keeps _ _ := rfl
  burst := rfl
  fill b t hgone := by
    have hsoon : t < b.last + keyTTL := by simpa [RedisLimiter.meter] using hgone
    by_cases hlt : b.last < t
    · have hshort : t - b.last ≤ 9223372036854775807 := by
        have hkey : keyTTL = (60000000000 : Int) := rfl
        rw [hkey] at hsoon
        dsimp only [Time] at *
        omega
      have hsub : Time.sub t b.last = t - b.last := sub_eq (Int.le_of_lt hlt) hshort
      unfold Meter.fill
      simp only [RedisLimiter.meter, InMemoryLimiter.meter, hsub]
      rfl
    · have hred : ¬ 0 < seconds (t - b.last) := fun h =>
        hlt (Int.lt_of_sub_pos (seconds_pos_iff.mp h))
      have hmem : ¬ 0 < seconds (Time.sub t b.last) := fun h =>
        hlt (sub_pos_iff.mp (seconds_pos_iff.mp h))
      exact (if_neg hred).trans (if_neg hmem).symm

/-- What a bucket has in it when it is filled. -/
theorem fill_of_gone (l : InMemoryLimiter) {b : Bucket} {t : Time} (hgone : b.last + keyTTL ≤ t) :
    l.meter.fill b t = ⟨l.available t b, t⟩ := by
  have hlt : b.last < t := Int.lt_of_lt_of_le (Int.lt_add_of_pos_right _ (by decide)) hgone
  have hpos : 0 < seconds (Time.sub t b.last) := seconds_pos_iff.mpr (sub_pos_iff.mpr hlt)
  unfold Meter.fill available
  simp only [InMemoryLimiter.meter, hpos, ↓reduceIte, minFloat_eq]

/-- Within the minute after which Redis drops it, a bucket is filled up. -/
theorem fill_full {rate burst : ℚ} (hrate : 0 < rate) (hone : 1 ≤ burst)
    (hminute : burst ≤ 60 * rate) {b : Bucket} {t : Time}
    (hb : (newWithNow rate burst).meter.Within b) (hgone : b.last + keyTTL ≤ t) :
    (newWithNow rate burst).meter.fill b t = ⟨burst, t⟩ := by
  obtain ⟨hr, hburst⟩ := meter_newWithNow hrate (lt_of_lt_of_le one_pos hone)
  have hlong : seconds keyTTL ≤ seconds (Time.sub t b.last) := by
    refine seconds_le_iff.mpr (min_le_sub (by decide) ?_)
    exact Int.le_sub_left_of_add_le hgone
  have hkey : seconds keyTTL = 60 := by decide +kernel
  rw [hkey] at hlong
  have hfloor : 0 ≤ b.tokens := by
    have hfloor := hb.floor
    rw [hburst, min_eq_left (by linarith)] at hfloor
    exact hfloor
  have hpos : 0 < (newWithNow rate burst).meter.elapsed b.last t :=
    lt_of_lt_of_le (by norm_num) hlong
  have hgain : burst ≤ b.tokens + (newWithNow rate burst).meter.elapsed b.last t * rate := by
    have hmul := mul_le_mul_of_nonneg_right hlong hrate.le
    show burst ≤ b.tokens + seconds (Time.sub t b.last) * rate
    linarith
  unfold Meter.fill
  rw [if_pos hpos, hr, hburst, min_eq_left hgain]

/-- **The two limiters.** Called at the same instants, which do not go back,
they give the same answers and are left with the same bucket after every call
exactly if every call that comes when Redis has dropped the bucket, 60 seconds
after the last call, finds the in-memory bucket full, and a full bucket has a
token. So it is whatever the calls are if a full bucket has a token and is
filled up in 60 seconds. -/
theorem limiters_agree_iff {rate burst : ℚ} (hrate : 0 < rate) (hburst : 0 < burst)
    (name : String) {ts : List Time} (hts : ts.Pairwise (· ≤ ·)) :
    let mem := newWithNow rate burst
    let red := newRedis rate burst
    ((∀ us, us <+: ts →
        red.answers name .empty us = mem.answers (us.map (Call.mk name)) ∧
        bucketOf (red.after name .empty us) name =
          (mem.after (us.map (Call.mk name))).buckets name) ↔
      ∀ us t, us ++ [t] <+: ts →
        ∀ b ∈ (mem.after (us.map (Call.mk name))).buckets name, b.last + keyTTL ≤ t →
          1 ≤ burst ∧ mem.available t b = burst) ∧
    (1 ≤ burst → burst ≤ 60 * rate →
      red.answers name .empty ts = mem.answers (ts.map (Call.mk name))) := by
  intro mem red
  obtain ⟨hr, hb⟩ := meter_newWithNow hrate hburst
  have hmem : ∀ us : List Time, mem.answers (us.map (Call.mk name)) = mem.meter.answers none us ∧
      (mem.after (us.map (Call.mk name))).buckets name = mem.meter.after none us := by
    intro us
    refine ⟨answers_eq mem name us, ?_⟩
    rw [buckets_after, readings_map]
    rfl
  have hred : ∀ us, us <+: ts →
      red.answers name .empty us = red.meter.answers none us ∧
      bucketOf (red.after name .empty us) name = red.meter.after none us := by
    intro us hus
    exact RedisLimiter.answers_eq red name (hts.sublist hus.sublist) (by rintro b ⟨⟩)
  have hsame : (∀ us, us <+: ts →
        red.answers name .empty us = mem.answers (us.map (Call.mk name)) ∧
        bucketOf (red.after name .empty us) name =
          (mem.after (us.map (Call.mk name))).buckets name) ↔
      ∀ us t, us ++ [t] <+: ts → ∀ b ∈ mem.meter.after none us, b.last + keyTTL ≤ t →
          1 ≤ burst ∧ mem.meter.fill b t = ⟨burst, t⟩ := by
    have hagree := (forgetful_meter rate burst).agree_iff none ts
    simp only [hb, RedisLimiter.meter, decide_eq_true_eq] at hagree
    rw [← hagree]
    refine forall₂_congr fun us hus => ?_
    rw [(hred us hus).1, (hred us hus).2, (hmem us).1, (hmem us).2]
    rfl
  refine ⟨?same, ?fast⟩
  case same =>
    rw [hsame]
    refine forall₃_congr fun us t hus => ?_
    rw [(hmem us).2]
    refine forall₃_congr fun b _ hgone => and_congr_right fun _ => ?_
    rw [fill_of_gone mem hgone]
    simp
  case fast =>
    intro hone hminute
    have hlawful : mem.meter.Lawful :=
      InMemoryLimiter.meter_lawful (show 0 ≤ mem.meter.rate by rw [hr]; exact hrate.le)
    refine (hsame.mpr ?_ ts (List.prefix_refl ts)).1
    intro us t _ b hbucket hgone
    have hwithin := Meter.within_after hlawful (by rintro x ⟨⟩) us b hbucket
    exact ⟨hone, fill_full hrate hone hminute hwithin hgone⟩

/-- Two tokens and one more each half minute: the second minute starts with a
full bucket in both. -/
theorem limiters_agree_minute :
    let ts : List Time := [0, 0, 0, Time.minute, Time.minute]
    (newRedis (1 / 30) 2).answers "a" .empty ts =
      (newWithNow (1 / 30) 2).answers (ts.map (Call.mk "a")) :=
  (limiters_agree_iff (by norm_num) (by norm_num) "a" (by decide)).2 (by norm_num) (by norm_num)

/-- Two tokens and one more each two minutes, and three calls, the last a
minute after the others: Redis has dropped the empty bucket and allows it,
while the in-memory limiter has half a token. -/
theorem limiters_disagree :
    let ts : List Time := [0, 0, Time.minute]
    (newRedis (1 / 120) 2).answers "a" .empty ts = [true, true, true] ∧
      (newWithNow (1 / 120) 2).answers (ts.map (Call.mk "a")) = [true, true, false] := by
  decide +kernel

end GoRestApi.RateLimit
