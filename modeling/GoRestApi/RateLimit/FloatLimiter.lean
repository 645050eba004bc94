/-
GoRestApi.RateLimit.FloatLimiter — `inMemoryLimiter` over the numbers it is
written with.

`RateLimit.Limiter` takes `float64` for the field of rationals. Here it is
`Float`, with its rounding, its infinities and NaN, since a limiter may be
built with any of them. Requests that come at one instant take one token each
and none is filled in, so the limiter counts down from its burst, and denies
one of them exactly if the countdown comes below 1 (`denies_iff`). Up to a
burst of 2 ^ 53 it answers them as the limiter over the rationals does
(`answers_eq`).
-/
import GoRestApi.Ieee.Countdown
import GoRestApi.RateLimit.LimiterTheorems

namespace GoRestApi.RateLimit

open Go Ieee
open InMemoryLimiter (Call)

/-! ## The limiter -/

/-- `d.Seconds()`. -/
def floatSeconds (d : Duration) : Float :=
  Float.ofInt (d.tdiv Time.second) + Float.ofInt (d.tmod Time.second) / 1000000000

/-- `bucket`. -/
structure FloatBucket where
  tokens : Float
  lastFill : Time

structure FloatLimiter where
  buckets : String → Option FloatBucket
  rate : Float
  burst : Float

namespace FloatLimiter

def minFloat (a b : Float) : Float := if a < b then a else b

/-- `NewWithNow`. -/
def newWithNow (rate burst : Float) : FloatLimiter :=
  let rate := if rate ≤ 0 then 1 else rate
  let burst := if burst ≤ 0 then rate else burst
  ⟨fun _ => none, rate, burst⟩

def setBucket (l : FloatLimiter) (key : String) (b : FloatBucket) : FloatLimiter :=
  { l with buckets := Function.update l.buckets key (some b) }

/-- `Allow`. -/
def allow (l : FloatLimiter) (now : Time) (key : String) : FloatLimiter × Bool :=
  match l.buckets key with
  | none => (l.setBucket key ⟨l.burst - 1, now⟩, true)
  | some b =>
    let elapsed := floatSeconds (Time.sub now b.lastFill)
    let b :=
      if elapsed > 0 then ⟨minFloat l.burst (b.tokens + elapsed * l.rate), now⟩ else b
    if b.tokens < 1 then (l.setBucket key b, false)
    else (l.setBucket key { b with tokens := b.tokens - 1 }, true)

def answers (l : FloatLimiter) : List Call → List Bool
  | [] => []
  | c :: cs => (l.allow c.now c.key).2 :: (l.allow c.now c.key).1.answers cs

/-- Requests with a key at one instant. -/
def together (key : String) (now : Time) (n : ℕ) : List Call := List.replicate n ⟨key, now⟩

/-- Some request is denied if enough of them come at one instant. -/
def Denies (l : FloatLimiter) (key : String) (now : Time) : Prop :=
  ∃ n, false ∈ l.answers (together key now n)

/-! ## Requests at one instant -/

variable {l : FloatLimiter} {now : Time} {key : String} {tokens : Float}

theorem answers_together_succ (n : ℕ) :
    l.answers (together key now (n + 1)) =
      (l.allow now key).2 :: (l.allow now key).1.answers (together key now n) := rfl

theorem buckets_setBucket (l : FloatLimiter) (key : String) (b : FloatBucket) :
    (l.setBucket key b).buckets key = some b :=
  Function.update_self ..

/-- Nothing is filled in at the instant of the last fill. -/
theorem not_elapsed (now : Time) : ¬ floatSeconds (Time.sub now now) > 0 := by
  have hsub : Time.sub now now = 0 := by simp [Time.sub]
  rw [hsub]
  decide +kernel

theorem allow_of_bucket (hb : l.buckets key = some ⟨tokens, now⟩) :
    l.allow now key =
      if tokens < 1 then (l.setBucket key ⟨tokens, now⟩, false)
      else (l.setBucket key ⟨tokens - 1, now⟩, true) := by
  simp only [allow, hb, if_neg (not_elapsed now)]

/-- A request is denied where the countdown of the tokens is below 1. -/
theorem false_mem_answers_iff {n : ℕ} (hb : l.buckets key = some ⟨tokens, now⟩) :
    false ∈ l.answers (together key now n) ↔ ∃ k < n, (· - 1)^[k] tokens < 1 := by
  induction n generalizing l tokens with
  | zero => simp [together, answers]
  | succ n ih =>
    rw [answers_together_succ, allow_of_bucket hb]
    by_cases hlt : tokens < 1
    · simp only [if_pos hlt, List.mem_cons, true_or, true_iff]
      exact ⟨0, n.succ_pos, hlt⟩
    · simp only [if_neg hlt, List.mem_cons, Bool.false_eq_true, false_or,
        ih (buckets_setBucket ..)]
      constructor
      · rintro ⟨k, hk, hbelow⟩
        exact ⟨k + 1, by omega, hbelow⟩
      · rintro ⟨k, hk, hbelow⟩
        -- the countdown does not end before its first step
        cases k with
        | zero => exact absurd hbelow hlt
        | succ k => exact ⟨k, by omega, hbelow⟩

theorem allow_of_fresh (hb : l.buckets key = none) :
    l.allow now key = (l.setBucket key ⟨l.burst - 1, now⟩, true) := by
  simp only [allow, hb]

/-- **When a burst is cut.** A limiter denies a request, if enough of them
come at one instant, exactly if its burst is at most 2 ^ 53 + 2. -/
theorem denies_iff {rate burst : Float} (hburst : ¬ burst ≤ 0) (key : String) (now : Time) :
    (newWithNow rate burst).Denies key now ↔ burst ≤ 9007199254740994 := by
  have hl : (newWithNow rate burst).burst = burst := if_neg hburst
  rw [← exists_lt_one_iff hburst]
  constructor
  · rintro ⟨n, hn⟩
    cases n with
    | zero => cases hn
    | succ n =>
      rw [answers_together_succ, allow_of_fresh rfl, hl] at hn
      simp only [List.mem_cons, Bool.false_eq_true, false_or,
        false_mem_answers_iff (buckets_setBucket ..)] at hn
      obtain ⟨k, -, hk⟩ := hn
      exact ⟨k, hk⟩
  · rintro ⟨k, hk⟩
    refine ⟨k + 2, ?_⟩
    rw [answers_together_succ, allow_of_fresh rfl, hl]
    simp only [List.mem_cons, Bool.false_eq_true, false_or,
      false_mem_answers_iff (buckets_setBucket ..)]
    exact ⟨k, by omega, hk⟩

/-! ## Up to 2 ^ 53 -/

/-- The two limiters hold the same tokens for the key, few enough to be
counted down exactly. -/
structure Agrees (l : FloatLimiter) (q : InMemoryLimiter) (now : Time) (key : String) : Prop where
  tokens : ∃ tokens p, l.buckets key = some ⟨tokens, now⟩ ∧ q.buckets key = some ⟨p, now⟩ ∧
    toRat? tokens = some p ∧ p ≤ 2 ^ 53

/-- A request at the instant is answered alike, and they still agree. -/
theorem Agrees.allow {q : InMemoryLimiter} (h : Agrees l q now key) :
    (l.allow now key).2 = (q.allow now key).2 ∧
      Agrees (l.allow now key).1 (q.allow now key).1 now key := by
  obtain ⟨tokens, p, hb, hq, hp, hle⟩ := h.tokens
  have hrat : q.allow now key =
      if p < 1 then (q.setBucket key ⟨p, now⟩, false)
      else (q.setBucket key ⟨p - 1, now⟩, true) := by
    simp [InMemoryLimiter.allow, hq, Time.sub, seconds]
  rw [allow_of_bucket hb, hrat]
  by_cases hlt : p < 1
  · rw [if_pos ((lt_iff hp toRat?_one).mpr hlt), if_pos hlt]
    exact ⟨rfl, ⟨_, _, buckets_setBucket .., Function.update_self .., hp, hle⟩⟩
  · rw [if_neg (mt (lt_iff hp toRat?_one).mp hlt), if_neg hlt]
    exact ⟨rfl, ⟨_, _, buckets_setBucket .., Function.update_self ..,
      toRat?_sub_one hp (not_lt.mp hlt) hle, by linarith⟩⟩

theorem Agrees.answers_eq {q : InMemoryLimiter} (h : Agrees l q now key) (n : ℕ) :
    l.answers (together key now n) = q.answers (together key now n) := by
  induction n generalizing l q with
  | zero => rfl
  | succ n ih =>
    obtain ⟨hanswer, hnext⟩ := h.allow
    rw [answers_together_succ, hanswer, ih hnext]
    rfl

/-- **The limiter over the rationals is that of the code** for requests at one
instant, with a burst from 1 to 2 ^ 53. -/
theorem answers_eq {rate burst : Float} {r p : ℚ} (hburst : toRat? burst = some p) (hp : 1 ≤ p)
    (hle : p ≤ 2 ^ 53) (key : String) (now : Time) (n : ℕ) :
    (newWithNow rate burst).answers (together key now n) =
      (InMemoryLimiter.newWithNow r p).answers (together key now n) := by
  have hpos : ¬ burst ≤ 0 := by
    rw [le_iff hburst toRat?_zero]
    linarith
  have hfloat : (newWithNow rate burst).burst = burst := if_neg hpos
  have hrat : (InMemoryLimiter.newWithNow r p).burst = p := if_neg (by linarith)
  have hfirst : (InMemoryLimiter.newWithNow r p).allow now key =
      ((InMemoryLimiter.newWithNow r p).setBucket key
        ⟨(InMemoryLimiter.newWithNow r p).burst - 1, now⟩, true) := rfl
  cases n with
  | zero => rfl
  | succ n =>
    rw [together, List.replicate_succ, answers, InMemoryLimiter.answers, allow_of_fresh rfl,
      hfirst, hfloat, hrat]
    refine congrArg _ (Agrees.answers_eq ⟨_, _, buckets_setBucket .., Function.update_self ..,
      toRat?_sub_one hburst hp hle, ?_⟩ n)
    linarith

end FloatLimiter

end GoRestApi.RateLimit
