/-
GoRestApi.Server.RateLimitTheorems — the auth limit of a client that also
sends other requests.

The two limiters are told apart by nothing that reaches Redis: `keyFor` puts
only the client into the key, so the requests of a client to either group of
routes draw from ONE bucket, filled at the rate and up to the burst of
whichever limiter is asked. A global request that finds no bucket leaves one
with the global burst, which the auth routes may then use up.

`auth_limit_of_apart` says when this does no harm: when a request of the
client to one group comes no sooner than 60 seconds after its last request to
the other, for then the bucket has expired. Even so the bound holds only if
the auth bucket is filled up within these 60 seconds.
-/
import GoRestApi.RateLimit.LimiterTheorems
import GoRestApi.Server.RateLimit

namespace GoRestApi.Server

open Go Limit RateLimit RedisLimiter RedisServer

theorem keyFor_injective : Function.Injective keyFor := by
  intro a b h
  simpa [keyFor, String.append_left_inj, String.append_right_inj] using h

/-! ## The bucket of a client -/

section Client

variable (cfg : RateConfig) (splitHostPort : String → Option String)

/-- The requests of the client `k`, as its bucket sees them. -/
def visits (k : String) (as : List Arrival) : List (Group × Time) :=
  (as.filter fun a => clientIPKey splitHostPort a.origin = k).map fun a => (a.group, a.now)

/-- What a limiter makes of a bucket, which may have expired. -/
def draw (b : Option RedisBucket) (g : Group) (now : Time) : RedisBucket × Bool :=
  let (b', answer) := (cfg.limiter g).script now (found b now)
  (⟨b', now + keyTTL⟩, answer)

/-- The answers to those requests of a client that go through the auth
limiter. -/
def authAnswers : Option RedisBucket → List (Group × Time) → List Bool
  | _, [] => []
  | b, (.global, t) :: vs => authAnswers (some (draw cfg b .global t).1) vs
  | b, (.auth, t) :: vs => (draw cfg b .auth t).2 :: authAnswers (some (draw cfg b .auth t).1) vs

theorem arrive_spec (r : Redis) (a : Arrival) :
    let d := draw cfg (r.keys (keyFor (clientIPKey splitHostPort a.origin))) a.group a.now
    (arrive cfg splitHostPort r a).1.keys =
        Function.update r.keys (keyFor (clientIPKey splitHostPort a.origin)) (some d.1) ∧
      decide ((arrive cfg splitHostPort r a).2 = .next) = d.2 := by
  intro d
  have hallow : (redisLimiter (cfg.limiter a.group)).allow r a.now
      (clientIPKey splitHostPort a.origin) =
      (r.put (keyFor (clientIPKey splitHostPort a.origin)) d.1, d.2) := rfl
  simp only [arrive, rateLimit, hallow]
  cases d.2 <;> simp [Keys.put]

/-- The requests of the other clients do not touch the bucket. -/
theorem authPassed_eq (k : String) (r : Redis) (as : List Arrival) :
    authPassed cfg splitHostPort k r as =
      authAnswers cfg (r.keys (keyFor k)) (visits splitHostPort k as) := by
  induction as generalizing r with
  | nil => rfl
  | cons a as ih =>
    obtain ⟨hbuckets, hanswer⟩ := arrive_spec cfg splitHostPort r a
    have hrest := ih (arrive cfg splitHostPort r a).1
    rw [hbuckets] at hrest
    unfold authPassed visits at hrest ⊢
    by_cases hk : clientIPKey splitHostPort a.origin = k
    · subst hk
      rw [Function.update_self] at hrest
      cases hg : a.group with
      | global =>
        rw [hg] at hrest
        simpa [passages, hg, authAnswers] using hrest
      | auth =>
        rw [hg] at hrest hanswer
        simp only [passages, hg, List.filter_cons, decide_true, Bool.and_self, ↓reduceIte,
          List.map_cons, hanswer, hrest, authAnswers]
    · rw [Function.update_of_ne (fun h => hk (keyFor_injective h).symm)] at hrest
      simpa [passages, hk] using hrest

theorem authPassed_append (k : String) (r : Redis) (as bs : List Arrival) :
    authPassed cfg splitHostPort k r (as ++ bs) =
      authPassed cfg splitHostPort k r as ++
        authPassed cfg splitHostPort k (redisAfter cfg splitHostPort r as) bs := by
  have hpassages : passages cfg splitHostPort r (as ++ bs) = passages cfg splitHostPort r as ++
      passages cfg splitHostPort (redisAfter cfg splitHostPort r as) bs := by
    induction as generalizing r with
    | nil => rfl
    | cons a as ih => exact congrArg _ (ih _)
  unfold authPassed
  rw [hpassages, List.filter_append, List.map_append]

end Client

/-! ## Requests that are apart -/

/-- The two groups of routes are not used within 60 seconds of each other. -/
def Apart (vs : List (Group × Time)) : Prop :=
  vs.Pairwise fun v w => v.1 ≠ w.1 → v.2 + keyTTL ≤ w.2

instance (vs : List (Group × Time)) : Decidable (Apart vs) :=
  inferInstanceAs (Decidable (vs.Pairwise fun v w => v.1 ≠ w.1 → v.2 + keyTTL ≤ w.2))

section Apart

variable {cfg : RateConfig}

/-- An expired bucket is none. -/
theorem found_eq_none {b : Option RedisBucket} {now : Time} (h : ∀ x ∈ b, x.expireAt ≤ now) :
    found b now = none := by
  cases b with
  | none => rfl
  | some x => simpa [found, Option.filter] using h x rfl

/-- When the groups are apart, the bucket that both use gives the auth
limiter the answers that a bucket of its own would. The invariant is that an
auth request finds the same in both, and that a global request comes when the
auth limiter's own bucket has expired. -/
theorem authAnswers_apart {b b' : Option RedisBucket} {vs : List (Group × Time)}
    (hsorted : vs.Pairwise fun v w => v.2 ≤ w.2) (hapart : Apart vs)
    (hauth : ∀ t, (Group.auth, t) ∈ vs →
      found b t = found b' t)
    (hglobal : ∀ t, (Group.global, t) ∈ vs → ∀ x ∈ b', x.expireAt ≤ t) :
    authAnswers cfg b vs = authAnswers cfg b' (vs.filter fun v => v.1 = .auth) := by
  induction vs generalizing b b' with
  | nil => rfl
  | cons v vs ih =>
    obtain ⟨g, t⟩ := v
    obtain ⟨hle, hsortedTail⟩ := List.pairwise_cons.mp hsorted
    obtain ⟨hfar, hapartTail⟩ := List.pairwise_cons.mp hapart
    cases g with
    | global =>
      simp only [authAnswers, List.filter_cons, reduceCtorEq, decide_false, Bool.false_eq_true,
        ↓reduceIte]
      apply ih hsortedTail hapartTail
      · intro u hu
        have hfar : t + keyTTL ≤ u := hfar _ hu (by simp)
        have hle : t ≤ u := hle _ hu
        rw [found_eq_none, found_eq_none]
        · intro x hx
          exact Int.le_trans (hglobal t List.mem_cons_self x hx) hle
        · intro x hx
          cases hx
          exact hfar
      · exact fun u hu => hglobal u (List.mem_cons_of_mem _ hu)
    | auth =>
      have hdraw : draw cfg b .auth t = draw cfg b' .auth t := by
        unfold draw
        rw [hauth t List.mem_cons_self]
      simp only [authAnswers, List.filter_cons, decide_true, ↓reduceIte, hdraw]
      refine congrArg _ (ih hsortedTail hapartTail (fun _ _ => rfl) ?_)
      intro u hu x hx
      cases hx
      exact hfar _ hu (by simp)

/-- The auth limiter alone is a token bucket. -/
theorem authAnswers_auth {b : Option RedisBucket} {ts : List Time} (hts : ts.Pairwise (· ≤ ·))
    (hb : ∀ x ∈ b, ∀ t ∈ ts, Timed x t) :
    authAnswers cfg b (ts.map fun t => (Group.auth, t)) =
      (cfg.limiter .auth).meter.answers (b.map Key.value) ts := by
  induction ts generalizing b with
  | nil => rfl
  | cons t ts ih =>
    obtain ⟨hle, hts⟩ := List.pairwise_cons.mp hts
    obtain ⟨hallow, hlast⟩ :=
      (cfg.limiter .auth).script_eq fun x hx => hb x hx t List.mem_cons_self
    rw [Meter.answers_cons, ← hallow]
    refine congrArg _ (ih hts ?_)
    intro x hx u hu
    cases hx
    exact ⟨congrArg (· + keyTTL) hlast.symm, hlast.trans_le (hle u hu)⟩

variable {splitHostPort : String → Option String}

/-- The instants of the requests of the client `k` that go through the auth
limiter. -/
def authTimes (splitHostPort : String → Option String) (k : String) (as : List Arrival) :
    List Time :=
  (as.filter fun a => a.group = .auth && clientIPKey splitHostPort a.origin = k).map Arrival.now

theorem visits_auth (k : String) (as : List Arrival) :
    ((visits splitHostPort k as).filter fun v => v.1 = .auth) =
      (authTimes splitHostPort k as).map fun t => (Group.auth, t) := by
  induction as with
  | nil => rfl
  | cons a as ih =>
    unfold visits authTimes at ih ⊢
    by_cases hk : clientIPKey splitHostPort a.origin = k <;> cases hg : a.group <;>
      simp [hk, hg, ih]

theorem visits_without_global (k : String) (as : List Arrival) :
    visits splitHostPort k
        (as.filter fun a => ¬ (a.group = .global ∧ clientIPKey splitHostPort a.origin = k)) =
      (visits splitHostPort k as).filter fun v => v.1 = .auth := by
  induction as with
  | nil => rfl
  | cons a as ih =>
    unfold visits at ih ⊢
    by_cases hk : clientIPKey splitHostPort a.origin = k <;> cases hg : a.group <;>
      simp_all

theorem visits_append (k : String) (as bs : List Arrival) :
    visits splitHostPort k (as ++ bs) = visits splitHostPort k as ++ visits splitHostPort k bs := by
  simp [visits]

theorem authTimes_append (k : String) (as bs : List Arrival) :
    authTimes splitHostPort k (as ++ bs) =
      authTimes splitHostPort k as ++ authTimes splitHostPort k bs := by
  simp [authTimes]

/-- The requests of a client come in the order of the clock. -/
theorem visits_sorted {k : String} {as : List Arrival}
    (hclock : as.Pairwise fun a a' => a.now ≤ a'.now) :
    (visits splitHostPort k as).Pairwise fun v w => v.2 ≤ w.2 :=
  List.pairwise_map.mpr (hclock.sublist List.filter_sublist)

/-- When the groups are apart, the auth limiter is a token bucket of its
own. -/
theorem authPassed_apart {k : String} {as : List Arrival}
    (hclock : as.Pairwise fun a a' => a.now ≤ a'.now)
    (hapart : Apart (visits splitHostPort k as)) :
    authPassed cfg splitHostPort k .empty as =
      (cfg.limiter .auth).meter.answers none (authTimes splitHostPort k as) := by
  have htimes : (authTimes splitHostPort k as).Pairwise (· ≤ ·) :=
    List.pairwise_map.mpr (hclock.sublist List.filter_sublist)
  rw [authPassed_eq, authAnswers_apart (visits_sorted hclock) hapart (fun _ _ => rfl)
    (by rintro t ht x ⟨⟩), visits_auth]
  exact authAnswers_auth htimes (by rintro x ⟨⟩)

/-- And so it is from any moment on. -/
theorem authPassed_after_apart {k : String} {before window : List Arrival}
    (hclock : (before ++ window).Pairwise fun a a' => a.now ≤ a'.now)
    (hapart : Apart (visits splitHostPort k (before ++ window))) :
    authPassed cfg splitHostPort k (redisAfter cfg splitHostPort .empty before) window =
      (cfg.limiter .auth).meter.answers
        ((cfg.limiter .auth).meter.after none (authTimes splitHostPort k before))
        (authTimes splitHostPort k window) := by
  have hall : authPassed cfg splitHostPort k .empty (before ++ window) = _ :=
    authPassed_apart hclock hapart
  rw [visits_append] at hapart
  rw [authPassed_append, authTimes_append, Meter.answers_append,
    authPassed_apart (List.pairwise_append.mp hclock).1 (List.pairwise_append.mp hapart).1] at hall
  exact List.append_cancel_left hall

end Apart

/-! ## The limit -/

theorem meter_auth {cfg : RateConfig} (hrate : 0 < cfg.authRate) (hburst : 0 < cfg.authBurst) :
    (cfg.limiter .auth).meter.rate = cfg.authRate ∧
      (cfg.limiter .auth).meter.burst = cfg.authBurst := by
  simp [RateConfig.limiter, buildRateLimiter, newRedis, RedisLimiter.meter, rateOr, burstOr,
    not_le.mpr hrate, not_le.mpr hburst]

/-- A bucket that is filled up in 60 seconds has been when it expires. -/
theorem meter_auth_covered {cfg : RateConfig} (hrate : 0 < cfg.authRate)
    (hburst : 0 < cfg.authBurst) (hminute : max 1 cfg.authBurst ≤ 60 * cfg.authRate) :
    (cfg.limiter .auth).meter.Covered := by
  obtain ⟨hr, hb⟩ := meter_auth hrate hburst
  intro s t hgone
  have hlong : s + keyTTL ≤ t := by simpa [RedisLimiter.meter] using hgone
  have hkey : seconds keyTTL = 60 := by decide +kernel
  have hsixty : 60 ≤ seconds t - seconds s := by
    rw [← hkey, ← seconds_sub]
    exact seconds_le_iff.mpr (Int.le_sub_left_of_add_le hlong)
  rw [hr, hb]
  show max 1 cfg.authBurst ≤ cfg.authRate * (seconds t - seconds s)
  have hmul := mul_le_mul_of_nonneg_left hsixty hrate.le
  linarith

/-- What the auth bucket grants in a window, whenever that begins. -/
theorem auth_answers_le {cfg : RateConfig} (hrate : 0 < cfg.authRate) (hburst : 0 < cfg.authBurst)
    (hminute : max 1 cfg.authBurst ≤ 60 * cfg.authRate) (earlier ts : List Time) {start : Time}
    {d : Duration} (hd : 0 ≤ d) (hwindow : ∀ t ∈ ts, start ≤ t ∧ t ≤ start + d) :
    (((cfg.limiter .auth).meter.answers ((cfg.limiter .auth).meter.after none earlier) ts).count
      true : ℚ) ≤ max 1 cfg.authBurst + cfg.authRate * seconds d := by
  obtain ⟨hr, hb⟩ := meter_auth hrate hburst
  have hlawful : (cfg.limiter .auth).meter.Lawful :=
    RedisLimiter.meter_lawful
      (show 0 ≤ (cfg.limiter .auth).meter.rate by rw [hr]; exact hrate.le)
  have hgain : 0 ≤ cfg.authRate * seconds d :=
    mul_nonneg hrate.le (by simpa [seconds] using seconds_le_iff.mpr hd)
  cases ts with
  | nil =>
    have hone : (1 : ℚ) ≤ max 1 cfg.authBurst := le_max_left ..
    simp only [Meter.answers_nil, List.count_nil, Nat.cast_zero]
    linarith
  | cons t ts =>
    have hwithin := Meter.within_after hlawful (b := none) (by rintro x ⟨⟩) earlier
    have hgrants := Meter.grants_le hlawful (meter_auth_covered hrate hburst hminute) hwithin
      (seconds_le_iff.mpr (hwindow t List.mem_cons_self).2)
      (fun u hu => seconds_le_iff.mpr (hwindow u (List.mem_cons_of_mem t hu)).2)
    rw [hr, hb] at hgrants
    have hshort : seconds (start + d) - seconds t ≤ seconds d := by
      rw [← seconds_sub]
      refine seconds_le_iff.mpr ?_
      have hstart := (hwindow t List.mem_cons_self).1
      dsimp only [Time, Duration] at *
      omega
    have hmul := mul_le_mul_of_nonneg_left hshort hrate.le
    exact le_trans hgrants (add_le_add_right hmul _)

/-- As many auth requests pass at one instant as there are tokens in the
bucket, whoever has put them there. -/
theorem authAnswers_replicate (cfg : RateConfig) (n : Nat) {b : RedisBucket}
    (hn : n ≤ b.value.tokens) (hlive : b.value.last < b.expireAt) :
    authAnswers cfg (some b) (List.replicate n (.auth, b.value.last)) = List.replicate n true := by
  induction n generalizing b with
  | zero => rfl
  | succ n ih =>
    have hzero : ¬ seconds (b.value.last - b.value.last) > 0 := by simp [seconds]
    have hone : ¬ b.value.tokens < 1 := by
      push_cast at hn
      have hpos : (0 : ℚ) ≤ n := Nat.cast_nonneg n
      linarith
    have hdraw : draw cfg (some b) .auth b.value.last =
        (⟨⟨b.value.tokens - 1, b.value.last⟩, b.value.last + keyTTL⟩, true) := by
      have hfound : found (some b) b.value.last = some b.value := by
        simp [found, Option.filter, hlive]
      simp only [draw, hfound, script, hzero, hone, ↓reduceIte]
    simp only [List.replicate_succ, authAnswers, hdraw]
    refine congrArg _
      (ih (b := ⟨⟨b.value.tokens - 1, b.value.last⟩, b.value.last + keyTTL⟩) ?_ ?_)
    · push_cast at hn
      linarith
    · exact Int.lt_add_of_pos_right b.value.last (by decide)

/-- **The auth limit.** For the requests of any clients, in the order of the
clock, and a client `k` whose requests to the two groups of routes are 60
seconds apart: its auth-limited requests fare as if it had sent no others,
and if the auth bucket is filled up within 60 seconds then of those that come
within any `d` at most `max 1 authBurst + authRate * d` pass. If they are not
apart it may be otherwise: after one global request as many auth requests
pass at the same instant as the global burst leaves. -/
theorem auth_limit_of_apart (cfg : RateConfig) (splitHostPort : String → Option String)
    (hrate : 0 < cfg.authRate) (hburst : 0 < cfg.authBurst) {k : String} {as : List Arrival}
    (hclock : as.Pairwise fun a a' => a.now ≤ a'.now) :
    (Apart (visits splitHostPort k as) →
      authPassed cfg splitHostPort k .empty as =
        authPassed cfg splitHostPort k .empty
          (as.filter fun a => ¬ (a.group = .global ∧ clientIPKey splitHostPort a.origin = k)) ∧
      (max 1 cfg.authBurst ≤ 60 * cfg.authRate →
        ∀ before window rest, as = before ++ window ++ rest → ∀ start d, 0 ≤ d →
        (∀ t ∈ authTimes splitHostPort k window, start ≤ t ∧ t ≤ start + d) →
        ((authPassed cfg splitHostPort k (redisAfter cfg splitHostPort .empty before) window).count
            true : ℚ) ≤ max 1 cfg.authBurst + cfg.authRate * seconds d)) ∧
    ∀ (n : Nat) (o : Origin) (t : Time), n + 1 ≤ cfg.burst →
      authPassed cfg splitHostPort (clientIPKey splitHostPort o) .empty
        (⟨.global, o, t, t⟩ :: List.replicate n ⟨.auth, o, t, t⟩) = List.replicate n true := by
  refine ⟨fun hapart => ⟨?alone, ?window⟩, ?shared⟩
  case alone =>
    rw [authPassed_eq, authPassed_eq, visits_without_global,
      authAnswers_apart (visits_sorted hclock) hapart (fun _ _ => rfl) (by rintro t ht x ⟨⟩)]
  case window =>
    rintro hminute before window rest rfl start d hd hwindow
    rw [visits_append] at hapart
    rw [authPassed_after_apart (List.pairwise_append.mp hclock).1
      (List.pairwise_append.mp hapart).1]
    exact auth_answers_le hrate hburst hminute _ _ hd hwindow
  case shared =>
    intro n o t hn
    have hpos : (0 : ℚ) ≤ n := Nat.cast_nonneg n
    have hglobal : (cfg.limiter .global).burst = cfg.burst := by
      simp [RateConfig.limiter, buildRateLimiter, newRedis, burstOr,
        not_le.mpr (show 0 < cfg.burst by linarith)]
    have hvisits : visits splitHostPort (clientIPKey splitHostPort o)
        (⟨.global, o, t, t⟩ :: List.replicate n ⟨.auth, o, t, t⟩) =
        (.global, t) :: List.replicate n (.auth, t) := by
      simp [visits]
    rw [authPassed_eq, hvisits]
    refine authAnswers_replicate cfg n (b := (draw cfg none .global t).1) ?_ ?_
    · show (n : ℚ) ≤ (cfg.limiter .global).burst - 1
      rw [hglobal]
      linarith
    · exact Int.lt_add_of_pos_right t (by decide)

/-- The defaults of the configuration. -/
def defaultRates : RateConfig := ⟨20, 40, 5, 10⟩

def home : Origin := ⟨"", "10.0.0.1", "10.0.0.1:4711"⟩

/-- A minute after a global request the auth limiter is on its own. -/
theorem auth_limit_after_minute :
    let as : List Arrival :=
      ⟨.global, home, 0, 0⟩ :: List.replicate 11 ⟨.auth, home, Time.minute, Time.minute⟩
    Apart (visits (fun _ => none) "10.0.0.1" as) ∧
      ((authPassed defaultRates (fun _ => none) "10.0.0.1"
        (redisAfter defaultRates (fun _ => none) .empty []) as).count true : ℚ) ≤
        max 1 10 + 5 * seconds 0 := by
  intro as
  have hapart : Apart (visits (fun _ => none) "10.0.0.1" as) := by decide +kernel
  refine ⟨hapart, ?_⟩
  exact ((auth_limit_of_apart defaultRates (fun _ => none) (by decide) (by decide)
    (by decide +kernel)).1 hapart).2 (by decide +kernel) [] as [] (by simp) Time.minute 0
    (by decide) (by decide +kernel)

/-- A client has used up the auth bucket and waits for half a second, in which
2.5 tokens come in at the auth rate. One request to another route fills the
bucket at the global rate, and nine of the next ten auth requests pass where
two should. -/
theorem auth_limit_exceeded :
    let half : Time := 500 * Time.millisecond
    let as : List Arrival := List.replicate 11 ⟨.auth, home, 0, 0⟩ ++
      ⟨.global, home, half, half⟩ :: List.replicate 10 ⟨.auth, home, half, half⟩
    (authPassed defaultRates (fun _ => none) "10.0.0.1" .empty as).count true = 19 ∧
      (authPassed defaultRates (fun _ => none) "10.0.0.1" .empty
        (as.filter fun a => a.group ≠ .global)).count true = 12 ∧
      max 1 defaultRates.authBurst + defaultRates.authRate * seconds half < 13 := by
  decide +kernel

end GoRestApi.Server
