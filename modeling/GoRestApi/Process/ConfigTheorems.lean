/-
GoRestApi.Process.ConfigTheorems — what a configuration that `Load` and
`Validate` accept is good for.

A variable is rejected if it is set and no value that passes its comparison is
parsed from it; `Load` returns a configuration exactly if none is
(`exists_settings_iff`). Whatever the variables are, the two issuers can then
be built, the cost of bcrypt is in range, and durations and sizes have the
signs they need. The rate limits need not be numbers, and a limiter built from
them cuts a burst only if the burst is at most 2 ^ 53 + 2:
`config_usable_iff`.
-/
import GoRestApi.Auth.Jwt
import GoRestApi.Process.Config
import GoRestApi.RateLimit.FloatLimiter

namespace GoRestApi.Auth

/-- `HashPassword`, over `bcrypt.GenerateFromPassword`. -/
def hashPassword (generate : String → Int → Except String String) (plain : String)
    (cost : Int) : Except String String :=
  if cost < 4 ∨ cost > 31 then
    .error ("bcrypt cost " ++ toString cost ++ " out of range [4, 31]")
  else generate plain cost

end GoRestApi.Auth

namespace GoRestApi.Process.Config

open Go Auth Ieee RateLimit

variable {p : Parsers} {env : Environ}

/-! ## One variable -/

section Setting

variable {α : Type} {name must : String} {parse : String → Except String α} {refused : α → Prop}
  [DecidablePred refused] {fallback : α}

/-- The variable is set, and to nothing that passes. -/
def Rejects (env : Environ) (name : String) (parse : String → Except String α)
    (refused : α → Prop) : Prop :=
  env name ≠ "" ∧ ∀ a, parse (env name) = .ok a → refused a

/-- A block returns the default, or what it has parsed and compared. -/
theorem setting_eq_ok_iff {a : α} :
    setting env name parse refused must fallback = .ok a ↔
      env name = "" ∧ fallback = a ∨
        env name ≠ "" ∧ parse (env name) = .ok a ∧ ¬ refused a := by
  unfold setting
  by_cases hv : env name = ""
  · simp [hv]
  · cases hparse : parse (env name) with
    | error err => simp [hv, hparse]
    | ok d =>
      by_cases hd : refused d
      · simp only [hv, hparse, if_false, if_pos hd, Except.ok.injEq, ne_eq, not_false_eq_true]
        constructor
        · rintro ⟨⟩
        · rintro (⟨⟨⟩, -⟩ | ⟨-, rfl, hno⟩)
          exact absurd hd hno
      · simp only [hv, hparse, if_false, if_neg hd, Except.ok.injEq, ne_eq, not_false_eq_true]
        constructor
        · rintro rfl
          exact .inr ⟨trivial, rfl, hd⟩
        · rintro (⟨⟨⟩, -⟩ | ⟨-, rfl, -⟩)
          rfl

theorem exists_setting_iff :
    (∃ a, setting env name parse refused must fallback = .ok a) ↔
      ¬ Rejects env name parse refused := by
  simp only [setting_eq_ok_iff, Rejects]
  by_cases hv : env name = "" <;> simp [hv]

/-- A value that is accepted passes its comparison, if the default does. -/
theorem not_refused_of_setting {a : α}
    (h : setting env name parse refused must fallback = .ok a) (hfallback : ¬ refused fallback) :
    ¬ refused a := by
  rcases setting_eq_ok_iff.mp h with ⟨-, rfl⟩ | ⟨-, -, hpasses⟩
  · exact hfallback
  · exact hpasses

/-- What holds of the default holds of the value that is accepted if it holds
of the one that is parsed. -/
theorem forall_parsed_iff {a : α} {P : α → Prop}
    (h : setting env name parse refused must fallback = .ok a) (hfallback : P fallback) :
    P a ↔ (env name ≠ "" → ∀ d, parse (env name) = .ok d → P d) := by
  rcases setting_eq_ok_iff.mp h with ⟨hunset, rfl⟩ | ⟨hset, hparse, -⟩
  · simp [hunset, hfallback]
  · simp [hset, hparse]

end Setting

/-- Every default passes its own comparison. -/
theorem duration_fallback (v : DurationVar) : ¬ v.Refused v.fallback := by
  cases v <;> decide

theorem int_fallback (v : IntVar) : ¬ v.Refused v.fallback := by
  cases v <;> decide

theorem float_fallback (v : FloatVar) : ¬ v.fallback ≤ 0 := by
  cases v <;> decide +kernel

/-! ## All variables -/

/-- The fields of the variables. -/
def duration (c : Config) : DurationVar → Duration
  | .accessTokenTTL => c.accessTokenTTL
  | .refreshTokenTTL => c.refreshTokenTTL
  | .userCacheTTL => c.userCacheTTL
  | .kafkaWriteTimeout => c.kafkaWriteTimeout
  | .idempotencyTTL => c.idempotencyTTL
  | .readHeaderTimeout => c.readHeaderTimeout
  | .readTimeout => c.readTimeout
  | .writeTimeout => c.writeTimeout
  | .idleTimeout => c.idleTimeout
  | .shutdownTimeout => c.shutdownTimeout

def int (c : Config) : IntVar → Int
  | .bcryptCost => c.bcryptCost
  | .maxHeaderBytes => c.maxHeaderBytes
  | .maxBodyBytes => c.maxBodyBytes

def float (c : Config) : FloatVar → Float
  | .rateLimitPerSecond => c.rateLimitPerSecond
  | .rateLimitBurst => c.rateLimitBurst
  | .authRateLimitPerSecond => c.authRateLimitPerSecond
  | .authRateLimitBurst => c.authRateLimitBurst

/-- Some variable is rejected. -/
def Rejected (p : Parsers) (env : Environ) : Prop :=
  (∃ v : DurationVar, Rejects env v.name p.parseDuration v.Refused) ∨
  (∃ v : IntVar, Rejects env v.name (p.parserOf v) v.Refused) ∨
  ∃ v : FloatVar, Rejects env v.name p.parseFloat (· ≤ 0)

/-- What is read of the variables is what the configuration has. -/
theorem read_of_settings {cfg : Config} (h : settings p env = .ok cfg) :
    (∀ v, p.duration env v = .ok (cfg.duration v)) ∧ (∀ v, p.int env v = .ok (cfg.int v)) ∧
      ∀ v, p.float env v = .ok (cfg.float v) := by
  simp only [settings, bind, Except.bind] at h
  -- none of the seventeen blocks has returned an error
  iterate 17
    split at h
    · cases h
  cases h
  refine ⟨fun v => ?_, fun v => ?_, fun v => ?_⟩ <;> cases v <;> assumption

/-- There is a configuration exactly if no variable is rejected. -/
theorem exists_settings_iff : (∃ cfg, settings p env = .ok cfg) ↔ ¬ Rejected p env := by
  constructor
  · rintro ⟨cfg, h⟩ hrejected
    obtain ⟨hduration, hint, hfloat⟩ := read_of_settings h
    rcases hrejected with ⟨v, hv⟩ | ⟨v, hv⟩ | ⟨v, hv⟩
    · exact exists_setting_iff.mp ⟨_, hduration v⟩ hv
    · exact exists_setting_iff.mp ⟨_, hint v⟩ hv
    · exact exists_setting_iff.mp ⟨_, hfloat v⟩ hv
  · intro hnone
    simp only [Rejected, not_or, not_exists] at hnone
    obtain ⟨hduration, hint, hfloat⟩ := hnone
    have hd : ∀ v, ∃ d, p.duration env v = .ok d := fun v => exists_setting_iff.mpr (hduration v)
    have hn : ∀ v, ∃ n, p.int env v = .ok n := fun v => exists_setting_iff.mpr (hint v)
    have hf : ∀ v, ∃ f, p.float env v = .ok f := fun v => exists_setting_iff.mpr (hfloat v)
    choose d hd using hd
    choose n hn using hn
    choose f hf using hf
    simp only [settings, hd, hn, hf]
    exact ⟨_, rfl⟩

/-- **A rejected variable leaves nothing.** -/
theorem load_of_rejected (h : Rejected p env) :
    (load p env).1 = zero ∧ (load p env).2 ≠ none := by
  unfold load
  cases hs : settings p env with
  | error err => simp
  | ok cfg => exact absurd h (exists_settings_iff.mp ⟨cfg, hs⟩)

theorem settings_of_load (h : (load p env).2 = none) : settings p env = .ok (load p env).1 := by
  unfold load at h ⊢
  cases hs : settings p env with
  | error err => simp [hs] at h
  | ok cfg => rfl

/-! ## What the checks are for -/

/-- What holds of every configuration that is accepted. -/
structure Sound (c : Config) : Prop where
  accessIssuer : ∃ i, TokenIssuer.new c.jwtSecret c.accessTokenTTL c.environment .access = .ok i
  refreshIssuer : ∃ i, TokenIssuer.new c.jwtSecret c.refreshTokenTTL c.environment .refresh = .ok i
  /-- the cost is left to bcrypt -/
  cost : ∀ generate plain, hashPassword generate plain c.bcryptCost = generate plain c.bcryptCost
  ttl_pos : 0 < c.accessTokenTTL ∧ 0 < c.refreshTokenTTL ∧ 0 < c.userCacheTTL ∧
    0 < c.idempotencyTTL
  shutdown_pos : 0 < c.shutdownTimeout
  size_pos : 0 < c.maxHeaderBytes ∧ 0 < c.maxBodyBytes
  timeout_nonneg : 0 ≤ c.readHeaderTimeout ∧ 0 ≤ c.readTimeout ∧ 0 ≤ c.writeTimeout ∧
    0 ≤ c.idleTimeout ∧ 0 ≤ c.kafkaWriteTimeout

/-- The rate limits are positive numbers, and both limiters cut a burst. -/
structure Limits (c : Config) : Prop where
  positive : ∀ v, ∃ q, 0 < q ∧ toRat? (c.float v) = some q
  global : ∀ key now,
    (FloatLimiter.newWithNow c.rateLimitPerSecond c.rateLimitBurst).Denies key now
  auth : ∀ key now,
    (FloatLimiter.newWithNow c.authRateLimitPerSecond c.authRateLimitBurst).Denies key now

theorem new_ok {secret : String} {ttl : Duration} (hsecret : 32 ≤ secret.utf8ByteSize)
    (httl : 0 < ttl) (issuer : String) (kind : TokenKind) :
    ∃ i, TokenIssuer.new secret ttl issuer kind = .ok i := by
  unfold TokenIssuer.new
  rw [dif_neg (Nat.not_lt.mpr hsecret), dif_neg (Int.not_le.mpr httl)]
  exact ⟨_, rfl⟩

theorem secret_of_validate {c : Config} (h : c.validate = none) :
    32 ≤ c.jwtSecret.utf8ByteSize := by
  unfold validate at h
  by_contra hlt
  have hshort : c.jwtSecret.utf8ByteSize < 32 := Nat.lt_of_not_le hlt
  simp only [if_pos hshort] at h
  split_ifs at h

theorem sound_of_settings {c : Config} (h : settings p env = .ok c) (hvalid : c.validate = none) :
    c.Sound := by
  obtain ⟨hduration, hint, -⟩ := read_of_settings h
  have hd : ∀ v : DurationVar, ¬ v.Refused (c.duration v) :=
    fun v => not_refused_of_setting (hduration v) (duration_fallback v)
  have hn : ∀ v : IntVar, ¬ v.Refused (c.int v) :=
    fun v => not_refused_of_setting (hint v) (int_fallback v)
  have hpos : ∀ v : DurationVar, v.mayBeZero = false → 0 < c.duration v := by
    intro v hv
    have h := hd v
    rw [DurationVar.Refused, hv] at h
    exact Int.not_le.mp h
  have hnonneg : ∀ v : DurationVar, 0 ≤ c.duration v := by
    intro v
    cases hv : v.mayBeZero with
    | false => exact (hpos v hv).le
    | true =>
      have h := hd v
      rw [DurationVar.Refused, hv] at h
      exact Int.not_lt.mp h
  have hsecret := secret_of_validate hvalid
  refine ⟨new_ok hsecret (hpos .accessTokenTTL rfl) _ _,
    new_ok hsecret (hpos .refreshTokenTTL rfl) _ _, fun generate plain => ?_,
    ⟨hpos .accessTokenTTL rfl, hpos .refreshTokenTTL rfl, hpos .userCacheTTL rfl,
      hpos .idempotencyTTL rfl⟩,
    hpos .shutdownTimeout rfl,
    ⟨Int.not_le.mp (hn .maxHeaderBytes), Int.not_le.mp (hn .maxBodyBytes)⟩,
    ⟨hnonneg .readHeaderTimeout, hnonneg .readTimeout, hnonneg .writeTimeout,
      hnonneg .idleTimeout, hnonneg .kafkaWriteTimeout⟩⟩
  exact if_neg (hn .bcryptCost)

/-- What passes the check of a rate limit. -/
theorem float_of_settings {c : Config} (h : settings p env = .ok c) (v : FloatVar) :
    ¬ c.float v ≤ 0 := by
  have hread : setting env v.name p.parseFloat (· ≤ 0) "positive" v.fallback = .ok (c.float v) :=
    (read_of_settings h).2.2 v
  have hpasses := not_refused_of_setting hread (float_fallback v)
  exact hpasses

/-- The rates that are numbers, and the bursts that a limiter cuts. -/
def FloatVar.Cut : FloatVar → Float → Prop
  | .rateLimitPerSecond, f | .authRateLimitPerSecond, f => f.isFinite
  | .rateLimitBurst, f | .authRateLimitBurst, f => f ≤ 9007199254740994

instance : (v : FloatVar) → DecidablePred v.Cut
  | .rateLimitPerSecond | .authRateLimitPerSecond =>
    fun f => inferInstanceAs (Decidable (f.isFinite = true))
  | .rateLimitBurst | .authRateLimitBurst =>
    fun f => inferInstanceAs (Decidable (f ≤ 9007199254740994))

theorem FloatVar.cut_fallback (v : FloatVar) : v.Cut v.fallback := by
  cases v <;> decide +kernel

theorem limits_iff {c : Config} (h : settings p env = .ok c) :
    c.Limits ↔ ∀ v : FloatVar, v.Cut (c.float v) := by
  have hpos := float_of_settings h
  have hcut : ∀ key now,
      (FloatLimiter.newWithNow c.rateLimitPerSecond c.rateLimitBurst).Denies key now ↔
        c.rateLimitBurst ≤ 9007199254740994 :=
    FloatLimiter.denies_iff (hpos .rateLimitBurst)
  have hcutAuth : ∀ key now,
      (FloatLimiter.newWithNow c.authRateLimitPerSecond c.authRateLimitBurst).Denies key now ↔
        c.authRateLimitBurst ≤ 9007199254740994 :=
    FloatLimiter.denies_iff (hpos .authRateLimitBurst)
  constructor
  · intro hlimits v
    have hfinite : (c.float v).isFinite = true :=
      let ⟨q, _, hq⟩ := hlimits.positive v
      isFinite_iff.mpr ⟨q, hq⟩
    cases v with
    | rateLimitPerSecond | authRateLimitPerSecond => exact hfinite
    | rateLimitBurst => exact (hcut "" 0).mp (hlimits.global "" 0)
    | authRateLimitBurst => exact (hcutAuth "" 0).mp (hlimits.auth "" 0)
  · intro hall
    refine ⟨fun v => ?_, fun key now => (hcut key now).mpr (hall .rateLimitBurst),
      fun key now => (hcutAuth key now).mpr (hall .authRateLimitBurst)⟩
    refine (cases_of_not_le_zero (hpos v)).resolve_right fun hbeyond => ?_
    have hv := hall v
    cases v with
    | rateLimitPerSecond | authRateLimitPerSecond => exact hbeyond.not_isFinite hv
    | rateLimitBurst | authRateLimitBurst => exact not_le_last_of_beyond hbeyond hv

/-- **Which accepted configurations are usable.** If a variable is rejected,
`Load` returns the zero configuration and an error. If `Load` succeeds and
`Validate` accepts the result, both issuers can be built, `HashPassword` does
not refuse the cost, and the durations and sizes have the signs they need; the
rate limits are positive numbers and both limiters cut a burst if and only if,
of the four variables that are set, the rates are parsed as finite numbers and
the bursts as at most 2 ^ 53 + 2. -/
theorem config_usable_iff (p : Parsers) (env : Environ) :
    (Rejected p env → (load p env).1 = zero ∧ (load p env).2 ≠ none) ∧
    ((load p env).2 = none ∧ (load p env).1.validate = none →
      (load p env).1.Sound ∧
      ((load p env).1.Limits ↔
        ∀ v : FloatVar, env v.name ≠ "" → ∀ f, p.parseFloat (env v.name) = .ok f → v.Cut f)) := by
  refine ⟨load_of_rejected, ?_⟩
  rintro ⟨hload, hvalid⟩
  have hsettings := settings_of_load hload
  refine ⟨sound_of_settings hsettings hvalid, (limits_iff hsettings).trans ?_⟩
  refine forall_congr' fun v => ?_
  exact forall_parsed_iff ((read_of_settings hsettings).2.2 v) v.cut_fallback

/-- Parsers that know a few texts. -/
def sampleParsers : Parsers where
  parseDuration v :=
    if v = "1h" then .ok (60 * Time.minute)
    else if v = "0s" then .ok 0
    else .error "time: invalid duration"
  atoi v := if v = "12" then .ok 12 else .error "invalid syntax"
  parseInt v := if v = "2048" then .ok 2048 else .error "invalid syntax"
  parseFloat v :=
    if v = "0.5" then .ok (1 / 2)
    else if v = "3" then .ok 3
    else if v = "NaN" then .ok (0 / 0)
    else if v = "Inf" then .ok (1 / 0)
    else if v = "1e16" then .ok 10000000000000000
    else .error "invalid syntax"

/-- A secret, and the text of `RATE_LIMIT_BURST`. -/
def burstEnviron (v : String) : Environ := fun name =>
  if name = "JWTSecret" then "a-development-secret-of-38-characters!"
  else if name = "RATE_LIMIT_BURST" then v
  else ""

/-- Of each kind of variable one or two are set. -/
def slowEnviron : Environ := fun name =>
  if name = "ACCESS_TOKEN_TTL" then "1h"
  else if name = "READ_TIMEOUT" then "0s"
  else if name = "BcryptCost" then "12"
  else if name = "MAX_BODY_BYTES" then "2048"
  else if name = "RATE_LIMIT_PER_SECOND" then "0.5"
  else burstEnviron "3" name

/-- One request in two seconds and bursts of three: the configuration is
usable. -/
theorem config_usable_slow :
    let cfg := (load sampleParsers slowEnviron).1
    (cfg.accessTokenTTL = 60 * Time.minute ∧ cfg.readTimeout = 0 ∧ cfg.bcryptCost = 12 ∧
      cfg.maxBodyBytes = 2048 ∧ toRat? cfg.rateLimitPerSecond = some (1 / 2) ∧
      toRat? cfg.rateLimitBurst = some 3) ∧ cfg.Sound ∧ cfg.Limits := by
  intro cfg
  have h := (config_usable_iff sampleParsers slowEnviron).2 ⟨by decide +kernel, by decide +kernel⟩
  refine ⟨by decide +kernel, h.1, h.2.mpr fun v hset f hf => ?_⟩
  cases v with
  | rateLimitPerSecond | rateLimitBurst =>
    cases hf
    decide +kernel
  | authRateLimitPerSecond | authRateLimitBurst => exact absurd rfl hset

/-- `Load` and `Validate` accept a text for the burst, and the limiter allows
every request that comes at one instant, however many there are. -/
def Unlimited (v : String) : Prop :=
  (load sampleParsers (burstEnviron v)).2 = none ∧
    (load sampleParsers (burstEnviron v)).1.validate = none ∧
    ∀ key now n, false ∉ (FloatLimiter.newWithNow
      (load sampleParsers (burstEnviron v)).1.rateLimitPerSecond
      (load sampleParsers (burstEnviron v)).1.rateLimitBurst).answers
        (FloatLimiter.together key now n)

theorem unlimited_of_burst {v : String}
    (h : (load sampleParsers (burstEnviron v)).2 = none ∧
      (load sampleParsers (burstEnviron v)).1.validate = none ∧
      ¬ (load sampleParsers (burstEnviron v)).1.rateLimitBurst ≤ 0 ∧
      ¬ (load sampleParsers (burstEnviron v)).1.rateLimitBurst ≤ 9007199254740994) :
    Unlimited v := by
  obtain ⟨hload, hvalid, hpos, hle⟩ := h
  refine ⟨hload, hvalid, fun key now n hdenied => ?_⟩
  exact hle ((FloatLimiter.denies_iff hpos key now).mp ⟨n, hdenied⟩)

/-- The burst may be NaN, the infinity or a large number. The first two are not
numbers at all. -/
theorem config_burst_unlimited :
    Unlimited "NaN" ∧ Unlimited "Inf" ∧ Unlimited "1e16" ∧
      toRat? (load sampleParsers (burstEnviron "NaN")).1.rateLimitBurst = none ∧
      toRat? (load sampleParsers (burstEnviron "Inf")).1.rateLimitBurst = none := by
  refine ⟨unlimited_of_burst ?_, unlimited_of_burst ?_, unlimited_of_burst ?_, ?_, ?_⟩ <;>
    decide +kernel

end GoRestApi.Process.Config
