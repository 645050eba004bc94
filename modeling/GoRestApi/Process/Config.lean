/-
GoRestApi.Process.Config — `Load` and `Validate` of `internal/config/config.go`.

The environment is a function from names to texts, empty for a variable that
is not set. `Load` reads most variables in the same way: an empty one leaves
the default, and another one must parse and pass a comparison. That is
`setting`; the tables below say which name, default and comparison each
variable has. The parsers of the library are parameters, so nothing is assumed
of what they accept.

`float64` is `Float`: a comparison with NaN is false, and so the check `f <= 0`
of the rate limits lets NaN pass, as it does the infinity.
-/
import GoRestApi.Go.Strings
import GoRestApi.Go.Time

namespace GoRestApi.Process

open Go

structure Config where
  port : String
  databaseURL : String
  jwtSecret : String
  accessTokenTTL : Duration
  refreshTokenTTL : Duration
  bcryptCost : Int
  environment : String
  readHeaderTimeout : Duration
  readTimeout : Duration
  writeTimeout : Duration
  idleTimeout : Duration
  maxHeaderBytes : Int
  maxBodyBytes : Int
  shutdownTimeout : Duration
  redisURL : String
  userCacheTTL : Duration
  kafkaBrokers : List String
  kafkaTopic : String
  kafkaWriteTimeout : Duration
  rateLimitPerSecond : Float
  rateLimitBurst : Float
  authRateLimitPerSecond : Float
  authRateLimitBurst : Float
  corsAllowedOrigins : List String
  corsAllowedMethods : List String
  corsAllowedHeaders : List String
  idempotencyTTL : Duration

namespace Config

/-- `Config{}`. -/
def zero : Config where
  port := ""
  databaseURL := ""
  jwtSecret := ""
  accessTokenTTL := 0
  refreshTokenTTL := 0
  bcryptCost := 0
  environment := ""
  readHeaderTimeout := 0
  readTimeout := 0
  writeTimeout := 0
  idleTimeout := 0
  maxHeaderBytes := 0
  maxBodyBytes := 0
  shutdownTimeout := 0
  redisURL := ""
  userCacheTTL := 0
  kafkaBrokers := []
  kafkaTopic := ""
  kafkaWriteTimeout := 0
  rateLimitPerSecond := 0
  rateLimitBurst := 0
  authRateLimitPerSecond := 0
  authRateLimitBurst := 0
  corsAllowedOrigins := []
  corsAllowedMethods := []
  corsAllowedHeaders := []
  idempotencyTTL := 0

/-! ## One variable -/

/-- `os.Getenv`. -/
abbrev Environ := String → String

/-- The parsers, by the value or the text of the error they return. -/
structure Parsers where
  /-- `time.ParseDuration` -/
  parseDuration : String → Except String Duration
  /-- `strconv.Atoi` -/
  atoi : String → Except String Int
  /-- `strconv.ParseInt(s, 10, 64)` -/
  parseInt : String → Except String Int
  /-- `strconv.ParseFloat(s, 64)` -/
  parseFloat : String → Except String Float

/-- A block of `Load`: `refused` is the comparison that a value must not
satisfy, and `must` ends the message if it does. -/
def setting {α : Type} (env : Environ) (name : String) (parse : String → Except String α)
    (refused : α → Prop) [DecidablePred refused] (must : String) (fallback : α) :
    Except String α :=
  let v := env name
  if v = "" then .ok fallback
  else
    match parse v with
    | .error err => .error ("invalid " ++ name ++ ": " ++ err)
    | .ok d => if refused d then .error (name ++ " must be " ++ must) else .ok d

/-- `getenv`. -/
def getenv (env : Environ) (key fallback : String) : String :=
  let v := env key
  if v ≠ "" then v else fallback

/-- The trimmed parts of a list with commas that are not empty. -/
def parts (v : String) : List String :=
  if v ≠ "" then
    (((v.toList.splitOn ',').map String.ofList).map Strings.trimSpace).filter (· ≠ "")
  else []

/-! ## The variables with durations -/

inductive DurationVar where
  | accessTokenTTL
  | refreshTokenTTL
  | userCacheTTL
  | kafkaWriteTimeout
  | idempotencyTTL
  | readHeaderTimeout
  | readTimeout
  | writeTimeout
  | idleTimeout
  | shutdownTimeout
  deriving DecidableEq, Repr

namespace DurationVar

def name : DurationVar → String
  | accessTokenTTL => "ACCESS_TOKEN_TTL"
  | refreshTokenTTL => "REFRESH_TOKEN_TTL"
  | userCacheTTL => "USER_CACHE_TTL"
  | kafkaWriteTimeout => "KAFKA_WRITE_TIMEOUT"
  | idempotencyTTL => "IDEMPOTENCY_TTL"
  | readHeaderTimeout => "READ_HEADER_TIMEOUT"
  | readTimeout => "READ_TIMEOUT"
  | writeTimeout => "WRITE_TIMEOUT"
  | idleTimeout => "IDLE_TIMEOUT"
  | shutdownTimeout => "SHUTDOWN_TIMEOUT"

def fallback : DurationVar → Duration
  | accessTokenTTL => 15 * Time.minute
  | refreshTokenTTL => 7 * 24 * (60 * Time.minute)
  | userCacheTTL => 5 * Time.minute
  | kafkaWriteTimeout => 10 * Time.second
  | idempotencyTTL => 24 * (60 * Time.minute)
  | readHeaderTimeout => 5 * Time.second
  | readTimeout => 15 * Time.second
  | writeTimeout => 15 * Time.second
  | idleTimeout => 60 * Time.second
  | shutdownTimeout => 15 * Time.second

/-- The timeouts of the server may be zero. -/
def mayBeZero : DurationVar → Bool
  | readHeaderTimeout | readTimeout | writeTimeout | idleTimeout => true
  | _ => false

/-- `d < 0` or `d <= 0`. -/
def Refused (v : DurationVar) (d : Duration) : Prop := if v.mayBeZero then d < 0 else d ≤ 0

instance (v : DurationVar) : DecidablePred v.Refused :=
  fun d => inferInstanceAs (Decidable (if v.mayBeZero then d < 0 else d ≤ 0))

def must (v : DurationVar) : String := if v.mayBeZero then "non-negative" else "positive"

end DurationVar

def Parsers.duration (p : Parsers) (env : Environ) (v : DurationVar) : Except String Duration :=
  setting env v.name p.parseDuration v.Refused v.must v.fallback

/-! ## The variables with integers -/

inductive IntVar where
  | bcryptCost
  | maxHeaderBytes
  | maxBodyBytes
  deriving DecidableEq, Repr

namespace IntVar

def name : IntVar → String
  | bcryptCost => "BcryptCost"
  | maxHeaderBytes => "MAX_HEADER_BYTES"
  | maxBodyBytes => "MAX_BODY_BYTES"

def fallback : IntVar → Int
  | bcryptCost => 10
  | maxHeaderBytes => 1048576
  | maxBodyBytes => 1048576

def Refused : IntVar → Int → Prop
  | bcryptCost, c => c < 4 ∨ c > 31
  | maxHeaderBytes, n | maxBodyBytes, n => n ≤ 0

instance : (v : IntVar) → DecidablePred v.Refused
  | bcryptCost => fun c => inferInstanceAs (Decidable (c < 4 ∨ c > 31))
  | maxHeaderBytes => fun n => inferInstanceAs (Decidable (n ≤ 0))
  | maxBodyBytes => fun n => inferInstanceAs (Decidable (n ≤ 0))

def must : IntVar → String
  | bcryptCost => "between 4 and 31"
  | maxHeaderBytes | maxBodyBytes => "positive"

end IntVar

/-- The length of a body is parsed as an `int64`, the other two as an `int`. -/
def Parsers.parserOf (p : Parsers) : IntVar → String → Except String Int
  | .bcryptCost | .maxHeaderBytes => p.atoi
  | .maxBodyBytes => p.parseInt

def Parsers.int (p : Parsers) (env : Environ) (v : IntVar) : Except String Int :=
  setting env v.name (p.parserOf v) v.Refused v.must v.fallback

/-! ## The rate limits -/

inductive FloatVar where
  | rateLimitPerSecond
  | rateLimitBurst
  | authRateLimitPerSecond
  | authRateLimitBurst
  deriving DecidableEq, Repr

namespace FloatVar

def name : FloatVar → String
  | rateLimitPerSecond => "RATE_LIMIT_PER_SECOND"
  | rateLimitBurst => "RATE_LIMIT_BURST"
  | authRateLimitPerSecond => "AUTH_RATE_LIMIT_PER_SECOND"
  | authRateLimitBurst => "AUTH_RATE_LIMIT_BURST"

def fallback : FloatVar → Float
  | rateLimitPerSecond => 20
  | rateLimitBurst => 40
  | authRateLimitPerSecond => 5
  | authRateLimitBurst => 10

end FloatVar

def Parsers.float (p : Parsers) (env : Environ) (v : FloatVar) : Except String Float :=
  setting env v.name p.parseFloat (· ≤ 0) "positive" v.fallback

/-! ## `Load` and `Validate` -/

/-- The configuration of the variables, or the error of the first one in the
order of `Load` that is refused. -/
def settings (p : Parsers) (env : Environ) : Except String Config := do
  let accessTokenTTL ← p.duration env .accessTokenTTL
  let refreshTokenTTL ← p.duration env .refreshTokenTTL
  let userCacheTTL ← p.duration env .userCacheTTL
  let rateLimitPerSecond ← p.float env .rateLimitPerSecond
  let rateLimitBurst ← p.float env .rateLimitBurst
  let authRateLimitPerSecond ← p.float env .authRateLimitPerSecond
  let authRateLimitBurst ← p.float env .authRateLimitBurst
  let kafkaWriteTimeout ← p.duration env .kafkaWriteTimeout
  let idempotencyTTL ← p.duration env .idempotencyTTL
  let bcryptCost ← p.int env .bcryptCost
  let readHeaderTimeout ← p.duration env .readHeaderTimeout
  let readTimeout ← p.duration env .readTimeout
  let writeTimeout ← p.duration env .writeTimeout
  let idleTimeout ← p.duration env .idleTimeout
  let maxHeaderBytes ← p.int env .maxHeaderBytes
  let maxBodyBytes ← p.int env .maxBodyBytes
  let shutdownTimeout ← p.duration env .shutdownTimeout
  return {
    port := getenv env "PORT" "8080"
    databaseURL := env "DATABASE_URL"
    jwtSecret := env "JWTSecret"
    accessTokenTTL, refreshTokenTTL, bcryptCost
    environment := getenv env "APP_ENV" "development"
    readHeaderTimeout, readTimeout, writeTimeout, idleTimeout, maxHeaderBytes, maxBodyBytes
    shutdownTimeout
    redisURL := env "REDIS_URL"
    userCacheTTL
    kafkaBrokers := parts (env "KAFKA_BROKERS")
    kafkaTopic := getenv env "KAFKA_TOPIC" "go-rest-api.events"
    kafkaWriteTimeout, rateLimitPerSecond, rateLimitBurst, authRateLimitPerSecond
    authRateLimitBurst
    corsAllowedOrigins := parts (env "CORS_ALLOWED_ORIGINS")
    corsAllowedMethods := []
    corsAllowedHeaders := []
    idempotencyTTL }

/-- `Load`, by the configuration and the error it returns. -/
def load (p : Parsers) (env : Environ) : Config × Option String :=
  match settings p env with
  | .error err => (zero, some err)
  | .ok cfg => (cfg, none)

/-- `Validate`, by its error. -/
def validate (c : Config) : Option String :=
  if c.accessTokenTTL ≤ 0 then some "AccessTokenTTL must be positive"
  else if c.refreshTokenTTL ≤ 0 then some "RefreshTokenTTL must be positive"
  else if c.bcryptCost < 4 ∨ c.bcryptCost > 31 then some "BcryptCost must be between 4 and 31"
  else if c.jwtSecret.utf8ByteSize < 32 then some "JWTSecret must be at least 32 bytes"
  else none

end Config

end GoRestApi.Process
