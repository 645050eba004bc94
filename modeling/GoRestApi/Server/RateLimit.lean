/-
GoRestApi.Server.RateLimit — the rate-limit middleware of
`internal/server/ratelimit_middleware.go`, and the two limiters that
`cmd/api/main.go` puts in front of the routes when `REDIS_URL` is set.

A route goes through one limiter: the routes under `/auth/` but `/auth/logout`
through the auth limiter, `/me` and the user routes through the global one.
Both are called with the key of `ClientIPKey`.

`net.SplitHostPort` is a parameter, as the host of an address or `none`; the
text of a `Retry-After` header is left out, and is the duration here.
-/
import GoRestApi.Go.Strings
import GoRestApi.Handler.Auth
import GoRestApi.RateLimit.Limiter

namespace GoRestApi.Server

open Go Handler RateLimit

/-! ## The middleware -/

/-- What `ClientIPKey` reads of a request. -/
structure Origin where
  xForwardedFor : String
  xRealIP : String
  remoteAddr : String
  deriving DecidableEq, Repr

/-- The first item of a list of addresses. -/
def firstForwarded (xff : String) : String :=
  if ',' ∈ xff.toList then Strings.trimSpace (String.ofList (xff.toList.takeWhile (· ≠ ',')))
  else xff

def clientIPKey (splitHostPort : String → Option String) (r : Origin) : String :=
  if r.xForwardedFor ≠ "" ∧ firstForwarded r.xForwardedFor ≠ "" then
    firstForwarded r.xForwardedFor
  else if r.xRealIP ≠ "" then r.xRealIP
  else (splitHostPort r.remoteAddr).getD r.remoteAddr

/-- The interface `Limiter`, of limiters whose state is in `σ`. -/
structure Limiter (σ : Type) where
  allow : σ → Time → String → σ × Bool
  retryAfter : σ → Time → String → Duration

/-- What becomes of a request: it goes on to the handler, or is answered with
a status 429 and, if the limiter has one, a time to wait. -/
inductive Passage where
  | next
  | rejected (retryAfter : Option Duration) (reply : Reply)
  deriving DecidableEq, Repr

/-- `RateLimit`. The limiter reads the clock at `now`, and again at `later` if
it has refused the request. -/
def rateLimit {σ : Type} (limiter : Option (Limiter σ)) (s : σ) (now later : Time)
    (key : String) : σ × Passage :=
  match limiter with
  | none => (s, .next)
  | some l =>
    match l.allow s now key with
    | (s', true) => (s', .next)
    | (s', false) =>
      let retry := l.retryAfter s' later key
      (s', .rejected (if retry > 0 then some retry else none)
        ⟨429, .error "RATE_LIMITED" "rate limit exceeded" []⟩)

/-- A Redis limiter whose commands all succeed. -/
def redisLimiter (l : RedisLimiter) : Limiter Redis where
  allow r now key := l.allow r now true key
  retryAfter r now key := l.retryAfter r now true key

/-! ## Traffic -/

/-- The limiter that `buildRateLimiter` returns when Redis is reachable. Its
`name` goes into the log only. -/
def buildRateLimiter (_name : String) (rate burst : ℚ) : RedisLimiter :=
  RedisLimiter.newRedis rate burst

/-- Which limiter a route goes through. -/
inductive Group where
  | global
  | auth
  deriving DecidableEq, Repr

/-- The four numbers of the configuration. -/
structure RateConfig where
  rate : ℚ
  burst : ℚ
  authRate : ℚ
  authBurst : ℚ

def RateConfig.limiter (cfg : RateConfig) : Group → RedisLimiter
  | .global => buildRateLimiter "global" cfg.rate cfg.burst
  | .auth => buildRateLimiter "auth" cfg.authRate cfg.authBurst

/-- A request that reaches the server at an instant. -/
structure Arrival where
  group : Group
  origin : Origin
  now : Time
  later : Time
  deriving DecidableEq, Repr

section Traffic

variable (cfg : RateConfig) (splitHostPort : String → Option String)

def arrive (r : Redis) (a : Arrival) : Redis × Passage :=
  rateLimit (some (redisLimiter (cfg.limiter a.group))) r a.now a.later
    (clientIPKey splitHostPort a.origin)

/-- Redis after the requests. -/
def redisAfter (r : Redis) (as : List Arrival) : Redis :=
  as.foldl (fun r a => (arrive cfg splitHostPort r a).1) r

/-- The requests with what became of them. -/
def passages (r : Redis) : List Arrival → List (Arrival × Passage)
  | [] => []
  | a :: as =>
    (a, (arrive cfg splitHostPort r a).2) :: passages (arrive cfg splitHostPort r a).1 as

/-- Whether they went on to the handler, of the requests of the client `k`
that go through the auth limiter. -/
def authPassed (k : String) (r : Redis) (as : List Arrival) : List Bool :=
  ((passages cfg splitHostPort r as).filter fun x =>
    x.1.group = .auth && clientIPKey splitHostPort x.1.origin = k).map fun x => x.2 = .next

end Traffic

end GoRestApi.Server
