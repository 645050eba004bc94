/-
GoRestApi.RateLimit.Limiter — the two token-bucket limiters of
`internal/ratelimit/limiter.go`.

`float64` is the field of rationals. A method of `inMemoryLimiter` holds the
mutex from its first to its last line, and the Lua script of `RedisLimiter`
runs atomically, so a call of either is one function. A call is given the
instant it reads; Redis is taken to have the same clock. The key of a bucket
is gone from the instant `PEXPIRE` has set for it.
-/
import GoRestApi.Go.Time
import GoRestApi.Limit.TokenBucket
import GoRestApi.Redis.Keyspace
import Mathlib.Algebra.Order.Ring.Rat
import Mathlib.Logic.Function.Basic

namespace GoRestApi.RateLimit

open Go

/-! ## Numbers -/

/-- `d.Seconds()`. -/
def seconds (d : Duration) : ℚ := d / 1000000000

def minFloat (a b : ℚ) : ℚ := if a < b then a else b

/-- `time.Duration(x)`, which drops the fraction. What a value beyond the
range of the type gives is up to the processor; this is what amd64 does. -/
def toDuration (x : ℚ) : Duration :=
  if -9223372036854775808 ≤ x ∧ x < 9223372036854775808 then
    if x < 0 then -(-x).floor else x.floor
  else -9223372036854775808

/-- The rate and the burst a limiter is built with: what is not positive is
replaced. -/
def rateOr (rate : ℚ) : ℚ := if rate ≤ 0 then 1 else rate

def burstOr (rate burst : ℚ) : ℚ := if burst ≤ 0 then rateOr rate else burst

/-- The end of `RetryAfter`, which both limiters have: the time in which what
is missing to a token comes in, and a millisecond. -/
def retryAfterOf (rate tokens : ℚ) : Duration :=
  let missing := 1 - tokens
  if missing ≤ 0 then 0
  else (Int64.ofInt (toDuration (missing / rate * Time.second) + Time.millisecond)).toInt

/-! ## `inMemoryLimiter` -/

/-- `bucket`; its `last` is `lastFill`. -/
abbrev Bucket := Limit.Bucket ℚ Time

structure InMemoryLimiter where
  buckets : String → Option Bucket
  rate : ℚ
  burst : ℚ

namespace InMemoryLimiter

/-- `NewWithNow`. -/
def newWithNow (rate burst : ℚ) : InMemoryLimiter :=
  ⟨fun _ => none, rateOr rate, burstOr rate burst⟩

def setBucket (l : InMemoryLimiter) (key : String) (b : Bucket) : InMemoryLimiter :=
  { l with buckets := Function.update l.buckets key (some b) }

def allow (l : InMemoryLimiter) (now : Time) (key : String) : InMemoryLimiter × Bool :=
  match l.buckets key with
  | none => (l.setBucket key ⟨l.burst - 1, now⟩, true)
  | some b =>
    let elapsed := seconds (Time.sub now b.last)
    let b :=
      if elapsed > 0 then ⟨minFloat l.burst (b.tokens + elapsed * l.rate), now⟩ else b
    if b.tokens < 1 then (l.setBucket key b, false)
    else (l.setBucket key { b with tokens := b.tokens - 1 }, true)

/-- The tokens that `RetryAfter` counts at an instant. -/
def available (l : InMemoryLimiter) (now : Time) (b : Bucket) : ℚ :=
  let elapsed := seconds (Time.sub now b.last)
  if elapsed > 0 then minFloat l.burst (b.tokens + elapsed * l.rate) else b.tokens

def retryAfter (l : InMemoryLimiter) (now : Time) (key : String) : Duration :=
  match l.buckets key with
  | none => 0
  | some b => retryAfterOf l.rate (l.available now b)

end InMemoryLimiter

/-! ## `RedisLimiter` -/

/-- The hash a key holds, and the instant from which the key is gone. -/
abbrev RedisBucket := RedisServer.Key Time Bucket

abbrev Redis := RedisServer.Keys Time Bucket

/-- The hash of a key at an instant. -/
def Redis.hmget (r : Redis) (now : Time) (key : String) : Option Bucket :=
  (r.live (fun t => now < t) key).map RedisServer.Key.value

structure RedisLimiter where
  rate : ℚ
  burst : ℚ
  deriving DecidableEq, Repr

namespace RedisLimiter

def newRedis (rate burst : ℚ) : RedisLimiter := ⟨rateOr rate, burstOr rate burst⟩

def keyFor (name : String) : String := "ratelimit:" ++ name ++ ":bucket"

/-- The time after which a key expires. -/
def keyTTL : Duration := 60000 * Time.millisecond

/-- The script, from the hash of its key to the new one and the answer. Every
path then sets the key to expire. -/
def script (l : RedisLimiter) (now : Time) (data : Option Bucket) : Bucket × Bool :=
  match data with
  | none => (⟨l.burst - 1, now⟩, true)
  | some b =>
    let elapsed := seconds (now - b.last)
    let tokens := if elapsed > 0 then min l.burst (b.tokens + elapsed * l.rate) else b.tokens
    let last := if elapsed > 0 then now else b.last
    if tokens < 1 then (⟨tokens, last⟩, false) else (⟨tokens - 1, last⟩, true)

/-- `Allow`; with `ok` false the script cannot be run, and the call is
allowed. -/
def allow (l : RedisLimiter) (r : Redis) (now : Time) (ok : Bool) (name : String) :
    Redis × Bool :=
  if ok then
    let (b, answer) := l.script now (r.hmget now (keyFor name))
    (r.put (keyFor name) ⟨b, now + keyTTL⟩, answer)
  else (r, true)

/-- `RetryAfter`, if the two fields are read back as they were written. -/
def retryAfter (l : RedisLimiter) (r : Redis) (now : Time) (ok : Bool) (name : String) :
    Duration :=
  if ok then
    match r.hmget now (keyFor name) with
    | none => 0
    | some b =>
      let elapsed := seconds (now - b.last)
      let t := if elapsed > 0 then minFloat l.burst (b.tokens + elapsed * l.rate) else b.tokens
      retryAfterOf l.rate t
  else 0

end RedisLimiter

end GoRestApi.RateLimit
