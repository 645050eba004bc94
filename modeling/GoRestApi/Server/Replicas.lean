/-
GoRestApi.Server.Replicas — several replicas of the server that share one
Redis blacklist.

Each request arrives at some replica: behind `RequireAuth`, at `/auth/logout`
or at `/auth/refresh`. A step of the system is one of the calls at which other
requests can come in between: `Parse`, `RawClaims`, `IsRevoked`, then what the
handler does up to `Revoke`, and the two halves of `Revoke`. Commands to Redis
are carried out in one step each and may fail.

The clock of the system is the one of Redis. A replica has its own, which is
off by `skew`, and all that a request does outside Redis goes by that one.

`revocations` is history: the `SET` commands that Redis has carried out. No
step reads it. Left out: what the handlers behind `RequireAuth` do, and what
`Refresh` does after `Revoke` (it issues tokens and looks the user up, neither
of which touches Redis).
-/
import GoRestApi.Server.Session
import Mathlib.Tactic.Simps.Basic

namespace GoRestApi.Server

open Go Auth Handler RedisServer Lts

/-! ## The calls -/

inductive Call where
  | behindAuth (header : String)
  | logout (method header : String)
  | refresh (r : Request String)

/-- A request at a replica whose clock is off by `skew`. -/
structure ReplicaCall where
  skew : Duration
  call : Call

namespace Call

/-- The token that the request presents. -/
def token (env : Env) : Call → Except Reply String
  | .behindAuth header | .logout _ header => bearerToken header
  | .refresh r => AuthHandler.refreshInput env r

def issuer (h : AuthHandler) : Call → TokenIssuer
  | .behindAuth _ | .logout _ _ => h.issuer
  | .refresh _ => h.refreshIssuer

/-- The reply to a token that is not accepted. -/
def refusal : Call → Reply
  | .behindAuth _ | .logout _ _ => .unauthorized "missing or invalid bearer token"
  | .refresh _ => .unauthorized "invalid refresh token"

def parse (env : Env) (h : AuthHandler) (now : Time) (c : Call) : Except Reply Claims :=
  match c.token env with
  | .error reply => .error reply
  | .ok token =>
    match (c.issuer h).parse env.jwt now token with
    | .error _ => .error c.refusal
    | .ok claims => .ok claims

def rawClaims (env : Env) (h : AuthHandler) (now : Time) (c : Call) :
    Except Reply (MapClaims × String) :=
  match c.token env with
  | .error reply => .error reply
  | .ok token =>
    match (c.issuer h).rawClaims env.jwt now token with
    | .error _ => .error c.refusal
    | .ok identified => .ok identified

/-- What the handler does up to `Revoke`, if it is one that revokes. -/
def revoked (env : Env) (h : AuthHandler) (now : Time) (c : MapClaims) (jti : String) :
    Call → Option (Except Reply (String × Time))
  | .behindAuth _ => none
  | .logout method header =>
    match bearer header with
    | none => some (.error (.unauthorized "missing or invalid bearer token"))
    | some token => some (h.logoutClaims env now method token)
  | .refresh _ => some (.ok (jti, Time.ofUnix (c.exp.getD 0)))

end Call

/-! ## The system -/

/-- Where a request is. -/
inductive CallPc where
  | start
  | parsed (claims : Claims)
  | identified (claims : Claims) (c : MapClaims) (jti : String)
  /-- past the check; a request behind `RequireAuth` is at its handler -/
  | unrevoked (claims : Claims) (c : MapClaims) (jti : String)
  | revoking (claims : Claims) (jti : String) (exp : Time)
  /-- before the command of `Revoke`; `readAt` is when the TTL was computed -/
  | setting (claims : Claims) (jti : String) (exp : Time) (ttl : Duration) (readAt : Time)
  /-- `Revoke` has returned -/
  | revoked (claims : Claims)
  | answered (reply : Reply)
  deriving DecidableEq, Repr

/-- The request has not asked Redis yet. -/
def CallPc.Unchecked : CallPc → Prop
  | .start | .parsed _ | .identified _ _ _ => True
  | _ => False

/-- The request got past the blacklist. -/
def CallPc.Passed : CallPc → Prop
  | .unrevoked _ _ _ | .revoking _ _ _ | .setting _ _ _ _ _ | .revoked _ => True
  | _ => False

instance : DecidablePred CallPc.Passed
  | .unrevoked _ _ _ | .revoking _ _ _ | .setting _ _ _ _ _ | .revoked _ => isTrue trivial
  | .start | .parsed _ | .identified _ _ _ | .answered _ => isFalse id

/-- A `SET` of `Revoke` that Redis has carried out. -/
structure Revocation (ι : Type) where
  request : ι
  jti : String
  exp : Time
  ttl : Duration
  readAt : Time
  setAt : Time
  deriving DecidableEq, Repr

structure Replicas (ι : Type) where
  redis : Keyspace String
  now : Time
  pc : ι → CallPc
  revocations : List (Revocation ι)

inductive ReplicasAct (ι : Type) where
  | wait (now : Time)
  | reclaim (name : String)
  | parse (i : ι)
  | rawClaims (i : ι)
  | isRevoked (i : ι) (e : CommandEnd)
  | handle (i : ι)
  | timeLeft (i : ι)
  | set (i : ι) (e : CommandEnd)
  deriving DecidableEq, Repr

namespace Replicas

variable {ι : Type} [DecidableEq ι]

def init (now : Time) : Replicas ι := ⟨.empty, now, fun _ => .start, []⟩

@[simps pc]
def setPc (s : Replicas ι) (i : ι) (p : CallPc) : Replicas ι :=
  { s with pc := Function.update s.pc i p }

/-- The clock of the replica that a request is at. -/
def clock (req : ι → ReplicaCall) (s : Replicas ι) (i : ι) : Time := s.now + (req i).skew

def step (env : Env) (h : AuthHandler) (req : ι → ReplicaCall) (s : Replicas ι) :
    ReplicasAct ι → Option (Replicas ι)
  | .wait now => if s.now ≤ now then some { s with now := now } else none
  | .reclaim name => some { s with redis := s.redis.reclaim s.now name }
  | .parse i =>
    match s.pc i with
    | .start =>
      match (req i).call.parse env h (s.clock req i) with
      | .error reply => some (s.setPc i (.answered reply))
      | .ok claims => some (s.setPc i (.parsed claims))
    | _ => none
  | .rawClaims i =>
    match s.pc i with
    | .parsed claims =>
      match (req i).call.rawClaims env h (s.clock req i) with
      | .error reply => some (s.setPc i (.answered reply))
      | .ok (c, jti) => some (s.setPc i (.identified claims c jti))
    | _ => none
  | .isRevoked i e =>
    match s.pc i with
    | .identified claims c jti =>
      if RedisBlacklist.isRevoked s.redis s.now jti e then
        some (s.setPc i (.answered (req i).call.refusal))
      else some (s.setPc i (.unrevoked claims c jti))
    | _ => none
  | .handle i =>
    match s.pc i with
    | .unrevoked claims c jti =>
      match (req i).call.revoked env h (s.clock req i) c jti with
      | none => none
      | some (.error reply) => some (s.setPc i (.answered reply))
      | some (.ok (jti, exp)) => some (s.setPc i (.revoking claims jti exp))
    | _ => none
  | .timeLeft i =>
    match s.pc i with
    | .revoking claims jti exp =>
      match RedisBlacklist.timeLeft jti exp (s.clock req i) with
      | none => some (s.setPc i (.revoked claims))
      | some ttl => some (s.setPc i (.setting claims jti exp ttl s.now))
    | _ => none
  | .set i e =>
    match s.pc i with
    | .setting claims jti exp ttl readAt =>
      some { s.setPc i (.revoked claims) with
        redis := RedisBlacklist.revoke s.redis s.now jti ttl e
        revocations := if e = .refused then s.revocations
          else s.revocations ++ [⟨i, jti, exp, ttl, readAt, s.now⟩] }
    | _ => none

end Replicas

/-! ## The calls and the handlers -/

/-- `RequireAuth` is its calls, one after the other. -/
theorem requireAuth_eq (env : Env) (h : AuthHandler) (b : MemoryBlacklist) (t : CheckTimes)
    (header : String) :
    requireAuth env h.issuer b t header =
      match (Call.behindAuth header).parse env h t.parse with
      | .error reply => (b, .error reply)
      | .ok claims =>
        match (Call.behindAuth header).rawClaims env h t.rawClaims with
        | .error reply => (b, .error reply)
        | .ok (_, jti) =>
          match b.isRevoked t.isRevoked jti with
          | (b', true) => (b', .error (Call.behindAuth header).refusal)
          | (b', false) => (b', .ok claims.subject) := by
  unfold requireAuth Call.parse Call.rawClaims Call.token
  dsimp only [Call.issuer, Call.refusal]
  cases bearerToken header with
  | error reply => rfl
  | ok token =>
    dsimp only
    cases h.issuer.parse env.jwt t.parse token with
    | error err => rfl
    | ok claims =>
      dsimp only
      cases h.issuer.rawClaims env.jwt t.rawClaims token <;> rfl

/-- The calls of `Refresh` are the ones of its handler. -/
theorem refresh_parse_eq (env : Env) (h : AuthHandler) (now : Time) (r : Request String) :
    (Call.refresh r).parse env h now =
      (AuthHandler.refreshInput env r).bind (h.refreshParse env now) := by
  dsimp only [Call.parse, Call.token, Call.issuer, Call.refusal]
  cases AuthHandler.refreshInput env r with
  | error reply => rfl
  | ok token =>
    cases hparse : h.refreshIssuer.parse env.jwt now token <;>
      simp [Except.bind, AuthHandler.refreshParse, hparse]

theorem refresh_rawClaims_eq (env : Env) (h : AuthHandler) (now : Time) (r : Request String) :
    ((Call.refresh r).rawClaims env h now).map
        (fun identified => (identified.2, Time.ofUnix (identified.1.exp.getD 0))) =
      (AuthHandler.refreshInput env r).bind (h.refreshIdentify env now) := by
  dsimp only [Call.rawClaims, Call.token, Call.issuer, Call.refusal]
  cases AuthHandler.refreshInput env r with
  | error reply => rfl
  | ok token =>
    cases hraw : h.refreshIssuer.rawClaims env.jwt now token <;>
      simp [Except.bind, Except.map, AuthHandler.refreshIdentify, hraw]

end GoRestApi.Server
