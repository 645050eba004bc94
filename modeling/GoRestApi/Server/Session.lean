/-
GoRestApi.Server.Session — `RequireAuth` of `internal/server/auth_middleware.go`
and the requests of a session: register, login, refresh, logout, and any
request behind `RequireAuth`.

A request is one step. It reads the clock several times, and the readings are
arguments of the step, in the order of the code: `Parse`, `RawClaims` and
`IsRevoked` each take their own. `times` lists them, and the clock of the
state is the last one that was read.

`issued` and `loggedOut` are history: the tokens that were signed, and the
texts that the logouts that answered 204 have presented. No step reads them.

Left out: what the handlers behind `RequireAuth` do, and the rate limiter and
the idempotency middleware, which can only keep a request from its handler.
-/
import GoRestApi.Handler.Auth
import GoRestApi.Lts.Run

namespace GoRestApi.Handler

/-- The text verifies to the claims of the token. The token itself does, and so
may other texts: the last character of a signature has bits that the library
does not read. -/
def IssuedToken.IsText (env : Env) (h : AuthHandler) (x : IssuedToken) (raw : String) : Prop :=
  env.jwt.verify h.issuer.secret raw = some x.claims

instance (env : Env) (h : AuthHandler) (x : IssuedToken) (raw : String) :
    Decidable (x.IsText env h raw) :=
  inferInstanceAs (Decidable (_ = _))

end GoRestApi.Handler

namespace GoRestApi.Server

open Go Auth Store Handler

/-! ## The middleware -/

/-- The header as `RequireAuth` reads it. -/
def bearerToken (header : String) : Except Reply String :=
  if header = "" then .error (.unauthorized "missing bearer token")
  else
    match Strings.splitN2 header with
    | [scheme, rest] =>
      if ¬ Strings.equalFold scheme "Bearer" ∨ Strings.trimSpace rest = "" then
        .error (.unauthorized "missing or invalid bearer token")
      else .ok (Strings.trimSpace rest)
    | _ => .error (.unauthorized "missing or invalid bearer token")

/-- `RequireAuth`: the subject that the handler behind it is called with, or
the reply. -/
def requireAuth (env : Env) (issuer : TokenIssuer) (b : MemoryBlacklist) (t : CheckTimes)
    (header : String) : MemoryBlacklist × Except Reply Int64 :=
  match bearerToken header with
  | .error reply => (b, .error reply)
  | .ok token =>
    match issuer.parse env.jwt t.parse token with
    | .error _ => (b, .error (.unauthorized "missing or invalid bearer token"))
    | .ok claims =>
      match issuer.rawClaims env.jwt t.rawClaims token with
      | .error _ => (b, .error (.unauthorized "missing or invalid bearer token"))
      | .ok (_, jti) =>
        match b.isRevoked t.isRevoked jti with
        | (b', true) => (b', .error (.unauthorized "missing or invalid bearer token"))
        | (b', false) => (b', .ok claims.subject)

/-- The token of an `Authorization` header, as the route of `Logout` cuts it
out. -/
def bearer (header : String) : Option String :=
  match Strings.splitN2 header with
  | [_, rest] => some (Strings.trimSpace rest)
  | _ => none

/-- `Logout` cuts out the token that `RequireAuth` has checked. -/
theorem bearer_of_bearerToken {header token : String} (hb : bearerToken header = .ok token) :
    bearer header = some token := by
  unfold bearerToken at hb
  unfold bearer
  split at hb
  · cases hb
  · split at hb
    · rename_i scheme rest hsplit
      split at hb <;> cases hb
      rfl
    · cases hb

/-- The route `/auth/logout`. -/
def logoutRoute (env : Env) (h : AuthHandler) (b : MemoryBlacklist) (t : CheckTimes) (now : Time)
    (method header : String) : MemoryBlacklist × Reply :=
  match requireAuth env h.issuer b t header with
  | (b', .error reply) => (b', reply)
  | (b', .ok _) =>
    match bearer header with
    | none => (b', .unauthorized "missing or invalid bearer token")
    | some token => h.logout env b' now method token

/-! ## Sessions -/

structure Session where
  store : MemoryUserStore
  blacklist : MemoryBlacklist
  clock : Time
  issued : List IssuedToken
  loggedOut : List String

inductive SessionAct where
  | register (st : Stamps) (now : Time) (r : Request CreateUserRequest)
  | login (st : Stamps) (now : Time) (r : Request AuthHandler.LoginRequest)
  | refresh (t : CheckTimes) (st : Stamps) (now : Time) (r : Request String)
  | logout (t : CheckTimes) (now : Time) (method header : String)
  | behindAuth (t : CheckTimes) (header : String)

namespace SessionAct

/-- The clock readings of the request, in their order. -/
def times : SessionAct → List Time
  | .register st now _ | .login st now _ => [st.now, st.refreshNow, now]
  | .refresh t st now _ => [t.parse, t.rawClaims, t.isRevoked, st.now, st.refreshNow, now]
  | .logout t now _ _ => [t.parse, t.rawClaims, t.isRevoked, now]
  | .behindAuth t _ => [t.parse, t.rawClaims, t.isRevoked]

/-- What the request gets from `newJTI`, if it issues tokens. -/
def stamps : SessionAct → Option Stamps
  | .register st _ _ | .login st _ _ | .refresh _ st _ _ => some st
  | .logout _ _ _ _ | .behindAuth _ _ => none

/-- The token that the request presents. -/
def presented : SessionAct → Option String
  | .refresh _ _ _ r => r.body.toOption
  | .logout _ _ _ header | .behindAuth _ header => bearer header
  | .register _ _ _ | .login _ _ _ => none

end SessionAct

namespace Session

def init (store : MemoryUserStore) (clock : Time) : Session where
  store := store
  blacklist := .new
  clock := clock
  issued := []
  loggedOut := []

/-- A request; there is none that cannot be made. -/
def step (env : Env) (h : AuthHandler) (s : Session) (a : SessionAct) : Option Session :=
  let s := { s with clock := a.times.getLastD s.clock }
  match a with
  | .register st now r =>
    match h.register env s.store st now r with
    | (store, issued, _) => some { s with store := store, issued := s.issued ++ issued }
  | .login st now r => some { s with issued := s.issued ++ (h.login env s.store st now r).1 }
  | .refresh t st now r =>
    match h.refresh env s.store s.blacklist t st now r with
    | (b, issued, _) => some { s with blacklist := b, issued := s.issued ++ issued }
  | .logout t now method header =>
    match logoutRoute env h s.blacklist t now method header with
    | (b, reply) =>
      some { s with
        blacklist := b
        loggedOut := if reply.status = 204 then s.loggedOut ++ (bearer header).toList
          else s.loggedOut }
  | .behindAuth t header =>
    some { s with blacklist := (requireAuth env h.issuer s.blacklist t header).1 }

/-! ## What is assumed -/

/-- The issuers as `main` builds them: one secret, two kinds. -/
structure Wired (h : AuthHandler) : Prop where
  access : h.issuer.kind = .access
  refresh : h.refreshIssuer.kind = .refresh
  secret : h.refreshIssuer.secret = h.issuer.secret

/-- New token IDs are non-empty, distinct and not in use. -/
def Fresh (s : Session) (st : Stamps) : Prop :=
  st.jti ≠ "" ∧ st.refreshJTI ≠ "" ∧ st.jti ≠ st.refreshJTI ∧
    ∀ x ∈ s.issued, x.claims.jti ≠ some st.jti ∧ x.claims.jti ≠ some st.refreshJTI

instance (s : Session) (st : Stamps) : Decidable (s.Fresh st) :=
  inferInstanceAs (Decidable (_ ∧ _ ∧ _ ∧ _))

/-- A text that verifies has the claims of a token that was issued. -/
def Unforged (env : Env) (h : AuthHandler) (s : Session) (raw : String) : Prop :=
  ∀ c ∈ env.jwt.verify h.issuer.secret raw, ∃ x ∈ s.issued, x.claims = c

instance (env : Env) (h : AuthHandler) (s : Session) (raw : String) :
    Decidable (s.Unforged env h raw) :=
  inferInstanceAs (Decidable (∀ c ∈ env.jwt.verify h.issuer.secret raw, _))

/-- A logout with the token has been answered with 204. -/
def LoggedOut (env : Env) (h : AuthHandler) (s : Session) (x : IssuedToken) : Prop :=
  ∃ raw ∈ s.loggedOut, x.IsText env h raw

instance (env : Env) (h : AuthHandler) (s : Session) (x : IssuedToken) :
    Decidable (s.LoggedOut env h x) :=
  inferInstanceAs (Decidable (∃ raw ∈ s.loggedOut, _))

/-- The clock does not go backwards, `newJTI` gives new IDs, and no token is
forged. -/
structure Sane (env : Env) (h : AuthHandler) (s : Session) (a : SessionAct) : Prop where
  clock : (s.clock :: a.times).Pairwise (· ≤ ·)
  fresh : ∀ st ∈ a.stamps, s.Fresh st
  unforged : ∀ raw ∈ a.presented, s.Unforged env h raw

instance (env : Env) (h : AuthHandler) (s : Session) (a : SessionAct) :
    Decidable (s.Sane env h a) :=
  decidable_of_iff ((s.clock :: a.times).Pairwise (· ≤ ·) ∧ (∀ st ∈ a.stamps, s.Fresh st) ∧
    ∀ raw ∈ a.presented, s.Unforged env h raw) ⟨fun h => ⟨h.1, h.2.1, h.2.2⟩,
      fun h => ⟨h.clock, h.fresh, h.unforged⟩⟩

end Session

end GoRestApi.Server
