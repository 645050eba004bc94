/-
GoRestApi.Server.Routes — the routes of `server.New` in
`internal/server/server.go`, with the handlers behind them.

`Options.route` is the mux: the patterns that are registered, which depend on
the options, and the choice of `http.ServeMux` among them. `serve` is a request
from the mux on. In front of a handler there may be a rate limiter, the
idempotency middleware and `RequireAuth`; what the first two decide is an
argument, so every limiter and every idempotency store is covered, and the
third is `requireAuth`.

A request is served as a whole before the next one. It brings with it the
clock readings, the random IDs and the random token that its handler gets, in
`Outside`. `Service` has what the handlers share; its lists `outbox` and `jobs`
are what was handed to `Outbox.Enqueue` and, as payloads of `welcome_email`
jobs, to `JobQueue.Enqueue`, whose errors no handler reports; `resetsIssued` is
history, like the two lists of `Session`.

The user store is the in-memory one. Left out: what `/health/live`,
`/health/ready`, `/metrics` and the files under `/swagger/` answer, and the
patterns with a method or a host, of which there are none.
-/
import GoRestApi.Handler.ResetTokens
import GoRestApi.Server.Session

namespace GoRestApi.Server

open Go Auth Store Handler Events

/-! ## Requests and responses -/

/-- A request as the mux gets it. What the body is decoded to depends on the
type that a handler decodes it into. -/
structure HTTPRequest where
  method : String
  path : String
  /-- the header `Authorization` -/
  authorization : String
  contentType : String
  createUser : Except String CreateUserRequest
  updateUser : Except String UpdateUserRequest
  login : Except String AuthHandler.LoginRequest
  refresh : Except String String
  forgotPassword : Except String String
  resetPassword : Except String ResetPasswordRequest

/-- The request as a handler sees it that decodes the body like this. -/
def HTTPRequest.decoding {α : Type} (r : HTTPRequest) (body : Except String α) : Request α :=
  ⟨r.method, r.contentType, body⟩

inductive HTTPResponse where
  | reply (r : Reply)
  | user (status : Nat) (u : User)
  | users (status : Nat) (r : ListUsersResponse)
  | forgot (status : Nat) (r : ForgotPasswordResponse)
  /-- a JSON object with these texts -/
  | fields (status : Nat) (fs : List (String × String))
  | redirect (location : String)
  /-- a page that is not modelled -/
  | page
  deriving DecidableEq, Repr

/-- What a handler answers with a value. -/
def HTTPResponse.ofAnswer {β : Type} (f : Nat → β → HTTPResponse) : Answer β → HTTPResponse
  | .error e => .reply e
  | .ok (status, b) => f status b

/-- What a request gets from outside: the clock, `newJTI`, `randomToken`, and
what the middleware in front of its handler decides. -/
structure Outside where
  check : CheckTimes
  stamps : Stamps
  now : Time
  resetToken : String
  /-- the limiter lets the request pass -/
  allowed : Bool
  /-- the idempotency middleware answers the request itself -/
  answered : Option HTTPResponse
  /-- what the server of the reset tokens has dropped since the last request -/
  evicted : List String

/-! ## The mux -/

/-- The fields of `server.Options` that the routes depend on. -/
structure Options where
  tokenIssuer : Option TokenIssuer
  refreshIssuer : Option TokenIssuer
  /-- `opts.Blacklist != nil`, and so on -/
  hasBlacklist : Bool
  hasOutbox : Bool
  hasJobQueue : Bool
  hasProbes : Bool
  hasMetrics : Bool
  bcryptCost : Int
  /-- `json.Marshal` of the map with the id, the name and the email -/
  marshal : Int → String → String → List UInt8

namespace Options

/-- The handler of the routes under `/auth/`, which are there only if both
issuers and the blacklist are. -/
def authHandler (o : Options) : Option AuthHandler :=
  match o.tokenIssuer, o.refreshIssuer, o.hasBlacklist with
  | some issuer, some refreshIssuer, true => some ⟨issuer, refreshIssuer, o.bcryptCost⟩
  | _, _, _ => none

def userHandler (o : Options) : UserHandler := ⟨o.bcryptCost, o.hasOutbox, o.marshal⟩

end Options

inductive AuthRoute where
  | login
  | register
  | refresh
  | forgotPassword
  | resetPassword
  | logout
  | me
  deriving DecidableEq, Repr

inductive Route where
  | auth (h : AuthHandler) (r : AuthRoute)
  | health
  | users
  | userByID
  | page
  | root

namespace Options

def authPatterns : List (String × AuthRoute) :=
  [("/auth/login", .login), ("/auth/register", .register), ("/auth/refresh", .refresh),
    ("/auth/forgot-password", .forgotPassword), ("/auth/reset-password", .resetPassword),
    ("/auth/logout", .logout), ("/me", .me)]

/-- The patterns without a slash at the end, which match one path each. -/
def patterns (o : Options) : List (String × Route) :=
  (if o.hasProbes then [("/health/live", .page), ("/health/ready", .page)] else []) ++
    (if o.hasMetrics then [("/metrics", .page)] else []) ++
    (match o.authHandler with
      | none => []
      | some h => authPatterns.map fun p => (p.1, .auth h p.2)) ++
    [("/health", .health), ("/users", .users)]

/-- The pattern that `ServeMux` picks: the path itself, or else the longest
pattern with a slash at its end that the path starts with. -/
def route (o : Options) (path : String) : Route :=
  match o.patterns.lookup path with
  | some r => r
  | none =>
    if "/users/".toList <+: path.toList then .userByID
    else if "/swagger/".toList <+: path.toList then .page
    else .root

end Options

/-! ## The service -/

structure Service (τ : Type) where
  session : Session
  resetTokens : τ
  outbox : List Event
  jobs : List (List UInt8)
  resetsIssued : List (String × Int64)

namespace Service

variable {τ ρ : Type}

def init (store : MemoryUserStore) (clock : Time) (resetTokens : τ) : Service τ :=
  ⟨.init store clock, resetTokens, [], [], []⟩

def setStore (s : Service τ) (store : MemoryUserStore) : Service τ :=
  { s with session := { s.session with store := store } }

def setBlacklist (s : Service τ) (b : MemoryBlacklist) : Service τ :=
  { s with session := { s.session with blacklist := b } }

def issue (s : Service τ) (issued : List IssuedToken) : Service τ :=
  { s with session := { s.session with issued := s.session.issued ++ issued } }

/-- The service when the request gets to it. -/
def begin (ts : TokenStore τ ρ) (s : Service τ) (x : Outside) : Service τ :=
  { s with
    session := { s.session with clock := x.now }
    resetTokens := x.evicted.foldl ts.evict s.resetTokens }

/-! ## Middleware -/

/-- What is behind a middleware. -/
abbrev Next (τ : Type) := Service τ → Service τ × HTTPResponse

/-- `RateLimit`. -/
def limited (x : Outside) (next : Next τ) : Next τ := fun s =>
  if x.allowed then next s
  else (s, .reply ⟨429, .error "RATE_LIMITED" "rate limit exceeded" []⟩)

/-- `WithIdempotency`: it calls the handler or it answers itself. -/
def idempotent (x : Outside) (next : Next τ) : Next τ := fun s =>
  match x.answered with
  | some response => (s, response)
  | none => next s

/-- `RequireAuth`. -/
def authenticated (env : Env) (issuer : TokenIssuer) (r : HTTPRequest) (x : Outside)
    (next : Int64 → Next τ) : Next τ := fun s =>
  match requireAuth env issuer s.session.blacklist x.check r.authorization with
  | (b, .error reply) => (s.setBlacklist b, .reply reply)
  | (b, .ok userID) => next userID (s.setBlacklist b)

/-- The closure `protect`. A blacklist that is nil revokes nothing, like one
that is empty. -/
def protect (env : Env) (o : Options) (r : HTTPRequest) (x : Outside) (next : Next τ) : Next τ :=
  fun s =>
  match o.tokenIssuer with
  | none => next s
  | some issuer =>
    if o.hasBlacklist then authenticated env issuer r x (fun _ => next) s
    else
      match (requireAuth env issuer .new x.check r.authorization).2 with
      | .error reply => (s, .reply reply)
      | .ok _ => next s

/-! ## The handlers behind the routes -/

/-- `NewAuthHandler` is not given a `ResetTokenTTL`. -/
def resetTokenTTL : Duration := 60 * Time.minute

/-- The payload of the job that `Register` enqueues, if it gets to its end. -/
def welcome (o : Options) : Reply → List (List UInt8)
  | ⟨_, .login resp⟩ =>
    if o.hasJobQueue then [o.marshal resp.user.id resp.user.name resp.user.email] else []
  | _ => []

/-- `Me`. -/
def me (store : MemoryUserStore) (method : String) (userID : Int64) : Answer User :=
  if method ≠ "GET" then .error .methodNotAllowed
  else
    match store.getByID userID.toInt with
    | .error .userNotFound => .error (.unauthorized "user no longer exists")
    | .error _ => .error .internalError
    | .ok user => .ok (200, { user with passwordHash := "" })

/-- `HealthHandler.Check`. -/
def health (method : String) : HTTPResponse :=
  if method ≠ "GET" then .reply .methodNotAllowed
  else .fields 200 [("status", "ok"), ("message", "API is running")]

/-- `ForgotPassword`. -/
def forgotPassword (env : Env) (ts : TokenStore τ ρ) (r : HTTPRequest) (x : Outside) : Next τ :=
  fun s =>
  match AuthHandler.forgotInput env (r.decoding r.forgotPassword) with
  | .error reply => (s, .reply reply)
  | .ok email =>
    match s.session.store.getByEmail email with
    | .error _ => (s, .ofAnswer .forgot (AuthHandler.forgotAnswer none))
    | .ok user =>
      match ts.issue s.resetTokens x.resetToken x.now (Int64.ofInt user.id) resetTokenTTL with
      | (tokens, token, expiresAt) =>
        ({ s with
          resetTokens := tokens
          resetsIssued := s.resetsIssued ++ [(token, Int64.ofInt user.id)] },
          .ofAnswer .forgot (AuthHandler.forgotAnswer (some (token, expiresAt))))

/-- `ResetPassword`. -/
def resetPassword (env : Env) (h : AuthHandler) (ts : TokenStore τ ρ) (r : HTTPRequest)
    (x : Outside) : Next τ := fun s =>
  match AuthHandler.resetInput env (r.decoding r.resetPassword) with
  | .error reply => (s, .reply reply)
  | .ok input =>
    match ts.consume s.resetTokens input.token x.now with
    | (tokens, consumed) =>
      match h.resetConsumed env s.session.store input consumed with
      | (store, reply) => ({ s.setStore store with resetTokens := tokens }, .reply reply)

def serveAuth (env : Env) (o : Options) (ts : TokenStore τ ρ) (h : AuthHandler) (r : HTTPRequest)
    (x : Outside) : AuthRoute → Next τ
  | .login =>
    limited x fun s =>
      match h.login env s.session.store x.stamps x.now (r.decoding r.login) with
      | (issued, reply) => (s.issue issued, .reply reply)
  | .register =>
    limited x <| idempotent x fun s =>
      match h.register env s.session.store x.stamps x.now (r.decoding r.createUser) with
      | (store, issued, reply) =>
        ({ (s.setStore store).issue issued with jobs := s.jobs ++ welcome o reply }, .reply reply)
  | .refresh =>
    limited x fun s =>
      match h.refresh env s.session.store s.session.blacklist x.check x.stamps x.now
          (r.decoding r.refresh) with
      | (b, issued, reply) => ((s.setBlacklist b).issue issued, .reply reply)
  | .forgotPassword => limited x (forgotPassword env ts r x)
  | .resetPassword => limited x (resetPassword env h ts r x)
  | .logout => fun s =>
    match logoutRoute env h s.session.blacklist x.check x.now r.method r.authorization with
    | (b, reply) =>
      let s := s.setBlacklist b
      ({ s with session := { s.session with
          loggedOut := if reply.status = 204 then
              s.session.loggedOut ++ (bearer r.authorization).toList
            else s.session.loggedOut } },
        .reply reply)
  | .me =>
    limited x <| authenticated env h.issuer r x fun userID s =>
      (s, .ofAnswer .user (me s.session.store r.method userID))

/-- The handlers of `/users`. -/
def serveUsers (env : Env) (o : Options) (r : HTTPRequest) (x : Outside) : Next τ :=
  if r.method = "GET" then
    protect env o r x fun s =>
      (s, .ofAnswer .users (UserHandler.listUsers s.session.store r.method))
  else if r.method = "POST" then
    protect env o r x <| idempotent x fun s =>
      match o.userHandler.createUser env s.session.store x.now (r.decoding r.createUser) with
      | (store, events, answer) =>
        ({ s.setStore store with outbox := s.outbox ++ events }, .ofAnswer .user answer)
  else fun s => (s, .reply .methodNotAllowed)

/-- The handlers of `/users/`. -/
def serveUserByID (env : Env) (o : Options) (r : HTTPRequest) (x : Outside) : Next τ :=
  if r.method = "GET" then
    protect env o r x fun s =>
      (s, .ofAnswer .user (UserHandler.getUserByID s.session.store r.method r.path))
  else if r.method = "PUT" then
    protect env o r x fun s =>
      match UserHandler.updateUser env s.session.store r.path (r.decoding r.updateUser) with
      | (store, answer) => (s.setStore store, .ofAnswer .user answer)
  else if r.method = "DELETE" then
    protect env o r x fun s =>
      match UserHandler.deleteUser s.session.store r.method r.path with
      | (store, reply) => (s.setStore store, .reply reply)
  else fun s => (s, .reply .methodNotAllowed)

/-! ## A request -/

/-- A request, from the mux on. The mux redirects a path that `cleanPath`
changes, and one that lacks but the last slash of a pattern. -/
def serve (env : Env) (cleanPath : String → String) (o : Options) (ts : TokenStore τ ρ)
    (r : HTTPRequest) (x : Outside) : Next τ := fun s =>
  let s := s.begin ts x
  if r.method ≠ "CONNECT" ∧ cleanPath r.path ≠ r.path then (s, .redirect (cleanPath r.path))
  else if r.path = "/swagger" then (s, .redirect "/swagger/")
  else
    match o.route r.path with
    | .auth h p => serveAuth env o ts h r x p s
    | .health => (s, health r.method)
    | .users => limited x (serveUsers env o r x) s
    | .userByID => limited x (serveUserByID env o r x) s
    | .page => (s, .page)
    | .root =>
      if r.path ≠ "/" then (s, .reply (.notFound "not found"))
      else (s, .fields 200 [("message", "Welcome to the Go API starter")])

/-- A request with what it gets from outside. -/
structure Visit where
  request : HTTPRequest
  outside : Outside

def step (env : Env) (cleanPath : String → String) (o : Options) (ts : TokenStore τ ρ)
    (s : Service τ) (v : Visit) : Option (Service τ) :=
  some (serve env cleanPath o ts v.request v.outside s).1

end Service

end GoRestApi.Server
