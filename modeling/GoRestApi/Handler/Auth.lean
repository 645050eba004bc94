/-
GoRestApi.Handler.Auth — the register, login, refresh and logout handlers of
`internal/handler/auth.go`.

A handler is a function from what it reads — the request, the store, the
blacklist, the clock, the random IDs — to what it leaves and the reply. A
request has its method, its content type and what `decodeJSONBody` gives for
its body: the message of the failure, or the decoded value. `Env` has the
library functions the handlers call: JSON Web Tokens, bcrypt, the media-type
parser and `strings.ToLower`.

`Refresh` is cut at the points where it touches something that other
requests touch as well; `AuthHandler.refresh` is the whole of it for a
request that nothing comes in between.

Left out: the rate limiter in front of the handlers, the welcome-email job
that `Register` enqueues after everything else is decided, and the encoding
of replies to JSON.
-/
import GoRestApi.Auth.Blacklist
import GoRestApi.Auth.Jwt
import GoRestApi.Go.Strings
import GoRestApi.Store.UserStore

namespace GoRestApi.Handler

open Go Auth Store

/-! ## Requests and replies -/

structure Request (α : Type) where
  method : String
  contentType : String
  body : Except String α

/-- `model.LoginResponse`. -/
structure LoginResponse where
  accessToken : String
  refreshToken : String
  tokenType : String
  expiresIn : Int
  expiresAt : Time
  refreshExpiresAt : Time
  user : User
  deriving DecidableEq, Repr

inductive Body where
  | empty
  | error (code message : String) (details : List (String × List String))
  | login (r : LoginResponse)
  deriving DecidableEq, Repr

structure Reply where
  status : Nat
  body : Body
  deriving DecidableEq, Repr

namespace Reply

def methodNotAllowed : Reply := ⟨405, .error "METHOD_NOT_ALLOWED" "method not allowed" []⟩

def unsupportedMediaType : Reply :=
  ⟨415, .error "UNSUPPORTED_MEDIA_TYPE" "Content-Type must be application/json" []⟩

def badRequest (message : String) : Reply := ⟨400, .error "BAD_REQUEST" message []⟩

def validationFailed (details : List (String × List String)) : Reply :=
  ⟨400, .error "VALIDATION_ERROR" "validation failed" details⟩

def unauthorized (message : String) : Reply := ⟨401, .error "UNAUTHORIZED" message []⟩

def conflict (message : String) : Reply := ⟨409, .error "CONFLICT" message []⟩

def internalError : Reply := ⟨500, .error "INTERNAL_ERROR" "internal server error" []⟩

def noContent : Reply := ⟨204, .empty⟩

end Reply

structure Env where
  jwt : JwtLib
  isJSONContentType : String → Bool
  toLower : String → String
  /-- `HashPassword(plain, cost)` -/
  hashPassword : String → Int → Option String
  /-- `VerifyPassword(hash, plain)` returns nil -/
  verifyPassword : String → String → Bool

structure AuthHandler where
  issuer : TokenIssuer
  refreshIssuer : TokenIssuer
  bcryptCost : Int

/-- What every handler with a JSON body checks first. -/
def decodeRequest {α : Type} (env : Env) (r : Request α) : Except Reply α :=
  if r.method ≠ "POST" then .error .methodNotAllowed
  else if ¬ env.isJSONContentType r.contentType then .error .unsupportedMediaType
  else
    match r.body with
    | .error message => .error (.badRequest message)
    | .ok input => .ok input

/-- The entry of a validation reply for a missing field. -/
def required (field : String) (missing : Bool) : List (String × List String) :=
  if missing then [(field, ["required"])] else []

def validateUserInput (name email password : String) : List (String × List String) :=
  required "name" (Strings.trimSpace name = "") ++
    required "email" (Strings.trimSpace email = "") ++ required "password" (password = "")

def validateLoginInput (email password : String) : List (String × List String) :=
  required "email" (email = "") ++ required "password" (password = "")

/-! ## Issuing tokens -/

/-- A token that an issuer has signed. -/
structure IssuedToken where
  raw : String
  kind : TokenKind
  subject : Int64
  claims : MapClaims
  deriving DecidableEq, Repr

structure TokenPair where
  token : String
  refreshToken : String
  expiresAt : Time
  refreshExpiresAt : Time
  deriving DecidableEq, Repr

/-- What `issueTokens` gets from the clock and from `newJTI`. -/
structure Stamps where
  now : Time
  jti : String
  refreshNow : Time
  refreshJTI : String
  deriving DecidableEq, Repr

/-- The clock readings of `Parse`, `RawClaims` and `IsRevoked`, which come in
this order wherever a token is checked. -/
structure CheckTimes where
  parse : Time
  rawClaims : Time
  isRevoked : Time
  deriving DecidableEq, Repr

/-- `Register` and `CreateUser` up to the call of `Create`: the input of that
call, with the email as the handler stores it, or the reply. -/
def accountInput (env : Env) (bcryptCost : Int) (storedEmail : String → String)
    (r : Request CreateUserRequest) : Except Reply CreateUserRequest :=
  match decodeRequest env r with
  | .error reply => .error reply
  | .ok input =>
    let details := validateUserInput input.name input.email input.password
    if details ≠ [] then .error (.validationFailed details)
    else
      match env.hashPassword input.password bcryptCost with
      | none => .error .internalError
      | some hashed => .ok { input with email := storedEmail input.email, password := hashed }

/-- `Create` of the in-memory store, which has no errors but the two of the
interface. -/
def memoryCreate (store : MemoryUserStore) (input : CreateUserRequest) :
    MemoryUserStore × Except PostgresError User :=
  ((store.create input).1, (store.create input).2.mapError .store)

namespace AuthHandler

/-- `issueTokens`, with the tokens signed on the way. -/
def issueTokens (env : Env) (h : AuthHandler) (st : Stamps) (userID : Int64) :
    List IssuedToken × Option TokenPair :=
  match h.issuer.issue env.jwt st.now st.jti userID with
  | none => ([], none)
  | some (token, expiresAt) =>
    let access : IssuedToken := ⟨token, .access, userID, h.issuer.claims st.now st.jti userID⟩
    match h.refreshIssuer.issue env.jwt st.refreshNow st.refreshJTI userID with
    | none => ([access], none)
    | some (refresh, refreshExpiresAt) =>
      let refreshed : IssuedToken :=
        ⟨refresh, .refresh, userID, h.refreshIssuer.claims st.refreshNow st.refreshJTI userID⟩
      ([access, refreshed], some ⟨token, refresh, expiresAt, refreshExpiresAt⟩)

/-- The reply with a token pair, at `now`. -/
def loginReply (status : Nat) (p : TokenPair) (now : Time) (user : User) : Reply :=
  ⟨status, .login
    { accessToken := p.token
      refreshToken := p.refreshToken
      tokenType := "Bearer"
      expiresIn := max 0 (p.expiresAt - now) / Time.second
      expiresAt := p.expiresAt
      refreshExpiresAt := p.refreshExpiresAt
      user := { user with passwordHash := "" } }⟩

/-! ## Register and login -/

/-- `Register` stores the email in lower case and without surrounding blanks. -/
def registerInput (env : Env) (h : AuthHandler) (r : Request CreateUserRequest) :
    Except Reply CreateUserRequest :=
  accountInput env h.bcryptCost (fun email => env.toLower (Strings.trimSpace email)) r

/-- `Register`, over any store. -/
def registerWith {υ : Type} (env : Env) (h : AuthHandler)
    (create : υ → CreateUserRequest → υ × Except PostgresError User) (store : υ) (st : Stamps)
    (now : Time) (r : Request CreateUserRequest) : υ × List IssuedToken × Reply :=
  match h.registerInput env r with
  | .error reply => (store, [], reply)
  | .ok input =>
    match create store input with
    | (store', .error (.store .emailAlreadyExists)) =>
      (store', [], .conflict "email already exists")
    | (store', .error _) => (store', [], .internalError)
    | (store', .ok user) =>
      match h.issueTokens env st (Int64.ofInt user.id) with
      | (issued, none) => (store', issued, .internalError)
      | (issued, some pair) => (store', issued, loginReply 201 pair now user)

/-- Over the in-memory store. -/
def register (env : Env) (h : AuthHandler) (store : MemoryUserStore) (st : Stamps) (now : Time)
    (r : Request CreateUserRequest) : MemoryUserStore × List IssuedToken × Reply :=
  h.registerWith env memoryCreate store st now r

/-- `model.LoginRequest`. -/
structure LoginRequest where
  email : String
  password : String
  deriving DecidableEq, Repr

/-- `Login`. -/
def login (env : Env) (h : AuthHandler) (store : MemoryUserStore) (st : Stamps) (now : Time)
    (r : Request LoginRequest) : List IssuedToken × Reply :=
  match decodeRequest env r with
  | .error reply => ([], reply)
  | .ok input =>
    let details := validateLoginInput input.email input.password
    if details ≠ [] then ([], .validationFailed details)
    else
      match store.getByEmail (env.toLower (Strings.trimSpace input.email)) with
      | .error .userNotFound => ([], .unauthorized "invalid email or password")
      | .error _ => ([], .internalError)
      | .ok user =>
        if ¬ env.verifyPassword user.passwordHash input.password then
          ([], .unauthorized "invalid email or password")
        else
          match h.issueTokens env st (Int64.ofInt user.id) with
          | (issued, none) => (issued, .internalError)
          | (issued, some pair) => (issued, loginReply 200 pair now user)

/-! ## Logout -/

/-- `Logout` up to `Revoke`, with what `Revoke` is called with. -/
def logoutClaims (env : Env) (h : AuthHandler) (now : Time) (method accessToken : String) :
    Except Reply (String × Time) :=
  if method ≠ "POST" then .error .methodNotAllowed
  else
    match h.issuer.rawClaims env.jwt now accessToken with
    | .error _ => .error (.unauthorized "missing or invalid bearer token")
    | .ok (c, jti) =>
      match c.exp with
      | none => .error (.unauthorized "missing or invalid bearer token")
      | some exp => .ok (jti, Time.ofUnix exp)

/-- `Logout`. -/
def logout (env : Env) (h : AuthHandler) (b : MemoryBlacklist) (now : Time) (method : String)
    (accessToken : String) : MemoryBlacklist × Reply :=
  match h.logoutClaims env now method accessToken with
  | .error reply => (b, reply)
  | .ok (jti, exp) => (b.revoke jti exp, .noContent)

/-! ## Refresh -/

/-- `Refresh` up to `Parse`: the token of the body. -/
def refreshInput (env : Env) (r : Request String) : Except Reply String :=
  match decodeRequest env r with
  | .error reply => .error reply
  | .ok token =>
    if Strings.trimSpace token = "" then .error (.validationFailed [("refreshToken", ["required"])])
    else .ok token

/-- `Parse`, with the reply to a token that it rejects. -/
def refreshParse (env : Env) (h : AuthHandler) (now : Time) (token : String) :
    Except Reply Claims :=
  match h.refreshIssuer.parse env.jwt now token with
  | .error _ => .error (.unauthorized "invalid refresh token")
  | .ok claims => .ok claims

/-- `RawClaims`: the ID of the token and when it expires. -/
def refreshIdentify (env : Env) (h : AuthHandler) (now : Time) (token : String) :
    Except Reply (String × Time) :=
  match h.refreshIssuer.rawClaims env.jwt now token with
  | .error _ => .error (.unauthorized "invalid refresh token")
  | .ok (c, jti) => .ok (jti, Time.ofUnix (c.exp.getD 0))

/-- The reply, once the pair is issued and the user looked up: all errors of
the look-up are answered alike. -/
def refreshReply {ε : Type} (pair : TokenPair) (now : Time) : Except ε User → Reply
  | .error _ => .unauthorized "user no longer exists"
  | .ok user => loginReply 200 pair now user

/-- `Refresh`, over any look-up of the user, for a request that nothing comes
in between. -/
def refreshWith {ε : Type} (env : Env) (h : AuthHandler) (getByID : Int → Except ε User)
    (b : MemoryBlacklist) (t : CheckTimes) (st : Stamps) (now : Time) (r : Request String) :
    MemoryBlacklist × List IssuedToken × Reply :=
  match refreshInput env r with
  | .error reply => (b, [], reply)
  | .ok token =>
    match h.refreshParse env t.parse token with
    | .error reply => (b, [], reply)
    | .ok claims =>
      match h.refreshIdentify env t.rawClaims token with
      | .error reply => (b, [], reply)
      | .ok (jti, exp) =>
        match b.isRevoked t.isRevoked jti with
        | (b', true) => (b', [], .unauthorized "invalid refresh token")
        | (b', false) =>
          let b'' := b'.revoke jti exp
          match h.issueTokens env st claims.subject with
          | (issued, none) => (b'', issued, .internalError)
          | (issued, some pair) =>
            (b'', issued, refreshReply pair now (getByID claims.subject.toInt))

/-- Over the in-memory store. -/
def refresh (env : Env) (h : AuthHandler) (store : MemoryUserStore) (b : MemoryBlacklist)
    (t : CheckTimes) (st : Stamps) (now : Time) (r : Request String) :
    MemoryBlacklist × List IssuedToken × Reply :=
  h.refreshWith env store.getByID b t st now r

end AuthHandler

/-! ## A server for concrete runs -/

namespace Sample

def secret : String := "a-development-secret-of-38-characters!"

/-- The issuers of `main`: one secret, one environment, two kinds. -/
def handler : AuthHandler where
  issuer := ⟨secret, 15 * Time.minute, "development", .access, by decide, by decide⟩
  refreshIssuer := ⟨secret, 168 * 60 * Time.minute, "development", .refresh, by decide, by decide⟩
  bcryptCost := 10

/-- The claims of the pair that is issued to user 1 at `now`, as tokens. -/
def tokens (now : Time) (n : String) : List (MapClaims × String) :=
  [(handler.issuer.claims now ("a" ++ n) 1, "access-" ++ n),
    (handler.refreshIssuer.claims now ("r" ++ n) 1, "refresh-" ++ n)]

def stamps (now : Time) (n : String) : Stamps := ⟨now, "a" ++ n, now, "r" ++ n⟩

/-- Passwords are hashed by writing a word in front of them. -/
def env (table : List (MapClaims × String)) : Env where
  jwt := .ofTable secret table
  isJSONContentType := fun t => t = "application/json"
  toLower := fun s => String.ofList (s.toList.map Char.toLower)
  hashPassword := fun plain _ => some ("hash of " ++ plain)
  verifyPassword := fun hash plain => hash = "hash of " ++ plain

end Sample

end GoRestApi.Handler
