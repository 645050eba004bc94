/-
GoRestApi.Handler.ResetTokens — the password-reset token stores of
`internal/handler/reset_tokens.go` and `reset_tokens_redis.go`, and the
handlers `ForgotPassword` and `ResetPassword` of `auth.go` that use them.

The random token and the clock readings are arguments. `Consume` is cut in
two: it takes the entry of a token out of the store, and then checks what it
took against the clock. In the Redis store GETDEL is between them; the
in-memory store does both under one mutex. `TokenStore` is the interface with
`Consume` cut like this.

The handlers are cut in the same way, at the calls to the user store and the
token store.
-/
import GoRestApi.Encoding.Object
import GoRestApi.Handler.User
import GoRestApi.Redis.Keyspace

namespace GoRestApi.Handler

open Go Store

/-- `resetToken`; also the anonymous struct of the Redis payload. -/
structure ResetToken where
  userID : Int64
  expiresAt : Time
  deriving DecidableEq, Repr

/-- The second half of `Consume`: the user of the token, unless the token has
expired. -/
def ResetToken.check (t : ResetToken) (now : Time) : Option Int64 :=
  if t.expiresAt < now then none else some t.userID

/-- The interface `TokenStore`. `σ` is the state of a store and `τ` is what
`Consume` takes out of it. -/
structure TokenStore (σ τ : Type) where
  /-- `Issue`, given what `randomToken` and the clock return -/
  issue : σ → (token : String) → (now : Time) → (userID : Int64) → (ttl : Duration) →
    σ × String × Time
  take : σ → (token : String) → σ × Option τ
  check : τ → (now : Time) → Option Int64
  /-- what may happen to the store without a call -/
  evict : σ → (key : String) → σ

/-- `Consume`. -/
def TokenStore.consume {σ τ : Type} (ts : TokenStore σ τ) (s : σ) (token : String) (now : Time) :
    σ × Option Int64 :=
  match ts.take s token with
  | (s', none) => (s', none)
  | (s', some taken) => (s', ts.check taken now)

/-! ## In memory -/

structure ResetTokenStore where
  tokens : String → Option ResetToken

namespace ResetTokenStore

/-- `NewMemoryResetTokenStore`. -/
def new : ResetTokenStore := ⟨fun _ => none⟩

def issue (s : ResetTokenStore) (token : String) (now : Time) (userID : Int64) (ttl : Duration) :
    ResetTokenStore × String × Time :=
  let expiresAt := now + ttl
  (⟨Function.update s.tokens token (some ⟨userID, expiresAt⟩)⟩, token, expiresAt)

/-- The lookup and the `delete` of `Consume`. -/
def take (s : ResetTokenStore) (token : String) : ResetTokenStore × Option ResetToken :=
  match s.tokens token with
  | none => (s, none)
  | some entry => (⟨Function.update s.tokens token none⟩, some entry)

def tokenStore : TokenStore ResetTokenStore ResetToken where
  issue := issue
  take := take
  check := ResetToken.check
  evict := fun s _ => s

end ResetTokenStore

/-! ## In Redis -/

/-- `json.Marshal` and `json.Unmarshal` on payloads. -/
structure TokenCodec (π : Type) where
  marshal : ResetToken → Except String π
  unmarshal : π → Except String ResetToken

/-- Decoding what was encoded gives the user and the instant back. -/
structure TokenCodec.RoundTrips {π : Type} (c : TokenCodec π) : Prop where
  unmarshal_marshal : ∀ (t : ResetToken) (p : π), c.marshal t = .ok p → c.unmarshal p = .ok t

namespace TokenCodec

open Encoding

/-- A number that does not fit an `int64` is an error of the decoder. -/
def int64? (v : Value) : Option Int64 :=
  v.number?.bind fun n => if (Int64.ofInt n).toInt = n then some (Int64.ofInt n) else none

def fields : List (RecordField ResetToken) :=
  [.scalar (fun n : Int64 => .number n.toInt) int64? (by simp [int64?, Value.number?]) "u"
      (fun _ => false) id ResetToken.userID (fun x t => { t with userID := x }) (fun _ _ => rfl),
    .instant "e" ResetToken.expiresAt (fun x t => { t with expiresAt := x }) (fun _ _ => rfl)]

theorem lawful_fields : Lawful fields where
  names := by decide
  independent := by
    intro f hf v t t' hset
    simp only [fields, List.mem_cons, List.not_mem_nil, or_false] at hf
    rcases hf with rfl | rfl <;>
    · obtain ⟨x, _, rfl⟩ := Option.map_eq_some_iff.mp hset
      simp [fields]
  ext := by
    intro s t h
    cases s
    cases t
    simpa [fields, Int64.toInt_inj] using h

/-- The encoder of `encoding/json`, as for jobs: years beyond four digits have
no encoding. -/
def json : TokenCodec Document where
  marshal t :=
    if Time.HasYear t.expiresAt then .ok (.object (Encoding.marshal fields t))
    else .error Time.marshalError
  unmarshal := Document.read fields ⟨0, Time.zero⟩

theorem roundTrips_json : json.RoundTrips where
  unmarshal_marshal := by
    intro t p hp
    simp only [json] at hp
    split at hp <;> cases hp
    apply lawful_fields.read_marshal
    simp [fields]

end TokenCodec

/-- The keys of the Redis server. `take` does not ask whether the life of a key
is over: that a key is gone by then is a step of its own, `evict`. -/
abbrev RedisResetTokenStore (π : Type) := RedisServer.Keyspace π

namespace RedisResetTokenStore

variable {π : Type}

def keyFor (token : String) : String := "reset_token:" ++ token

/-- `Issue`, with a SET that succeeds. A payload that cannot be encoded is
announced as the empty token. -/
def issue (c : TokenCodec π) (s : RedisResetTokenStore π) (token : String) (now : Time)
    (userID : Int64) (ttl : Duration) : RedisResetTokenStore π × String × Time :=
  let expiresAt := now + ttl
  match c.marshal ⟨userID, expiresAt⟩ with
  | .error _ => (s, "", expiresAt)
  | .ok payload =>
    (s.set now (keyFor token) payload (RedisServer.ttlMillis ttl), token, expiresAt)

/-- `Consume` up to the reply of a GETDEL that succeeds. -/
def take (s : RedisResetTokenStore π) (token : String) : RedisResetTokenStore π × Option π :=
  if token = "" then (s, none)
  else
    match s.keys (keyFor token) with
    | none => (s, none)
    | some k => (s.del (keyFor token), some k.value)

/-- `Consume` from the reply of GETDEL. -/
def check (c : TokenCodec π) (payload : π) (now : Time) : Option Int64 :=
  match c.unmarshal payload with
  | .error _ => none
  | .ok t => t.check now

/-- The server drops a key whose TTL has passed; by which clock is left open. -/
def evict (s : RedisResetTokenStore π) (key : String) : RedisResetTokenStore π := s.del key

def tokenStore (c : TokenCodec π) : TokenStore (RedisResetTokenStore π) π where
  issue := issue c
  take := take
  check := check c
  evict := evict

end RedisResetTokenStore

/-! ## The handlers -/

/-- `model.ForgotPasswordResponse`. -/
structure ForgotPasswordResponse where
  accepted : Bool
  token : String
  expiresAt : Time
  resetURL : String
  deriving DecidableEq, Repr

/-- `model.ResetPasswordRequest`. -/
structure ResetPasswordRequest where
  token : String
  password : String
  deriving DecidableEq, Repr

namespace AuthHandler

/-- `ForgotPassword` up to `GetByEmail`: the email of the body. -/
def forgotInput (env : Env) (r : Request String) : Except Reply String :=
  match decodeRequest env r with
  | .error reply => .error reply
  | .ok raw =>
    let email := env.toLower (Strings.trimSpace raw)
    if email = "" then .error (.validationFailed [("email", ["required"])]) else .ok email

/-- The answer of `ForgotPassword`: an email that nobody has is accepted like
any other. -/
def forgotAnswer : Option (String × Time) → Answer ForgotPasswordResponse
  | none => .ok (202, ⟨true, "", Time.zero, ""⟩)
  | some (token, expiresAt) => .ok (202, ⟨true, token, expiresAt, "/auth/reset-password"⟩)

/-- `ResetPassword` up to `Consume`. -/
def resetInput (env : Env) (r : Request ResetPasswordRequest) :
    Except Reply ResetPasswordRequest :=
  match decodeRequest env r with
  | .error reply => .error reply
  | .ok input =>
    let details := required "token" (Strings.trimSpace input.token = "") ++
      required "password" (input.password = "")
    if details ≠ [] then .error (.validationFailed details) else .ok input

/-- `ResetPassword` from the return of `Consume`, over any `UpdatePassword`,
whose errors are all answered alike. -/
def resetConsumedWith {υ ε : Type} (env : Env) (h : AuthHandler)
    (updatePassword : υ → Int → String → υ × Except ε Unit) (store : υ)
    (input : ResetPasswordRequest) : Option Int64 → υ × Reply
  | none => (store, .unauthorized "invalid or expired reset token")
  | some userID =>
    match env.hashPassword input.password h.bcryptCost with
    | none => (store, .internalError)
    | some hashed =>
      match updatePassword store userID.toInt hashed with
      | (store', .error _) => (store', .internalError)
      | (store', .ok ()) => (store', .noContent)

/-- Over the in-memory store. -/
def resetConsumed (env : Env) (h : AuthHandler) (store : MemoryUserStore)
    (input : ResetPasswordRequest) (consumed : Option Int64) : MemoryUserStore × Reply :=
  h.resetConsumedWith env MemoryUserStore.updatePassword store input consumed

end AuthHandler

end GoRestApi.Handler
