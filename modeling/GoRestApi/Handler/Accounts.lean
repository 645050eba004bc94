/-
GoRestApi.Handler.Accounts — the requests that create, change and remove
accounts, as one system over one `MemoryUserStore`.

Each of these handlers makes one call that writes the user store, so a
request is one step. `ResetPassword` asks the token store first; what
`Consume` answered is part of the action, so every token store and every
interleaving with it is covered.

`serve` gives the store after a request and, if the request was answered with
success, what the client has been promised: `Change` has the email and the
password AS THE CLIENT SENT THEM. `State` keeps, next to the store, the email
and the password that each account was last given in this sense.
-/
import GoRestApi.Handler.ResetTokens

namespace GoRestApi.Handler

open Go Store

/-- `strings.ToLower(strings.TrimSpace(email))`, which `Register`, `Login` and
`ForgotPassword` apply to an email, and `CreateUser` and `UpdateUser` do not. -/
def Env.normalize (env : Env) (email : String) : String := env.toLower (Strings.trimSpace email)

namespace Accounts

/-! ## Requests -/

inductive Act where
  | createUser (r : Request CreateUserRequest) (now : Time)
  | register (r : Request CreateUserRequest) (st : Stamps) (now : Time)
  | updateUser (path : String) (r : Request UpdateUserRequest)
  | deleteUser (method path : String)
  | resetPassword (r : Request ResetPasswordRequest) (consumed : Option Int64)

/-- What an answer of success tells the client. -/
inductive Change where
  | enrolled (id : Int) (email password : String)
  | renamed (id : Int) (email : String)
  | removed (id : Int)
  | repassworded (id : Int) (password : String)
  deriving DecidableEq, Repr

/-- The account it is about. -/
def Change.id : Change → Int
  | .enrolled id _ _ => id
  | .renamed id _ => id
  | .removed id => id
  | .repassworded id _ => id

/-- The store after the request, and what an answer of success has told. -/
def serve (env : Env) (auth : AuthHandler) (users : UserHandler) (store : MemoryUserStore) :
    Act → MemoryUserStore × Option Change
  | .createUser r now =>
    match users.createUser env store now r with
    | (store', _, .error _) => (store', none)
    | (store', _, .ok (_, user)) =>
      (store', r.body.toOption.map fun input => .enrolled user.id input.email input.password)
  | .register r st now =>
    match auth.register env store st now r with
    | (store', _, ⟨_, .login resp⟩) =>
      (store', r.body.toOption.map fun input =>
        .enrolled resp.user.id input.email input.password)
    | (store', _, _) => (store', none)
  | .updateUser path r =>
    match UserHandler.updateUser env store path r with
    | (store', .error _) => (store', none)
    | (store', .ok (_, user)) =>
      (store', r.body.toOption.map fun input => .renamed user.id input.email)
  | .deleteUser method path =>
    match UserHandler.deleteUser store method path with
    | (store', ⟨204, _⟩) => (store', (userIDFromPath path).map .removed)
    | (store', _) => (store', none)
  | .resetPassword r consumed =>
    match AuthHandler.resetInput env r with
    | .error _ => (store, none)
    | .ok input =>
      match auth.resetConsumed env store input consumed with
      | (store', ⟨204, _⟩) => (store', consumed.map fun id => .repassworded id.toInt input.password)
      | (store', _) => (store', none)

/-! ## Runs -/

structure State where
  store : MemoryUserStore
  /-- the email that an account was last given, as the client sent it -/
  email : Int → Option String
  /-- the password that an account was last given -/
  password : Int → Option String

namespace State

def empty : State := ⟨newMemoryUserStore, fun _ => none, fun _ => none⟩

def record (s : State) : Change → State
  | .enrolled id email password =>
    { s with
      email := Function.update s.email id (some email)
      password := Function.update s.password id (some password) }
  | .renamed id email => { s with email := Function.update s.email id (some email) }
  | .removed id =>
    { s with
      email := Function.update s.email id none
      password := Function.update s.password id none }
  | .repassworded id password =>
    { s with password := Function.update s.password id (some password) }

/-- The state after a request that `serve` has served like this. -/
def after (s : State) : MemoryUserStore × Option Change → State
  | (store', none) => { s with store := store' }
  | (store', some change) => { s with store := store' }.record change

def step (env : Env) (auth : AuthHandler) (users : UserHandler) (s : State) (a : Act) :
    Option State :=
  some (s.after (serve env auth users s.store a))

end State

/-! ## A server for concrete runs -/

/-- The sample environment, with an issuer that signs everything. -/
def sampleEnv : Env := { Sample.env [] with jwt := ⟨fun _ _ => some "token", fun _ _ => none⟩ }

def sampleUsers : UserHandler := ⟨10, false, fun _ _ _ => []⟩

end Accounts

end GoRestApi.Handler
