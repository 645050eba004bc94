/-
GoRestApi.Handler.User — the handlers of `internal/handler/user.go`.

`Answer β` is what a handler writes that answers with a value: an error
reply, or a status and the value. `CreateUser` also returns the event it
gives to the outbox; `Enqueue` is called after the user is stored and its
error is dropped, so the answer does not depend on it.

None of these handlers normalises the email: `CreateUser` and `UpdateUser`
pass it to the store as it was sent.
-/
import GoRestApi.Events.Outbox
import GoRestApi.Handler.Auth

namespace GoRestApi.Handler

open Go Store Events

/-! ## Requests and replies -/

abbrev Answer (β : Type) := Except Reply (Nat × β)

def Reply.notFound (message : String) : Reply := ⟨404, .error "NOT_FOUND" message []⟩

/-- The content type and the body, which every handler with a JSON body checks
in this order. -/
def decodeBody {α : Type} (env : Env) (r : Request α) : Except Reply α :=
  if ¬ env.isJSONContentType r.contentType then .error .unsupportedMediaType
  else
    match r.body with
    | .error message => .error (.badRequest message)
    | .ok input => .ok input

theorem decodeRequest_eq {α : Type} (env : Env) (r : Request α) :
    decodeRequest env r =
      if r.method ≠ "POST" then .error .methodNotAllowed else decodeBody env r := rfl

theorem decodeBody_ok {α : Type} {env : Env} {r : Request α} {input : α}
    (h : decodeBody env r = .ok input) : r.body = .ok input := by
  unfold decodeBody at h
  split at h
  · cases h
  · split at h
    · cases h
    · cases h
      assumption

theorem decodeRequest_ok {α : Type} {env : Env} {r : Request α} {input : α}
    (h : decodeRequest env r = .ok input) : r.body = .ok input := by
  rw [decodeRequest_eq] at h
  split at h
  · cases h
  · exact decodeBody_ok h

/-- What these checks reply with is an error. -/
theorem decodeRequest_ne_login {α : Type} {env : Env} {r : Request α} {status : Nat}
    {resp : LoginResponse} : decodeRequest env r ≠ .error ⟨status, .login resp⟩ := by
  rw [decodeRequest_eq, decodeBody]
  split
  · rintro ⟨⟩
  · split
    · rintro ⟨⟩
    · split <;> rintro ⟨⟩

/-- `userIDFromPath`, whose two errors are answered alike. -/
def userIDFromPath (path : String) : Option Int :=
  let idText := Strings.trimPrefix path "/users/"
  if idText = "" ∨ Strings.contains idText "/" then none
  else (Strconv.parseInt idText).map Int64.toInt

def validateUpdateUserInput (name email : String) : List (String × List String) :=
  required "name" (Strings.trimSpace name = "") ++
    required "email" (Strings.trimSpace email = "")

def handleUserStoreError : StoreError → Reply
  | .userNotFound => .notFound "user not found"
  | .emailAlreadyExists => .conflict "email already exists"

/-- On the errors of any store. -/
def handleStoreError : PostgresError → Reply
  | .store e => handleUserStoreError e
  | .sql _ => .internalError

/-! ## The handlers -/

structure UserHandler where
  bcryptCost : Int
  /-- `h.outbox != nil` -/
  hasOutbox : Bool
  /-- `json.Marshal` of the map with the id, the name and the email -/
  marshal : Int → String → String → List UInt8

/-- `model.ListUsersResponse`. -/
structure ListUsersResponse where
  data : List User
  nextCursor : Option String
  limit : Int
  deriving DecidableEq, Repr

namespace UserHandler

/-- `ListUsers`. -/
def listUsers (store : MemoryUserStore) (method : String) : Answer ListUsersResponse :=
  if method ≠ "GET" then .error .methodNotAllowed
  else .ok (200, { data := store.list, nextCursor := none, limit := 20 })

/-- The event of a new user. -/
def createdEvent (h : UserHandler) (now : Time) (user : User) : Event :=
  { Event.zero with
    type := "user.created"
    topic := "users"
    key := Strconv.formatInt (Int64.ofInt user.id)
    payload := h.marshal user.id user.name user.email
    occurredAt := now }

/-- `CreateUser` stores the email as it was sent. -/
def createInput (env : Env) (h : UserHandler) (r : Request CreateUserRequest) :
    Except Reply CreateUserRequest :=
  accountInput env h.bcryptCost id r

/-- `CreateUser` over any store, with what it gives to the outbox. -/
def createUserWith {υ : Type} (env : Env) (h : UserHandler)
    (create : υ → CreateUserRequest → υ × Except PostgresError User) (store : υ) (now : Time)
    (r : Request CreateUserRequest) : υ × List Event × Answer User :=
  match h.createInput env r with
  | .error reply => (store, [], .error reply)
  | .ok input =>
    match create store input with
    | (store', .error e) => (store', [], .error (handleStoreError e))
    | (store', .ok user) =>
      (store', if h.hasOutbox then [h.createdEvent now user] else [],
        .ok (201, { user with passwordHash := "" }))

/-- Over the in-memory store. -/
def createUser (env : Env) (h : UserHandler) (store : MemoryUserStore) (now : Time)
    (r : Request CreateUserRequest) : MemoryUserStore × List Event × Answer User :=
  h.createUserWith env memoryCreate store now r

/-- `GetUserByID`. -/
def getUserByID (store : MemoryUserStore) (method path : String) : Answer User :=
  if method ≠ "GET" then .error .methodNotAllowed
  else
    match userIDFromPath path with
    | none => .error (.badRequest "invalid user id")
    | some id =>
      match store.getByID id with
      | .error e => .error (handleUserStoreError e)
      | .ok user => .ok (200, user)

/-- `UpdateUser`. -/
def updateUser (env : Env) (store : MemoryUserStore) (path : String)
    (r : Request UpdateUserRequest) : MemoryUserStore × Answer User :=
  if r.method ≠ "PUT" then (store, .error .methodNotAllowed)
  else
    match userIDFromPath path with
    | none => (store, .error (.badRequest "invalid user id"))
    | some id =>
      match decodeBody env r with
      | .error reply => (store, .error reply)
      | .ok input =>
        let details := validateUpdateUserInput input.name input.email
        if details ≠ [] then (store, .error (.validationFailed details))
        else
          match store.update id input with
          | (store', .error e) => (store', .error (handleUserStoreError e))
          | (store', .ok user) => (store', .ok (200, user))

/-- `DeleteUser`. -/
def deleteUser (store : MemoryUserStore) (method path : String) : MemoryUserStore × Reply :=
  if method ≠ "DELETE" then (store, .methodNotAllowed)
  else
    match userIDFromPath path with
    | none => (store, .badRequest "invalid user id")
    | some id =>
      match store.delete id with
      | (store', .error e) => (store', handleUserStoreError e)
      | (store', .ok ()) => (store', .noContent)

end UserHandler

end GoRestApi.Handler
