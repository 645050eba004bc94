/-
GoRestApi.Store.UserStore — `MemoryUserStore` of
`internal/store/user_store.go`.

Every method holds the store's mutex from its first to its last line, so a
method is one function from the store to the store and its result. The
methods that look for a user are scans with an early return; each is written
here as the recursion its `for` loop is, so that WHERE a scan stops is part
of the model. `updateScan` is the one where that matters: it tests a user for
an email conflict and for being the target in the same pass, and returns at
the target.

`User` leaves out `CreatedAt` and `UpdatedAt`, which the in-memory store
neither reads nor writes.
-/
import GoRestApi.Lts.Run

namespace GoRestApi.Store

/-- `model.User`. -/
structure User where
  id : Int
  name : String
  email : String
  passwordHash : String
  deriving DecidableEq, Repr

/-- `model.CreateUserRequest`. By the time it reaches the store its
`password` is the bcrypt hash. -/
structure CreateUserRequest where
  name : String
  email : String
  password : String
  deriving DecidableEq, Repr

/-- `model.UpdateUserRequest`. -/
structure UpdateUserRequest where
  name : String
  email : String
  deriving DecidableEq, Repr

/-- `ErrUserNotFound` and `ErrEmailAlreadyExists`. -/
inductive StoreError where
  | userNotFound
  | emailAlreadyExists
  deriving DecidableEq, Repr

/-- The text of the error value. -/
def StoreError.message : StoreError → String
  | .userNotFound => "user not found"
  | .emailAlreadyExists => "email already exists"

/-- An error of the driver: one of the server, with its code, or another one. -/
inductive SqlError where
  | pg (code : String)
  | other (msg : String)
  deriving DecidableEq, Repr

/-- The errors of a store over a database: the two of the interface, and any
other of the driver. -/
inductive PostgresError where
  | store (e : StoreError)
  | sql (e : SqlError)
  deriving DecidableEq, Repr

/-- The fields of `MemoryUserStore` its mutex guards. -/
structure MemoryUserStore where
  users : List User
  nextID : Int
  deriving DecidableEq, Repr

def newMemoryUserStore : MemoryUserStore where
  users := []
  nextID := 1

namespace MemoryUserStore

/-! ## Reads -/

def list (s : MemoryUserStore) : List User := s.users

def getByIDScan (id : Int) : List User → Except StoreError User
  | [] => .error .userNotFound
  | u :: us => if u.id = id then .ok u else getByIDScan id us

def getByID (s : MemoryUserStore) (id : Int) : Except StoreError User :=
  getByIDScan id s.users

def getByEmailScan (email : String) : List User → Except StoreError User
  | [] => .error .userNotFound
  | u :: us => if u.email = email then .ok u else getByEmailScan email us

def getByEmail (s : MemoryUserStore) (email : String) : Except StoreError User :=
  getByEmailScan email s.users

/-! ## Writes -/

/-- `Create` looks through the whole list before it appends. -/
def create (s : MemoryUserStore) (input : CreateUserRequest) :
    MemoryUserStore × Except StoreError User :=
  if s.users.any (fun u => u.email = input.email) then
    (s, .error .emailAlreadyExists)
  else
    let user : User :=
      { id := s.nextID, name := input.name, email := input.email
        passwordHash := input.password }
    ({ users := s.users ++ [user], nextID := s.nextID + 1 }, .ok user)

/-- The loop of `Update`: the conflict test and the target test are made on
one user after the other, and the target ends the loop. -/
def updateScan (id : Int) (input : UpdateUserRequest) :
    List User → Except StoreError (List User × User)
  | [] => .error .userNotFound
  | u :: us =>
    if u.id ≠ id ∧ u.email = input.email then
      .error .emailAlreadyExists
    else if u.id = id then
      let u' := { u with name := input.name, email := input.email }
      .ok (u' :: us, u')
    else
      (updateScan id input us).map fun r => (u :: r.1, r.2)

def update (s : MemoryUserStore) (id : Int) (input : UpdateUserRequest) :
    MemoryUserStore × Except StoreError User :=
  match updateScan id input s.users with
  | .ok (users, user) => ({ s with users := users }, .ok user)
  | .error e => (s, .error e)

/-- The loop of `Delete`: `append(s.users[:i], s.users[i+1:]...)` at the first
user with the id. -/
def deleteScan (id : Int) : List User → Except StoreError (List User)
  | [] => .error .userNotFound
  | u :: us => if u.id = id then .ok us else (deleteScan id us).map (u :: ·)

def delete (s : MemoryUserStore) (id : Int) :
    MemoryUserStore × Except StoreError Unit :=
  match deleteScan id s.users with
  | .ok users => ({ s with users := users }, .ok ())
  | .error e => (s, .error e)

def updatePasswordScan (id : Int) (passwordHash : String) :
    List User → Except StoreError (List User)
  | [] => .error .userNotFound
  | u :: us =>
    if u.id = id then .ok ({ u with passwordHash := passwordHash } :: us)
    else (updatePasswordScan id passwordHash us).map (u :: ·)

def updatePassword (s : MemoryUserStore) (id : Int) (passwordHash : String) :
    MemoryUserStore × Except StoreError Unit :=
  match updatePasswordScan id passwordHash s.users with
  | .ok users => ({ s with users := users }, .ok ())
  | .error e => (s, .error e)

/-! ## Runs -/

/-- A call of a mutating method. -/
inductive Op where
  | create (input : CreateUserRequest)
  | update (id : Int) (input : UpdateUserRequest)
  | updatePassword (id : Int) (passwordHash : String)
  | delete (id : Int)
  deriving DecidableEq, Repr

/-- The store after a call, whatever the call returned. -/
def apply (s : MemoryUserStore) : Op → MemoryUserStore
  | .create input => (s.create input).1
  | .update id input => (s.update id input).1
  | .updatePassword id passwordHash => (s.updatePassword id passwordHash).1
  | .delete id => (s.delete id).1

/-- The step function of the store: a call is always enabled. -/
def step (s : MemoryUserStore) (op : Op) : Option MemoryUserStore :=
  some (s.apply op)

end MemoryUserStore

end GoRestApi.Store
