/-
GoRestApi.Store.CachedUserStore — `internal/store/cached_user_store.go`, and
concurrent calls of it.

The store beneath is any `UserStore` whose methods are atomic. The calls are
the elements of a type `ι`; a call performs its commands one by one, with no
lock between them: `GetByID` asks the cache, reads the inner store if that was
a miss, and writes what it read back to the cache; the writing methods write
the inner store and then delete the cache entry. A step names its call and,
for a cache command, the clock reading of the cache and whether the command
succeeds: the store ignores the errors of `Set` and `Delete` and takes any
error of `Get` for a miss.

`List` and `GetByEmail` only pass the call on.
-/
import GoRestApi.Cache.UserCache
import GoRestApi.Lts.Run
import Mathlib.Tactic.Simps.Basic

namespace GoRestApi.Store

open Go Cache

/-! ## The inner store -/

/-- The interface `UserStore`, of stores whose state is in `σ` and whose
errors are in `ε`. -/
structure UserStore (σ ε : Type) where
  list : σ → Except ε (List User)
  getByID : σ → Int → Except ε User
  getByEmail : σ → String → Except ε User
  create : σ → CreateUserRequest → σ × Except ε User
  update : σ → Int → UpdateUserRequest → σ × Except ε User
  updatePassword : σ → Int → String → σ × Except ε Unit
  delete : σ → Int → σ × Except ε Unit

def MemoryUserStore.userStore : UserStore MemoryUserStore StoreError where
  list s := .ok s.list
  getByID := getByID
  getByEmail := getByEmail
  create := create
  update := update
  updatePassword := updatePassword
  delete := delete

/-! ## Calls -/

namespace Cached

/-- A call of one of the methods that touch the cache. -/
inductive Call where
  | getByID (id : Int64)
  | create (input : CreateUserRequest)
  | update (id : Int64) (input : UpdateUserRequest)
  | updatePassword (id : Int64) (passwordHash : String)
  | delete (id : Int64)
  deriving DecidableEq, Repr

/-- What a call returns: a user and an error, or an error only. -/
inductive Answer (ε : Type) where
  | user (r : Except ε User)
  | done (r : Except ε Unit)
  deriving DecidableEq

/-- `CachedUserStore`, but for the cache itself. -/
structure Config (σ ε π : Type) where
  inner : UserStore σ ε
  codec : UserCodec π
  ttl : Duration

/-- The inner write of a call: the new state, what the call is going to
return, and the id it has to invalidate, if the write has succeeded. -/
def Call.write {σ ε : Type} (inner : UserStore σ ε) (st : σ) :
    Call → Option (σ × Answer ε × Option Int64)
  | .getByID _ => none
  | .create input =>
    let (st', r) := inner.create st input
    some (st', .user r, r.toOption.map fun user => Int64.ofInt user.id)
  | .update id input =>
    let (st', r) := inner.update st id.toInt input
    some (st', .user r, r.toOption.map fun _ => id)
  | .updatePassword id passwordHash =>
    let (st', r) := inner.updatePassword st id.toInt passwordHash
    some (st', .done r, r.toOption.map fun _ => id)
  | .delete id =>
    let (st', r) := inner.delete st id.toInt
    some (st', .done r, r.toOption.map fun _ => id)

/-- Where a call is: not yet made; made; after a miss, before the read of the
inner store; before the write-back of what it read; before the invalidation;
or back with its answer. -/
inductive Pc (ε : Type) where
  | start
  | begun
  | reading
  | filling (user : User)
  | invalidating (id : Int64) (answer : Answer ε)
  | returned (answer : Answer ε)
  deriving DecidableEq

structure State (ι σ ε π : Type) where
  inner : σ
  cache : UserCache π
  pc : ι → Pc ε

inductive Act (ι : Type) where
  | begin (i : ι)
  | get (i : ι) (now : Time) (ok : Bool)
  | read (i : ι)
  | set (i : ι) (now : Time) (ok : Bool)
  | write (i : ι)
  | invalidate (i : ι) (ok : Bool)
  deriving DecidableEq, Repr

/-- The clock reading of a step. -/
def Act.time {ι : Type} : Act ι → Option Time
  | .get _ now _ | .set _ now _ => some now
  | _ => none

namespace State

variable {ι σ ε π : Type} [DecidableEq ι]

def init (inner : σ) (cache : UserCache π) : State ι σ ε π := ⟨inner, cache, fun _ => .start⟩

@[simps pc]
def setPc (s : State ι σ ε π) (i : ι) (p : Pc ε) : State ι σ ε π :=
  { s with pc := Function.update s.pc i p }

def step (c : Config σ ε π) (calls : ι → Call) (s : State ι σ ε π) :
    Act ι → Option (State ι σ ε π)
  | .begin i =>
    match s.pc i with
    | .start => some (s.setPc i .begun)
    | _ => none
  | .get i now ok =>
    match s.pc i, calls i with
    | .begun, .getByID id =>
      match if ok then s.cache.get now id else (s.cache, none) with
      | (cache, none) => some { s.setPc i .reading with cache := cache }
      | (cache, some data) =>
        match c.codec.decode data with
        | .ok u => some { s.setPc i (.returned (.user (.ok u))) with cache := cache }
        | .error _ => some { s.setPc i .reading with cache := cache }
    | _, _ => none
  | .read i =>
    match s.pc i, calls i with
    | .reading, .getByID id =>
      match c.inner.getByID s.inner id.toInt with
      | .error e => some (s.setPc i (.returned (.user (.error e))))
      | .ok user => some (s.setPc i (.filling user))
    | _, _ => none
  | .set i now ok =>
    match s.pc i, calls i with
    | .filling user, .getByID id =>
      match c.codec.encode (.of user) with
      | .ok data =>
        some { s.setPc i (.returned (.user (.ok user))) with
          cache := if ok then s.cache.setWithTTL now id data c.ttl else s.cache }
      | .error _ => some (s.setPc i (.returned (.user (.ok user))))
    | _, _ => none
  | .write i =>
    match s.pc i, (calls i).write c.inner s.inner with
    | .begun, some (st, answer, some id) =>
      some { s.setPc i (.invalidating id answer) with inner := st }
    | .begun, some (st, answer, none) =>
      some { s.setPc i (.returned answer) with inner := st }
    | _, _ => none
  | .invalidate i ok =>
    match s.pc i with
    | .invalidating id answer =>
      some { s.setPc i (.returned answer) with
        cache := if ok then s.cache.delete id else s.cache }
    | _ => none

end State

end Cached

end GoRestApi.Store
