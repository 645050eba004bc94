/-
GoRestApi.Store.CachedSequential — operations on a `CachedUserStore` that do
not overlap.

The methods of `internal/store/cached_user_store.go` as whole functions, all
seven of them; `alone_call` says that this is what the steps of
`Store.CachedUserStore` do when no other call comes in between. A history is
a list of operations with the clock readings of the cache commands.

`cached_answers_as_inner`: over every history the answers show the same users
and errors as those of the inner store alone. `Fresh` carries it: every entry
of the cache, expired or not, decodes to what the inner store holds for its
id. Since that says nothing of the clock, the result needs nothing of it.
-/
import GoRestApi.Store.CachedUserStoreTheorems

namespace GoRestApi.Store

open Go Cache Lts

/-! ## The methods -/

/-- `CachedUserStore`: the state of the inner store, and the cache. -/
structure CachedUserStore (σ π : Type) where
  inner : σ
  cache : UserCache π

namespace CachedUserStore

open Cached

variable {σ ε π α : Type}

/-- `GetByID`. -/
def getByID (c : Config σ ε π) (s : CachedUserStore σ π) (getAt setAt : Time) (id : Int64) :
    CachedUserStore σ π × Except ε User :=
  let (cache, data) := s.cache.get getAt id
  match data.bind fun data => (c.codec.decode data).toOption with
  | some u => ({ s with cache := cache }, .ok u)
  | none =>
    match c.inner.getByID s.inner id.toInt with
    | .error e => ({ s with cache := cache }, .error e)
    | .ok user =>
      match c.codec.encode (.of user) with
      | .ok data => ({ s with cache := cache.setWithTTL setAt id data c.ttl }, .ok user)
      | .error _ => ({ s with cache := cache }, .ok user)

/-- What the four writers have in common: the write of the inner store has
given `w`, and `id` is what they invalidate if it has succeeded. -/
def written (s : CachedUserStore σ π) (w : σ × Except ε α) (id : α → Int64) :
    CachedUserStore σ π × Except ε α :=
  match w with
  | (st, .error e) => ({ s with inner := st }, .error e)
  | (st, .ok x) => (⟨st, s.cache.delete (id x)⟩, .ok x)

def create (c : Config σ ε π) (s : CachedUserStore σ π) (input : CreateUserRequest) :
    CachedUserStore σ π × Except ε User :=
  s.written (c.inner.create s.inner input) fun user => Int64.ofInt user.id

def update (c : Config σ ε π) (s : CachedUserStore σ π) (id : Int64) (input : UpdateUserRequest) :
    CachedUserStore σ π × Except ε User :=
  s.written (c.inner.update s.inner id.toInt input) fun _ => id

def updatePassword (c : Config σ ε π) (s : CachedUserStore σ π) (id : Int64)
    (passwordHash : String) : CachedUserStore σ π × Except ε Unit :=
  s.written (c.inner.updatePassword s.inner id.toInt passwordHash) fun _ => id

def delete (c : Config σ ε π) (s : CachedUserStore σ π) (id : Int64) :
    CachedUserStore σ π × Except ε Unit :=
  s.written (c.inner.delete s.inner id.toInt) fun _ => id

end CachedUserStore

/-! ## Histories -/

/-- A call of one of the seven methods. -/
inductive UserStore.Op where
  | list
  | getByEmail (email : String)
  | call (call : Cached.Call)
  deriving DecidableEq, Repr

/-- What an operation returns. -/
inductive UserStore.Reply (ε : Type) where
  | users (r : Except ε (List User))
  | answer (a : Cached.Answer ε)
  deriving DecidableEq

/-- The error, or what a reply shows: the id, the name and the email of each
user. -/
def UserStore.Reply.shown {ε : Type} : UserStore.Reply ε → Except ε (List Public)
  | .users r => r.map (List.map Public.of)
  | .answer (.user r) => r.map fun u => [.of u]
  | .answer (.done r) => r.map fun _ => []

theorem UserStore.Reply.shown_user {ε : Type} {r r' : Except ε User}
    (h : r.map Public.of = r'.map Public.of) :
    (UserStore.Reply.answer (.user r)).shown = (UserStore.Reply.answer (.user r')).shown := by
  cases r <;> cases r' <;> simp_all [shown, Except.map]

/-- The operation on the store alone. -/
def UserStore.perform {σ ε : Type} (inner : UserStore σ ε) (st : σ) :
    UserStore.Op → σ × UserStore.Reply ε
  | .list => (st, .users (inner.list st))
  | .getByEmail email => (st, .answer (.user (inner.getByEmail st email)))
  | .call (.getByID id) => (st, .answer (.user (inner.getByID st id.toInt)))
  | .call (.create input) => (inner.create st input).map id (.answer ∘ .user)
  | .call (.update id' input) => (inner.update st id'.toInt input).map id (.answer ∘ .user)
  | .call (.updatePassword id' hash) =>
    (inner.updatePassword st id'.toInt hash).map id (.answer ∘ .done)
  | .call (.delete id') => (inner.delete st id'.toInt).map id (.answer ∘ .done)

/-- What the operations of a history return from the store alone. -/
def UserStore.replies {σ ε : Type} (inner : UserStore σ ε) :
    σ → List UserStore.Op → List (UserStore.Reply ε)
  | _, [] => []
  | st, op :: ops =>
    let (st', r) := inner.perform st op
    r :: UserStore.replies inner st' ops

namespace CachedUserStore

open Cached

variable {σ ε π : Type}

/-- An operation, with the clock readings of the cache, which only `GetByID`
takes. -/
structure Timed where
  op : UserStore.Op
  getAt : Time
  setAt : Time
  deriving DecidableEq, Repr

/-- The operation on the cached store. `List` and `GetByEmail` are passed on. -/
def perform (c : Config σ ε π) (s : CachedUserStore σ π) (t : Timed) :
    CachedUserStore σ π × UserStore.Reply ε :=
  match t.op with
  | .list => (s, .users (c.inner.list s.inner))
  | .getByEmail email => (s, .answer (.user (c.inner.getByEmail s.inner email)))
  | .call (.getByID id') => (s.getByID c t.getAt t.setAt id').map id (.answer ∘ .user)
  | .call (.create input) => (s.create c input).map id (.answer ∘ .user)
  | .call (.update id' input) => (s.update c id' input).map id (.answer ∘ .user)
  | .call (.updatePassword id' hash) => (s.updatePassword c id' hash).map id (.answer ∘ .done)
  | .call (.delete id') => (s.delete c id').map id (.answer ∘ .done)

/-- What the operations of a history return. -/
def replies (c : Config σ ε π) : CachedUserStore σ π → List Timed → List (UserStore.Reply ε)
  | _, [] => []
  | s, t :: ts =>
    let (s', r) := s.perform c t
    r :: replies c s' ts

/-! ## The cache shows what the inner store holds -/

/-- Every entry of the cache decodes to what the inner store holds. -/
def Fresh (c : Config σ ε π) (s : CachedUserStore σ π) : Prop :=
  ∀ id e, s.cache.entry id = some e →
    ∃ u, c.codec.decode e.value = .ok u ∧
      (c.inner.getByID s.inner id.toInt).map Public.of = .ok (.of u)

variable {c : Config σ ε π} {s : CachedUserStore σ π}

theorem fresh_empty (st : σ) : Fresh c ⟨st, some .new⟩ := fun _ _ he => by cases he

/-- A cache with fewer entries is as fresh. -/
theorem Fresh.of_entries (h : Fresh c s) {cache : UserCache π}
    (hcache : ∀ id e, UserCache.entry cache id = some e → s.cache.entry id = some e) :
    Fresh c { s with cache := cache } :=
  fun id e he => h id e (hcache id e he)

/-- What `GetByID` writes back is what the inner store holds. -/
theorem Fresh.setWithTTL (h : Fresh c s) (hcodec : c.codec.RoundTrips) {now : Time} {id : Int64}
    {user : User} {data : π} (huser : c.inner.getByID s.inner id.toInt = .ok user)
    (hdata : c.codec.encode (.of user) = .ok data) :
    Fresh c { s with cache := s.cache.setWithTTL now id data c.ttl } := by
  intro id' e he
  obtain ⟨rfl, rfl⟩ | hbefore := UserCache.entry_of_setWithTTL he
  · obtain ⟨u, hu, hpub⟩ := hcodec.decode_encode _ _ hdata
    refine ⟨u, hu, ?_⟩
    rw [huser, hpub]
    rfl
  · exact h id' e hbefore

/-- **`GetByID`** shows what the inner store holds, and leaves that store. -/
theorem Fresh.getByID (h : Fresh c s) (hcodec : c.codec.RoundTrips) (getAt setAt : Time)
    (id : Int64) :
    (s.getByID c getAt setAt id).2.map Public.of =
        (c.inner.getByID s.inner id.toInt).map Public.of ∧
      (s.getByID c getAt setAt id).1.inner = s.inner ∧
      Fresh c (s.getByID c getAt setAt id).1 := by
  have hafter : Fresh c { s with cache := (s.cache.get getAt id).1 } :=
    h.of_entries fun _ _ => UserCache.entry_of_get
  unfold CachedUserStore.getByID
  simp only
  split
  next u hit =>
    obtain ⟨data, hdata, hu⟩ := Option.bind_eq_some_iff.mp hit
    obtain ⟨-, e, he, rfl, -⟩ := UserCache.get_eq_some hdata
    obtain ⟨u', hu', hview⟩ := h id e he
    rw [hu'] at hu
    cases hu
    exact ⟨hview.symm, rfl, hafter⟩
  next =>
    cases huser : c.inner.getByID s.inner id.toInt with
    | error e => exact ⟨rfl, rfl, hafter⟩
    | ok user =>
      cases hdata : c.codec.encode (.of user) with
      | error msg =>
        simp only [hdata]
        exact ⟨trivial, trivial, hafter⟩
      | ok data =>
        simp only [hdata]
        exact ⟨trivial, trivial, hafter.setWithTTL hcodec huser hdata⟩

/-- **The writers** answer as the inner store does, and invalidate the user
that they have changed. -/
theorem Fresh.written {α : Type} (h : Fresh c s) {w : σ × Except ε α} {id : α → Int64}
    (hother : ∀ id', w.2.toOption.map id ≠ some id' →
      c.inner.getByID w.1 id'.toInt = c.inner.getByID s.inner id'.toInt) :
    (s.written w id).2 = w.2 ∧ (s.written w id).1.inner = w.1 ∧ Fresh c (s.written w id).1 := by
  obtain ⟨st, e | x⟩ := w
  · refine ⟨rfl, rfl, fun id' e' he' => ?_⟩
    obtain ⟨u, hu, hview⟩ := h id' e' he'
    exact ⟨u, hu, by rw [← hview]; exact congrArg _ (hother id' (by simp [Except.toOption]))⟩
  · refine ⟨rfl, rfl, fun id' e' he' => ?_⟩
    obtain ⟨hne, hbefore⟩ := UserCache.entry_of_delete he'
    obtain ⟨u, hu, hview⟩ := h id' e' hbefore
    refine ⟨u, hu, ?_⟩
    rw [← hview]
    exact congrArg _ (hother id' (by simpa [Except.toOption] using Ne.symm hne))

/-- **One operation.** It shows the same as on the inner store alone, which it
leaves in the same state. -/
theorem Fresh.perform (h : Fresh c s) (hlocal : Local c.inner) (hcodec : c.codec.RoundTrips)
    (t : Timed) :
    (s.perform c t).2.shown = (c.inner.perform s.inner t.op).2.shown ∧
      (s.perform c t).1.inner = (c.inner.perform s.inner t.op).1 ∧
      Fresh c (s.perform c t).1 := by
  obtain ⟨op, getAt, setAt⟩ := t
  cases op with
  | list => exact ⟨rfl, rfl, h⟩
  | getByEmail email => exact ⟨rfl, rfl, h⟩
  | call call =>
    cases call with
    | getByID id =>
      obtain ⟨hshown, hinner, hfresh⟩ := h.getByID hcodec getAt setAt id
      exact ⟨UserStore.Reply.shown_user hshown, hinner, hfresh⟩
    | create input =>
      obtain ⟨hr, hinner, hfresh⟩ := h.written (w := c.inner.create s.inner input)
        (fun id' hid => hlocal (.create input) _ _ _ _ id' rfl hid)
      exact ⟨congrArg (fun r => (UserStore.Reply.answer (.user r)).shown) hr, hinner, hfresh⟩
    | update id input =>
      obtain ⟨hr, hinner, hfresh⟩ := h.written (w := c.inner.update s.inner id.toInt input)
        (fun id' hid => hlocal (.update id input) _ _ _ _ id' rfl hid)
      exact ⟨congrArg (fun r => (UserStore.Reply.answer (.user r)).shown) hr, hinner, hfresh⟩
    | updatePassword id hash =>
      obtain ⟨hr, hinner, hfresh⟩ := h.written (w := c.inner.updatePassword s.inner id.toInt hash)
        (fun id' hid => hlocal (.updatePassword id hash) _ _ _ _ id' rfl hid)
      exact ⟨congrArg (fun r => (UserStore.Reply.answer (.done r)).shown) hr, hinner, hfresh⟩
    | delete id =>
      obtain ⟨hr, hinner, hfresh⟩ := h.written (w := c.inner.delete s.inner id.toInt)
        (fun id' hid => hlocal (.delete id) _ _ _ _ id' rfl hid)
      exact ⟨congrArg (fun r => (UserStore.Reply.answer (.done r)).shown) hr, hinner, hfresh⟩

theorem Fresh.replies (h : Fresh c s) (hlocal : Local c.inner) (hcodec : c.codec.RoundTrips)
    (ts : List Timed) :
    (s.replies c ts).map UserStore.Reply.shown =
      (c.inner.replies s.inner (ts.map Timed.op)).map UserStore.Reply.shown := by
  induction ts generalizing s with
  | nil => rfl
  | cons t ts ih =>
    obtain ⟨hshown, hinner, hfresh⟩ := h.perform hlocal hcodec t
    simp only [CachedUserStore.replies, UserStore.replies, List.map_cons]
    rw [hshown, ih hfresh, hinner]

/-- **The cache cannot be seen.** Over every history of operations that do not
overlap, with any TTL and any clock, on a store that is written only through
the cache, each operation shows the same users or the same error as the
`MemoryUserStore` alone would. -/
theorem cached_answers_as_inner {codec : UserCodec π} (hcodec : codec.RoundTrips)
    (ttl : Duration) (st : MemoryUserStore) (ts : List Timed) :
    (replies ⟨MemoryUserStore.userStore, codec, ttl⟩ ⟨st, some .new⟩ ts).map
        UserStore.Reply.shown =
      (MemoryUserStore.userStore.replies st (ts.map Timed.op)).map UserStore.Reply.shown :=
  (fresh_empty st).replies MemoryUserStore.local_userStore hcodec ts

/-- A user is created, read twice, renamed, read, and deleted. The second read
is a hit, which does not show the password hash. -/
def sampleOps : List Timed :=
  [⟨.call (.create ⟨"ada", "ada@x", "h"⟩), 0, 0⟩, ⟨.call (.getByID 1), 0, 0⟩,
    ⟨.call (.getByID 1), 1, 1⟩, ⟨.call (.update 1 ⟨"eve", "ada@x"⟩), 2, 2⟩,
    ⟨.call (.getByID 1), 3, 3⟩, ⟨.call (.delete 1), 4, 4⟩, ⟨.call (.getByID 1), 5, 5⟩]

theorem cached_answers_as_inner_sample :
    (replies ⟨MemoryUserStore.userStore, UserCodec.json, Time.minute⟩
        ⟨newMemoryUserStore, some .new⟩ sampleOps).map UserStore.Reply.shown =
      (MemoryUserStore.userStore.replies newMemoryUserStore (sampleOps.map Timed.op)).map
        UserStore.Reply.shown ∧
    (MemoryUserStore.userStore.replies newMemoryUserStore (sampleOps.map Timed.op)).map
        UserStore.Reply.shown =
      [.ok [⟨1, "ada", "ada@x"⟩], .ok [⟨1, "ada", "ada@x"⟩], .ok [⟨1, "ada", "ada@x"⟩],
        .ok [⟨1, "eve", "ada@x"⟩], .ok [⟨1, "eve", "ada@x"⟩], .ok [], .error .userNotFound] :=
  ⟨cached_answers_as_inner UserCodec.roundTrips_json _ _ _, by decide +kernel⟩

/-! ## The steps of a call -/

section Alone

variable {ι : Type} [DecidableEq ι]

/-- The steps of the call `i` up to its return, when its cache commands
succeed. -/
def stepsOf (c : Config σ ε π) (s : CachedUserStore σ π) (t : Timed) (i : ι) :
    Call → List (Act ι)
  | .getByID id =>
    match (s.cache.get t.getAt id).2.bind fun data => (c.codec.decode data).toOption,
      c.inner.getByID s.inner id.toInt with
    | some _, _ => [.begin i, .get i t.getAt true]
    | none, .error _ => [.begin i, .get i t.getAt true, .read i]
    | none, .ok _ => [.begin i, .get i t.getAt true, .read i, .set i t.setAt true]
  | call =>
    match call.write c.inner s.inner with
    | some (_, _, some _) => [.begin i, .write i, .invalidate i true]
    | _ => [.begin i, .write i]

/-- A writer does to the store and the cache what its inner write says. -/
theorem perform_of_write {s : CachedUserStore σ π} {t : Timed} {call : Call} {st : σ}
    {answer : Answer ε} {id : Option Int64} (hop : t.op = .call call)
    (hw : call.write c.inner s.inner = some (st, answer, id)) :
    perform c s t = (⟨st, id.elim s.cache s.cache.delete⟩, .answer answer) := by
  unfold perform
  rw [hop]
  cases call with
  | getByID id => cases hw
  | create input =>
    rcases hr : c.inner.create s.inner input with ⟨st', e | user⟩ <;>
      simp only [Call.write, hr] at hw <;> cases hw <;> simp only [create, hr] <;> rfl
  | update id input =>
    rcases hr : c.inner.update s.inner id.toInt input with ⟨st', e | user⟩ <;>
      simp only [Call.write, hr] at hw <;> cases hw <;> simp only [update, hr] <;> rfl
  | updatePassword id hash =>
    rcases hr : c.inner.updatePassword s.inner id.toInt hash with ⟨st', e | user⟩ <;>
      simp only [Call.write, hr] at hw <;> cases hw <;> simp only [updatePassword, hr] <;> rfl
  | delete id =>
    rcases hr : c.inner.delete s.inner id.toInt with ⟨st', e | user⟩ <;>
      simp only [Call.write, hr] at hw <;> cases hw <;> simp only [delete, hr] <;> rfl

/-- The steps of a writer, up to its return. -/
theorem run_of_write {calls : ι → Call} {s : State ι σ ε π} {i : ι} {t : Timed} {st : σ}
    {answer : Answer ε} {id : Option Int64} (hpc : s.pc i = .start)
    (hw : (calls i).write c.inner s.inner = some (st, answer, id)) :
    ∃ s', run (State.step c calls) s (stepsOf c ⟨s.inner, s.cache⟩ t i (calls i)) = some s' ∧
      s'.pc i = .returned answer ∧ s'.inner = st ∧ s'.cache = id.elim s.cache s.cache.delete := by
  have hsteps : stepsOf c ⟨s.inner, s.cache⟩ t i (calls i) =
      if id.isSome then [.begin i, .write i, .invalidate i true] else [.begin i, .write i] := by
    cases hcall : calls i with
    | getByID _ => rw [hcall] at hw; cases hw
    | create _ | update _ _ | updatePassword _ _ | delete _ =>
      rw [hcall] at hw
      simp only [stepsOf, hw]
      cases id <;> rfl
  rw [hsteps]
  cases id <;> simp [run_cons, State.step, hpc, hw, State.setPc]

/-- **The steps are those of the methods.** The whole call leaves the store and
the cache as its steps do when no other call comes in between, and returns
the same. -/
theorem alone_call {calls : ι → Call} {s : State ι σ ε π} {i : ι} {t : Timed}
    (hpc : s.pc i = .start) (hop : t.op = .call (calls i)) :
    ∃ s' answer, run (State.step c calls) s (stepsOf c ⟨s.inner, s.cache⟩ t i (calls i)) = some s' ∧
      s'.pc i = .returned answer ∧
      perform c ⟨s.inner, s.cache⟩ t = (⟨s'.inner, s'.cache⟩, .answer answer) := by
  cases hw : (calls i).write c.inner s.inner with
  | some w =>
    obtain ⟨st, answer, id⟩ := w
    obtain ⟨s', hrun, hreturned, hinner, hcache⟩ := run_of_write (t := t) hpc hw
    refine ⟨s', answer, hrun, hreturned, ?_⟩
    rw [perform_of_write hop hw, hinner, hcache]
  | none =>
    unfold perform
    rw [hop]
    cases hcall : calls i with
    | create _ | update _ _ | updatePassword _ _ | delete _ => rw [hcall] at hw; cases hw
    | getByID id =>
      simp only [stepsOf, CachedUserStore.getByID]
      rcases hget : s.cache.get t.getAt id with ⟨cache, _ | data⟩
      · cases huser : c.inner.getByID s.inner id.toInt with
        | error e => simp [run_cons, State.step, hpc, hcall, hget, huser, State.setPc]
        | ok user =>
          cases hdata : c.codec.encode (.of user) <;>
            simp [run_cons, State.step, hpc, hcall, hget, huser, hdata, State.setPc]
      · cases hu : c.codec.decode data with
        | ok u =>
          simp [run_cons, State.step, hpc, hcall, hget, hu, State.setPc, Except.toOption]
        | error msg =>
          cases huser : c.inner.getByID s.inner id.toInt with
          | error e =>
            simp [run_cons, State.step, hpc, hcall, hget, hu, huser, State.setPc, Except.toOption]
          | ok user =>
            cases hdata : c.codec.encode (.of user) <;>
              simp [run_cons, State.step, hpc, hcall, hget, hu, huser, hdata, State.setPc,
                Except.toOption]

end Alone

end CachedUserStore

end GoRestApi.Store
