/-
GoRestApi.Process.UserEvents — `POST /users` on several replicas that share one
database, from the two statements of `CreateUser` to the publisher.

`CreateUser` writes twice: `Create` inserts the account, and `Enqueue` inserts
the event `user.created`. There is no transaction around the two, and the error
of the second one is dropped. So a request is `created` between them, where its
process can die, and it answers 201 whether the event was stored or not
(`announced`, `unannounced`). The type `ι` has an element for each execution of
the handler, on any replica; the dispatchers are those of `Events.Dispatch`,
and everything else that the replicas do to the users, registrations and
deletions among it, is a step `store`.

`run_alone` compares a request that nothing comes between with `CreateUser` as
a whole.

Left out, as in the two layers below: a statement that is committed although
its reply is lost.
-/
import GoRestApi.Events.Dispatch
import GoRestApi.Server.IdempotencyReplay
import GoRestApi.Store.PostgresDatabase
import Mathlib.Tactic.Simps.Basic

namespace GoRestApi.Events.DBSystem

/-- A step of a dispatcher; the others are `Enqueue`. -/
def dispatchersOwn {n : Nat} {π : Type} : DBAct n π → Bool
  | .enqueue .. => false
  | .cancel _ | .loopHead _ | .dequeueBegin .. | .dequeueEnd .. | .publish .. | .markPublished ..
  | .crash _ | .restart _ => true

end GoRestApi.Events.DBSystem

namespace GoRestApi.Process

open Go Store Events Handler Lts

/-! ## The system -/

/-- Where an execution of `CreateUser` is. -/
inductive CreatePc where
  | start
  /-- answered with an error; there is no account -/
  | refused (reply : Reply)
  /-- between the two statements -/
  | created (user : User)
  /-- answered with 201, and the event was stored -/
  | announced (user : User) (e : Event)
  /-- answered with 201, and no event was stored -/
  | unannounced (user : User)
  /-- the process died between the two statements -/
  | died (user : User)
  deriving DecidableEq

namespace CreatePc

/-- The account that the request has created. -/
def account : CreatePc → Option User
  | .start | .refused _ => none
  | .created user | .announced user _ | .unannounced user | .died user => some user

/-- What the request was answered with. -/
def answer : CreatePc → Option (Answer User)
  | .refused reply => some (.error reply)
  | .announced user _ | .unannounced user => some (.ok (201, { user with passwordHash := "" }))
  | .start | .created _ | .died _ => none

end CreatePc

/-- Executions of `CreateUser`, and `n` dispatchers, over one database. -/
structure UserEvents (ι : Type) (n : Nat) (π : Type) where
  users : Database
  outbox : DBSystem n π
  pc : ι → CreatePc

/-- The steps of the system. `newID` and `now'` are for `Enqueue`, `now` is the
reading for `OccurredAt`. -/
inductive UserEventsAct (ι : Type) (n : Nat) (π : Type) where
  | create (i : ι) (sql : Option SqlError)
  | enqueue (i : ι) (now : Time) (newID : String) (now' : Time) (sql : Option OutboxError)
  | die (i : ι)
  | store (call : StoreCall) (sql : Option SqlError)
  | dispatcher (a : DBAct n π)

namespace UserEvents

variable {ι : Type} {n : Nat} {π : Type}

def init (d : Database) : UserEvents ι n π := ⟨d, .init .empty, fun _ => .start⟩

@[simps pc]
def setPc [DecidableEq ι] (s : UserEvents ι n π) (i : ι) (p : CreatePc) : UserEvents ι n π :=
  { s with pc := Function.update s.pc i p }

/-- What `CreateUser` does after `Create` has returned the user. -/
def afterCreate (h : UserHandler) (user : User) : CreatePc :=
  if h.hasOutbox then .created user else .unannounced user

theorem account_afterCreate (h : UserHandler) (user : User) :
    (afterCreate h user).account = some user := by
  unfold afterCreate
  split <;> rfl

theorem afterCreate_ne_announced (h : UserHandler) (user u : User) (e : Event) :
    afterCreate h user ≠ .announced u e := by
  unfold afterCreate
  split <;> rintro ⟨⟩

def step [DecidableEq ι] [DecidableEq π] (env : Env) (h : UserHandler) (c : EventCodec π)
    (reqs : ι → Request CreateUserRequest) (s : UserEvents ι n π) :
    UserEventsAct ι n π → Option (UserEvents ι n π)
  | .create i sql =>
    match s.pc i with
    | .start =>
      match h.createInput env (reqs i) with
      | .error reply => some (s.setPc i (.refused reply))
      | .ok input =>
        match PostgresUserStore.create s.users sql input with
        | (d, .error e) => some { s.setPc i (.refused (handleStoreError e)) with users := d }
        | (d, .ok user) => some { s.setPc i (afterCreate h user) with users := d }
    | _ => none
  | .enqueue i now newID now' sql =>
    match s.pc i with
    | .created user =>
      let e := h.createdEvent now user
      match DBOutbox.enqueue c s.outbox.table newID now' e sql with
      | .error _ => some (s.setPc i (.unannounced user))
      | .ok _ =>
        (s.outbox.step c (.enqueue newID now' e sql)).map fun outbox =>
          { s.setPc i (.announced user (e.withDefaults newID now')) with outbox := outbox }
    | _ => none
  | .die i =>
    match s.pc i with
    | .created user => some (s.setPc i (.died user))
    | _ => none
  | .store call sql => some { s with users := (s.users.answer sql call).1 }
  | .dispatcher a =>
    if DBSystem.dispatchersOwn a then
      (s.outbox.step c a).map fun outbox => { s with outbox := outbox }
    else none

/-! ## What a step can do -/

section Step

variable [DecidableEq ι] {env : Env} {h : UserHandler} {c : EventCodec π}
  {reqs : ι → Request CreateUserRequest} {s s' : UserEvents ι n π} {i : ι}

variable [DecidableEq π]

/-- The cases of a step, with what it has tested. -/
inductive Steps (env : Env) (h : UserHandler) (c : EventCodec π)
    (reqs : ι → Request CreateUserRequest) (s : UserEvents ι n π) :
    UserEventsAct ι n π → UserEvents ι n π → Prop where
  | rejected {i sql reply} : s.pc i = .start → h.createInput env (reqs i) = .error reply →
      Steps env h c reqs s (.create i sql) (s.setPc i (.refused reply))
  | notCreated {i sql input d e} : s.pc i = .start → h.createInput env (reqs i) = .ok input →
      PostgresUserStore.create s.users sql input = (d, .error e) →
      Steps env h c reqs s (.create i sql)
        { s.setPc i (.refused (handleStoreError e)) with users := d }
  | created {i sql input d user} : s.pc i = .start → h.createInput env (reqs i) = .ok input →
      PostgresUserStore.create s.users sql input = (d, .ok user) →
      Steps env h c reqs s (.create i sql) { s.setPc i (afterCreate h user) with users := d }
  | notEnqueued {i now newID now' sql user err} : s.pc i = .created user →
      DBOutbox.enqueue c s.outbox.table newID now' (h.createdEvent now user) sql = .error err →
      Steps env h c reqs s (.enqueue i now newID now' sql) (s.setPc i (.unannounced user))
  | enqueued {i now newID now' sql user outbox} : s.pc i = .created user →
      s.outbox.step c (.enqueue newID now' (h.createdEvent now user) sql) = some outbox →
      outbox.accepted =
        s.outbox.accepted ++ [(h.createdEvent now user).withDefaults newID now'] →
      Steps env h c reqs s (.enqueue i now newID now' sql)
        { s.setPc i (.announced user ((h.createdEvent now user).withDefaults newID now')) with
          outbox := outbox }
  | died {i user} : s.pc i = .created user →
      Steps env h c reqs s (.die i) (s.setPc i (.died user))
  | store {call sql} :
      Steps env h c reqs s (.store call sql) { s with users := (s.users.answer sql call).1 }
  | dispatcher {a outbox} : DBSystem.dispatchersOwn a = true → s.outbox.step c a = some outbox →
      Steps env h c reqs s (.dispatcher a) { s with outbox := outbox }

/-- **Inversion.** A step is one of the cases. -/
theorem steps_of_step {a : UserEventsAct ι n π} (hstep : s.step env h c reqs a = some s') :
    Steps env h c reqs s a s' := by
  cases a with
  | create i sql =>
    simp only [step] at hstep
    split at hstep
    · split at hstep
      · cases hstep
        exact .rejected ‹_› ‹_›
      · split at hstep <;> cases hstep
        · exact .notCreated ‹_› ‹_› ‹_›
        · exact .created ‹_› ‹_› ‹_›
    · cases hstep
  | enqueue i now newID now' sql =>
    simp only [step] at hstep
    split at hstep
    · split at hstep
      · cases hstep
        exact .notEnqueued ‹_› ‹_›
      · rename_i t hok
        obtain ⟨outbox, houtbox, rfl⟩ := Option.map_eq_some_iff.mp hstep
        refine .enqueued ‹_› houtbox ?_
        simp only [DBSystem.step, hok] at houtbox
        cases houtbox
        rfl
    · cases hstep
  | die i =>
    simp only [step] at hstep
    split at hstep <;> cases hstep
    exact .died ‹_›
  | store call sql =>
    cases hstep
    exact .store
  | dispatcher a =>
    simp only [step] at hstep
    split at hstep
    · obtain ⟨outbox, houtbox, rfl⟩ := Option.map_eq_some_iff.mp hstep
      exact .dispatcher ‹_› houtbox
    · cases hstep

/-- The two statements make up `CreateUser`: a request that nothing comes
between leaves the users, hands to the outbox and answers what `createUserWith`
says, whether the outbox takes the event or not. -/
theorem run_alone (hpc : s.pc i = .start) (sql : Option SqlError) (now : Time) (newID : String)
    (now' : Time) (sql' : Option OutboxError) :
    ∃ as s', run (step env h c reqs) s as = some s' ∧
      as ⊆ [.create i sql, .enqueue i now newID now' sql'] ∧
      match h.createUserWith env (fun d => PostgresUserStore.create d sql) s.users now (reqs i) with
      | (users, events, answer) =>
        s'.users = users ∧ (s'.pc i).answer = some answer ∧
          run (DBSystem.step c) s.outbox (events.map fun e => .enqueue newID now' e sql') =
            some s'.outbox := by
  unfold UserHandler.createUserWith
  cases hinput : h.createInput env (reqs i) with
  | error reply =>
    refine ⟨[.create i sql], s.setPc i (.refused reply), ?_, by simp, rfl, ?_, rfl⟩
    · simp only [run_singleton, step, hpc, hinput]
    · simp [CreatePc.answer]
  | ok input =>
    rcases hcreate : PostgresUserStore.create s.users sql input with ⟨d, e | user⟩
    · refine ⟨[.create i sql], { s.setPc i (.refused (handleStoreError e)) with users := d }, ?_⟩
      simp [run_singleton, step, hpc, hinput, hcreate, CreatePc.answer, setPc]
    · have hfirst : s.step env h c reqs (.create i sql) =
          some { s.setPc i (afterCreate h user) with users := d } := by
        simp only [step, hpc, hinput, hcreate]
      cases hbox : h.hasOutbox with
      | false =>
        refine ⟨[.create i sql], _, (run_singleton ..).trans hfirst, ?_⟩
        simp [hcreate, afterCreate, hbox, CreatePc.answer, setPc]
      | true =>
        refine ⟨[.create i sql, .enqueue i now newID now' sql'], ?_⟩
        rw [run_cons_of_step hfirst, run_singleton]
        cases henq : DBOutbox.enqueue c s.outbox.table newID now' (h.createdEvent now user) sql' <;>
          simp [step, setPc, afterCreate, hbox, henq, hcreate, CreatePc.answer, DBSystem.step,
            run_singleton]

end Step

end UserEvents

end GoRestApi.Process
