/-
GoRestApi.Events.Dispatch — any number of `Dispatcher.Run` loops over one
outbox, as transition systems.

A dispatcher is where its goroutine is: at the head of the loop, inside
`Dequeue`, inside `Publish`, inside `MarkPublished`, or returned. Its atomic
steps are the ones another session can come between. Over the database that
is the opening `SELECT … FOR UPDATE SKIP LOCKED` (`dequeueBegin`), which locks
the row it answers with, and the end of the same transaction (`dequeueEnd`),
which releases it; a statement that needs a row another open transaction has
locked waits, that is, it is not enabled.

`accepted` and `published` are history: the events whose `Enqueue` returned
nil, with the defaults filled in, and the events `Publish` accepted. A
dispatcher also remembers, from `Dequeue` on, the row its event came from. No
step reads any of these.
-/
import GoRestApi.Events.Outbox
import GoRestApi.Lts.Run
import Mathlib.Tactic.Simps.Basic

namespace GoRestApi.Events

open Go

/-! ## Over the database -/

/-- Where a dispatcher over a `DBOutbox` is. -/
inductive Pc (π : Type) where
  | top
  | dequeuing
  | inTx (row : Row π)
  | publishing (row : Row π) (e : Event)
  | marking (row : Row π) (e : Event)
  | returned
  | crashed
  deriving DecidableEq, Repr

namespace Pc

variable {π : Type}

/-- The id of the row the dispatcher's open transaction has locked. -/
def locks : Pc π → Option String
  | .inTx row => some row.id
  | _ => none

/-- The row the dispatcher's last `Dequeue` returned and that it has not
finished with. -/
def holds : Pc π → Option (Row π)
  | .publishing row _ => some row
  | .marking row _ => some row
  | _ => none

/-- Where the loop goes with a reply of `Dequeue`; `row` is the row the reply
is made of. -/
def afterDequeue (row : Option (Row π)) (now : Time) (r : DequeueReply) : Pc π :=
  match row, Dispatcher.onDequeue now r with
  | some row, some e => .publishing row e
  | _, _ => .returned

end Pc

/-- `n` dispatchers over one `events_outbox`. -/
structure DBSystem (n : Nat) (π : Type) where
  table : EventsOutbox π
  pc : Fin n → Pc π
  /-- the dispatcher's context has been cancelled -/
  cancelled : Fin n → Bool
  accepted : List Event
  published : List Event

/-- The steps of the system. `sql` is the error of a statement that fails,
and `pick` the answer of the `SELECT`. -/
inductive DBAct (n : Nat) (π : Type) where
  | enqueue (newID : String) (now : Time) (e : Event) (sql : Option OutboxError)
  | cancel (d : Fin n)
  | loopHead (d : Fin n)
  | dequeueBegin (d : Fin n) (now : Time) (pick : Option (Row π)) (sql : Option OutboxError)
  | dequeueEnd (d : Fin n) (now : Time) (sql : Option OutboxError)
  | publish (d : Fin n) (accepts : Bool)
  | markPublished (d : Fin n) (sql : Option OutboxError)
  | crash (d : Fin n)
  | restart (d : Fin n)
  deriving DecidableEq, Repr

namespace DBSystem

variable {n : Nat} {π : Type}

/-- Dispatchers starting on a table. -/
def init (t : EventsOutbox π) : DBSystem n π where
  table := t
  pc := fun _ => .top
  cancelled := fun _ => false
  accepted := []
  published := []

@[simps pc]
def setPc (s : DBSystem n π) (d : Fin n) (p : Pc π) : DBSystem n π :=
  { s with pc := Function.update s.pc d p }

/-- The row is locked by an open transaction. -/
def locked (s : DBSystem n π) (id : String) : Bool :=
  decide (∃ d, (s.pc d).locks = some id)

/-- The row is locked by an open transaction of another dispatcher. -/
def lockedByOther (s : DBSystem n π) (d : Fin n) (id : String) : Bool :=
  decide (∃ d', d' ≠ d ∧ (s.pc d').locks = some id)

/-- The `DELETE` of the malformed-row branch waits for another transaction. -/
def deleteWaits (c : EventCodec π) (s : DBSystem n π) (d : Fin n) (row : Row π) : Bool :=
  !decide (DBOutbox.Decodes c row) &&
    s.lockedByOther d (c.unmarshal row.payload row.scan).1.id

def step [DecidableEq π] (c : EventCodec π) (s : DBSystem n π) :
    DBAct n π → Option (DBSystem n π)
  | .enqueue newID now e sql =>
    match DBOutbox.enqueue c s.table newID now e sql with
    | .error _ => some s
    | .ok t => some { s with table := t, accepted := s.accepted ++ [e.withDefaults newID now] }
  | .cancel d => some { s with cancelled := Function.update s.cancelled d true }
  | .loopHead d =>
    match s.pc d with
    | .top => some (s.setPc d (if s.cancelled d then .returned else .dequeuing))
    | _ => none
  | .dequeueBegin d now pick sql =>
    match s.pc d with
    | .dequeuing =>
      match sql with
      | some err => some (s.setPc d (.afterDequeue none now (.failed err)))
      | none =>
        if s.table.Selects s.locked pick then
          match pick with
          | none => some (s.setPc d (.afterDequeue none now .notOk)) -- sql.ErrNoRows
          | some row => some (s.setPc d (.inTx row))
        else none
    | _ => none
  | .dequeueEnd d now sql =>
    match s.pc d with
    | .inTx row =>
      if s.deleteWaits c d row then none
      else
        let r := DBOutbox.dequeueRow c s.table row sql
        some { s.setPc d (.afterDequeue (some row) now r.2) with table := r.1 }
    | _ => none
  | .publish d accepts =>
    match s.pc d with
    | .publishing row e =>
      if accepts then
        some { s.setPc d (.marking row e) with published := s.published ++ [e] }
      else some (s.setPc d .top)
    | _ => none
  | .markPublished d sql =>
    match s.pc d with
    | .marking _ e =>
      if s.lockedByOther d e.id then none
      else some { s.setPc d .top with table := (DBOutbox.markPublished s.table e sql).1 }
    | _ => none
  | .crash d => some (s.setPc d .crashed)
  | .restart d =>
    some { s.setPc d .top with cancelled := Function.update s.cancelled d false }

/-- A step of the system, or another session rewriting the table. The rows
that open transactions have locked cannot be touched by it. -/
def stepShared [DecidableEq π] (c : EventCodec π) (s : DBSystem n π) :
    DBAct n π ⊕ EventsOutbox π → Option (DBSystem n π)
  | .inl a => s.step c a
  | .inr t =>
    if ∀ r ∈ s.table.rows, s.locked r.id = true → r ∈ t.rows then some { s with table := t }
    else none

end DBSystem

/-! ## Over the in-memory outbox -/

/-- Where a dispatcher over an `inMemoryOutbox` is. -/
inductive MemPc where
  | top
  | dequeuing
  | publishing (e : Event)
  | marking (e : Event)
  | returned
  deriving DecidableEq, Repr

/-- `n` dispatchers over one `inMemoryOutbox`. -/
structure MemSystem (n : Nat) where
  outbox : InMemoryOutbox
  pc : Fin n → MemPc
  cancelled : Fin n → Bool

inductive MemAct (n : Nat) where
  | enqueue (newID : String) (now : Time) (e : Event)
  | close
  | cancel (d : Fin n)
  | loopHead (d : Fin n)
  | dequeue (d : Fin n) (now : Time)
  | publish (d : Fin n) (accepts : Bool)
  | markPublished (d : Fin n)
  deriving DecidableEq, Repr

namespace MemSystem

variable {n : Nat}

def init : MemSystem n where
  outbox := .new
  pc := fun _ => .top
  cancelled := fun _ => false

@[simps pc]
def setPc (s : MemSystem n) (d : Fin n) (p : MemPc) : MemSystem n :=
  { s with pc := Function.update s.pc d p }

def step (s : MemSystem n) : MemAct n → Option (MemSystem n)
  | .enqueue newID now e => some { s with outbox := (s.outbox.enqueue newID now e).1 }
  | .close => some { s with outbox := s.outbox.close }
  | .cancel d => some { s with cancelled := Function.update s.cancelled d true }
  | .loopHead d =>
    match s.pc d with
    | .top => some (s.setPc d (if s.cancelled d then .returned else .dequeuing))
    | _ => none
  | .dequeue d now =>
    match s.pc d with
    | .dequeuing =>
      match s.outbox.dequeue with
      | none => none
      | some (o, reply) =>
        some { s.setPc d
            (match Dispatcher.onDequeue now reply with
              | some e => .publishing e
              | none => .returned) with outbox := o }
    | _ => none
  | .publish d accepts =>
    match s.pc d with
    | .publishing e => some (s.setPc d (if accepts then .marking e else .top))
    | _ => none
  | .markPublished d =>
    match s.pc d with
    | .marking _ => some (s.setPc d .top)
    | _ => none

end MemSystem

end GoRestApi.Events
