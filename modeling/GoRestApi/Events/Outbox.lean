/-
GoRestApi.Events.Outbox — the event outbox of `internal/events/outbox.go`:
the two `Outbox` implementations and what `Dispatcher.Run` does with a reply
of `Dequeue`.

`EventCodec` stands for `encoding/json` on `Event` values. `unmarshal p e`
decodes the document `p` INTO `e`, as `json.Unmarshal(payload, &e)` does: it
returns the event with the fields that were set before decoding stopped, and
the error. `Dequeue` depends on this twice. A document without the
`omitempty` field `key` leaves the value of the `key` column in place; and
the malformed-row branch deletes the row named by the ID that is in `e` after
the failed decoding, which the document may have overwritten.

`EventsOutbox` is the table. Its rows carry the primary key as a field of the
type, so every table of the model has distinct ids.
-/
import GoRestApi.Encoding.Object
import GoRestApi.Go.Time

namespace GoRestApi.Events

open Go

/-! ## Events -/

/-- `Event` of `event.go`. -/
structure Event where
  id : String
  type : String
  topic : String
  key : String
  payload : List UInt8
  occurredAt : Time
  publishedAt : Time
  deriving DecidableEq, Repr

/-- `Event{}`. -/
def Event.zero : Event where
  id := ""
  type := ""
  topic := ""
  key := ""
  payload := []
  occurredAt := Time.zero
  publishedAt := Time.zero

/-- The two defaults both `Enqueue` methods fill in, given what `newID()` and
`time.Now()` return. -/
def Event.withDefaults (newID : String) (now : Time) (e : Event) : Event :=
  { e with
    id := if e.id = "" then newID else e.id
    occurredAt := if e.occurredAt = Time.zero then now else e.occurredAt }

/-- Equal in ID, Type, Topic, Key, Payload and OccurredAt. -/
def Event.SameAs (e f : Event) : Prop :=
  e.id = f.id ∧ e.type = f.type ∧ e.topic = f.topic ∧ e.key = f.key ∧
    e.payload = f.payload ∧ e.occurredAt = f.occurredAt

/-- The errors of an outbox: `ErrOutboxClosed`, an error of the encoder, of
the database, and `decode outbox entry: …` for a row that does not decode. -/
inductive OutboxError where
  | closed
  | encode (msg : String)
  | sql (msg : String)
  | decodeEntry (msg : String)
  deriving DecidableEq, Repr

def OutboxError.message : OutboxError → String
  | .closed => "outbox is closed"
  | .encode msg => msg
  | .sql msg => msg
  | .decodeEntry msg => "decode outbox entry: " ++ msg

/-- The three results of `Dequeue`. -/
structure DequeueReply where
  event : Event
  ok : Bool
  err : Option OutboxError
  deriving DecidableEq, Repr

namespace DequeueReply

def found (e : Event) : DequeueReply := ⟨e, true, none⟩

def notOk : DequeueReply := ⟨Event.zero, false, none⟩

def failed (err : OutboxError) : DequeueReply := ⟨Event.zero, false, some err⟩

end DequeueReply

/-! ## The dispatcher loop -/

/-- `Dispatcher.Run` from the return of `Dequeue` to the call of `Publish`:
the event it goes on to publish, stamped with the current time, or `none`
when it returns. -/
def Dispatcher.onDequeue (now : Time) (r : DequeueReply) : Option Event :=
  match r.err with
  | some .closed => none
  | some _ => none -- logged, and the loop is left all the same
  | none => if r.ok then some { r.event with publishedAt := now } else none

/-! ## The in-memory outbox -/

/-- The fields of `inMemoryOutbox` its mutex guards. An `entry` is its event:
`enqueuedAt` is written and never read. -/
structure InMemoryOutbox where
  queue : List Event
  closed : Bool
  deriving DecidableEq, Repr

namespace InMemoryOutbox

def new : InMemoryOutbox := ⟨[], false⟩

def enqueue (o : InMemoryOutbox) (newID : String) (now : Time) (e : Event) :
    InMemoryOutbox × Option OutboxError :=
  if o.closed then (o, some .closed)
  else ({ o with queue := o.queue ++ [e.withDefaults newID now] }, none)

/-- `none` while `Dequeue` waits on the condition variable. -/
def dequeue (o : InMemoryOutbox) : Option (InMemoryOutbox × DequeueReply) :=
  match o.queue with
  | e :: rest => some ({ o with queue := rest }, .found e)
  | [] => if o.closed then some (o, .notOk) else none

def len (o : InMemoryOutbox) : Nat := o.queue.length

def close (o : InMemoryOutbox) : InMemoryOutbox := { o with closed := true }

end InMemoryOutbox

/-! ## The database-backed outbox -/

/-- `json.Marshal` and `json.Unmarshal` on events; `π` is the type of JSON
documents. -/
structure EventCodec (π : Type) where
  marshal : Event → Except String π
  unmarshal : π → Event → Event × Option String

/-- Decoding what was encoded gives the event back, whatever it is decoded
into, but for the key: `key` is `omitempty`, so an empty one is not written
and the value that was there stays. -/
structure EventCodec.RoundTrips {π : Type} (c : EventCodec π) : Prop where
  unmarshal_marshal : ∀ (e : Event) (p : π) (into : Event),
    c.marshal e = .ok p → into.key = e.key → c.unmarshal p into = (e, none)

namespace EventCodec

open Encoding

/-- The fields of `Event` by their tags. -/
def fields : List (RecordField Event) :=
  [.text "id" Event.id (fun x e => { e with id := x }) (fun _ _ => rfl),
    .text "type" Event.type (fun x e => { e with type := x }) (fun _ _ => rfl),
    .text "topic" Event.topic (fun x e => { e with topic := x }) (fun _ _ => rfl),
    .textOmitempty "key" Event.key (fun x e => { e with key := x }) (fun _ _ => rfl),
    .bytes "payload" Event.payload (fun x e => { e with payload := x }) (fun _ _ => rfl),
    .instant "occurredAt" Event.occurredAt (fun x e => { e with occurredAt := x }) (fun _ _ => rfl),
    .instant "publishedAt" Event.publishedAt (fun x e => { e with publishedAt := x })
      (fun _ _ => rfl)]

theorem lawful_fields : Lawful fields where
  names := by decide
  independent := by
    intro f hf v t t' hset
    simp only [fields, List.mem_cons, List.not_mem_nil, or_false] at hf
    rcases hf with rfl | rfl | rfl | rfl | rfl | rfl | rfl <;>
    · obtain ⟨x, _, rfl⟩ := Option.map_eq_some_iff.mp hset
      simp [fields]
  ext := by
    intro s t h
    cases s
    cases t
    simpa [fields] using h

/-- The encoder of `encoding/json`, on documents whose scalars are values. Years
beyond four digits have no encoding. -/
def json : EventCodec Document where
  marshal e :=
    if Time.HasYear e.occurredAt ∧ Time.HasYear e.publishedAt then
      .ok (.object (Encoding.marshal fields e))
    else .error Time.marshalError
  unmarshal := Document.decode fields

theorem roundTrips_json : json.RoundTrips where
  unmarshal_marshal := by
    intro e p into hp hkey
    simp only [json] at hp
    split at hp <;> cases hp
    refine lawful_fields.unmarshal_marshal (fun f hf homit => ?_)
    simp only [fields, List.mem_cons, List.not_mem_nil, or_false] at hf
    rcases hf with rfl | rfl | rfl | rfl | rfl | rfl | rfl
    case inr.inr.inr.inl => exact congrArg Value.text hkey
    all_goals cases homit

end EventCodec

/-- A row of `events_outbox`. -/
structure Row (π : Type) where
  id : String
  type : String
  topic : String
  key : String
  payload : π
  occurredAt : Time
  publishedAt : Option Time
  deriving DecidableEq, Repr

/-- What a `TIMESTAMPTZ` column keeps of an instant: whole microseconds. -/
def timestamptz (t : Time) : Time := t / 1000 * 1000

namespace Row

variable {π : Type}

/-- The row `Enqueue` inserts for an event with payload document `p`. -/
def ofEvent (e : Event) (p : π) : Row π where
  id := e.id
  type := e.type
  topic := e.topic
  key := e.key
  payload := p
  occurredAt := timestamptz e.occurredAt
  publishedAt := none

/-- The event `row.Scan` has filled before the payload is decoded into it. -/
def scan (r : Row π) : Event :=
  { Event.zero with
    id := r.id, type := r.type, topic := r.topic, key := r.key, occurredAt := r.occurredAt }

end Row

/-- The table `events_outbox`; `id` is its primary key. -/
structure EventsOutbox (π : Type) where
  rows : List (Row π)
  primaryKey : (rows.map Row.id).Nodup

namespace EventsOutbox

variable {π : Type}

def empty : EventsOutbox π := ⟨[], List.nodup_nil⟩

/-- `INSERT`: refused when the id is taken. -/
def insert (t : EventsOutbox π) (r : Row π) : Except OutboxError (EventsOutbox π) :=
  if h : r.id ∈ t.rows.map Row.id then
    .error (.sql "duplicate key value violates unique constraint")
  else
    .ok ⟨t.rows ++ [r], by
      rw [List.map_append, List.nodup_append]
      refine ⟨t.primaryKey, List.nodup_singleton _, ?_⟩
      rintro x hx y hy rfl
      exact h (List.mem_singleton.mp hy ▸ hx)⟩

/-- `DELETE FROM events_outbox WHERE id = $1`. -/
def deleteWhereID (t : EventsOutbox π) (id : String) : EventsOutbox π :=
  ⟨t.rows.filter (fun r => r.id ≠ id), t.primaryKey.sublist ((List.filter_sublist).map _)⟩

/-- The rows the `SELECT` of `Dequeue` may return: unpublished, and not locked
by another open transaction (`SKIP LOCKED`). -/
def Selectable (locked : String → Bool) (r : Row π) : Prop :=
  r.publishedAt = none ∧ locked r.id = false

instance (locked : String → Bool) (r : Row π) : Decidable (Selectable locked r) :=
  inferInstanceAs (Decidable (_ ∧ _))

/-- The answers the `SELECT` may give: a selectable row with the smallest
`occurred_at` (any of them, on a tie), and no row only if none is selectable. -/
def Selects (t : EventsOutbox π) (locked : String → Bool) : Option (Row π) → Prop
  | none => ∀ r ∈ t.rows, ¬ Selectable locked r
  | some r => r ∈ t.rows ∧ Selectable locked r ∧
      ∀ r' ∈ t.rows, Selectable locked r' → r.occurredAt ≤ r'.occurredAt

instance [DecidableEq π] (t : EventsOutbox π) (locked : String → Bool) :
    (pick : Option (Row π)) → Decidable (t.Selects locked pick)
  | none => inferInstanceAs (Decidable (∀ r ∈ t.rows, ¬ Selectable locked r))
  | some r => inferInstanceAs (Decidable (r ∈ t.rows ∧ Selectable locked r ∧
      ∀ r' ∈ t.rows, Selectable locked r' → r.occurredAt ≤ r'.occurredAt))

end EventsOutbox

namespace DBOutbox

variable {π : Type}

/-- `DBOutbox.Enqueue`. The `INSERT` may also fail in the database, with any
error: then `sql` is that error. -/
def enqueue (c : EventCodec π) (t : EventsOutbox π) (newID : String) (now : Time) (e : Event)
    (sql : Option OutboxError) : Except OutboxError (EventsOutbox π) :=
  let e := e.withDefaults newID now
  match c.marshal e with
  | .error msg => .error (.encode msg)
  | .ok p =>
    match sql with
    | some err => .error err
    | none => t.insert (Row.ofEvent e p)

/-- `DBOutbox.Dequeue` once its `SELECT` has locked the row `r`: the rest of
the transaction and what the method returns. A row that does not decode is
deleted on the same transaction, the errors of which are ignored. -/
def dequeueRow (c : EventCodec π) (t : EventsOutbox π) (r : Row π) (sql : Option OutboxError) :
    EventsOutbox π × DequeueReply :=
  match c.unmarshal r.payload r.scan with
  | (e, some msg) =>
    (if sql.isNone then t.deleteWhereID e.id else t, .failed (.decodeEntry msg))
  | (e, none) =>
    match sql with
    | some err => (t, .failed err)
    | none => (t, .found e)

/-- `DBOutbox.MarkPublished`. -/
def markPublished (t : EventsOutbox π) (e : Event) (sql : Option OutboxError) :
    EventsOutbox π × Option OutboxError :=
  match sql with
  | some err => (t, some err)
  | none => (t.deleteWhereID e.id, none)

/-- The row decodes: `Dequeue` returns it as an event. -/
def Decodes (c : EventCodec π) (r : Row π) : Prop := (c.unmarshal r.payload r.scan).2 = none

instance (c : EventCodec π) (r : Row π) : Decidable (Decodes c r) :=
  inferInstanceAs (Decidable (_ = none))

end DBOutbox

end GoRestApi.Events
