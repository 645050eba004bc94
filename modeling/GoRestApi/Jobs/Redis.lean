/-
GoRestApi.Jobs.Redis — the Redis-backed queue of `internal/jobs/redis.go` and
the worker pool over it.

`Stream` is the stream key with its consumer group: the entries the group has
been given, those it has not, and the IDs on the group's pending list. A
Redis command is one step of the system, so `Dequeue` and `Nack`, which issue
two commands each, are two steps: a worker that has been handed an entry is
at `delivered`, and one whose `Nack` has issued its `XACK` and is about to
issue its `XADD` is at `readding`.

`JobCodec` stands for `encoding/json` on `Job` values. What a message carries
under the three names the queue writes is `Values`; `payload` is `none` when
the field is missing or empty, which `jobFromMessage` treats alike.

The history lists are those of the in-memory system, but for the logs of
attempts, and `origins`: which entry was written for which accepted job, by
the job's position in `accepted`. A retry writes a new entry, under a new ID,
for the same job; no step reads `origins`.
-/
import GoRestApi.Encoding.Object
import GoRestApi.Jobs.Registry
import Mathlib.Tactic.Simps.Basic

namespace GoRestApi.Jobs

open Go

/-! ## Messages -/

/-- `json.Marshal` and `json.Unmarshal` on jobs; `π` is the type of JSON
documents. -/
structure JobCodec (π : Type) where
  marshal : Job → Except String π
  unmarshal : π → Except String Job

/-- Decoding what was encoded gives the job back. -/
structure JobCodec.RoundTrips {π : Type} (c : JobCodec π) : Prop where
  unmarshal_marshal : ∀ (j : Job) (p : π), c.marshal j = .ok p → c.unmarshal p = .ok j

namespace JobCodec

open Encoding

/-- The fields of `Job`, which has no tags. -/
def fields : List (RecordField Job) :=
  [.text "ID" Job.id (fun x j => { j with id := x }) (fun _ _ => rfl),
    .text "Type" Job.type (fun x j => { j with type := x }) (fun _ _ => rfl),
    .bytes "Payload" Job.payload (fun x j => { j with payload := x }) (fun _ _ => rfl),
    .number "Attempts" Job.attempts (fun x j => { j with attempts := x }) (fun _ _ => rfl),
    .number "MaxRetries" Job.maxRetries (fun x j => { j with maxRetries := x }) (fun _ _ => rfl),
    .instant "EnqueuedAt" Job.enqueuedAt (fun x j => { j with enqueuedAt := x }) (fun _ _ => rfl),
    .instant "RunAfter" Job.runAfter (fun x j => { j with runAfter := x }) (fun _ _ => rfl),
    .text "LastError" Job.lastError (fun x j => { j with lastError := x }) (fun _ _ => rfl)]

theorem lawful_fields : Lawful fields where
  names := by decide
  independent := by
    intro f hf v t t' hset
    simp only [fields, List.mem_cons, List.not_mem_nil, or_false] at hf
    rcases hf with rfl | rfl | rfl | rfl | rfl | rfl | rfl | rfl <;>
    · obtain ⟨x, _, rfl⟩ := Option.map_eq_some_iff.mp hset
      simp [fields]
  ext := by
    intro s t h
    cases s
    cases t
    simpa [fields] using h

/-- The encoder of `encoding/json`, on documents whose scalars are values. Years
beyond four digits have no encoding. -/
def json : JobCodec Document where
  marshal j :=
    if Time.HasYear j.enqueuedAt ∧ Time.HasYear j.runAfter then
      .ok (.object (Encoding.marshal fields j))
    else .error Time.marshalError
  unmarshal := Document.read fields Job.zero

theorem roundTrips_json : json.RoundTrips where
  unmarshal_marshal := by
    intro j p hp
    simp only [json] at hp
    split at hp <;> cases hp
    refine lawful_fields.read_marshal (fun f hf homit => ?_)
    simp only [fields, List.mem_cons, List.not_mem_nil, or_false] at hf
    rcases hf with rfl | rfl | rfl | rfl | rfl | rfl | rfl | rfl <;> cases homit

end JobCodec

/-- The fields of a message that `jobFromMessage` reads. -/
structure Values (π : Type) where
  id : Option String
  type : Option String
  payload : Option π
  deriving DecidableEq, Repr

/-- `jobFromMessage`. -/
def jobFromMessage {π : Type} (c : JobCodec π) (v : Values π) : Except String Job :=
  match v.payload with
  | none => .error "redis queue: missing payload"
  | some raw =>
    match c.unmarshal raw with
    | .error msg => .error ("redis queue: unmarshal payload: " ++ msg)
    | .ok job => .ok { job with id := v.id.getD job.id, type := v.type.getD job.type }

/-! ## The stream -/

structure Entry (π : Type) where
  id : String
  values : Values π
  deriving DecidableEq, Repr

structure Stream (π : Type) where
  /-- the entries the group has been given -/
  delivered : List (Entry π)
  /-- the entries after the last one it has been given -/
  undelivered : List (Entry π)
  /-- the IDs of the group's pending list -/
  pending : List String
  deriving DecidableEq, Repr

namespace Stream

variable {π : Type}

/-- What `XGROUP CREATE … $ MKSTREAM` makes of a key that did not exist. -/
def empty : Stream π := ⟨[], [], []⟩

def ids (st : Stream π) : List String := (st.delivered ++ st.undelivered).map Entry.id

/-- `XADD`, under an ID that Redis generates. -/
def xadd (st : Stream π) (id : String) (v : Values π) : Stream π :=
  { st with undelivered := st.undelivered ++ [⟨id, v⟩] }

/-- `XREADGROUP … COUNT 1 STREAMS … >`, when there is an undelivered entry. -/
def xreadgroup (st : Stream π) : Option (Entry π × Stream π) :=
  match st.undelivered with
  | [] => none
  | e :: rest => some (e, ⟨st.delivered ++ [e], rest, st.pending ++ [e.id]⟩)

/-- `XACK`. -/
def xack (st : Stream π) (id : String) : Stream π :=
  { st with pending := st.pending.filter (· ≠ id) }

/-- `XLEN`. -/
def xlen (st : Stream π) : Nat := st.delivered.length + st.undelivered.length

end Stream

/-- How a command can fail. -/
inductive RedisError where
  | canceled
  | deadlineExceeded
  | server (msg : String)
  deriving DecidableEq, Repr

def RedisError.message : RedisError → String
  | .canceled => "context canceled"
  | .deadlineExceeded => "context deadline exceeded"
  | .server msg => msg

/-- `isEmptyStreamErr`, on an error that is not `redis.Nil`. -/
def isEmptyStreamErr (err : RedisError) : Bool :=
  Strings.contains err.message "redis: nil" || Strings.contains err.message "BUSYGROUP" ||
    Strings.contains err.message "NOGROUP"

/-- The answers of a blocking `XREADGROUP`: the next entry, `redis.Nil` when
none arrived, or an error. -/
inductive ReadReply where
  | entry
  | nil
  | failed (err : RedisError)
  deriving DecidableEq, Repr

namespace RedisQueue

variable {π : Type}

/-- `Enqueue` up to its `XADD`: the fields it writes. -/
def message (c : JobCodec π) (now : Time) (job : Job) : Except QueueError (Values π) :=
  if job.id = "" then .error (.other "redis queue: job.ID is required")
  else
    let job := if job.enqueuedAt = Time.zero then { job with enqueuedAt := now } else job
    let job := if job.runAfter = Time.zero then { job with runAfter := job.enqueuedAt } else job
    match c.marshal job with
    | .error msg => .error (.other msg)
    | .ok p => .ok ⟨some job.id, some job.type, some p⟩

/-- `Dequeue` on an `XREADGROUP` that brought no entry. -/
def dequeueFailed (err : RedisError) : DequeueReply :=
  if isEmptyStreamErr err then .notOk
  else
    match err with
    | .canceled | .deadlineExceeded => .notOk
    | .server msg => .failed (.other msg)

/-- `Dequeue` on the entry `XREADGROUP` brought. -/
def dequeueEntry (c : JobCodec π) (e : Entry π) : DequeueReply :=
  match jobFromMessage c e.values with
  | .error msg => .failed (.other msg)
  | .ok job => .found { job with id := e.id }

/-- `Nack` between its `XACK` and the call of `Enqueue`: the job it is to
enqueue. It counts the attempt a second time, and forgets the job when that
goes over the limit. -/
def nackJob (now : Time) (job : Job) (err : String) : Option Job :=
  let job := { job with attempts := job.attempts + 1, lastError := err }
  if job.attempts > job.maxRetries then none
  else some { job with runAfter := now + backoff job.attempts }

end RedisQueue

/-! ## The system -/

/-- Where a worker is inside a method of the queue, between two commands. -/
inductive RedisPc (π : Type) where
  | delivered (e : Entry π)
  | readding (job : Job) (v : Values π)
  deriving DecidableEq, Repr

abbrev RedisWorker (π : Type) := WorkerPc (RedisPc π) Job

/-- `n` workers over one `redisQueue` and a dead-letter list. -/
structure RedisJobs (n : Nat) (π : Type) where
  stream : Stream π
  dead : List DeadLetterEntry
  /-- the job types with a registered handler -/
  handlers : List String
  pc : Fin n → RedisWorker π
  /-- the context of the workers has been cancelled -/
  cancelled : Bool
  accepted : List Job
  completed : List Job
  origins : List (String × Nat)

/-- The steps of the system. `redis` is `none` when the command of the step
succeeds and its error when it fails, without effect; `entryID` is the ID
that an `XADD` generates. `produce` is an `XADD` by some other client, with
any fields. -/
inductive RedisAct (n : Nat) (π : Type) where
  | enqueue (job : Job) (now : Time) (redis : Option RedisError) (entryID : String)
  | produce (v : Values π) (entryID : String)
  | register (jobType : String)
  | cancel
  | close
  | loopHead (w : Fin n)
  | read (w : Fin n) (reply : ReadReply)
  | decode (w : Fin n) (redis : Option RedisError)
  | findHandler (w : Fin n)
  | handled (w : Fin n) (err : Option String)
  | ack (w : Fin n) (redis : Option RedisError)
  | settle (w : Fin n) (now now' : Time) (redis : Option RedisError)
  | readd (w : Fin n) (redis : Option RedisError) (entryID : String)
  deriving DecidableEq, Repr

namespace RedisJobs

variable {n : Nat} {π : Type}

/-- The pool as it is started, over whatever the stream holds. -/
def init (st : Stream π) : RedisJobs n π where
  stream := st
  dead := []
  handlers := []
  pc := fun _ => .top
  cancelled := false
  accepted := []
  completed := []
  origins := []

@[simps pc]
def setPc (s : RedisJobs n π) (w : Fin n) (p : RedisWorker π) : RedisJobs n π :=
  { s with pc := Function.update s.pc w p }

/-- `workerLoop` from the return of `Dequeue`. -/
def afterDequeue (r : DequeueReply) : RedisWorker π :=
  match Registry.onDequeue r with
  | some job => .got job
  | none => .returned

/-- The stream after an `XACK` that may fail. -/
def xackUnless (st : Stream π) (redis : Option RedisError) (id : String) : Stream π :=
  if redis.isNone then st.xack id else st

def step (c : JobCodec π) (s : RedisJobs n π) : RedisAct n π → Option (RedisJobs n π)
  | .enqueue job now redis entryID =>
    match RedisQueue.message c now job with
    | .error _ => some s
    | .ok v =>
      match redis with
      | some _ => some s
      | none =>
        if entryID ∈ s.stream.ids then none
        else
          some { s with
            stream := s.stream.xadd entryID v
            accepted := s.accepted ++ [job]
            origins := s.origins ++ [(entryID, s.accepted.length)] }
  | .produce v entryID =>
    if entryID ∈ s.stream.ids then none
    else some { s with stream := s.stream.xadd entryID v }
  | .register jobType => some { s with handlers := jobType :: s.handlers }
  | .cancel => some { s with cancelled := true }
  | .close => some s -- `redisQueue.Close` does nothing
  | .loopHead w =>
    match s.pc w with
    | .top => some (s.setPc w (if s.cancelled then .returned else .dequeuing))
    | _ => none
  | .read w reply =>
    match s.pc w with
    | .dequeuing =>
      match reply with
      | .entry =>
        match s.stream.xreadgroup with
        | some (e, st) => some { s.setPc w (.inQueue (.delivered e)) with stream := st }
        | none => none
      | .nil =>
        match s.stream.xreadgroup with
        | some _ => none
        | none => some (s.setPc w (afterDequeue .notOk))
      | .failed err => some (s.setPc w (afterDequeue (RedisQueue.dequeueFailed err)))
    | _ => none
  | .decode w redis =>
    match s.pc w with
    | .inQueue (.delivered e) =>
      let s' := s.setPc w (afterDequeue (RedisQueue.dequeueEntry c e))
      match jobFromMessage c e.values with
      | .error _ => some { s' with stream := xackUnless s.stream redis e.id }
      | .ok _ => some s'
    | _ => none
  | .findHandler w =>
    match s.pc w with
    | .got job =>
      some (s.setPc w
        (if job.type ∈ s.handlers then .handling job.attempt
          else .failing job.attempt (errNoHandler job.type)))
    | _ => none
  | .handled w err =>
    match s.pc w with
    | .handling job =>
      match err with
      | none => some { s.setPc w (.succeeded job) with completed := s.completed ++ [job] }
      | some err => some (s.setPc w (.failing job err))
    | _ => none
  | .ack w redis =>
    match s.pc w with
    | .succeeded job =>
      some { s.setPc w .top with stream := xackUnless s.stream redis job.id }
    | _ => none
  | .settle w now now' redis =>
    match s.pc w with
    | .failing job err =>
      if job.GivenUp then
        some { s.setPc w .top with dead := s.dead ++ [.of job err] }
      else
        let st := xackUnless s.stream redis job.id
        match RedisQueue.nackJob now job err with
        | none => some { s.setPc w .top with stream := st }
        | some job' =>
          match RedisQueue.message c now' job' with
          | .error _ => some { s.setPc w .top with stream := st }
          | .ok v => some { s.setPc w (.inQueue (.readding job' v)) with stream := st }
    | _ => none
  | .readd w redis entryID =>
    match s.pc w with
    | .inQueue (.readding job v) =>
      match redis with
      | some _ => some (s.setPc w .top)
      | none =>
        if entryID ∈ s.stream.ids then none
        else
          some { s.setPc w .top with
            stream := s.stream.xadd entryID v
            origins := s.origins ++
              (s.origins.filter fun p => p.1 = job.id).map fun p => (entryID, p.2) }
    | _ => none

end RedisJobs

end GoRestApi.Jobs
