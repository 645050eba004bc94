/-
GoRestApi.Idempotency.Redis — the Redis idempotency store of
`internal/idempotency/redis.go`.

A key `idempotency:<name>` holds a hash whose one field, `entry`, is the JSON
of an `Entry`, and it may carry a TTL. `Redis` has what the server does for
the three commands of the store: `HSET` keeps the TTL of a key that exists,
`EXPIRE NX` sets one only where there is none, and a key is gone from its
expiry instant on. `Save` writes the entry and the TTL by two commands, and
does not report a failure of the second.

A command that fails has no effect; what it returns is an argument, `none`
when it succeeds. `RedisStore.run` is a call of `Run` from its `Lookup` to its
return; `SaveSystem` has concurrent calls of `Save`, which are interleaved at
their commands.

`EntryCodec` stands for `encoding/json` on `Entry` values. Left out: the time
limits of the contexts, which show as commands that fail.
-/
import GoRestApi.Encoding.Object
import GoRestApi.Idempotency.Sequential
import GoRestApi.Redis.Keyspace
import Mathlib.Tactic.Simps.Basic

namespace GoRestApi.Idempotency

open Go RedisServer

/-! ## The JSON of an entry -/

/-- `json.Marshal` of an `Entry` and `json.Unmarshal` into an empty one. -/
structure EntryCodec (π : Type) where
  marshal : Entry → Except String π
  unmarshal : π → Except String Entry

/-- The entry has an encoding, which decodes to it. -/
def EntryCodec.RoundTrips {π : Type} (c : EntryCodec π) (e : Entry) : Prop :=
  ∃ data, c.marshal e = .ok data ∧ c.unmarshal data = .ok e

namespace EntryCodec

open Encoding

/-- The fields of `Entry`, which has no tags. -/
def fields : List (RecordField Entry) :=
  [.number "Status" (fun e => e.response.status)
      (fun x e => { e with response := { e.response with status := x } }) (fun _ _ => rfl),
    .bytes "Body" (fun e => e.response.body)
      (fun x e => { e with response := { e.response with body := x } }) (fun _ _ => rfl),
    .text "ContentType" (fun e => e.response.contentType)
      (fun x e => { e with response := { e.response with contentType := x } }) (fun _ _ => rfl),
    .text "RequestHash" Entry.requestHash (fun x e => { e with requestHash := x })
      (fun _ _ => rfl),
    .instant "StoredAt" Entry.storedAt (fun x e => { e with storedAt := x }) (fun _ _ => rfl)]

theorem lawful_fields : Lawful fields where
  names := by decide
  independent := by
    intro f hf v t t' hset
    simp only [fields, List.mem_cons, List.not_mem_nil, or_false] at hf
    rcases hf with rfl | rfl | rfl | rfl | rfl <;>
    · obtain ⟨x, _, rfl⟩ := Option.map_eq_some_iff.mp hset
      simp [fields]
  ext := by
    rintro ⟨⟨⟩, _, _⟩ ⟨⟨⟩, _, _⟩ h
    simp only [fields, RecordField.number, RecordField.bytes, RecordField.text,
      RecordField.instant, RecordField.scalar, List.mem_cons, List.not_mem_nil, or_false,
      forall_eq_or_imp, forall_eq, Value.number.injEq, Value.bytes.injEq, Value.text.injEq,
      Value.instant.injEq] at h
    simp [h]

/-- The encoder of `encoding/json`. -/
def json : EntryCodec Document where
  marshal e :=
    if Time.HasYear e.storedAt then .ok (.object (Encoding.marshal fields e))
    else .error Time.marshalError
  unmarshal := Document.read fields Entry.zero

theorem roundTrips_json {e : Entry} (h : Time.HasYear e.storedAt) : json.RoundTrips e :=
  ⟨.object (Encoding.marshal fields e), if_pos h, lawful_fields.read_marshal (by simp [fields])⟩

end EntryCodec

/-! ## Redis -/

/-- The field `entry` of a hash, and the instant from which the key is gone, if
it has a TTL. -/
abbrev HashKey (π : Type) := Key (Option Time) π

abbrev Redis (π : Type) := Keys (Option Time) π

namespace Redis

variable {π : Type}

/-- The instant has come. -/
def expired (expireAt : Option Time) (now : Time) : Bool :=
  match expireAt with
  | none => false
  | some t => t ≤ now

/-- The key, if it exists at the instant. -/
def get (r : Redis π) (now : Time) (name : String) : Option (HashKey π) :=
  r.live (fun t => !expired t now) name

/-- `HGET name entry`; `none` is `redis.Nil`. -/
def hget (r : Redis π) (now : Time) (name : String) : Option π :=
  (r.get now name).map Key.value

/-- `HSET name entry data`. -/
def hset (r : Redis π) (now : Time) (name : String) (data : π) : Redis π :=
  r.put name ⟨data, (r.get now name).bind Key.expireAt⟩

/-- `EXPIRE name seconds NX`. -/
def expireNX (r : Redis π) (now : Time) (name : String) (seconds : Int) : Redis π :=
  match r.get now name with
  | some ⟨data, none⟩ => r.put name ⟨data, some (now + seconds * Time.second)⟩
  | _ => r

end Redis

/-- The client sends durations to `EXPIRE` in whole seconds, at least one. -/
def formatSec (d : Duration) : Int :=
  if 0 < d ∧ d < Time.second then 1 else d.tdiv Time.second

/-! ## The store -/

/-- The errors of `Lookup`; those of Redis are reported as `redis lookup: …`. -/
inductive RedisLookupError where
  | conflict
  | notFound
  | redis (msg : String)
  deriving DecidableEq, Repr

def RedisLookupError.message : RedisLookupError → String
  | .conflict => LookupError.conflict.message
  | .notFound => LookupError.notFound.message
  | .redis msg => "redis lookup: " ++ msg

structure RedisStore where
  ttl : Duration
  deriving DecidableEq, Repr

namespace RedisStore

variable {π : Type}

/-- `NewRedisStore`. -/
def new (ttl : Duration) : RedisStore := ⟨if ttl ≤ 0 then 24 * (60 * Time.minute) else ttl⟩

def keyFor (name : String) : String := "idempotency:" ++ name

/-- `Lookup`, given what the command `HGET` returns. -/
def lookup (c : EntryCodec π) (r : Redis π) (now : Time) (redis : Option String)
    (key requestHash : String) : Except RedisLookupError Entry :=
  if key = "" then .error .notFound
  else
    match redis with
    | some msg => .error (.redis msg)
    | none =>
      match r.hget now (keyFor key) with
      | none => .error .notFound
      | some v =>
        match c.unmarshal v with
        -- a corrupt entry is a miss
        | .error _ => .error .notFound
        | .ok e => if e.requestHash ≠ requestHash then .error .conflict else .ok e

end RedisStore

/-- What a call of `Save` reads from the clock and gets from Redis. The two
commands are carried out at `hsetAt` and `savedAt`. -/
structure SaveEnv where
  storedAt : Time
  hsetAt : Time
  savedAt : Time
  hset : Option String
  expire : Option String
  deriving DecidableEq, Repr

namespace RedisStore

variable {π : Type}

/-- `Save`, with its error. -/
def save (c : EntryCodec π) (s : RedisStore) (r : Redis π) (env : SaveEnv)
    (key requestHash : String) (resp : Response) : Redis π × Option String :=
  if key = "" then (r, none)
  else
    match c.marshal ⟨resp, requestHash, env.storedAt⟩ with
    | .error msg => (r, some msg)
    | .ok data =>
      match env.hset with
      | some msg => (r, some ("redis save: " ++ msg))
      | none =>
        let r := r.hset env.hsetAt (keyFor key) data
        match env.expire with
        | some _ => (r, none)
        | none => (r.expireNX env.savedAt (keyFor key) (formatSec s.ttl), none)

end RedisStore

/-! ## `Run` -/

/-- A call of `Run` on the Redis store. -/
structure RedisInvocation extends Invocation where
  hsetAt : Time
  /-- what the three commands return -/
  hgetErr : Option String
  hsetErr : Option String
  expireErr : Option String

def RedisInvocation.saveEnv (c : RedisInvocation) : SaveEnv where
  storedAt := c.storedAt
  hsetAt := c.hsetAt
  savedAt := c.savedAt
  hset := c.hsetErr
  expire := c.expireErr

/-- The errors of `Run`: those of the in-memory store, and `redis lookup: …`. -/
inductive RedisRunError where
  | run (err : RunError)
  | redisLookup (msg : String)
  deriving DecidableEq, Repr

/-- The three results of `Run`, and whether `do` was executed. -/
structure RedisOutcome where
  entry : Entry
  replayed : Bool
  err : Option RedisRunError
  executed : Bool
  deriving DecidableEq, Repr

namespace RedisStore

variable {π : Type}

/-- `Run`. An error of `Save` is dropped. -/
def run (hashRequest : List UInt8 → String) (c : EntryCodec π) (s : RedisStore) (r : Redis π)
    (i : RedisInvocation) : Redis π × RedisOutcome :=
  let requestHash := hashRequest i.request
  match if i.key ≠ "" then lookup c r i.lookupAt i.hgetErr i.key requestHash
    else .error .notFound with
  | .ok e => (r, ⟨e, true, none, false⟩)
  | .error .conflict => (r, ⟨Entry.zero, false, some (.run .conflict), false⟩)
  | .error (.redis msg) => (r, ⟨Entry.zero, false, some (.redisLookup msg), false⟩)
  | .error .notFound =>
    match i.result with
    | .error msg => (r, ⟨Entry.zero, false, some (.run (.doFailed msg)), true⟩)
    | .ok resp =>
      (if i.key ≠ "" then (s.save c r i.saveEnv i.key requestHash resp).1 else r,
        ⟨⟨resp, requestHash, i.returnedAt⟩, false, none, true⟩)

/-- What the calls of a history return, one after the other. -/
def outcomes (hashRequest : List UInt8 → String) (c : EntryCodec π) (s : RedisStore) :
    Redis π → List RedisInvocation → List RedisOutcome
  | _, [] => []
  | r, i :: is =>
    let (r', o) := s.run hashRequest c r i
    o :: s.outcomes hashRequest c r' is

end RedisStore

/-- What the calls of a history on the in-memory store return. -/
def MemoryStore.outcomes (hashRequest : List UInt8 → String) :
    MemoryStore → List Invocation → List Outcome
  | _, [] => []
  | s, c :: cs =>
    let (s', o) := s.run hashRequest c
    o :: MemoryStore.outcomes hashRequest s' cs

/-! ## Concurrent calls of `Save` -/

/-- The arguments of the calls of `Save`. -/
structure SaveCalls (ι : Type) where
  key : ι → String
  requestHash : ι → String
  response : ι → Response

/-- Where a call of `Save` is: before it has made its entry, before each of
its two commands, or back with its error. A caller that stops makes no further
step. -/
inductive SavePc (π : Type) where
  | start
  | hsetting (data : π)
  | expiring
  | returned (err : Option String)
  deriving DecidableEq, Repr

/-- The server with its clock, and the calls. -/
structure SaveSystem (ι π : Type) where
  redis : Redis π
  clock : Time
  pc : ι → SavePc π

inductive SaveAct (ι : Type) where
  | begin (i : ι) (storedAt : Time)
  | hset (i : ι) (redis : Option String)
  | expire (i : ι) (redis : Option String)
  /-- time passes -/
  | tick (now : Time)
  deriving DecidableEq, Repr

namespace SaveSystem

variable {ι π : Type} [DecidableEq ι]

def init (now : Time) : SaveSystem ι π := ⟨.empty, now, fun _ => .start⟩

@[simps pc]
def setPc (s : SaveSystem ι π) (i : ι) (p : SavePc π) : SaveSystem ι π :=
  { s with pc := Function.update s.pc i p }

/-- The Redis key of a call. -/
def keyOf (calls : SaveCalls ι) (i : ι) : String := RedisStore.keyFor (calls.key i)

def step (c : EntryCodec π) (st : RedisStore) (calls : SaveCalls ι) (s : SaveSystem ι π) :
    SaveAct ι → Option (SaveSystem ι π)
  | .begin i storedAt =>
    match s.pc i with
    | .start =>
      if calls.key i = "" then some (s.setPc i (.returned none))
      else
        match c.marshal ⟨calls.response i, calls.requestHash i, storedAt⟩ with
        | .error msg => some (s.setPc i (.returned (some msg)))
        | .ok data => some (s.setPc i (.hsetting data))
    | _ => none
  | .hset i redis =>
    match s.pc i with
    | .hsetting data =>
      match redis with
      | some msg => some (s.setPc i (.returned (some ("redis save: " ++ msg))))
      | none =>
        some { s.setPc i .expiring with redis := s.redis.hset s.clock (keyOf calls i) data }
    | _ => none
  | .expire i redis =>
    match s.pc i with
    | .expiring =>
      match redis with
      | some _ => some (s.setPc i (.returned none))
      | none =>
        some { s.setPc i (.returned none) with
          redis := s.redis.expireNX s.clock (keyOf calls i) (formatSec st.ttl) }
    | _ => none
  | .tick now => if s.clock ≤ now then some { s with clock := now } else none

end SaveSystem

end GoRestApi.Idempotency
