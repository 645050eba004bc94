/-
GoRestApi.Idempotency.Memory — the in-memory idempotency store of
`internal/idempotency/memory.go`, and concurrent calls of its `Run`.

`Run` takes the lock twice, in `Lookup` and in `Save`, and calls `do` in
between without it. The system below performs those three as separate steps,
and the last clock reading of `Run` as a fourth. The calls are the elements
of a type `ι`, each with its own key and request body; a step names its call
and, where the code reads the clock, the time that was read.

`HashRequest` is a parameter: nothing here depends on how requests are
hashed. `gc` is left out, which no caller in the program reaches.
-/
import GoRestApi.Go.Time
import GoRestApi.Lts.Run
import Mathlib.Tactic.Simps.Basic

namespace GoRestApi.Idempotency

open Go

/-! ## The store -/

/-- What `do` returns, but for the error. -/
structure Response where
  status : Int
  body : List UInt8
  contentType : String
  deriving DecidableEq, Repr

/-- `Entry`; its first three fields are the response. -/
structure Entry where
  response : Response
  requestHash : String
  storedAt : Time
  deriving DecidableEq, Repr

/-- `Entry{}`. -/
def Entry.zero : Entry := ⟨⟨0, [], ""⟩, "", Time.zero⟩

/-- `entryWithTTL`. -/
structure EntryWithTTL where
  entry : Entry
  validUntil : Time
  deriving DecidableEq, Repr

inductive LookupError where
  | conflict
  | notFound
  deriving DecidableEq, Repr

def LookupError.message : LookupError → String
  | .conflict => "idempotency key already used with a different request"
  | .notFound => "idempotency key not found"

structure MemoryStore where
  entries : String → Option EntryWithTTL
  ttl : Duration

namespace MemoryStore

def new (ttl : Duration) : MemoryStore := ⟨fun _ => none, ttl⟩

/-- `Lookup`. An entry that has expired is deleted. -/
def lookup (s : MemoryStore) (now : Time) (key requestHash : String) :
    MemoryStore × Except LookupError Entry :=
  if key = "" then (s, .error .notFound)
  else
    match s.entries key with
    | none => (s, .error .notFound)
    | some e =>
      if ¬ now < e.validUntil then
        ({ s with entries := Function.update s.entries key none }, .error .notFound)
      else if e.entry.requestHash ≠ requestHash then (s, .error .conflict)
      else (s, .ok e.entry)

/-- `Save`, which reads the clock twice. -/
def save (s : MemoryStore) (now now' : Time) (key requestHash : String) (r : Response) :
    MemoryStore :=
  if key = "" then s
  else
    { s with
      entries := Function.update s.entries key (some ⟨⟨r, requestHash, now⟩, now' + s.ttl⟩) }

end MemoryStore

/-! ## Concurrent calls of `Run` -/

/-- The errors of `Run`: `ErrConflict`, or the error of `do`. -/
inductive RunError where
  | conflict
  | doFailed (msg : String)
  deriving DecidableEq, Repr

/-- Where a call of `Run` is: before its `Lookup`, before `do`, before its
`Save`, before its last clock reading, or back with its three results. -/
inductive CallPc where
  | start
  | executing
  | saving (r : Response)
  | finishing (r : Response)
  | returned (e : Entry) (replayed : Bool) (err : Option RunError)
  deriving DecidableEq, Repr

/-- The arguments of the calls. -/
structure Calls (ι : Type) where
  key : ι → String
  request : ι → List UInt8

/-- The state of the calls: `executed` is the history of executions of `do`,
which no step reads. -/
structure RunSystem (ι : Type) where
  store : MemoryStore
  pc : ι → CallPc
  executed : List ι

inductive RunAct (ι : Type) where
  | lookup (i : ι) (now : Time)
  | execute (i : ι) (result : Except String Response)
  | save (i : ι) (now now' : Time)
  | finish (i : ι) (now : Time)

namespace RunSystem

variable {ι : Type} [DecidableEq ι]

def init (store : MemoryStore) : RunSystem ι := ⟨store, fun _ => .start, []⟩

@[simps pc]
def setPc (s : RunSystem ι) (i : ι) (p : CallPc) : RunSystem ι :=
  { s with pc := Function.update s.pc i p }

def step (hashRequest : List UInt8 → String) (c : Calls ι) (s : RunSystem ι) :
    RunAct ι → Option (RunSystem ι)
  | .lookup i now =>
    match s.pc i with
    | .start =>
      if c.key i = "" then some (s.setPc i .executing)
      else
        match s.store.lookup now (c.key i) (hashRequest (c.request i)) with
        | (st, .ok e) => some { s.setPc i (.returned e true none) with store := st }
        | (st, .error .notFound) => some { s.setPc i .executing with store := st }
        | (st, .error .conflict) =>
          some { s.setPc i (.returned Entry.zero false (some .conflict)) with store := st }
    | _ => none
  | .execute i result =>
    match s.pc i with
    | .executing =>
      match result with
      | .error msg =>
        some { s.setPc i (.returned Entry.zero false (some (.doFailed msg))) with
          executed := s.executed ++ [i] }
      | .ok r => some { s.setPc i (.saving r) with executed := s.executed ++ [i] }
    | _ => none
  | .save i now now' =>
    match s.pc i with
    | .saving r =>
      some { s.setPc i (.finishing r) with
        store := s.store.save now now' (c.key i) (hashRequest (c.request i)) r }
    | _ => none
  | .finish i now =>
    match s.pc i with
    | .finishing r =>
      some (s.setPc i (.returned ⟨r, hashRequest (c.request i), now⟩ false none))
    | _ => none

end RunSystem

/-- A stand-in for the hash in concrete runs, which keeps every byte. -/
def sampleHash (body : List UInt8) : String :=
  String.ofList (body.map fun b => Char.ofNat b.toNat)

end GoRestApi.Idempotency
