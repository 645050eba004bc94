/-
GoRestApi.Server.Idempotency — `WithIdempotency` of
`internal/server/idempotency_middleware.go`, in front of `POST /users` and
`POST /auth/register`.

The two routes share one store. An `Endpoint` is a route together with the
subject that `RequireAuth` has put into the context of the request; the
middleware reads neither of them.

A request is a call of `Run` with the steps of the middleware around it:
`enter` reads the key and the body, `execute` is the handler behind the
middleware, which writes to a recorder, and `reply` writes the response. A
request without a key, or without a store, is passed on to the handler.

Left out: the time limit of the context, which neither store nor handlers
look at, and the headers that other middleware has set before.
-/
import GoRestApi.Handler.Auth
import GoRestApi.Idempotency.Memory
import Mathlib.Tactic.Simps.Basic

namespace GoRestApi.Server

open Go Handler Idempotency

/-! ## Headers -/

abbrev Header := List (String × String)

def Header.get (h : Header) (name : String) : String := (h.lookup name).getD ""

def Header.set (h : Header) (name value : String) : Header :=
  h.filter (fun x => x.1 ≠ name) ++ [(name, value)]

/-! ## The middleware -/

/-- A route behind the middleware, with the subject it is called for. -/
inductive Endpoint where
  | users (subject : Int64)
  | register
  deriving DecidableEq, Repr

namespace WithIdempotency

structure Req where
  endpoint : Endpoint
  /-- the header `Idempotency-Key` -/
  key : String
  body : List UInt8
  deriving DecidableEq, Repr

/-- `captureRecorder`. -/
structure Recorder where
  header : Header
  status : Int
  body : List UInt8
  deriving DecidableEq, Repr

def Recorder.new : Recorder := ⟨[], 0, []⟩

/-- What the function passed to `Run` returns; its error is always nil. -/
def Recorder.response (rec : Recorder) : Response where
  status := if rec.status = 0 then 200 else rec.status
  body := rec.body
  contentType := rec.header.get "Content-Type"

/-- What is written to the client: an error of the middleware, or a response. -/
inductive Sent where
  | error (r : Reply)
  | response (status : Int) (header : Header) (body : List UInt8)
  deriving DecidableEq, Repr

/-- The response, once `Run` has returned an entry. -/
def respond (rec : Recorder) (e : Entry) (replayed : Bool) : Sent :=
  let header := rec.header
  let header :=
    if e.response.contentType ≠ "" ∧ header.get "Content-Type" = "" then
      header.set "Content-Type" e.response.contentType
    else header
  let header := if replayed then header.set "Idempotent-Replay" "true" else header
  .response e.response.status header e.response.body

/-- What has become of a request: the handler was executed for it, a stored
response was replayed, its key was refused, or its body could not be read. -/
inductive Disposition where
  | executed
  | replayed
  | conflict
  | unreadable
  deriving DecidableEq, Repr

/-- Where a request is: before the middleware, before a handler it is passed
on to, in `Run`, or answered. -/
inductive Pc where
  | arrived
  | passing
  | running (rec : Recorder)
  | answered (how : Disposition) (sent : Sent)
  deriving DecidableEq, Repr

/-- The middleware from the return of `Run`. -/
def afterRun (rec : Recorder) (e : Entry) (replayed : Bool) : Option RunError → Pc
  | some .conflict =>
    .answered .conflict (.error (.conflict "idempotency key reused with a different request body"))
  | some (.doFailed _) => .passing
  | none => .answered (if replayed then .replayed else .executed) (respond rec e replayed)

/-! ## Concurrent requests -/

structure State (ι : Type) where
  runs : RunSystem ι
  pc : ι → Pc

inductive Act (ι : Type) where
  | enter (i : ι) (readable : Bool)
  | lookup (i : ι) (now : Time)
  | execute (i : ι) (rec : Recorder)
  | save (i : ι) (now now' : Time)
  | finish (i : ι) (now : Time)
  | reply (i : ι)
  | pass (i : ι) (rec : Recorder)

/-- The request that makes the step. -/
def Act.actor {ι : Type} : Act ι → ι
  | .enter i _ | .lookup i _ | .execute i _ | .save i _ _ | .finish i _ | .reply i | .pass i _ => i

/-- The arguments of the calls of `Run`. -/
def calls {ι : Type} (reqs : ι → Req) : Calls ι where
  key i := (reqs i).key
  request i := (reqs i).body

namespace State

variable {ι : Type} [DecidableEq ι]

def init (ttl : Duration) : State ι := ⟨.init (.new ttl), fun _ => .arrived⟩

@[simps pc]
def setPc (s : State ι) (i : ι) (p : Pc) : State ι := { s with pc := Function.update s.pc i p }

/-- A step of `Run` for the request, which leaves the recorder as `rec'` says. -/
def runStep (hash : List UInt8 → String) (reqs : ι → Req) (s : State ι) (a : RunAct ι) (i : ι)
    (rec' : Recorder → Recorder) : Option (State ι) :=
  match s.pc i with
  | .running rec =>
    (s.runs.step hash (calls reqs) a).map fun runs =>
      { s.setPc i (.running (rec' rec)) with runs := runs }
  | _ => none

/-- `hasStore` is `store != nil`. -/
def step (hasStore : Bool) (hash : List UInt8 → String) (reqs : ι → Req) (s : State ι) :
    Act ι → Option (State ι)
  | .enter i readable =>
    match s.pc i with
    | .arrived =>
      if (reqs i).key = "" ∨ ¬ hasStore then some (s.setPc i .passing)
      else if ¬ readable then
        some (s.setPc i
          (.answered .unreadable (.error (.badRequest "could not read request body"))))
      else some (s.setPc i (.running .new))
    | _ => none
  | .lookup i now => s.runStep hash reqs (.lookup i now) i id
  | .execute i rec => s.runStep hash reqs (.execute i (.ok rec.response)) i fun _ => rec
  | .save i now now' => s.runStep hash reqs (.save i now now') i id
  | .finish i now => s.runStep hash reqs (.finish i now) i id
  | .reply i =>
    match s.pc i, s.runs.pc i with
    | .running rec, .returned e replayed err => some (s.setPc i (afterRun rec e replayed err))
    | _, _ => none
  | .pass i rec =>
    match s.pc i with
    | .passing =>
      some (s.setPc i
        (.answered .executed (.response rec.response.status rec.header rec.response.body)))
    | _ => none

end State

/-! ## Three requests for concrete runs -/

/-- A response of `CreateUser`; its body stands for the text. -/
def sampleCreated : Recorder := ⟨[("Content-Type", "application/json")], 201, [7]⟩

/-- A request of subject 1 with a key, one with the same key and body to
`second`, and one with another body to `third`. -/
def sampleReqs (second : Endpoint) (key : String) (third : Endpoint) (thirdKey : String) :
    Fin 3 → Req
  | 0 => ⟨.users 1, key, [1]⟩
  | 1 => ⟨second, key, [1]⟩
  | 2 => ⟨third, thirdKey, [2]⟩

/-- They come one after the other; the third has looked for its key. -/
def sampleRun : List (Act (Fin 3)) :=
  [.enter 0 true, .lookup 0 0, .execute 0 sampleCreated, .save 0 0 0, .finish 0 0, .reply 0,
    .enter 1 true, .lookup 1 1, .reply 1, .enter 2 true, .lookup 2 2]

end WithIdempotency

end GoRestApi.Server
