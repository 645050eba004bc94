/-
GoRestApi.Server.Chain — the middleware that `server.New` puts around its
routes, from `internal/server`.

A response writer is a type with the three methods of `http.ResponseWriter`,
and a handler works on any of them: it is given the request, the writer and
what has been observed so far, and leaves the last two; a panic comes out of
it as a value. The writer of the server is `NetResponse`, which has the rules
of `net/http` for the status line: the first final `WriteHeader` counts, a
first `Write` stands for 200, the codes 100 to 199 but 101 are sent ahead of
the response, and codes outside of 100 to 999 panic. `statusRecorder` and
`metricsRecorder` are writers around another writer, each with its own notion
of the status.

What a handler does to its writer is a finite sequence of calls, after which
it returns or panics (`Behaviour`). The path is that of the decoded URL, any
bytes. `RecordHTTP` hands it to the metrics library as the value of a label, and
`With` of that library panics on values that it does not take; on which is an
argument.

Left out: `Flush`, `Hijack` and the like, which the recorders hide, the check
of `net/http` against a declared `Content-Length`, which concerns bodies only,
and the stack trace in the record of a panic.
-/
import GoRestApi.Server.IdempotencyFallback
import Mathlib.Data.Nat.Digits.Defs

namespace GoRestApi.Server

open Go

/-! ## Response writers -/

/-- `http.ResponseWriter`. `WriteHeader` may panic, and `Write` may return an
error; `setHeader` stands for the writes to the map that `Header` returns. -/
class ResponseWriter (ω : Type) where
  header : ω → Header
  setHeader : ω → Header → ω
  writeHeader : ω → Int → ω × Option String
  write : ω → List UInt8 → ω × Option String

open ResponseWriter

/-- The response of `net/http`. -/
structure NetResponse where
  header : Header
  /-- what has been sent ahead of the response -/
  informational : List Int
  wroteHeader : Bool
  status : Int
  /-- the header as it was when the status line was written -/
  sentHeader : Header
  body : List UInt8
  deriving DecidableEq, Repr

namespace NetResponse

def new : NetResponse := ⟨[], [], false, 0, [], []⟩

def isInformational (code : Int) : Prop := 100 ≤ code ∧ code ≤ 199 ∧ code ≠ 101

instance (code : Int) : Decidable (isInformational code) := inferInstanceAs (Decidable (_ ∧ _))

def writeHeader (w : NetResponse) (code : Int) : NetResponse × Option String :=
  if w.wroteHeader then (w, none) -- superfluous
  else if code < 100 ∨ 999 < code then (w, some "invalid WriteHeader code")
  else if isInformational code then ({ w with informational := w.informational ++ [code] }, none)
  else ({ w with wroteHeader := true, status := code, sentHeader := w.header }, none)

def bodyAllowedForStatus (status : Int) : Prop :=
  ¬ (100 ≤ status ∧ status ≤ 199) ∧ status ≠ 204 ∧ status ≠ 304

instance (status : Int) : Decidable (bodyAllowedForStatus status) :=
  inferInstanceAs (Decidable (_ ∧ _))

def write (w : NetResponse) (data : List UInt8) : NetResponse × Option String :=
  let w := if w.wroteHeader then w else (w.writeHeader 200).1
  if data = [] then (w, none)
  else if ¬ bodyAllowedForStatus w.status then
    (w, some "http: request method or response status code does not allow body")
  else ({ w with body := w.body ++ data }, none)

/-- When the handler has returned, a status line that is still missing is
written. -/
def finish (w : NetResponse) : NetResponse :=
  if w.wroteHeader then w else (w.writeHeader 200).1

instance : ResponseWriter NetResponse where
  header := header
  setHeader w h := { w with header := h }
  writeHeader := writeHeader
  write := write

end NetResponse

/-- `statusRecorder`: the last call of `WriteHeader` counts. -/
structure StatusRecorder (ω : Type) where
  inner : ω
  statusCode : Int

def newStatusRecorder {ω : Type} (w : ω) : StatusRecorder ω := ⟨w, 200⟩

instance {ω : Type} [ResponseWriter ω] : ResponseWriter (StatusRecorder ω) where
  header r := header r.inner
  setHeader r h := { r with inner := setHeader r.inner h }
  writeHeader r code :=
    let (w, panicked) := writeHeader r.inner code
    (⟨w, code⟩, panicked)
  write r data :=
    let (w, err) := write r.inner data
    ({ r with inner := w }, err)

/-- `metricsRecorder`: the first call of `WriteHeader` counts, and is the only
one that is passed on. -/
structure MetricsRecorder (ω : Type) where
  inner : ω
  status : Int
  wroteHeader : Bool

instance {ω : Type} [ResponseWriter ω] : ResponseWriter (MetricsRecorder ω) where
  header r := header r.inner
  setHeader r h := { r with inner := setHeader r.inner h }
  writeHeader r code :=
    if ¬ r.wroteHeader then
      let (w, panicked) := writeHeader r.inner code
      (⟨w, code, true⟩, panicked)
    else (r, none)
  write r data :=
    let (w, err) := write r.inner data
    ({ r with inner := w }, err)

/-! ## Requests, handlers, and what is observed -/

/-- A request as the middleware sees it; an absent header is `""`. -/
structure Incoming where
  method : String
  path : List UInt8
  /-- the headers `Origin` and `X-Request-Id` -/
  origin : String
  requestIDHeader : String
  body : RequestBody
  /-- `RequestIDFromContext` -/
  requestID : String
  deriving DecidableEq, Repr

/-- The records of the logger. -/
inductive LogRecord where
  | httpRequest (method : String) (path : List UInt8) (status durationMS : Int)
      (requestID : String)
  | panicRecovered (value method : String) (path : List UInt8) (requestID : String)
  deriving DecidableEq, Repr

/-- The labels and the value of a call of `RecordHTTP`. -/
structure HTTPSample where
  method : String
  path : List UInt8
  status : Int
  duration : Duration
  deriving DecidableEq, Repr

structure Observed where
  logs : List LogRecord
  samples : List HTTPSample
  inFlight : Int
  deriving DecidableEq, Repr

def Observed.init : Observed := ⟨[], [], 0⟩

/-- `http.Handler`; the panic that leaves it, if any, is the last component. -/
def HTTPHandler : Type 1 :=
  ∀ (ω : Type) [ResponseWriter ω], Incoming → ω × Observed → (ω × Observed) × Option String

/-! ## Responses -/

/-- `http.Error`. -/
def httpError {ω : Type} [ResponseWriter ω] (w : ω) (text : List UInt8) (code : Int) :
    ω × Option String :=
  let h : Header := (header w).filter (fun x => x.1 ≠ "Content-Length")
  let h := (h.set "Content-Type" "text/plain; charset=utf-8").set "X-Content-Type-Options" "nosniff"
  match writeHeader (setHeader w h) code with
  | (w, some panicked) => (w, some panicked)
  | (w, none) => ((write w text).1, none)

/-- The second half of `response.JSON`, where `data` is what the encoder
writes. -/
def encodeJSON {ω : Type} [ResponseWriter ω] (w : ω) (data : List UInt8) : ω × Option String :=
  match write w data with
  | (w, none) => (w, none)
  | (w, some _) =>
    httpError w "\x7b\"error\":\"failed to encode response\"\x7d\n".toUTF8.toList 500

/-- `response.JSON`. -/
def responseJSON {ω : Type} [ResponseWriter ω] (w : ω) (statusCode : Int) (data : List UInt8) :
    ω × Option String :=
  match writeHeader (setHeader w ((header w).set "Content-Type" "application/json")) statusCode with
  | (w, some panicked) => (w, some panicked)
  | (w, none) => encodeJSON w data

/-- The JSON of the error response of `InternalError`. -/
def internalErrorJSON : List UInt8 :=
  ("\x7b\"error\":\x7b\"code\":\"INTERNAL_ERROR\",\"message\":\"internal server error\"\x7d\x7d\n"
    ).toUTF8.toList

/-! ## The middleware -/

/-- `Recovery`. -/
def recovery (next : HTTPHandler) : HTTPHandler := fun ω _ r s =>
  match next ω r s with
  | (s, none) => (s, none)
  | ((w, o), some value) =>
    let o := { o with logs := o.logs ++ [.panicRecovered value r.method r.path r.requestID] }
    let (w, panicked) := responseJSON w 500 internalErrorJSON
    ((w, o), panicked)

/-- `AccessLog`; it reads the clock before and after. -/
def accessLog (startedAt endedAt : Time) (next : HTTPHandler) : HTTPHandler := fun ω _ r s =>
  match next (StatusRecorder ω) r (newStatusRecorder s.1, s.2) with
  | ((rec, o), none) =>
    ((rec.inner, { o with logs := o.logs ++ [.httpRequest r.method r.path rec.statusCode
        ((endedAt - startedAt).tdiv 1000000) r.requestID] }), none)
  | ((rec, o), some value) => ((rec.inner, o), some value)

/-- `RecordHTTP`, where `withPanics` is what `With` panics with on the labels. -/
def recordHTTP (withPanics : HTTPSample → Option String) (o : Observed) (sample : HTTPSample) :
    Observed × Option String :=
  match withPanics sample with
  | some value => (o, some value)
  | none => ({ o with samples := o.samples ++ [sample] }, none)

/-- `MetricsMiddleware` for metrics that are not nil. The gauge goes down also
on a panic. -/
def metricsMiddleware (withPanics : HTTPSample → Option String) (startedAt endedAt : Time)
    (next : HTTPHandler) : HTTPHandler := fun ω _ r s =>
  match next (MetricsRecorder ω) r (⟨s.1, 200, false⟩, { s.2 with inFlight := s.2.inFlight + 1 })
    with
  | ((rec, o), none) =>
    let (o, panicked) :=
      recordHTTP withPanics o ⟨r.method, r.path, rec.status, endedAt - startedAt⟩
    ((rec.inner, { o with inFlight := o.inFlight - 1 }), panicked)
  | ((rec, o), some value) => ((rec.inner, { o with inFlight := o.inFlight - 1 }), some value)

/-- `http.MaxBytesReader`. -/
def RequestBody.limited (n : Nat) : RequestBody → RequestBody
  | .stream bytes err =>
    if n < bytes.length then .stream (bytes.take n) (some "http: request body too large")
    else .stream bytes err
  | b => b

/-- `BodyLimit`. -/
def bodyLimit (maxBytes : Int) (next : HTTPHandler) : HTTPHandler := fun ω _ r s =>
  if 0 < maxBytes then next ω { r with body := r.body.limited maxBytes.toNat } s
  else next ω r s

/-- `RequestID`; `fresh` is what `newRequestID` returns. -/
def requestID (fresh : String) (next : HTTPHandler) : HTTPHandler := fun ω _ r s =>
  let id := if r.requestIDHeader = "" then fresh else r.requestIDHeader
  let w := setHeader s.1 ((header s.1).set "X-Request-Id" id)
  next ω { r with requestID := id } (w, s.2)

def Header.setIfMissing (h : Header) (name value : String) : Header :=
  if h.get name = "" then h.set name value else h

/-- What `SecurityHeaders` makes of a header. -/
def Header.secured (h : Header) : Header :=
  ((h.setIfMissing "X-Content-Type-Options" "nosniff").setIfMissing "X-Frame-Options" "DENY")
    |>.setIfMissing "Referrer-Policy" "no-referrer"

/-- `SecurityHeaders`. -/
def securityHeaders (next : HTTPHandler) : HTTPHandler := fun ω _ r s =>
  next ω r (setHeader s.1 (header s.1).secured, s.2)

structure CORSConfig where
  allowedOrigins : List String
  allowedMethods : List String
  allowedHeaders : List String
  exposedHeaders : List String
  maxAge : Int
  deriving DecidableEq, Repr

def defaultIfEmpty (values fallback : List String) : List String :=
  if values = [] then fallback else values

/-- `maxAgeStr`: its loop puts the decimal digits together from the last one
on, and writes nothing for a negative number. -/
def maxAgeStr (seconds : Int) : String :=
  if seconds = 0 then "0"
  else String.ofList ((Nat.digits 10 seconds.toNat).reverse.map fun d => Char.ofNat (48 + d))

namespace CORSConfig

def allowAll (cfg : CORSConfig) : Prop := "*" ∈ cfg.allowedOrigins

instance (cfg : CORSConfig) : Decidable cfg.allowAll := inferInstanceAs (Decidable (_ ∈ _))

/-- The headers every response gets. -/
def headers (cfg : CORSConfig) (origin : String) (h : Header) : Header :=
  let h :=
    if origin ≠ "" ∧ (cfg.allowAll ∨ origin ∈ cfg.allowedOrigins) then
      let h := h.set "Access-Control-Allow-Origin" origin
      if ¬ cfg.allowAll then h.set "Vary" "Origin" else h
    else h
  if 0 < cfg.exposedHeaders.length then
    h.set "Access-Control-Expose-Headers" (", ".intercalate cfg.exposedHeaders)
  else h

/-- The headers of the answer to an `OPTIONS` request. -/
def preflightHeaders (cfg : CORSConfig) (h : Header) : Header :=
  let methods := defaultIfEmpty cfg.allowedMethods ["GET", "POST", "PUT", "DELETE", "OPTIONS"]
  let headers := defaultIfEmpty cfg.allowedHeaders ["Authorization", "Content-Type", "X-Request-Id"]
  let maxAge := if cfg.maxAge ≤ 0 then 600 else cfg.maxAge
  ((h.set "Access-Control-Allow-Methods" (", ".intercalate methods)).set
    "Access-Control-Allow-Headers" (", ".intercalate headers)).set
    "Access-Control-Max-Age" (maxAgeStr maxAge)

end CORSConfig

/-- `CORS`. -/
def cors (cfg : CORSConfig) (next : HTTPHandler) : HTTPHandler := fun ω _ r s =>
  let w := setHeader s.1 (cfg.headers r.origin (header s.1))
  if r.method = "OPTIONS" then
    let (w, panicked) := writeHeader (setHeader w (cfg.preflightHeaders (header w))) 204
    ((w, s.2), panicked)
  else next ω r (w, s.2)

/-! ## The chain -/

/-- A call that a handler makes on its writer. -/
inductive WriterCall where
  | setHeader (name value : String)
  | writeHeader (code : Int)
  | write (data : List UInt8)
  deriving DecidableEq, Repr

/-- What a handler does with a request: the calls on its writer, one after the
other, and the panic it ends in, if it does. -/
structure Behaviour where
  calls : List WriterCall
  panics : Option String
  deriving DecidableEq, Repr

namespace Behaviour

variable {ω : Type} [ResponseWriter ω]

def perform (w : ω) : WriterCall → ω × Option String
  | .setHeader name value => (setHeader w ((header w).set name value), none)
  | .writeHeader code => writeHeader w code
  | .write data => ((write w data).1, none)

/-- The calls up to the first that panics. -/
def performAll (w : ω) : List WriterCall → ω × Option String
  | [] => (w, none)
  | call :: calls =>
    match perform w call with
    | (w, some value) => (w, some value)
    | (w, none) => performAll w calls

def run (b : Behaviour) (w : ω) : ω × Option String :=
  match performAll w b.calls with
  | (w, some value) => (w, some value)
  | (w, none) => (w, b.panics)

end Behaviour

/-- The routes, by what they do with each request. -/
def routes (behaviour : Incoming → Behaviour) : HTTPHandler := fun _ _ r s =>
  let (w, panicked) := (behaviour r).run s.1
  ((w, s.2), panicked)

/-- What the chain gets from outside of a request. -/
structure ChainEnv where
  cors : CORSConfig
  maxBodyBytes : Int
  freshID : String
  /-- the clock before and after the request, for the log and the metrics -/
  logStart : Time
  logEnd : Time
  metricsStart : Time
  metricsEnd : Time
  /-- the panic of `With` on the labels of a sample, if it does not take them -/
  withPanics : HTTPSample → Option String

/-- The chain of `server.New`, with metrics. -/
def chain (env : ChainEnv) (mux : HTTPHandler) : HTTPHandler :=
  cors env.cors <|
    securityHeaders <|
      requestID env.freshID <|
        recovery <|
          accessLog env.logStart env.logEnd <|
            metricsMiddleware env.withPanics env.metricsStart env.metricsEnd <|
              bodyLimit env.maxBodyBytes mux

/-- A request from its arrival to the end of the response, with what was
observed of it. -/
def exchange (env : ChainEnv) (behaviour : Incoming → Behaviour) (r : Incoming) :
    NetResponse × Observed :=
  let s := (chain env (routes behaviour) NetResponse r (.new, .init)).1
  (s.1.finish, s.2)

end GoRestApi.Server
