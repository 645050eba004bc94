/-
GoRestApi.Server.IdempotencyFallback — a request on its way through
`WithIdempotency`, from the body it brings to the response it gets, over any
store that `Run` can be called on.

The middleware reads the body to its end before it calls `Run`. The function
it passes to `Run` gives the handler a clone of the request with the bytes put
back; the branch for a store that fails hands on the request itself, whose
body has been read. So the fallback is transparent for every handler only if
there was nothing to read (`failing_store_transparent_iff`), and a handler
that decodes JSON refuses the request (`createUser_refused`).

A handler is a function of the request and of what the handlers share, `τ`.
The store is a function of its own state, `σ`, and calls the function it is
given on `τ`; the two stores of the program are `memoryStore` and
`redisStore`. `alone_request` connects this with the interleaved requests of
`Server.Idempotency`.
-/
import GoRestApi.Handler.User
import GoRestApi.Idempotency.Redis
import GoRestApi.Server.IdempotencyTheorems

namespace GoRestApi.Server

open Go Handler Idempotency

/-! ## Requests with a body to read -/

/-- `r.Body`: nil, `http.NoBody`, or what is still to be read and the error
the reading ends with, if it is not `io.EOF`. -/
inductive RequestBody where
  | nil
  | noBody
  | stream (bytes : List UInt8) (err : Option String)
  deriving DecidableEq, Repr

namespace RequestBody

/-- The bytes a reader still gets. -/
def unread : RequestBody → List UInt8
  | .nil | .noBody => []
  | .stream bytes _ => bytes

def readErr : RequestBody → Option String
  | .nil | .noBody => none
  | .stream _ err => err

/-- `io.ReadAll` returns no error. -/
def Readable (b : RequestBody) : Prop := b.readErr = none

instance (b : RequestBody) : Decidable b.Readable := inferInstanceAs (Decidable (_ = none))

/-- The body after `io.ReadAll`. -/
def drained : RequestBody → RequestBody
  | .stream _ err => .stream [] err
  | b => b

end RequestBody

/-- A request; `ρ` is everything of it that the middleware does not touch. -/
structure HttpRequest (ρ : Type) where
  /-- the header `Idempotency-Key` -/
  key : String
  contentLength : Int
  body : RequestBody
  rest : ρ
  deriving DecidableEq, Repr

/-- The request once its body has been read. -/
def HttpRequest.drained {ρ : Type} (r : HttpRequest ρ) : HttpRequest ρ :=
  { r with body := r.body.drained }

namespace WithIdempotency

/-- A handler, by what it writes and what it leaves of `τ`. -/
abbrev HttpHandler (ρ τ : Type) := HttpRequest ρ → τ → Recorder × τ

/-- A handler that writes to the client. -/
def serve {σ ρ τ : Type} (next : HttpHandler ρ τ) (r : HttpRequest ρ) (s : σ × τ) : Sent × σ × τ :=
  let (rec, w) := next r s.2
  (.response rec.response.status rec.header rec.response.body, s.1, w)

/-! ## Stores -/

/-- The errors of `Run`, as far as the middleware tells them apart. -/
inductive StoreFailure where
  | conflict
  | other (msg : String)
  deriving DecidableEq, Repr

/-- `idempotency.Store`, of which the middleware calls `Run`. -/
structure IdempotencyStore (σ : Type) where
  run {τ : Type} (key : String) (request : List UInt8) (act : τ → Except String Response × τ)
    (s : σ × τ) : Except StoreFailure (Entry × Bool) × σ × τ

/-- `MemoryStore`, with the clock readings of `i`. -/
def memoryStore (hashRequest : List UInt8 → String) (i : Invocation) :
    IdempotencyStore MemoryStore where
  run key request act s :=
    let (result, w) := act s.2
    let (st, o) := s.1.run hashRequest { i with key := key, request := request, result := result }
    (match o.err with
      | some .conflict => .error .conflict
      | some (.doFailed msg) => .error (.other msg)
      | none => .ok (o.entry, o.replayed),
      st, if o.executed then w else s.2)

/-- `redisStore`, with the clock readings and the failing commands of `i`. -/
def redisStore {π : Type} (hashRequest : List UInt8 → String) (c : EntryCodec π) (st : RedisStore)
    (i : RedisInvocation) : IdempotencyStore (Redis π) where
  run key request act s :=
    let (result, w) := act s.2
    let (r, o) := st.run hashRequest c s.1
      { i with key := key, request := request, result := result }
    (match o.err with
      | some (.run .conflict) => .error .conflict
      | some (.run (.doFailed msg)) => .error (.other msg)
      | some (.redisLookup msg) => .error (.other (RedisLookupError.redis msg).message)
      | none => .ok (o.entry, o.replayed),
      r, if o.executed then w else s.2)

/-! ## The middleware -/

/-- The function passed to `Run`: the handler writes to the recorder, and gets
a clone of the request with the bytes that were read. Its error is nil. -/
def capture {ρ τ : Type} (next : HttpHandler ρ τ) (r : HttpRequest ρ) (bodyBytes : List UInt8)
    (s : τ × Recorder) : Except String Response × τ × Recorder :=
  let doReq := { r with body := .stream bodyBytes none, contentLength := bodyBytes.length }
  let (rec, w) := next doReq s.1
  (.ok rec.response, w, rec)

/-- `WithIdempotency`; `none` is a nil store. -/
def withIdempotency {σ ρ τ : Type} (store : Option (IdempotencyStore σ)) (next : HttpHandler ρ τ)
    (r : HttpRequest ρ) (s : σ × τ) : Sent × σ × τ :=
  match store with
  | none => serve next r s
  | some store =>
    if r.key = "" then serve next r s
    else if ¬ r.body.Readable then (.error (.badRequest "could not read request body"), s)
    else
      let bodyBytes := r.body.unread
      -- from here on there is nothing left to read in `r`
      let r := r.drained
      match store.run r.key bodyBytes (capture next r bodyBytes) (s.1, s.2, Recorder.new) with
      | (.error .conflict, st, w, _) =>
        (.error (.conflict "idempotency key reused with a different request body"), st, w)
      | (.error (.other _), st, w, _) => serve next r (st, w)
      | (.ok (e, replayed), st, w, rec) => (respond rec e replayed, st, w)

/-! ## The stores of the program -/

/-- A store that fails for the request before it calls the function. -/
def FailsFirst {σ ρ : Type} (store : IdempotencyStore σ) (r : HttpRequest ρ) (st : σ) : Prop :=
  ∀ {τ : Type} (act : τ → Except String Response × τ) (w : τ),
    ∃ msg, store.run r.key r.body.unread act (st, w) = (.error (.other msg), st, w)

section Stores

variable {ρ τ π : Type} {hash : List UInt8 → String} {act : τ → Except String Response × τ}

/-- With a function that does not fail, the in-memory store fails with
`ErrConflict` only. -/
theorem memoryStore_run_ne_other {i : Invocation} {key : String} {request : List UInt8}
    {s : MemoryStore × τ} (hact : ∃ resp, (act s.2).1 = .ok resp) (msg : String) :
    ((memoryStore hash i).run key request act s).1 ≠ .error (.other msg) := by
  obtain ⟨resp, hresp⟩ := hact
  intro h
  simp only [memoryStore] at h
  split at h
  · cases h
  · rename_i m herr
    exact MemoryStore.run_err_ne_doFailed hresp m herr
  · cases h

/-- A Redis store whose `HGET` fails does so before it calls the function. -/
theorem redisStore_failsFirst {c : EntryCodec π} {st : RedisStore} {i : RedisInvocation}
    {r : HttpRequest ρ} (hkey : r.key ≠ "") {msg : String} (hget : i.hgetErr = some msg)
    (redis : Redis π) : FailsFirst (redisStore hash c st i) r redis := by
  intro τ act w
  refine ⟨(RedisLookupError.redis msg).message, ?_⟩
  simp [redisStore, RedisStore.run, RedisStore.lookup, hkey, hget]

/-- With a function that does not fail, this is the only other failure of the
Redis store. -/
theorem redisStore_run_other {c : EntryCodec π} {st : RedisStore} {i : RedisInvocation}
    {key : String} {request : List UInt8} {s : Redis π × τ}
    (hact : ∃ resp, (act s.2).1 = .ok resp) {msg : String}
    (h : ((redisStore hash c st i).run key request act s).1 = .error (.other msg)) :
    ∃ m, i.hgetErr = some m := by
  obtain ⟨resp, hresp⟩ := hact
  cases hget : i.hgetErr with
  | some m => exact ⟨m, rfl⟩
  | none =>
    exfalso
    simp only [redisStore, RedisStore.run, hresp, hget] at h
    have hlookup : ∀ m, (if key ≠ "" then
        RedisStore.lookup c s.1 i.lookupAt none key (hash request) else .error .notFound) ≠
          .error (.redis m) := by
      intro m
      simp only [RedisStore.lookup]
      repeat' split
      all_goals simp
    rcases hl : (if key ≠ "" then
        RedisStore.lookup c s.1 i.lookupAt none key (hash request) else .error .notFound)
      with e | e
    · cases e with
      | conflict => simp [hl] at h
      | notFound => simp [hl] at h
      | redis m => exact hlookup m hl
    · simp [hl] at h

end Stores

/-! ## The fallback -/

theorem HttpRequest.drained_eq_self {ρ : Type} {r : HttpRequest ρ} (h : r.body.unread = []) :
    r.drained = r := by
  obtain ⟨key, len, body, rest⟩ := r
  cases body with
  | nil | noBody => rfl
  | stream bytes err => cases h; rfl

/-- **What a failing store leads to.** The handler answers the request with
its body read, in the state that `Run` has left. -/
theorem withIdempotency_of_fails {σ ρ τ : Type} {store : IdempotencyStore σ}
    {next : HttpHandler ρ τ} {r : HttpRequest ρ} (hkey : r.key ≠ "") (hread : r.body.Readable)
    {st st' : σ} {w w' : τ} {rec : Recorder} {msg : String}
    (hfail : store.run r.key r.body.unread (capture next r.drained r.body.unread)
      (st, w, Recorder.new) = (.error (.other msg), st', w', rec)) :
    withIdempotency (some store) next r (st, w) = serve next r.drained (st', w') := by
  have hrun : store.run r.drained.key r.body.unread (capture next r.drained r.body.unread)
      (st, w, Recorder.new) = (.error (.other msg), st', w', rec) := hfail
  simp only [withIdempotency, hkey, hread, not_true_eq_false, if_false, hrun]

/-! ## A handler that decodes JSON -/

inductive DecodeError where
  | eof
  | other (msg : String)
  deriving DecidableEq, Repr

/-- `json.Decoder.Decode` into a value of the type, on the bytes of a reader
and the error it ends with. With no bytes to read it returns `io.EOF`. -/
structure JsonDecoder (α : Type) where
  decode : List UInt8 → Option String → Except DecodeError α
  decode_nil : decode [] none = .error .eof

def decodeJSONBody {α : Type} (dec : JsonDecoder α) (b : RequestBody) : Except String α :=
  if b = .nil then .error "request body is required"
  else
    match dec.decode b.unread b.readErr with
    | .error .eof => .error "request body is required"
    | .error (.other _) => .error "invalid request body"
    | .ok v => .ok v

theorem decodeJSONBody_drained {α : Type} (dec : JsonDecoder α) {b : RequestBody}
    (hread : b.Readable) : decodeJSONBody dec b.drained = .error "request body is required" := by
  have hunread : b.drained.unread = [] := by cases b <;> rfl
  have herr : b.drained.readErr = none := by cases b <;> exact hread
  simp only [decodeJSONBody, hunread, herr, dec.decode_nil, ite_self]

/-- What `CreateUser` reads of a request besides its body. -/
structure Head where
  method : String
  contentType : String
  deriving DecidableEq, Repr

def status {β : Type} : Answer β → Nat
  | .error reply => reply.status
  | .ok (code, _) => code

/-- What the handlers share: the users, the events given to the outbox and the
tokens that were issued. -/
abbrev Shared (υ : Type) := υ × List Events.Event × List IssuedToken

/-- `CreateUser` over any store, as a handler; `encode` is the JSON of an
answer. -/
def createUserHandlerWith {υ : Type} (env : Env) (h : UserHandler)
    (dec : JsonDecoder Store.CreateUserRequest)
    (create : υ → Store.CreateUserRequest → υ × Except Store.PostgresError Store.User) (now : Time)
    (encode : Answer Store.User → List UInt8) : HttpHandler Head (Shared υ) := fun r s =>
  let (users, events, answer) := h.createUserWith env create s.1 now
    ⟨r.rest.method, r.rest.contentType, decodeJSONBody dec r.body⟩
  (⟨[("Content-Type", "application/json")], status answer, encode answer⟩,
    users, s.2.1 ++ events, s.2.2)

/-- Over the in-memory store. -/
def createUserHandler (env : Env) (h : UserHandler) (dec : JsonDecoder Store.CreateUserRequest)
    (now : Time) (encode : Answer Store.User → List UInt8) :
    HttpHandler Head (Shared Store.MemoryUserStore) :=
  createUserHandlerWith env h dec memoryCreate now encode

/-- **Creations are refused while the store fails**, whatever their body. -/
theorem createUser_refused {σ : Type} {env : Env} {h : UserHandler}
    {dec : JsonDecoder Store.CreateUserRequest} {now : Time}
    {encode : Answer Store.User → List UInt8} {store : IdempotencyStore σ} {r : HttpRequest Head}
    (hkey : r.key ≠ "") (hread : r.body.Readable) {st : σ} (hfail : FailsFirst store r st)
    (hmethod : r.rest.method = "POST") (htype : env.isJSONContentType r.rest.contentType = true)
    (s : Shared Store.MemoryUserStore) :
    withIdempotency (some store) (createUserHandler env h dec now encode) r (st, s) =
      (.response 400 [("Content-Type", "application/json")]
        (encode (.error (.badRequest "request body is required"))), st, s) := by
  obtain ⟨msg, hrun⟩ := hfail
    (capture (createUserHandler env h dec now encode) r.drained r.body.unread) (s, Recorder.new)
  rw [withIdempotency_of_fails hkey hread hrun]
  have hbody : decodeJSONBody dec r.drained.body = .error "request body is required" :=
    decodeJSONBody_drained dec hread
  have hrest : r.drained.rest = r.rest := rfl
  simp [serve, createUserHandler, createUserHandlerWith, UserHandler.createUserWith,
    UserHandler.createInput, accountInput, decodeRequest, hbody, hrest, hmethod, htype, status,
    Reply.badRequest, Recorder.response]

/-! ## When the fallback is transparent -/

/-- **A failing store is transparent exactly for requests without a body.**
When `Run` fails with another error than `ErrConflict`, the response is the
one the handler gives for the request with its body read. If `Run` fails
before the handler is called, as it does in both stores, this is for every
handler the response without the middleware if and only if there was nothing
to read. -/
theorem failing_store_transparent_iff {σ ρ : Type} (store : IdempotencyStore σ)
    (r : HttpRequest ρ) (hkey : r.key ≠ "") (hread : r.body.Readable) (st : σ) :
    (∀ (τ : Type) (next : HttpHandler ρ τ) (w : τ) (msg : String) (st' : σ) (w' : τ)
        (rec : Recorder),
      store.run r.key r.body.unread (capture next r.drained r.body.unread)
        (st, w, Recorder.new) = (.error (.other msg), st', w', rec) →
      withIdempotency (some store) next r (st, w) = serve next r.drained (st', w')) ∧
    (FailsFirst store r st →
      ((∀ (τ : Type) (next : HttpHandler ρ τ) (w : τ),
          withIdempotency (some store) next r (st, w) = serve next r (st, w)) ↔
        r.body.unread = [])) := by
  refine ⟨fun τ next w msg st' w' rec hfail => withIdempotency_of_fails hkey hread hfail,
    fun hfirst => ?_⟩
  have hanswer : ∀ (τ : Type) (next : HttpHandler ρ τ) (w : τ),
      withIdempotency (some store) next r (st, w) = serve next r.drained (st, w) := by
    intro τ next w
    obtain ⟨msg, hfail⟩ := hfirst (capture next r.drained r.body.unread) (w, Recorder.new)
    exact withIdempotency_of_fails hkey hread hfail
  constructor
  · intro htransparent
    -- a handler that sends back what it reads
    let echo : HttpHandler ρ Unit := fun q w => (⟨[], 200, q.body.unread⟩, w)
    have h := (hanswer Unit echo ()).symm.trans (htransparent Unit echo ())
    have hbody : r.drained.body.unread = r.body.unread := by
      simpa [serve, echo, Recorder.response] using h
    rw [← hbody, HttpRequest.drained]
    cases r.body <;> rfl
  · intro hnone τ next w
    rw [hanswer, HttpRequest.drained_eq_self hnone]

/-- A Redis store that cannot be reached. -/
def unreachable : IdempotencyStore (Redis Encoding.Document) :=
  redisStore sampleHash EntryCodec.json (.new 0)
    { key := "", request := [], result := .error "", lookupAt := 0, storedAt := 0, savedAt := 0,
      returnedAt := 0, hsetAt := 0, hgetErr := some "i/o timeout", hsetErr := some "i/o timeout",
      expireErr := some "i/o timeout" }

/-- A request with the key `k1` that would create a user. -/
def samplePost (body : RequestBody) : HttpRequest Head :=
  ⟨"k1", body.unread.length, body, "POST", "application/json"⟩

theorem unreachable_failsFirst (body : RequestBody) (redis : Redis Encoding.Document) :
    FailsFirst unreachable (samplePost body) redis :=
  redisStore_failsFirst (by simp [samplePost]) rfl redis

/-- A handler that answers 204 and counts its calls. -/
def counting : HttpHandler Head Nat := fun _ n => (⟨[], 204, []⟩, n + 1)

/-- Without a body the request is answered, and the handler called, as without
the middleware. -/
theorem bodiless_request_unaffected :
    (samplePost .noBody).body.unread = [] ∧
      withIdempotency (some unreachable) counting (samplePost .noBody) (.empty, 0) =
        serve counting (samplePost .noBody) (.empty, 0) :=
  ⟨rfl, ((failing_store_transparent_iff unreachable (samplePost .noBody) (by decide) rfl .empty).2
    (unreachable_failsFirst .noBody .empty)).mpr rfl Nat counting 0⟩

/-- A decoder that takes every text for the same user. -/
def sampleDecoder : JsonDecoder Store.CreateUserRequest where
  decode bytes _ :=
    if bytes = [] then .error .eof
    else .ok { name := "Ada", email := "ada@example.com", password := "secret" }
  decode_nil := rfl

/-- A valid creation, which is answered with 201 and stored without the
middleware, is refused with 400 when Redis cannot be reached. -/
theorem creation_refused_when_redis_fails :
    let next := createUserHandler (Sample.env []) ⟨10, false, fun _ _ _ => []⟩ sampleDecoder 0
      (fun answer => [UInt8.ofNat (status answer % 256)])
    let r := samplePost (.stream [123, 125] none)
    let redis : Redis Encoding.Document := .empty
    let users := Store.newMemoryUserStore
    ((serve next r (redis, users, [], [])).1 =
        .response 201 [("Content-Type", "application/json")] [201] ∧
      (serve next r (redis, users, [], [])).2.2.1.users.length = 1) ∧
    (withIdempotency (some unreachable) next r (redis, users, [], [])).1 =
        .response 400 [("Content-Type", "application/json")] [144] ∧
      (withIdempotency (some unreachable) next r (redis, users, [], [])).2.2.1.users = [] := by
  intro next r redis users
  refine ⟨by decide +kernel, ?_⟩
  have hkey : r.key ≠ "" := by decide
  have hread : r.body.Readable := rfl
  have hfail : FailsFirst unreachable r redis := unreachable_failsFirst _ _
  have hrefused : withIdempotency (some unreachable) next r (redis, users, [], []) = _ :=
    createUser_refused hkey hread hfail rfl (by decide +kernel) (users, [], [])
  rw [hrefused]
  exact ⟨rfl, rfl⟩

/-! ## One request alone -/

namespace State

open Lts

variable {ι : Type} {i : ι}

/-- The whole call of `Run` as steps: the handler writes `rec` if it is
executed. -/
theorem stepOf_stepsOf {c : Invocation} {rec : Recorder} (hres : c.result = .ok rec.response)
    (o : Outcome) : ∀ a ∈ RunSystem.stepsOf i c o, StepOf i rec a := by
  simp only [RunSystem.stepsOf, hres]
  split <;> simp [StepOf]

theorem foldl_recorded_stepsOf {c : Invocation} {rec : Recorder}
    (hres : c.result = .ok rec.response) (o : Outcome) (before : Recorder) :
    (RunSystem.stepsOf i c o).foldl (recorded rec) before = if o.executed then rec else before := by
  simp only [RunSystem.stepsOf, hres]
  split <;> rfl

variable [DecidableEq ι] {hash : List UInt8 → String} {reqs : ι → Req}

/-- A request with a key that no other one comes in between. -/
theorem run_alone {s : State ι} (hpc : s.pc i = .arrived) (hstart : s.runs.pc i = .start)
    {c : Invocation} (hne : c.key ≠ "") (hkey : c.key = (reqs i).key)
    (hbody : c.request = (reqs i).body) {rec : Recorder} (hres : c.result = .ok rec.response)
    {st : MemoryStore} {o : Outcome} (hcall : s.runs.store.run hash c = (st, o)) :
    ∃ as s', run (step true hash reqs) s as = some s' ∧ s'.runs.store = st ∧
      s'.pc i = afterRun (if o.executed then rec else Recorder.new) o.entry o.replayed o.err := by
  obtain ⟨runs, hrun, hstore, hret, _⟩ :=
    @RunSystem.alone_run ι _ hash (calls reqs) s.runs i c hstart hkey.symm hbody.symm
  rw [hcall] at hrun hstore hret
  have henter : s.step true hash reqs (.enter i true) = some (s.setPc i (.running .new)) := by
    simp [step, hpc, ← hkey, hne]
  obtain ⟨s₁, hrun₁, hruns₁, hpc₁, _⟩ := run_around (s := s.setPc i (.running .new))
    (Function.update_self ..) (stepOf_stepsOf hres o) hrun
  rw [foldl_recorded_stepsOf hres] at hpc₁
  have hreply : s₁.step true hash reqs (.reply i) = some (s₁.setPc i (afterRun
      (if o.executed then rec else Recorder.new) o.entry o.replayed o.err)) := by
    simp only [step, hpc₁, hruns₁, hret]
  refine ⟨_, _, run_cons_eq_some.mpr ⟨_, henter,
    run_append_eq_some.mpr ⟨_, hrun₁, (run_singleton ..).trans hreply⟩⟩, ?_,
    Function.update_self ..⟩
  exact (congrArg RunSystem.store hruns₁).trans hstore

/-- **The steps are those of the middleware.** A request that no other one
comes in between is answered as the whole function says. -/
theorem alone_request {ρ τ : Type} {s : State ι} (hpc : s.pc i = .arrived)
    (hstart : s.runs.pc i = .start) {r : HttpRequest ρ} (hkey : r.key = (reqs i).key)
    (hbody : r.body.unread = (reqs i).body) (hread : r.body.Readable) (next : HttpHandler ρ τ)
    (c : Invocation) (w : τ) :
    ∃ as s' how, run (step true hash reqs) s as = some s' ∧
      s'.pc i = .answered how
        (withIdempotency (some (memoryStore hash c)) next r (s.runs.store, w)).1 ∧
      s'.runs.store =
        (withIdempotency (some (memoryStore hash c)) next r (s.runs.store, w)).2.1 := by
  by_cases hno : r.key = ""
  · -- without a key the request is passed on
    have henter : s.step true hash reqs (.enter i true) = some (s.setPc i .passing) := by
      simp [step, hpc, ← hkey, hno]
    have hpass : (s.setPc i .passing).step true hash reqs (.pass i (next r w).1) =
        some ((s.setPc i .passing).setPc i (.answered .executed
          (serve next r (s.runs.store, w)).1)) := by
      simp [step, setPc, serve]
    refine ⟨_, _, .executed, run_cons_eq_some.mpr ⟨_, henter, (run_singleton ..).trans hpass⟩, ?_⟩
    simp [withIdempotency, hno, setPc, serve]
  · -- the handler behind the middleware, and the call of `Run` around it
    let out := next { r.drained with body := .stream r.body.unread none,
                                     contentLength := r.body.unread.length } w
    let c' : Invocation :=
      { c with key := r.key, request := r.body.unread, result := .ok out.1.response }
    rcases hcall : s.runs.store.run hash c' with ⟨st, o⟩
    obtain ⟨as, s', hrun, hstore, hans⟩ := run_alone hpc hstart (c := c') hno hkey hbody rfl hcall
    -- the same call of `Run`, as the whole function makes it
    have hsame : (memoryStore hash c).run r.drained.key r.body.unread
        (capture next r.drained r.body.unread) (s.runs.store, w, Recorder.new) =
          (match (s.runs.store.run hash c').2.err with
            | some .conflict => .error .conflict
            | some (.doFailed msg) => .error (.other msg)
            | none => .ok ((s.runs.store.run hash c').2.entry,
                (s.runs.store.run hash c').2.replayed),
            (s.runs.store.run hash c').1,
            if (s.runs.store.run hash c').2.executed then (out.2, out.1)
            else (w, Recorder.new)) := rfl
    rw [hcall] at hsame
    simp only [withIdempotency, hno, hread, not_true_eq_false, if_false, hsame]
    cases herr : o.err with
    | none =>
      refine ⟨as, s', if o.replayed then .replayed else .executed, hrun, ?_, hstore⟩
      rw [hans, herr]
      cases o.executed <;> rfl
    | some err =>
      cases err with
      | conflict =>
        refine ⟨as, s', .conflict, hrun, ?_, hstore⟩
        rw [hans, herr]
        rfl
      | doFailed msg =>
        have hne : (s.runs.store.run hash c').2.err ≠ some (.doFailed msg) :=
          MemoryStore.run_err_ne_doFailed rfl msg
        rw [hcall] at hne
        exact absurd herr hne

end State

end WithIdempotency

end GoRestApi.Server
