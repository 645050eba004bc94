/-
GoRestApi.Server.IdempotencyReplay — requests through `WithIdempotency` one
after the other, and what becomes of a response that says 5xx.

A failure of a handler is a status. The function that the middleware passes to
`Run` returns the status with a nil error, and `Run` leaves out `Save` on an
error only; so a 500 is kept like any other response, for the whole TTL, and
the next request with the key and the body gets it back:
`server_error_executed_again_iff`.

`CreateUser` and `Register` are taken here over any `Create`, whose errors are
those of the interface or others, such as a database that cannot be reached.
-/
import GoRestApi.Server.IdempotencyFallback

namespace GoRestApi.Server.WithIdempotency

open Go Handler Idempotency

/-! ## The handlers behind the middleware -/

/-- `Register` over any store. -/
def registerHandlerWith {υ : Type} (env : Env) (h : AuthHandler)
    (dec : JsonDecoder Store.CreateUserRequest)
    (create : υ → Store.CreateUserRequest → υ × Except Store.PostgresError Store.User)
    (st : Stamps) (now : Time) (encode : Reply → List UInt8) : HttpHandler Head (Shared υ) :=
  fun r s =>
    let (users, issued, reply) := h.registerWith env create s.1 st now
      ⟨r.rest.method, r.rest.contentType, decodeJSONBody dec r.body⟩
    (⟨[("Content-Type", "application/json")], reply.status, encode reply⟩,
      users, s.2.1, s.2.2 ++ issued)

/-! ## Requests one after the other -/

variable {ρ τ : Type}

/-- A handler with a count of its executions. -/
def counted (next : HttpHandler ρ τ) : HttpHandler ρ (τ × Nat) := fun r s =>
  let (rec, w) := next r s.1
  (rec, w, s.2 + 1)

/-- A request, the handler of its route, and the clock readings of `Run`. -/
structure Visit (ρ τ : Type) where
  request : HttpRequest ρ
  next : HttpHandler ρ τ
  readings : Invocation

namespace Visit

/-- The request through the middleware over the in-memory store. -/
def pass (hash : List UInt8 → String) (s : MemoryStore × τ × Nat) (v : Visit ρ τ) :
    Sent × MemoryStore × τ × Nat :=
  withIdempotency (some (memoryStore hash v.readings)) (counted v.next) v.request s

/-- The handler is executed for the request. -/
def Executes (hash : List UInt8 → String) (s : MemoryStore × τ × Nat) (v : Visit ρ τ) : Prop :=
  (v.pass hash s).2.2.2 = s.2.2 + 1

instance (hash : List UInt8 → String) (s : MemoryStore × τ × Nat) (v : Visit ρ τ) :
    Decidable (v.Executes hash s) :=
  inferInstanceAs (Decidable (_ = _))

end Visit

/-- What is left after the requests. -/
def afterAll (hash : List UInt8 → String) (s : MemoryStore × τ × Nat) (vs : List (Visit ρ τ)) :
    MemoryStore × τ × Nat :=
  vs.foldl (fun s v => (v.pass hash s).2) s

/-- No handler is executed for a request with the key. -/
def Unexecuted (hash : List UInt8 → String) (k : String) :
    MemoryStore × τ × Nat → List (Visit ρ τ) → Prop
  | _, [] => True
  | s, v :: vs =>
    (v.request.key = k → ¬ v.Executes hash s) ∧ Unexecuted hash k (v.pass hash s).2 vs

/-- The client gets a 5xx. -/
def Sent.ServerError (sent : Sent) : Prop :=
  match sent with
  | .error reply => 500 ≤ reply.status ∧ reply.status < 600
  | .response status _ _ => 500 ≤ status ∧ status < 600

/-! ## One request -/

section MemoryStore

variable {hash : List UInt8 → String} {i : Invocation} {key : String} {request : List UInt8}
  {act : τ → Except String Response × τ} {s : MemoryStore × τ} {st : MemoryStore} {o : Outcome}

/-- `Run` of the in-memory store, when it returns an entry. -/
theorem memoryStore_run_of_ok
    (hrun : s.1.run hash { i with key, request, result := (act s.2).1 } = (st, o))
    (herr : o.err = none) :
    (memoryStore hash i).run key request act s =
      (.ok (o.entry, o.replayed), st, if o.executed then (act s.2).2 else s.2) := by
  simp only [memoryStore, hrun, herr]

theorem memoryStore_run_of_conflict
    (hrun : s.1.run hash { i with key, request, result := (act s.2).1 } = (st, o))
    (herr : o.err = some .conflict) :
    (memoryStore hash i).run key request act s =
      (.error .conflict, st, if o.executed then (act s.2).2 else s.2) := by
  simp only [memoryStore, hrun, herr]

end MemoryStore

namespace Visit

variable {hash : List UInt8 → String} {s : MemoryStore × τ × Nat} {v : Visit ρ τ}

/-- What the handler does with the clone of the request. -/
def answer (v : Visit ρ τ) (w : τ) : Recorder × τ :=
  v.next { v.request.drained with
    body := .stream v.request.body.unread none, contentLength := v.request.body.unread.length } w

/-- The call of `Run`. -/
def call (v : Visit ρ τ) (w : τ) : Invocation :=
  { v.readings with
    key := v.request.key, request := v.request.body.unread
    result := .ok (v.answer w).1.response }

theorem pass_of_noKey (hkey : v.request.key = "") :
    v.pass hash s = serve (counted v.next) v.request s := by
  simp [pass, withIdempotency, hkey]

theorem pass_of_unreadable (hkey : v.request.key ≠ "") (hread : ¬ v.request.body.Readable) :
    v.pass hash s = (.error (.badRequest "could not read request body"), s) := by
  simp [pass, withIdempotency, hkey, hread]

/-- A request whose body can be read, by what `Run` does. -/
theorem pass_of_run (hkey : v.request.key ≠ "") (hread : v.request.body.Readable)
    {st : MemoryStore} {o : Outcome} (hrun : s.1.run hash (v.call s.2.1) = (st, o)) :
    v.pass hash s =
      (match o.err with
        | none =>
          respond (if o.executed then (v.answer s.2.1).1 else Recorder.new) o.entry o.replayed
        | some _ => .error (.conflict "idempotency key reused with a different request body"),
        st, if o.executed then ((v.answer s.2.1).2, s.2.2 + 1) else s.2) := by
  let act := capture (counted v.next) v.request.drained v.request.body.unread
  have hrun' : s.1.run hash { v.readings with
      key := v.request.drained.key, request := v.request.body.unread
      result := (act (s.2, Recorder.new)).1 } = (st, o) := hrun
  simp only [pass, withIdempotency, hkey, hread, not_true_eq_false, if_false]
  cases herr : o.err with
  | none =>
    rw [memoryStore_run_of_ok (s := (s.1, s.2, Recorder.new)) hrun' herr]
    cases o.executed <;> rfl
  | some err =>
    cases err with
    | conflict =>
      rw [memoryStore_run_of_conflict (s := (s.1, s.2, Recorder.new)) hrun' herr]
      cases o.executed <;> rfl
    | doFailed msg =>
      -- the function that is passed to `Run` does not fail
      have hne : (s.1.run hash (v.call s.2.1)).2.err ≠ some (.doFailed msg) :=
        MemoryStore.run_err_ne_doFailed rfl msg
      rw [hrun] at hne
      exact absurd herr hne

theorem readable_of_executes (hkey : v.request.key ≠ "") (h : v.Executes hash s) :
    v.request.body.Readable := by
  by_contra hread
  rw [Executes, pass_of_unreadable hkey hread] at h
  exact Nat.succ_ne_self _ h.symm

theorem executes_iff_executed (hkey : v.request.key ≠ "") (hread : v.request.body.Readable) :
    v.Executes hash s ↔ (s.1.run hash (v.call s.2.1)).2.executed = true := by
  rcases hrun : s.1.run hash (v.call s.2.1) with ⟨st, o⟩
  rw [Executes, pass_of_run hkey hread hrun]
  cases o.executed <;> simp

/-- The handler is executed exactly when nothing valid is stored under the
key. -/
theorem executes_iff_misses (hkey : v.request.key ≠ "") (hread : v.request.body.Readable) :
    v.Executes hash s ↔ s.1.Misses v.readings.lookupAt v.request.key :=
  (executes_iff_executed hkey hread).trans (MemoryStore.executed_run_iff hkey)

@[simp] theorem ttl_pass : (v.pass hash s).2.1.ttl = s.1.ttl := by
  by_cases hkey : v.request.key = ""
  · rw [pass_of_noKey hkey, serve]
  by_cases hread : v.request.body.Readable
  · rw [pass_of_run hkey hread rfl]
    exact MemoryStore.run_ttl ..
  · rw [pass_of_unreadable hkey hread]

/-- **Frame.** The entry of a key stays as it is for a request with another
key, and for one that is not executed. -/
theorem entries_pass {k : String} (hno : v.request.key = k → ¬ v.Executes hash s) :
    (v.pass hash s).2.1.entries k = s.1.entries k := by
  by_cases hkey : v.request.key = ""
  · rw [pass_of_noKey hkey, serve]
  by_cases hread : v.request.body.Readable
  · rw [pass_of_run hkey hread rfl]
    by_cases heq : v.request.key = k
    · have hexec := hno heq
      rw [executes_iff_executed hkey hread, Bool.not_eq_true] at hexec
      exact congrFun (congrArg _ (MemoryStore.run_store_of_not_executed hexec)) k
    · exact MemoryStore.entries_run_of_ne (.inl fun h => heq h.symm)
  · rw [pass_of_unreadable hkey hread]

/-- An executed request leaves the response of its handler under its key,
whatever its status. -/
theorem entries_pass_self (hkey : v.request.key ≠ "") (h : v.Executes hash s) :
    (v.pass hash s).2.1.entries v.request.key =
      some (MemoryStore.saved hash s.1.ttl (v.call s.2.1) (v.answer s.2.1).1.response) := by
  have hread := readable_of_executes hkey h
  rw [pass_of_run hkey hread rfl]
  exact MemoryStore.entries_run_of_saves (c := v.call s.2.1) hkey
    ((executes_iff_executed hkey hread).mp h) rfl

/-- It is answered with that response. -/
theorem sent_of_executes (hkey : v.request.key ≠ "") (h : v.Executes hash s) :
    ∃ header, (v.pass hash s).1 =
      .response (v.answer s.2.1).1.response.status header (v.answer s.2.1).1.response.body := by
  have hread := readable_of_executes hkey h
  have hmiss := (executes_iff_misses hkey hread).mp h
  rw [pass_of_run hkey hread (MemoryStore.run_of_misses (c := v.call s.2.1) hkey hmiss)]
  exact ⟨_, rfl⟩

/-- A request with the hash of a valid entry is answered with the entry. -/
theorem pass_of_live (hkey : v.request.key ≠ "") (hread : v.request.body.Readable)
    {e : EntryWithTTL} (he : s.1.entries v.request.key = some e)
    (hlive : v.readings.lookupAt < e.validUntil)
    (hhash : e.entry.requestHash = hash v.request.body.unread) :
    ∃ header, v.pass hash s =
      (.response e.entry.response.status header e.entry.response.body, s) := by
  rw [pass_of_run hkey hread (MemoryStore.run_of_same (c := v.call s.2.1) hkey he hlive hhash)]
  exact ⟨_, rfl⟩

end Visit

/-! ## The requests in between -/

variable {hash : List UInt8 → String}

theorem entries_afterAll {k : String} {vs : List (Visit ρ τ)} {s : MemoryStore × τ × Nat}
    (h : Unexecuted hash k s vs) :
    (afterAll hash s vs).1.entries k = s.1.entries k := by
  induction vs generalizing s with
  | nil => rfl
  | cons v vs ih =>
    obtain ⟨hno, hrest⟩ := h
    exact (ih hrest).trans (Visit.entries_pass hno)

section Again

variable {s : MemoryStore × τ × Nat} {v₁ v₂ : Visit ρ τ} {vs : List (Visit ρ τ)}

/-- The next request with the key finds the response of the first, whatever its
status. -/
theorem entries_of_executed (hkey : v₁.request.key ≠ "") (hexec : v₁.Executes hash s)
    (hbetween : Unexecuted hash v₁.request.key (v₁.pass hash s).2 vs)
    (hkey₂ : v₂.request.key = v₁.request.key) :
    (afterAll hash (v₁.pass hash s).2 vs).1.entries v₂.request.key =
      some (MemoryStore.saved hash s.1.ttl (v₁.call s.2.1) (v₁.answer s.2.1).1.response) := by
  rw [hkey₂, entries_afterAll hbetween]
  exact Visit.entries_pass_self hkey hexec

theorem executed_again_iff (hkey : v₁.request.key ≠ "") (hexec : v₁.Executes hash s)
    (hbetween : Unexecuted hash v₁.request.key (v₁.pass hash s).2 vs)
    (hkey₂ : v₂.request.key = v₁.request.key) (hread₂ : v₂.request.body.Readable) :
    v₂.Executes hash (afterAll hash (v₁.pass hash s).2 vs) ↔
      v₁.readings.savedAt + s.1.ttl ≤ v₂.readings.lookupAt := by
  have hentry := entries_of_executed hkey hexec hbetween hkey₂
  rw [Visit.executes_iff_misses (hkey₂ ▸ hkey) hread₂, MemoryStore.Misses]
  simp only [hentry, Option.some.injEq, forall_eq']
  rfl

/-- **A 5xx is executed again exactly after the TTL**, like any other response.
Take a request with a key for which the handler was executed and answered with
a 5xx, and the next ones up to a second request with the same key and body, none
of which executes a handler under the key. The second one executes the handler
again if and only if the entry of the first has expired. Otherwise it is
answered with the 5xx and the body of the first, and nothing is executed. -/
theorem server_error_executed_again_iff (hkey : v₁.request.key ≠ "")
    (hexec : v₁.Executes hash s) (hfailed : Sent.ServerError (v₁.pass hash s).1)
    (hbetween : Unexecuted hash v₁.request.key (v₁.pass hash s).2 vs)
    (hkey₂ : v₂.request.key = v₁.request.key)
    (hbody₂ : v₂.request.body.unread = v₁.request.body.unread)
    (hread₂ : v₂.request.body.Readable) :
    (v₂.Executes hash (afterAll hash (v₁.pass hash s).2 vs) ↔
      v₁.readings.savedAt + s.1.ttl ≤ v₂.readings.lookupAt) ∧
    (¬ v₂.Executes hash (afterAll hash (v₁.pass hash s).2 vs) →
      ∃ status header header' body, (500 ≤ status ∧ status < 600) ∧
        (v₁.pass hash s).1 = .response status header body ∧
        v₂.pass hash (afterAll hash (v₁.pass hash s).2 vs) =
          (.response status header' body, afterAll hash (v₁.pass hash s).2 vs)) := by
  have hagain := executed_again_iff hkey hexec hbetween hkey₂ hread₂
  refine ⟨hagain, fun hno => ?_⟩
  rw [hagain, Int.not_le] at hno
  obtain ⟨header, hfirst⟩ := Visit.sent_of_executes hkey hexec
  obtain ⟨header', hsecond⟩ := Visit.pass_of_live (hkey₂ ▸ hkey) hread₂
    (entries_of_executed hkey hexec hbetween hkey₂) hno (congrArg hash hbody₂.symm)
  rw [hfirst] at hfailed
  exact ⟨_, header, header', _, hfailed, hfirst, hsecond⟩

end Again

/-- The users in memory, behind a connection that fails as the list says. -/
def flakyCreate (s : List Store.SqlError × Store.MemoryUserStore)
    (input : Store.CreateUserRequest) :
    (List Store.SqlError × Store.MemoryUserStore) × Except Store.PostgresError Store.User :=
  match s.1 with
  | [] => (([], (memoryCreate s.2 input).1), (memoryCreate s.2 input).2)
  | e :: es => ((es, s.2), .error (.sql e))

def flakyCreateUser : HttpHandler Head (Shared (List Store.SqlError × Store.MemoryUserStore)) :=
  createUserHandlerWith (Sample.env []) ⟨10, false, fun _ _ _ => []⟩ sampleDecoder flakyCreate 0
    (fun answer => [UInt8.ofNat (status answer % 256)])

def flakyRegister : HttpHandler Head (Shared (List Store.SqlError × Store.MemoryUserStore)) :=
  registerHandlerWith (Sample.env (Sample.tokens 0 "1")) Sample.handler sampleDecoder flakyCreate
    (Sample.stamps 0 "1") 0 (fun reply => [UInt8.ofNat (reply.status % 256)])

/-- The same request at a time. -/
def visitAt {τ : Type} (next : HttpHandler Head τ) (now : Time) : Visit Head τ where
  request := samplePost (.stream [123, 125] none)
  next := next
  readings :=
    { key := "", request := [], result := .error "", lookupAt := now, storedAt := now,
      savedAt := now, returnedAt := now }

/-- An empty idempotency store with a TTL of a minute, and one failure of the
database to come. -/
def timeoutFirst :
    MemoryStore × Shared (List Store.SqlError × Store.MemoryUserStore) × Nat :=
  (.new Time.minute, (([.other "i/o timeout"], Store.newMemoryUserStore), [], []), 0)

/-- A minute after the 500 the user is created. -/
theorem server_error_executed_after_minute :
    Sent.ServerError ((visitAt flakyCreateUser 0).pass sampleHash timeoutFirst).1 ∧
      (visitAt flakyCreateUser Time.minute).Executes sampleHash
        ((visitAt flakyCreateUser 0).pass sampleHash timeoutFirst).2 := by
  have hfirst : Sent.ServerError ((visitAt flakyCreateUser 0).pass sampleHash timeoutFirst).1 := by
    have h : ((visitAt flakyCreateUser 0).pass sampleHash timeoutFirst).1 =
      .response 500 [("Content-Type", "application/json")] [244] := by decide +kernel
    rw [h]
    exact ⟨by decide, by decide⟩
  exact ⟨hfirst, (@server_error_executed_again_iff Head _ sampleHash timeoutFirst
    (visitAt flakyCreateUser 0) (visitAt flakyCreateUser Time.minute) [] (by decide)
    (by decide +kernel) hfirst trivial rfl rfl rfl).1.mpr (by decide)⟩

/-- A creation that the database has answered with a timeout gets the 500 back
a second later, though the database is there again: the handler alone would
answer with 201. -/
def ReplaysTimeout
    (next : HttpHandler Head (Shared (List Store.SqlError × Store.MemoryUserStore))) : Prop :=
  (visitAt next 0).Executes sampleHash timeoutFirst ∧
    ((visitAt next 0).pass sampleHash timeoutFirst).1 =
      .response 500 [("Content-Type", "application/json")] [244] ∧
    (next (visitAt next Time.second).request
      ((visitAt next 0).pass sampleHash timeoutFirst).2.2.1).1.status = 201 ∧
    ¬ (visitAt next Time.second).Executes sampleHash
      ((visitAt next 0).pass sampleHash timeoutFirst).2 ∧
    ((visitAt next Time.second).pass sampleHash
        ((visitAt next 0).pass sampleHash timeoutFirst).2).1 =
      .response 500 [("Content-Type", "application/json"), ("Idempotent-Replay", "true")] [244]

/-- So it is with either handler. -/
theorem server_error_replayed : ReplaysTimeout flakyCreateUser ∧ ReplaysTimeout flakyRegister := by
  unfold ReplaysTimeout
  decide +kernel

end GoRestApi.Server.WithIdempotency
