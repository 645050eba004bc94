/-
GoRestApi.Server.ChainTheorems — what the chain logs and measures of a
request, against what the client gets.

Three writers have a status: the response, `statusRecorder` and
`metricsRecorder`. `Track` is what two of them know, the first code that was
recorded and the status that was sent; the third always knows the same as the
second, because `metricsRecorder` passes on the first `WriteHeader` only.
`exchange_returned`, `exchange_panicked` and `exchange_options` give the
outcome of every request in terms of it, and `logged_as_sent_iff` says when
the log and the metrics have what was sent. A panic may come out of the handler
or, after it has returned, out of `RecordHTTP`.
-/
import GoRestApi.Server.Chain

namespace GoRestApi.Server

open Go ResponseWriter

/-! ## The codes that were recorded and sent -/

/-- The code `net/http` accepts as the status of a response. -/
def Final (code : Int) : Prop :=
  100 ≤ code ∧ code ≤ 999 ∧ ¬ NetResponse.isInformational code

instance (code : Int) : Decidable (Final code) := inferInstanceAs (Decidable (_ ∧ _))

theorem Final.valid {code : Int} (h : Final code) : ¬ (code < 100 ∨ 999 < code) := by
  have := h.1
  have := h.2.1
  omega

/-- The code the recorders have been given, and the status in the status line,
if it has been written. -/
structure Track where
  recorded : Option Int
  sent : Option Int
  deriving DecidableEq, Repr

namespace Track

/-- What a call changes, and whether it panics. -/
def step (t : Track) : WriterCall → Track × Bool
  | .setHeader _ _ => (t, false)
  | .write _ => ({ t with sent := some (t.sent.getD 200) }, false)
  | .writeHeader code =>
    if t.recorded.isSome then (t, false)
    else if t.sent.isSome then ({ t with recorded := some code }, false)
    else (⟨some code, if Final code then some code else none⟩, decide (code < 100 ∨ 999 < code))

/-- The calls up to the first that panics. -/
def run (t : Track) : List WriterCall → Track × Bool
  | [] => (t, false)
  | call :: calls =>
    match t.step call with
    | (t, true) => (t, true)
    | (t, false) => t.run calls

end Track

/-- The writers around the response that the routes are given. -/
abbrev Wrapped := MetricsRecorder (StatusRecorder NetResponse)

/-- The writers know what the track says. -/
structure Tracks (t : Track) (m : Wrapped) : Prop where
  wroteHeader : m.wroteHeader = t.recorded.isSome
  status : m.status = t.recorded.getD 200
  statusCode : m.inner.statusCode = t.recorded.getD 200
  sent : m.inner.inner.wroteHeader = t.sent.isSome
  sentStatus : ∀ code, t.sent = some code → m.inner.inner.status = code

theorem tracks_start (w : NetResponse) (hw : w.wroteHeader = false) :
    Tracks ⟨none, none⟩ ⟨newStatusRecorder w, 200, false⟩ :=
  ⟨rfl, rfl, rfl, hw, fun _ h => by cases h⟩

/-! ## The calls of a handler -/

theorem NetResponse.writeHeader_of_wrote {w : NetResponse} (hw : w.wroteHeader = true)
    (code : Int) : w.writeHeader code = (w, none) := by
  simp [NetResponse.writeHeader, hw]

theorem NetResponse.writeHeader_final {w : NetResponse} (hw : w.wroteHeader = false) {code : Int}
    (hf : Final code) :
    w.writeHeader code =
      ({ w with wroteHeader := true, status := code, sentHeader := w.header }, none) := by
  simp [NetResponse.writeHeader, hw, hf.valid, hf.2.2]

/-- A code that is not final leaves the status line to be written. -/
theorem NetResponse.writeHeader_not_final {w : NetResponse} (hw : w.wroteHeader = false)
    {code : Int} (hf : ¬ Final code) :
    (w.writeHeader code).1.wroteHeader = false ∧
      (w.writeHeader code).2.isSome = decide (code < 100 ∨ 999 < code) := by
  simp only [NetResponse.writeHeader, hw]
  by_cases hinvalid : code < 100 ∨ 999 < code
  · simp [hinvalid, hw]
  · have hinf : isInformational code := by
      by_contra hinf
      exact hf ⟨by omega, by omega, hinf⟩
    simp [hinvalid, hinf]

theorem NetResponse.finish_status (w : NetResponse) :
    w.finish.wroteHeader = true ∧ w.finish.status = if w.wroteHeader then w.status else 200 := by
  cases hw : w.wroteHeader <;> simp only [finish, hw, Bool.false_eq_true, if_false, if_true]
  · rw [NetResponse.writeHeader_final hw (by decide)]
    exact ⟨rfl, rfl⟩
  · exact ⟨trivial, trivial⟩

/-- A `Write` writes the status line as the end of the response does. -/
theorem NetResponse.write_eq (w : NetResponse) (data : List UInt8) :
    w.write data =
      if data = [] then (w.finish, none)
      else if ¬ bodyAllowedForStatus w.finish.status then
        (w.finish, some "http: request method or response status code does not allow body")
      else ({ w.finish with body := w.finish.body ++ data }, none) := rfl

theorem NetResponse.write_status (w : NetResponse) (data : List UInt8) :
    (w.write data).1.wroteHeader = w.finish.wroteHeader ∧
      (w.write data).1.status = w.finish.status := by
  rw [write_eq]
  split
  · exact ⟨rfl, rfl⟩
  · split <;> exact ⟨rfl, rfl⟩

/-- **One call.** The writers go on knowing what the track says, and the call
panics if the track says so. -/
theorem Tracks.perform {t : Track} {m : Wrapped} (h : Tracks t m) (call : WriterCall) :
    Tracks (t.step call).1 (Behaviour.perform m call).1 ∧
      (Behaviour.perform m call).2.isSome = (t.step call).2 := by
  cases call with
  | setHeader name value =>
    exact ⟨⟨h.wroteHeader, h.status, h.statusCode, h.sent, h.sentStatus⟩, rfl⟩
  | write data =>
    obtain ⟨hwrote, hstatus⟩ := m.inner.inner.write_status data
    obtain ⟨hwrote', hstatus'⟩ := m.inner.inner.finish_status
    refine ⟨⟨h.wroteHeader, h.status, h.statusCode, hwrote.trans hwrote', ?_⟩, rfl⟩
    rintro code hcode
    cases hcode
    refine hstatus.trans (hstatus'.trans ?_)
    rw [h.sent]
    cases hsent : t.sent with
    | none => rfl
    | some code => exact h.sentStatus code hsent
  | writeHeader code =>
    have hcall : Behaviour.perform m (.writeHeader code) =
        if ¬ m.wroteHeader then
          (⟨⟨(m.inner.inner.writeHeader code).1, code⟩, code, true⟩,
            (m.inner.inner.writeHeader code).2)
        else (m, none) := rfl
    rw [hcall, h.wroteHeader]
    cases hrec : t.recorded with
    | some c => simpa [Track.step, hrec] using h
    | none =>
      cases hsent : t.sent with
      | some c =>
        have hwrote : m.inner.inner.wroteHeader = true := by rw [h.sent, hsent]; rfl
        simp only [Track.step, hrec, hsent, NetResponse.writeHeader_of_wrote hwrote]
        refine ⟨⟨rfl, rfl, rfl, hwrote, ?_⟩, rfl⟩
        exact fun d hd => h.sentStatus d (hsent.trans hd)
      | none =>
        have hwrote : m.inner.inner.wroteHeader = false := by rw [h.sent, hsent]; rfl
        simp only [Track.step, hrec, hsent]
        by_cases hf : Final code
        · rw [NetResponse.writeHeader_final hwrote hf, if_pos hf]
          refine ⟨⟨rfl, rfl, rfl, rfl, ?_⟩, by simp [hf.valid]⟩
          rintro d ⟨⟩
          rfl
        · obtain ⟨hw, hpanic⟩ := NetResponse.writeHeader_not_final hwrote hf
          rw [if_neg hf]
          exact ⟨⟨rfl, rfl, rfl, hw, fun d hd => by cases hd⟩, hpanic⟩

/-- **All calls.** -/
theorem Tracks.performAll {t : Track} {m : Wrapped} (h : Tracks t m) (calls : List WriterCall) :
    Tracks (t.run calls).1 (Behaviour.performAll m calls).1 ∧
      (Behaviour.performAll m calls).2.isSome = (t.run calls).2 := by
  induction calls generalizing t m with
  | nil => exact ⟨h, rfl⟩
  | cons call calls ih =>
    obtain ⟨hnext, hpanic⟩ := h.perform call
    rw [Behaviour.performAll, Track.run]
    rcases hm : Behaviour.perform m call with ⟨m', _ | value⟩ <;>
      rcases ht : t.step call with ⟨t', panics⟩ <;>
      simp only [hm, ht, Option.isSome] at hnext hpanic <;> subst hpanic
    · exact ih hnext
    · exact ⟨hnext, rfl⟩

/-- The code of the first `WriteHeader`, or 200. -/
def firstCode : List WriterCall → Int
  | [] => 200
  | .writeHeader code :: _ => code
  | .setHeader _ _ :: calls | .write _ :: calls => firstCode calls

/-! ## When the recorded code is the one that is sent -/

/-- The first `WriteHeader`, if there is one, comes before any `Write` and has
a code that `net/http` sends as it is, or its code is 200. -/
def Straight (wrote : Bool) : List WriterCall → Prop
  | [] => True
  | .setHeader _ _ :: calls => Straight wrote calls
  | .write _ :: calls => Straight true calls
  | .writeHeader code :: _ => if wrote then code = 200 else Final code

instance Straight.decidable : ∀ wrote calls, Decidable (Straight wrote calls)
  | _, [] => isTrue trivial
  | wrote, .setHeader _ _ :: calls => Straight.decidable wrote calls
  | _, .write _ :: calls => Straight.decidable true calls
  | wrote, .writeHeader code :: _ =>
    inferInstanceAs (Decidable (if wrote then code = 200 else Final code))

/-- After the first `WriteHeader` nothing changes any more: a status line that
is still missing will say 200. -/
theorem Track.run_of_recorded {t : Track} {code : Int} (h : t.recorded = some code)
    (calls : List WriterCall) :
    (t.run calls).2 = false ∧ (t.run calls).1.recorded = some code ∧
      (t.run calls).1.sent.getD 200 = t.sent.getD 200 := by
  induction calls generalizing t with
  | nil => exact ⟨rfl, h, rfl⟩
  | cons call calls ih =>
    cases call with
    | setHeader name value => exact ih h
    | write data => exact ih (t := { t with sent := some (t.sent.getD 200) }) h
    | writeHeader c =>
      rw [run]
      simp only [step, h, Option.isSome_some, if_true]
      exact ih h

/-- What the recorders have is the first code. -/
theorem Track.recorded_getD (sent : Option Int) (calls : List WriterCall) :
    (Track.run ⟨none, sent⟩ calls).1.recorded.getD 200 = firstCode calls := by
  induction calls generalizing sent with
  | nil => rfl
  | cons call calls ih =>
    cases call with
    | setHeader name value => exact ih sent
    | write data => exact ih (some (sent.getD 200))
    | writeHeader code =>
      rw [run]
      rcases hstep : step ⟨none, sent⟩ (.writeHeader code) with ⟨t, panics⟩
      have hrec : t.recorded = some code := by
        have ht : t = (step ⟨none, sent⟩ (.writeHeader code)).1 := by rw [hstep]
        rw [ht]
        cases sent <;> rfl
      cases panics with
      | true => simp [hrec, firstCode]
      | false => simp [(Track.run_of_recorded hrec calls).2.1, firstCode]

/-- Before the first `WriteHeader` nothing but 200 can have been sent. -/
theorem Track.straight_iff {sent : Option Int} (hsent : sent.getD 200 = 200)
    (calls : List WriterCall) :
    Straight sent.isSome calls ↔
      (Track.run ⟨none, sent⟩ calls).2 = false ∧
        (Track.run ⟨none, sent⟩ calls).1.recorded.getD 200 =
          (Track.run ⟨none, sent⟩ calls).1.sent.getD 200 := by
  induction calls generalizing sent with
  | nil => simp [Straight, run, hsent]
  | cons call calls ih =>
    cases call with
    | setHeader name value => exact ih hsent
    | write data => exact @ih (some (sent.getD 200)) hsent
    | writeHeader code =>
      cases sent with
      | some c =>
        have hrun : Track.run ⟨none, some c⟩ (.writeHeader code :: calls) =
            Track.run ⟨some code, some c⟩ calls := rfl
        obtain ⟨hpanic, hrec, hlater⟩ :=
          Track.run_of_recorded (t := ⟨some code, some c⟩) rfl calls
        rw [hrun, hpanic, hrec, hlater]
        simp only [Option.getD_some] at hsent
        simp [Straight, hsent]
      | none =>
        by_cases hinvalid : code < 100 ∨ 999 < code
        · have hpanic : (Track.run ⟨none, none⟩ (.writeHeader code :: calls)).2 = true := by
            simp [run, step, hinvalid]
          have hnot : ¬ Final code := fun hf => hf.valid hinvalid
          simp [Straight, hpanic, hnot]
        · have hrun : Track.run ⟨none, none⟩ (.writeHeader code :: calls) =
              Track.run ⟨some code, if Final code then some code else none⟩ calls := by
            simp [run, step, hinvalid]
          obtain ⟨hpanic, hrec, hlater⟩ := Track.run_of_recorded
            (t := ⟨some code, if Final code then some code else none⟩) rfl calls
          rw [hrun, hpanic, hrec, hlater]
          by_cases hf : Final code
          · simp [Straight, hf]
          · -- what is left are the informational codes, and 200 is none of them
            have hne : code ≠ 200 := by
              rintro rfl
              exact hf (by decide)
            simp [Straight, hf, hne]

/-! ## The outcome of a request -/

/-- The request as the routes get it. -/
def Incoming.seen (env : ChainEnv) (r : Incoming) : Incoming :=
  { r with
    requestID := if r.requestIDHeader = "" then env.freshID else r.requestIDHeader
    body := if 0 < env.maxBodyBytes then r.body.limited env.maxBodyBytes.toNat else r.body }

/-- What becomes of the codes in the calls of a handler. -/
def Behaviour.track (b : Behaviour) : Track × Bool := Track.run ⟨none, none⟩ b.calls

/-- The calls panic, or the handler does after them. -/
def Behaviour.Panics (b : Behaviour) : Prop := b.track.2 = true ∨ b.panics ≠ none

/-- What `RecordHTTP` is called with, when the handler has returned. -/
def sampleOf (env : ChainEnv) (behaviour : Incoming → Behaviour) (r : Incoming) : HTTPSample :=
  ⟨r.method, r.path, firstCode (behaviour (r.seen env)).calls, env.metricsEnd - env.metricsStart⟩

/-- A panic comes out of the handler or out of `RecordHTTP`. -/
def Raises (env : ChainEnv) (behaviour : Incoming → Behaviour) (r : Incoming) : Prop :=
  (behaviour (r.seen env)).Panics ∨ env.withPanics (sampleOf env behaviour r) ≠ none

variable (env : ChainEnv) (behaviour : Incoming → Behaviour) (r : Incoming)

/-- The response as `Recovery` gets it. -/
def opened : NetResponse :=
  { NetResponse.new with
    header := (env.cors.headers r.origin []).secured.set "X-Request-Id" (r.seen env).requestID }

/-- Outside of `Recovery` only headers are set, unless the request is one that
`CORS` answers. -/
theorem chain_eq_recovery (hmethod : r.method ≠ "OPTIONS") (mux : HTTPHandler) :
    chain env mux NetResponse r (.new, .init) =
      recovery (accessLog env.logStart env.logEnd (metricsMiddleware env.withPanics
        env.metricsStart env.metricsEnd (bodyLimit env.maxBodyBytes mux))) NetResponse
        { r with requestID := (r.seen env).requestID } (opened env r, .init) := by
  simp only [chain, cors, if_neg hmethod, securityHeaders, requestID, ResponseWriter.header,
    ResponseWriter.setHeader, opened, Incoming.seen, NetResponse.new]

/-- The routes behind `BodyLimit`, on the writers that the recorders make. -/
theorem routes_wrapped (m : Wrapped) (o : Observed) :
    bodyLimit env.maxBodyBytes (routes behaviour) Wrapped
        { r with requestID := (r.seen env).requestID } (m, o) =
      ((((behaviour (r.seen env)).run m).1, o), ((behaviour (r.seen env)).run m).2) := by
  simp only [bodyLimit, routes, Incoming.seen]
  split <;> rfl

/-- What the routes leave of the writers. -/
theorem Behaviour.tracks_run (b : Behaviour) {w : NetResponse} (hw : w.wroteHeader = false) :
    Tracks b.track.1 (b.run (⟨newStatusRecorder w, 200, false⟩ : Wrapped)).1 ∧
      ((b.run (⟨newStatusRecorder w, 200, false⟩ : Wrapped)).2 ≠ none ↔ b.Panics) := by
  obtain ⟨h, hpanic⟩ := (tracks_start w hw).performAll b.calls
  simp only [Behaviour.run, Behaviour.Panics, Behaviour.track]
  rcases hm : Behaviour.performAll (⟨newStatusRecorder w, 200, false⟩ : Wrapped) b.calls
    with ⟨m, _ | value⟩
  · rw [hm] at h hpanic
    exact ⟨h, by simp [← hpanic]⟩
  · rw [hm] at h hpanic
    exact ⟨h, by simp [← hpanic]⟩

/-- The status line has been written, with the code. -/
structure HasSent (w : NetResponse) (code : Int) : Prop where
  wrote : w.wroteHeader = true
  status : w.status = code

namespace HasSent

variable {w : NetResponse} {code : Int}

theorem setHeader (hw : HasSent w code) (h : Header) :
    HasSent (ResponseWriter.setHeader w h) code := ⟨hw.wrote, hw.status⟩

theorem writeHeader (hw : HasSent w code) (c : Int) :
    ResponseWriter.writeHeader w c = (w, none) :=
  NetResponse.writeHeader_of_wrote hw.wrote c

theorem finish (hw : HasSent w code) : w.finish = w := if_pos hw.wrote

theorem write (hw : HasSent w code) (data : List UInt8) :
    HasSent (ResponseWriter.write w data).1 code := by
  obtain ⟨hwrote, hstatus⟩ := w.write_status data
  rw [hw.finish] at hwrote hstatus
  exact ⟨hwrote.trans hw.wrote, hstatus.trans hw.status⟩

theorem httpError (hw : HasSent w code) (text : List UInt8) (c : Int) :
    HasSent (httpError w text c).1 code := by
  simp only [Server.httpError, (hw.setHeader _).writeHeader]
  exact (hw.setHeader _).write text

theorem encodeJSON (hw : HasSent w code) (data : List UInt8) :
    HasSent (encodeJSON w data).1 code := by
  have hwrite := hw.write data
  rw [Server.encodeJSON]
  split
  · rename_i heq
    rwa [heq] at hwrite
  · rename_i heq
    rw [heq] at hwrite
    exact hwrite.httpError _ 500

end HasSent

theorem responseJSON_eq {w w' : NetResponse} {code : Int}
    (h : (ResponseWriter.setHeader w ((header w).set "Content-Type" "application/json")).writeHeader
      code = (w', none)) (data : List UInt8) : responseJSON w code data = encodeJSON w' data := by
  simp only [responseJSON, ResponseWriter.writeHeader, h]

/-- The answer of `Recovery` has the status 500, unless another one has been
sent. -/
theorem hasSent_internalError (w : NetResponse) (data : List UInt8) :
    HasSent (responseJSON w 500 data).1 (if w.wroteHeader then w.status else 500) := by
  let u : NetResponse := ResponseWriter.setHeader w
    ((header w).set "Content-Type" "application/json")
  have hu : u.wroteHeader = w.wroteHeader := rfl
  cases hw : w.wroteHeader with
  | false =>
    rw [hw] at hu
    rw [responseJSON_eq (NetResponse.writeHeader_final hu (show Final 500 by decide))]
    exact HasSent.encodeJSON ⟨rfl, rfl⟩ data
  | true =>
    rw [hw] at hu
    rw [responseJSON_eq (NetResponse.writeHeader_of_wrote hu 500)]
    exact HasSent.encodeJSON ⟨hu, rfl⟩ data

/-- The status of the response, where `d` stands in for one that is not there
yet. -/
theorem Tracks.status_getD {t : Track} {m : Wrapped} (h : Tracks t m) (d : Int) :
    (if m.inner.inner.wroteHeader then m.inner.inner.status else d) = t.sent.getD d := by
  rw [h.sent]
  cases hsent : t.sent with
  | none => rfl
  | some code => exact h.sentStatus code hsent

/-- `CORS` answers an `OPTIONS` request itself, and nothing is observed. -/
theorem exchange_options (hmethod : r.method = "OPTIONS") :
    (exchange env behaviour r).1.status = 204 ∧ (exchange env behaviour r).2 = .init := by
  have hchain : chain env (routes behaviour) NetResponse r (.new, .init) = _ := if_pos hmethod
  rw [exchange, hchain]
  exact ⟨rfl, rfl⟩

theorem Tracks.status_eq {b : Behaviour} {m : Wrapped} (h : Tracks b.track.1 m) :
    m.status = firstCode b.calls ∧ m.inner.statusCode = firstCode b.calls := by
  rw [h.status, h.statusCode, Behaviour.track, Track.recorded_getD]
  exact ⟨rfl, rfl⟩

/-- A handler that returns is logged and measured once, with the code of its
first `WriteHeader`. -/
theorem exchange_returned (hmethod : r.method ≠ "OPTIONS") (hret : ¬ Raises env behaviour r) :
    (exchange env behaviour r).1.status = (behaviour (r.seen env)).track.1.sent.getD 200 ∧
    (exchange env behaviour r).2 =
      { logs := [.httpRequest r.method r.path (firstCode (behaviour (r.seen env)).calls)
          ((env.logEnd - env.logStart).tdiv 1000000) (r.seen env).requestID]
        samples := [sampleOf env behaviour r]
        inFlight := 0 } := by
  obtain ⟨htrack, hpanic⟩ := (behaviour (r.seen env)).tracks_run (w := opened env r) rfl
  obtain ⟨hreturns, hlabels⟩ := not_or.mp hret
  rw [not_not, sampleOf] at hlabels
  have hnone := not_not.mp (fun h => hreturns (hpanic.mp h))
  simp only [exchange, chain_eq_recovery env r hmethod, recovery, accessLog, metricsMiddleware]
  rw [routes_wrapped, hnone]
  simp only [recordHTTP, htrack.status_eq.1, hlabels]
  refine ⟨(NetResponse.finish_status _).2.trans (htrack.status_getD 200), ?_⟩
  simp only [htrack.status_eq.2]
  rfl

/-- A panic is answered by `Recovery`, outside of the log and the metrics. -/
theorem exchange_panicked (hmethod : r.method ≠ "OPTIONS") (hraises : Raises env behaviour r) :
    (exchange env behaviour r).1.status = (behaviour (r.seen env)).track.1.sent.getD 500 ∧
    ∃ value, (exchange env behaviour r).2 =
      ⟨[.panicRecovered value r.method r.path (r.seen env).requestID], [], 0⟩ := by
  obtain ⟨htrack, hpanic⟩ := (behaviour (r.seen env)).tracks_run (w := opened env r) rfl
  have hsent := hasSent_internalError ((behaviour (r.seen env)).run
    (⟨newStatusRecorder (opened env r), 200, false⟩ : Wrapped)).1.inner.inner internalErrorJSON
  have hstatus := (congrArg NetResponse.status hsent.finish).trans
    (hsent.status.trans (htrack.status_getD 500))
  simp only [exchange, chain_eq_recovery env r hmethod, recovery, accessLog, metricsMiddleware]
  rw [routes_wrapped]
  by_cases hpanics : (behaviour (r.seen env)).Panics
  · obtain ⟨value, hvalue⟩ := Option.ne_none_iff_exists'.mp (hpanic.mpr hpanics)
    rw [hvalue]
    exact ⟨hstatus, value, rfl⟩
  · -- the handler has returned, and the labels are not taken
    obtain ⟨value, hvalue⟩ := Option.ne_none_iff_exists'.mp (hraises.resolve_left hpanics)
    rw [not_not.mp (fun h => hpanics (hpanic.mp h))]
    rw [sampleOf] at hvalue
    simp only [recordHTTP, htrack.status_eq.1, hvalue]
    exact ⟨hstatus, value, rfl⟩

/-! ## The log, the metrics and the client -/

/-- The statuses in the access log. -/
def Observed.loggedStatuses (o : Observed) : List Int :=
  o.logs.filterMap fun
    | .httpRequest _ _ status _ _ => some status
    | .panicRecovered .. => none

/-- The statuses in the calls of `RecordHTTP`. -/
def Observed.sampledStatuses (o : Observed) : List Int := o.samples.map HTTPSample.status

/-- The calls of `response.JSON`, which the handlers of the program answer
with. -/
def Behaviour.json (code : Int) (data : List UInt8) : Behaviour where
  calls := [.setHeader "Content-Type" "application/json", .writeHeader code, .write data]
  panics := none

/-- Such an answer is logged, measured and sent with its code. -/
theorem exchange_json (hmethod : r.method ≠ "OPTIONS") {code : Int} (hcode : Final code)
    {data : List UInt8} (hjson : behaviour (r.seen env) = .json code data)
    (hlabels : env.withPanics (sampleOf env behaviour r) = none) :
    (exchange env behaviour r).1.status = code ∧
      (exchange env behaviour r).2.loggedStatuses = [code] ∧
      (exchange env behaviour r).2.sampledStatuses = [code] := by
  have hvalid : ¬ (code < 100 ∨ 999 < code) := hcode.valid
  have htrack : (Behaviour.json code data).track = (⟨some code, some code⟩, false) := by
    simp [Behaviour.track, Behaviour.json, Track.run, Track.step, hcode, hvalid]
  have hret : ¬ Raises env behaviour r := by
    rw [Raises, hjson, Behaviour.Panics, htrack]
    simp [Behaviour.json, hlabels]
  obtain ⟨hstatus, hobserved⟩ := exchange_returned env behaviour r hmethod hret
  rw [hjson, htrack] at hstatus
  rw [hobserved, sampleOf, hjson]
  exact ⟨hstatus, rfl, rfl⟩

/-- **What is logged and measured is what the client got** exactly if the
request is no `OPTIONS` request, the handler does not panic, its first
`WriteHeader` is one that `net/http` sends, and the metrics library takes the
method, the path and that code as labels. -/
theorem logged_as_sent_iff :
    ((exchange env behaviour r).2.loggedStatuses = [(exchange env behaviour r).1.status] ∧
      (exchange env behaviour r).2.sampledStatuses = [(exchange env behaviour r).1.status]) ↔
    r.method ≠ "OPTIONS" ∧ (behaviour (r.seen env)).panics = none ∧
      Straight false (behaviour (r.seen env)).calls ∧
      env.withPanics (sampleOf env behaviour r) = none := by
  by_cases hmethod : r.method = "OPTIONS"
  · rw [(exchange_options env behaviour r hmethod).2]
    simp [hmethod, Observed.init, Observed.loggedStatuses]
  have hstraight : Straight false (behaviour (r.seen env)).calls ↔ _ :=
    Track.straight_iff (by rfl : (none : Option Int).getD 200 = 200) (behaviour (r.seen env)).calls
  by_cases hraises : Raises env behaviour r
  · obtain ⟨_, value, hobserved⟩ := exchange_panicked env behaviour r hmethod hraises
    have hnot : ¬ ((behaviour (r.seen env)).panics = none ∧
        Straight false (behaviour (r.seen env)).calls ∧
        env.withPanics (sampleOf env behaviour r) = none) := by
      rintro ⟨hnone, hcalls, hlabels⟩
      have hfalse := (hstraight.mp hcalls).1
      rcases hraises with (hcall | hsome) | hsome
      · rw [Behaviour.track, hfalse] at hcall
        cases hcall
      · exact hsome hnone
      · exact hsome hlabels
    simp [hobserved, Observed.loggedStatuses, hmethod, hnot]
  · obtain ⟨hstatus, hobserved⟩ := exchange_returned env behaviour r hmethod hraises
    obtain ⟨hpanics, hlabels⟩ := not_or.mp hraises
    obtain ⟨hcalls, hnone⟩ := not_or.mp hpanics
    rw [Bool.not_eq_true, Behaviour.track] at hcalls
    rw [Track.recorded_getD] at hstraight
    have hsample : (sampleOf env behaviour r).status = firstCode (behaviour (r.seen env)).calls :=
      rfl
    rw [hobserved, hstatus, hstraight, Behaviour.track]
    simp [Observed.loggedStatuses, Observed.sampledStatuses, hsample, hmethod, not_not.mp hnone,
      not_not.mp hlabels, hcalls]

/-- A request for the list of users. -/
def sampleGet (method : String) : Incoming :=
  ⟨method, "/users".toUTF8.toList, "", "", .noBody, ""⟩

/-- `With` does not take a byte that is in no UTF-8 text. -/
def sampleChainEnv : ChainEnv where
  cors := ⟨[], [], [], [], 0⟩
  maxBodyBytes := 0
  freshID := "id"
  logStart := 0
  logEnd := 0
  metricsStart := 0
  metricsEnd := 0
  withPanics sample := if 0xff ∈ sample.path then some "label value is not valid UTF-8" else none

/-- Nothing is logged or measured of an `OPTIONS` request, which is answered
with 204, of a request whose handler panics, which is answered with 500, and of
`GET /%ff`, which is answered with the 404 of its handler. A handler that writes
before it calls `WriteHeader(500)` is answered with 200, and 500 is logged and
measured. -/
theorem logged_otherwise_than_sent :
    let outcome := fun (r : Incoming) (b : Behaviour) =>
      let x := exchange sampleChainEnv (fun _ => b) r
      (x.1.status, x.2.loggedStatuses, x.2.sampledStatuses)
    outcome (sampleGet "OPTIONS") ⟨[.writeHeader 200], none⟩ = (204, [], []) ∧
    outcome (sampleGet "GET") ⟨[], some "nil map"⟩ = (500, [], []) ∧
    outcome { sampleGet "GET" with path := [47, 0xff] } ⟨[.writeHeader 404], none⟩ =
      (404, [], []) ∧
    outcome (sampleGet "GET") ⟨[.write [111], .writeHeader 500], none⟩ = (200, [500], [500]) := by
  decide +kernel

end GoRestApi.Server
