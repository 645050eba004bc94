/-
GoRestApi.Server.CorsTheorems — what the CORS middleware puts into a response,
for two requests that differ in their `Origin`.

The headers are written before the request is handed on, so what a client
sees of them depends on the rest of the chain. `HTTPHandler.Keeps` says that a
handler leaves a header as it finds it, on every writer around the response of
`net/http`; each middleware below `CORS` keeps the headers it does not name
(`keeps_innerChain`), and so does every route that does not set them.

`lookup_corsResponse` then gives a header of the response: the origin is echoed
when it is allowed, and `Vary` is set only next to an echoed origin, and only
without the wildcard. A response without `Access-Control-Allow-Origin` never
says that another origin would have got one.
-/
import GoRestApi.Server.ChainTheorems

namespace GoRestApi.Server

open Go ResponseWriter

/-! ## Headers by name -/

namespace Header

theorem lookup_filter_of_ne {name dropped : String} (h : name ≠ dropped) (hs : Header) :
    (hs.filter fun x => x.1 ≠ dropped).lookup name = hs.lookup name := by
  induction hs with
  | nil => rfl
  | cons x hs ih =>
    by_cases hx : x.1 = dropped
    · have hne : (name == x.1) = false := beq_eq_false_iff_ne.2 (hx ▸ h)
      rw [List.filter_cons_of_neg (by simp [hx]), ih, List.lookup_cons, hne]
    · rw [List.filter_cons_of_pos (by simp [hx]), List.lookup_cons, List.lookup_cons, ih]

theorem lookup_filter_self (name : String) (hs : Header) :
    (hs.filter fun x => x.1 ≠ name).lookup name = none := by
  rw [List.lookup_eq_none_iff]
  intro x hx
  have hne : x.1 ≠ name := by simpa using (List.mem_filter.1 hx).2
  exact bne_iff_ne.2 hne.symm

theorem lookup_set_self (hs : Header) (name value : String) :
    (hs.set name value).lookup name = some value := by
  rw [set, List.lookup_append, lookup_filter_self]
  simp

theorem lookup_set_of_ne {name other : String} (h : name ≠ other) (hs : Header) (value : String) :
    (hs.set other value).lookup name = hs.lookup name := by
  have hne : (name == other) = false := beq_eq_false_iff_ne.2 h
  rw [set, List.lookup_append, lookup_filter_of_ne h]
  simp [List.lookup_cons, hne]

theorem lookup_setIfMissing_of_ne {name other : String} (h : name ≠ other) (hs : Header)
    (value : String) : (hs.setIfMissing other value).lookup name = hs.lookup name := by
  unfold setIfMissing
  split
  · exact lookup_set_of_ne h hs value
  · rfl

end Header

/-! ## A header on its way to the client -/

namespace NetResponse

/-- The header `name` has the value `v`, and had it when the status line was
written. -/
structure Shows (name : String) (v : Option String) (w : NetResponse) : Prop where
  header : w.header.lookup name = v
  sent : w.wroteHeader = true → w.sentHeader.lookup name = v

variable {name : String} {v : Option String} {w : NetResponse}

theorem Shows.setHeader (hw : w.Shows name v) {h : Header} (hh : h.lookup name = v) :
    Shows name v { w with header := h } := ⟨hh, hw.sent⟩

theorem Shows.writeHeader (hw : w.Shows name v) (code : Int) :
    (w.writeHeader code).1.Shows name v := by
  unfold NetResponse.writeHeader
  split
  · exact hw
  · split
    · exact hw
    · split
      · exact ⟨hw.header, hw.sent⟩
      · exact ⟨hw.header, fun _ => hw.header⟩

theorem Shows.finish (hw : w.Shows name v) : w.finish.Shows name v := by
  unfold NetResponse.finish
  split
  · exact hw
  · exact hw.writeHeader 200

theorem Shows.write (hw : w.Shows name v) (data : List UInt8) :
    (w.write data).1.Shows name v := by
  rw [write_eq]
  split
  · exact hw.finish
  · split
    · exact hw.finish
    · exact ⟨hw.finish.header, hw.finish.sent⟩

/-- What the client gets. -/
theorem Shows.sent_finish (hw : w.Shows name v) : w.finish.sentHeader.lookup name = v :=
  hw.finish.sent w.finish_status.1

end NetResponse

/-- A writer that stands before the response of `net/http`. -/
class Fronts (ω : Type) [ResponseWriter ω] where
  net : ω → NetResponse
  header_eq (w : ω) : header w = (net w).header
  net_setHeader (w : ω) (h : Header) : net (setHeader w h) = { net w with header := h }
  /-- a call of `WriteHeader` may be held back -/
  net_writeHeader (w : ω) (code : Int) :
    net (writeHeader w code).1 = net w ∨
      net (writeHeader w code).1 = ((net w).writeHeader code).1
  net_write (w : ω) (data : List UInt8) : net (write w data).1 = ((net w).write data).1

open Fronts

instance : Fronts NetResponse where
  net := id
  header_eq _ := rfl
  net_setHeader _ _ := rfl
  net_writeHeader _ _ := Or.inr rfl
  net_write _ _ := rfl

instance {ω : Type} [ResponseWriter ω] [Fronts ω] : Fronts (StatusRecorder ω) where
  net r := net r.inner
  header_eq r := header_eq r.inner
  net_setHeader r h := net_setHeader r.inner h
  net_writeHeader r code := net_writeHeader r.inner code
  net_write r data := net_write r.inner data

instance {ω : Type} [ResponseWriter ω] [Fronts ω] : Fronts (MetricsRecorder ω) where
  net r := net r.inner
  header_eq r := header_eq r.inner
  net_setHeader r h := net_setHeader r.inner h
  net_writeHeader r code := by
    cases hwrote : r.wroteHeader
    · have hcall : (writeHeader r code).1 = ⟨(writeHeader r.inner code).1, code, true⟩ := by
        simp [writeHeader, hwrote]
      rw [hcall]
      exact net_writeHeader r.inner code
    · left
      simp [writeHeader, hwrote]
  net_write r data := net_write r.inner data

section

variable {ω : Type} [ResponseWriter ω] [Fronts ω] {name : String} {v : Option String} {w : ω}

theorem shows_setHeader (hw : (net w).Shows name v) {h : Header}
    (hh : h.lookup name = (header w).lookup name) : (net (setHeader w h)).Shows name v := by
  rw [net_setHeader]
  refine hw.setHeader ?_
  rw [hh, header_eq]
  exact hw.header

theorem shows_writeHeader (hw : (net w).Shows name v) (code : Int) :
    (net (writeHeader w code).1).Shows name v := by
  rcases net_writeHeader w code with h | h <;> rw [h]
  · exact hw
  · exact hw.writeHeader code

theorem shows_write (hw : (net w).Shows name v) (data : List UInt8) :
    (net (write w data).1).Shows name v := by
  rw [net_write]
  exact hw.write data

/-- The headers that are set below `CORS`. -/
def innerHeaders : List String :=
  ["Content-Length", "Content-Type", "X-Content-Type-Options", "X-Request-Id", "X-Frame-Options",
    "Referrer-Policy"]

theorem ne_of_not_inner (hname : name ∉ innerHeaders) {other : String} (h : other ∈ innerHeaders) :
    name ≠ other := fun he => hname (he ▸ h)

theorem shows_httpError (hname : name ∉ innerHeaders) (hw : (net w).Shows name v)
    (text : List UInt8) (code : Int) : (net (httpError w text code).1).Shows name v := by
  have hset := shows_writeHeader (shows_setHeader hw (h := Header.set (Header.set
      ((header w).filter fun x => x.1 ≠ "Content-Length") "Content-Type"
        "text/plain; charset=utf-8") "X-Content-Type-Options" "nosniff") (by
    rw [Header.lookup_set_of_ne (ne_of_not_inner hname (by simp [innerHeaders])),
      Header.lookup_set_of_ne (ne_of_not_inner hname (by simp [innerHeaders])),
      Header.lookup_filter_of_ne (ne_of_not_inner hname (by simp [innerHeaders]))])) code
  unfold httpError
  dsimp only
  split
  · rename_i heq
    rw [heq] at hset
    exact hset
  · rename_i heq
    rw [heq] at hset
    exact shows_write hset text

theorem shows_encodeJSON (hname : name ∉ innerHeaders) (hw : (net w).Shows name v)
    (data : List UInt8) : (net (encodeJSON w data).1).Shows name v := by
  have hwrite := shows_write hw data
  unfold encodeJSON
  split
  · rename_i heq
    rw [heq] at hwrite
    exact hwrite
  · rename_i heq
    rw [heq] at hwrite
    exact shows_httpError hname hwrite _ _

theorem shows_responseJSON (hname : name ∉ innerHeaders) (hw : (net w).Shows name v)
    (statusCode : Int) (data : List UInt8) :
    (net (responseJSON w statusCode data).1).Shows name v := by
  have hne : name ≠ "Content-Type" := ne_of_not_inner hname (by simp [innerHeaders])
  have hset := shows_writeHeader (shows_setHeader hw (Header.lookup_set_of_ne hne (header w)
    "application/json")) statusCode
  unfold responseJSON
  split
  · rename_i heq
    rw [heq] at hset
    exact hset
  · rename_i heq
    rw [heq] at hset
    exact shows_encodeJSON hname hset data

end

/-! ## Handlers that leave a header alone -/

namespace HTTPHandler

/-- The handler leaves the header as it finds it, on any writer before the
response. -/
def Keeps (next : HTTPHandler) (name : String) : Prop :=
  ∀ (ω : Type) [ResponseWriter ω] [Fronts ω] (r : Incoming) (s : ω × Observed)
    (v : Option String), (net s.1).Shows name v → (net (next ω r s).1.1).Shows name v

variable {next : HTTPHandler} {name : String}

theorem Keeps.bodyLimit (h : next.Keeps name) (maxBytes : Int) :
    (bodyLimit maxBytes next).Keeps name := by
  intro ω _ _ r s v hs
  unfold Server.bodyLimit
  split
  · exact h ω _ s v hs
  · exact h ω r s v hs

theorem Keeps.metricsMiddleware (h : next.Keeps name) (withPanics : HTTPSample → Option String)
    (startedAt endedAt : Time) :
    (metricsMiddleware withPanics startedAt endedAt next).Keeps name := by
  intro ω _ _ r s v hs
  have hnext := h (MetricsRecorder ω) r
    (⟨s.1, 200, false⟩, { s.2 with inFlight := s.2.inFlight + 1 }) v hs
  unfold Server.metricsMiddleware
  split <;> rename_i heq <;> rw [heq] at hnext <;> exact hnext

theorem Keeps.accessLog (h : next.Keeps name) (startedAt endedAt : Time) :
    (accessLog startedAt endedAt next).Keeps name := by
  intro ω _ _ r s v hs
  have hnext := h (StatusRecorder ω) r (newStatusRecorder s.1, s.2) v hs
  unfold Server.accessLog
  split <;> rename_i heq <;> rw [heq] at hnext <;> exact hnext

theorem Keeps.recovery (h : next.Keeps name) (hname : name ∉ innerHeaders) :
    (recovery next).Keeps name := by
  intro ω _ _ r s v hs
  have hnext := h ω r s v hs
  unfold Server.recovery
  split
  · rename_i heq
    rw [heq] at hnext
    exact hnext
  · rename_i heq
    rw [heq] at hnext
    exact shows_responseJSON hname hnext 500 internalErrorJSON

theorem Keeps.requestID (h : next.Keeps name) (hname : name ∉ innerHeaders) (fresh : String) :
    (requestID fresh next).Keeps name := by
  intro ω _ _ r s v hs
  refine h ω _ _ v (shows_setHeader hs ?_)
  exact Header.lookup_set_of_ne (ne_of_not_inner hname (by simp [innerHeaders])) _ _

theorem Keeps.securityHeaders (h : next.Keeps name) (hname : name ∉ innerHeaders) :
    (securityHeaders next).Keeps name := by
  intro ω _ _ r s v hs
  refine h ω r _ v (shows_setHeader hs ?_)
  unfold Header.secured
  rw [Header.lookup_setIfMissing_of_ne (ne_of_not_inner hname (by simp [innerHeaders])),
    Header.lookup_setIfMissing_of_ne (ne_of_not_inner hname (by simp [innerHeaders])),
    Header.lookup_setIfMissing_of_ne (ne_of_not_inner hname (by simp [innerHeaders]))]

end HTTPHandler

/-- The calls do not set the header. -/
def Behaviour.Spares (b : Behaviour) (name : String) : Prop :=
  ∀ value, .setHeader name value ∉ b.calls

theorem shows_performAll {ω : Type} [ResponseWriter ω] [Fronts ω] {name : String}
    {v : Option String} {calls : List WriterCall} (h : ∀ value, .setHeader name value ∉ calls)
    {w : ω} (hw : (net w).Shows name v) :
    (net (Behaviour.performAll w calls).1).Shows name v := by
  induction calls generalizing w with
  | nil => exact hw
  | cons call calls ih =>
    have hcall : (net (Behaviour.perform w call).1).Shows name v := by
      cases call with
      | setHeader other value =>
        have hne : name ≠ other := fun he => h value (he ▸ List.mem_cons_self)
        exact shows_setHeader hw (Header.lookup_set_of_ne hne _ _)
      | writeHeader code => exact shows_writeHeader hw code
      | write data => exact shows_write hw data
    have hrest := fun value hmem => h value (List.mem_cons_of_mem _ hmem)
    rw [Behaviour.performAll]
    split <;> rename_i heq <;> rw [heq] at hcall
    · exact hcall
    · exact ih hrest hcall

theorem Behaviour.run_fst {ω : Type} [ResponseWriter ω] (b : Behaviour) (w : ω) :
    (b.run w).1 = (performAll w b.calls).1 := by
  rw [run]
  split <;> simp only [*]

theorem keeps_routes {behaviour : Incoming → Behaviour} {name : String}
    (h : ∀ r, (behaviour r).Spares name) : (routes behaviour).Keeps name := by
  intro ω _ _ r s v hs
  have hroutes : (routes behaviour ω r s).1.1 = ((behaviour r).run s.1).1 := rfl
  rw [hroutes, Behaviour.run_fst]
  exact shows_performAll (h r) hs

/-- The chain of `server.New` below `CORS`. -/
def innerChain (env : ChainEnv) (mux : HTTPHandler) : HTTPHandler :=
  securityHeaders <|
    requestID env.freshID <|
      recovery <|
        accessLog env.logStart env.logEnd <|
          metricsMiddleware env.withPanics env.metricsStart env.metricsEnd <|
            bodyLimit env.maxBodyBytes mux

theorem chain_eq (env : ChainEnv) (mux : HTTPHandler) :
    chain env mux = cors env.cors (innerChain env mux) := rfl

/-- **The rest of the chain.** It keeps every header but its own, if the routes
do. -/
theorem keeps_innerChain (env : ChainEnv) {mux : HTTPHandler} {name : String}
    (hname : name ∉ innerHeaders) (h : mux.Keeps name) : (innerChain env mux).Keeps name :=
  .securityHeaders
    (.requestID
      (.recovery (.accessLog (.metricsMiddleware (.bodyLimit h _) _ _ _) _ _) hname) hname _) hname

/-! ## The two headers of a response -/

namespace CORSConfig

/-- The origin is answered with itself. -/
def echoes (cfg : CORSConfig) (origin : String) : Prop :=
  origin ≠ "" ∧ (cfg.allowAll ∨ origin ∈ cfg.allowedOrigins)

instance (cfg : CORSConfig) (origin : String) : Decidable (cfg.echoes origin) :=
  inferInstanceAs (Decidable (_ ∧ _))

def allowOrigin (cfg : CORSConfig) (origin : String) : Option String :=
  if cfg.echoes origin then some origin else none

def vary (cfg : CORSConfig) (origin : String) : Option String :=
  if cfg.echoes origin ∧ ¬ cfg.allowAll then some "Origin" else none

/-- The exposed headers come under a name of their own. -/
theorem lookup_exposed (cfg : CORSConfig) (h : Header) {name : String}
    (hname : name ≠ "Access-Control-Expose-Headers") :
    (if 0 < cfg.exposedHeaders.length then
      h.set "Access-Control-Expose-Headers" (", ".intercalate cfg.exposedHeaders)
    else h).lookup name = h.lookup name := by
  split
  · exact Header.lookup_set_of_ne hname _ _
  · rfl

theorem headers_nil (cfg : CORSConfig) (origin : String) :
    cfg.headers origin [] =
      let h : Header :=
        if cfg.echoes origin then
          let h := Header.set [] "Access-Control-Allow-Origin" origin
          if ¬ cfg.allowAll then h.set "Vary" "Origin" else h
        else []
      if 0 < cfg.exposedHeaders.length then
        h.set "Access-Control-Expose-Headers" (", ".intercalate cfg.exposedHeaders)
      else h := rfl

theorem lookup_headers_allowOrigin (cfg : CORSConfig) (origin : String) :
    (cfg.headers origin []).lookup "Access-Control-Allow-Origin" = cfg.allowOrigin origin := by
  simp only [headers_nil, lookup_exposed cfg _ (show "Access-Control-Allow-Origin" ≠ _ by simp)]
  by_cases hecho : cfg.echoes origin
  · rw [allowOrigin, if_pos hecho, if_pos hecho]
    split
    · rw [Header.lookup_set_of_ne (by simp), Header.lookup_set_self]
    · rw [Header.lookup_set_self]
  · rw [allowOrigin, if_neg hecho, if_neg hecho]
    rfl

theorem lookup_headers_vary (cfg : CORSConfig) (origin : String) :
    (cfg.headers origin []).lookup "Vary" = cfg.vary origin := by
  simp only [headers_nil, lookup_exposed cfg _ (show "Vary" ≠ _ by simp)]
  by_cases hecho : cfg.echoes origin
  · rw [vary, if_pos hecho]
    split <;> rename_i hall
    · rw [if_pos ⟨hecho, hall⟩, Header.lookup_set_self]
    · rw [if_neg fun h => hall h.2, Header.lookup_set_of_ne (by simp)]
      rfl
  · rw [vary, if_neg hecho, if_neg fun h => hecho h.1]
    rfl

theorem lookup_preflightHeaders (cfg : CORSConfig) (h : Header) {name : String}
    (hname : name = "Access-Control-Allow-Origin" ∨ name = "Vary") :
    (cfg.preflightHeaders h).lookup name = h.lookup name := by
  unfold preflightHeaders
  rcases hname with rfl | rfl <;>
    rw [Header.lookup_set_of_ne (by simp), Header.lookup_set_of_ne (by simp),
      Header.lookup_set_of_ne (by simp)]

end CORSConfig

/-- The header of the response that a client gets through `CORS`. -/
def corsResponse (cfg : CORSConfig) (next : HTTPHandler) (r : Incoming) : Header :=
  (cors cfg next NetResponse r (.new, .init)).1.1.finish.sentHeader

theorem lookup_corsResponse (cfg : CORSConfig) {next : HTTPHandler} {name : String}
    (hname : name = "Access-Control-Allow-Origin" ∨ name = "Vary") (hnext : next.Keeps name)
    (r : Incoming) :
    (corsResponse cfg next r).lookup name = (cfg.headers r.origin []).lookup name := by
  let w : NetResponse := { NetResponse.new with header := cfg.headers r.origin [] }
  have hw : w.Shows name ((cfg.headers r.origin []).lookup name) := ⟨rfl, fun h => by cases h⟩
  refine NetResponse.Shows.sent_finish ?_
  unfold cors
  dsimp only
  split
  · -- a preflight is answered here
    have hset := hw.setHeader (cfg.lookup_preflightHeaders w.header hname)
    exact hset.writeHeader 204
  · exact hnext NetResponse r (w, .init) _ hw

/-- The responses of the server are such responses. -/
theorem sentHeader_exchange (env : ChainEnv) (behaviour : Incoming → Behaviour) (r : Incoming) :
    (exchange env behaviour r).1.sentHeader =
      corsResponse env.cors (innerChain env (routes behaviour)) r := rfl

/-- Routes that answer 200, below the rest of the chain. -/
def sampleInner : HTTPHandler :=
  innerChain sampleChainEnv (routes fun _ => ⟨[.writeHeader 200], none⟩)

theorem keeps_sampleInner {name : String} (hname : name ∉ innerHeaders) :
    sampleInner.Keeps name := by
  refine keeps_innerChain _ hname (keeps_routes fun _ value h => ?_)
  simp at h

def sampleOrigins (origins : List String) : CORSConfig := ⟨origins, [], [], [], 0⟩

/-- **CORS and caches.** For a handler that sets neither header and two requests
that differ in their origin only: that different `Access-Control-Allow-Origin`
headers come with `Vary: Origin` in both responses holds exactly if the two
origins are answered alike, or both are listed and the list has no wildcard.
The origin that a response names is always a listed one, or there is the
wildcard. -/
theorem cors_cacheable_iff (cfg : CORSConfig) {next : HTTPHandler}
    (horigin : next.Keeps "Access-Control-Allow-Origin") (hvary : next.Keeps "Vary")
    (r : Incoming) (o₁ o₂ : String) :
    (((corsResponse cfg next { r with origin := o₁ }).lookup "Access-Control-Allow-Origin" ≠
        (corsResponse cfg next { r with origin := o₂ }).lookup "Access-Control-Allow-Origin" →
      (corsResponse cfg next { r with origin := o₁ }).lookup "Vary" = some "Origin" ∧
        (corsResponse cfg next { r with origin := o₂ }).lookup "Vary" = some "Origin") ↔
      cfg.allowOrigin o₁ = cfg.allowOrigin o₂ ∨
        ("*" ∉ cfg.allowedOrigins ∧ cfg.echoes o₁ ∧ cfg.echoes o₂)) ∧
    ∀ o, (corsResponse cfg next r).lookup "Access-Control-Allow-Origin" = some o →
      o ∈ cfg.allowedOrigins ∨ "*" ∈ cfg.allowedOrigins := by
  have hlookup := fun r => (lookup_corsResponse cfg (Or.inl rfl) horigin r).trans
    (cfg.lookup_headers_allowOrigin _)
  have hlookup' := fun r => (lookup_corsResponse cfg (Or.inr rfl) hvary r).trans
    (cfg.lookup_headers_vary _)
  simp only [hlookup, hlookup']
  constructor
  · have hiff : ∀ o, cfg.vary o = some "Origin" ↔ cfg.echoes o ∧ "*" ∉ cfg.allowedOrigins := by
      intro o
      unfold CORSConfig.vary CORSConfig.allowAll
      split <;> simp [*]
    rw [hiff, hiff, ← or_iff_not_imp_left, and_and_and_comm, and_self, and_comm]
  · intro o ho
    unfold CORSConfig.allowOrigin at ho
    split at ho
    · rename_i hecho
      cases ho
      exact hecho.2.symm
    · cases ho

def sampleResponse (origins : List String) (origin : String) : Header :=
  corsResponse (sampleOrigins origins) sampleInner { sampleGet "GET" with origin := origin }

theorem cors_cacheable_listed :
    (sampleResponse ["https://a", "https://b"] "https://a").lookup "Vary" = some "Origin" ∧
      (sampleResponse ["https://a", "https://b"] "https://b").lookup "Vary" = some "Origin" := by
  have hmain := (cors_cacheable_iff (sampleOrigins ["https://a", "https://b"])
    (keeps_sampleInner (by simp [innerHeaders])) (keeps_sampleInner (by simp [innerHeaders]))
    (sampleGet "GET") "https://a" "https://b").1.2
  exact hmain (Or.inr (by decide +kernel)) (by decide +kernel)

/-- With the wildcard the origin is echoed without `Vary`; without it, a
response to a request that has no origin does not say that it depends on it. -/
theorem cors_origin_cached :
    (sampleResponse ["*"] "https://a").lookup "Access-Control-Allow-Origin" = some "https://a" ∧
    (sampleResponse ["*"] "https://b").lookup "Access-Control-Allow-Origin" = some "https://b" ∧
    (sampleResponse ["*"] "https://a").lookup "Vary" = none ∧
    (sampleResponse ["*"] "https://b").lookup "Vary" = none ∧
    (sampleResponse ["https://a"] "https://a").lookup "Access-Control-Allow-Origin" =
      some "https://a" ∧
    (sampleResponse ["https://a"] "").lookup "Access-Control-Allow-Origin" = none ∧
    (sampleResponse ["https://a"] "").lookup "Vary" = none := by
  decide +kernel

end GoRestApi.Server
