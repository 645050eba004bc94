/-
GoRestApi.Server.RoutesTheorems — what a request can do to the service.

`Effect` lists it, one case for each handler that does something, with the
pattern the request was routed by, what `RequireAuth` has said and what the
handler has computed; `effect_of_serve` is the inversion. Everything else is
read off the cases.

The session of the service goes through the moves of `SessionTheorems`
(`moves_of_effect`), so the invariant of the tokens holds here as well, with
the account routes and the password reset in between.
-/
import GoRestApi.Handler.PasswordResetTheorems
import GoRestApi.Server.Routes
import GoRestApi.Server.SessionTheorems

namespace GoRestApi.Server

open Go Auth Store Handler Events Lts MemoryUserStore

/-! ## The mux -/

namespace Options

variable {o : Options} {h : AuthHandler}

theorem mem_patterns_of_lookup {path : String} {r : Route} (hr : o.patterns.lookup path = some r) :
    (path, r) ∈ o.patterns := by
  obtain ⟨l₁, l₂, heq, -⟩ := List.lookup_eq_some_iff.mp hr
  rw [heq]
  simp

/-- The routes of the auth handler are those of its patterns. -/
theorem route_auth {path : String} {h' : AuthHandler} {p : AuthRoute}
    (hr : o.route path = .auth h' p) : o.authHandler = some h' ∧ (path, p) ∈ authPatterns := by
  unfold route at hr
  split at hr
  · rename_i r hlookup
    subst hr
    have hmem := mem_patterns_of_lookup hlookup
    cases ho : o.authHandler with
    | none => simp [patterns, ho] at hmem
    | some g =>
      simp only [patterns, ho, List.mem_append, List.mem_map] at hmem
      rcases hmem with ((hmem | hmem) | ⟨q, hq, heq⟩) | hmem
      · split at hmem <;> simp at hmem
      · split at hmem <;> simp at hmem
      · cases heq
        exact ⟨rfl, hq⟩
      · simp at hmem
  · split at hr
    · cases hr
    · split at hr <;> cases hr

theorem route_users {path : String} (hr : o.route path = .users) : path = "/users" := by
  unfold route at hr
  split at hr
  · rename_i r hlookup
    subst hr
    have hmem := mem_patterns_of_lookup hlookup
    simp only [patterns, List.mem_append] at hmem
    rcases hmem with ((hmem | hmem) | hmem) | hmem
    · split at hmem <;> simp at hmem
    · split at hmem <;> simp at hmem
    · split at hmem <;> simp at hmem
    · simpa using hmem
  · split at hr
    · cases hr
    · split at hr <;> cases hr

theorem route_userByID {path : String} (hr : o.route path = .userByID) :
    "/users/".toList <+: path.toList := by
  unfold route at hr
  split at hr
  · rename_i r hlookup
    subst hr
    have hmem := mem_patterns_of_lookup hlookup
    simp only [patterns, List.mem_append] at hmem
    rcases hmem with ((hmem | hmem) | hmem) | hmem
    · split at hmem <;> simp at hmem
    · split at hmem <;> simp at hmem
    · split at hmem <;> simp at hmem
    · simp at hmem
  · split at hr
    · assumption
    · split at hr <;> cases hr

theorem authHandler_eq_some (ho : o.authHandler = some h) :
    o.tokenIssuer = some h.issuer ∧ o.hasBlacklist = true := by
  unfold authHandler at ho
  split at ho
  · rename_i issuer refreshIssuer hissuer hrefresh hlist
    cases ho
    exact ⟨hissuer, hlist⟩
  · cases ho

end Options

/-- The clock readings that a request may make, in their order. -/
def Outside.times (x : Outside) : List Time :=
  [x.check.parse, x.check.rawClaims, x.check.isRevoked, x.stamps.now, x.stamps.refreshNow, x.now]

namespace Service

variable {τ ρ : Type} {env : Env} {cleanPath : String → String} {o : Options}
  {ts : TokenStore τ ρ} {h : AuthHandler} {s : Service τ} {r : HTTPRequest} {x : Outside}

/-! ## What a request can do -/

/-- The service after a request, one case for each thing that a request can
do. -/
inductive Effect (env : Env) (o : Options) (ts : TokenStore τ ρ) (h : AuthHandler)
    (s : Service τ) (r : HTTPRequest) (x : Outside) : Service τ → Prop where
  | nothing : Effect env o ts h s r x (s.begin ts x)
  | asked :
      Effect env o ts h s r x ((s.begin ts x).setBlacklist
        (requireAuth env h.issuer s.session.blacklist x.check r.authorization).1)
  | login :
      Effect env o ts h s r x ((s.begin ts x).issue
        (h.login env s.session.store x.stamps x.now (r.decoding r.login)).1)
  | register {store issued reply} : r.path = "/auth/register" →
      h.register env s.session.store x.stamps x.now (r.decoding r.createUser) =
        (store, issued, reply) →
      Effect env o ts h s r x
        { ((s.begin ts x).setStore store).issue issued with jobs := s.jobs ++ welcome o reply }
  | refresh {b issued reply} :
      h.refresh env s.session.store s.session.blacklist x.check x.stamps x.now
        (r.decoding r.refresh) = (b, issued, reply) →
      Effect env o ts h s r x (((s.begin ts x).setBlacklist b).issue issued)
  | forgot {user : User} {tokens token expiresAt} :
      ts.issue (s.begin ts x).resetTokens x.resetToken x.now (Int64.ofInt user.id)
        resetTokenTTL = (tokens, token, expiresAt) →
      Effect env o ts h s r x
        { s.begin ts x with
          resetTokens := tokens
          resetsIssued := s.resetsIssued ++ [(token, Int64.ofInt user.id)] }
  | reset {input tokens consumed store reply} : r.path = "/auth/reset-password" →
      AuthHandler.resetInput env (r.decoding r.resetPassword) = .ok input →
      ts.consume (s.begin ts x).resetTokens input.token x.now = (tokens, consumed) →
      h.resetConsumed env s.session.store input consumed = (store, reply) →
      Effect env o ts h s r x { (s.begin ts x).setStore store with resetTokens := tokens }
  | logout {b reply} :
      logoutRoute env h s.session.blacklist x.check x.now r.method r.authorization =
        (b, reply) →
      Effect env o ts h s r x
        { s.begin ts x with
          session :=
            { s.session with
              clock := x.now
              blacklist := b
              loggedOut := if reply.status = 204 then
                  s.session.loggedOut ++ (bearer r.authorization).toList
                else s.session.loggedOut } }
  | create {b u store events answer} : r.path = "/users" →
      requireAuth env h.issuer s.session.blacklist x.check r.authorization = (b, .ok u) →
      o.userHandler.createUser env s.session.store x.now (r.decoding r.createUser) =
        (store, events, answer) →
      Effect env o ts h s r x
        { ((s.begin ts x).setBlacklist b).setStore store with outbox := s.outbox ++ events }
  | update {b u store answer} : "/users/".toList <+: r.path.toList →
      requireAuth env h.issuer s.session.blacklist x.check r.authorization = (b, .ok u) →
      UserHandler.updateUser env s.session.store r.path (r.decoding r.updateUser) =
        (store, answer) →
      Effect env o ts h s r x (((s.begin ts x).setBlacklist b).setStore store)
  | delete {b u store reply} : "/users/".toList <+: r.path.toList →
      requireAuth env h.issuer s.session.blacklist x.check r.authorization = (b, .ok u) →
      UserHandler.deleteUser s.session.store r.method r.path = (store, reply) →
      Effect env o ts h s r x (((s.begin ts x).setBlacklist b).setStore store)

/-! Each middleware answers the request itself or calls what is behind it. -/

theorem limited_cases (x : Outside) (next : Next τ) (s : Service τ) :
    (limited x next s).1 = s ∨ limited x next s = next s := by
  unfold limited
  split
  · exact .inr rfl
  · exact .inl rfl

theorem idempotent_cases (x : Outside) (next : Next τ) (s : Service τ) :
    (idempotent x next s).1 = s ∨ idempotent x next s = next s := by
  unfold idempotent
  split
  · exact .inl rfl
  · exact .inr rfl

theorem authenticated_cases (issuer : TokenIssuer) (r : HTTPRequest) (x : Outside)
    (next : Int64 → Next τ) (s : Service τ) :
    (authenticated env issuer r x next s).1 =
        s.setBlacklist (requireAuth env issuer s.session.blacklist x.check r.authorization).1 ∨
      ∃ b u, requireAuth env issuer s.session.blacklist x.check r.authorization = (b, .ok u) ∧
        authenticated env issuer r x next s = next u (s.setBlacklist b) := by
  unfold authenticated
  split
  · rename_i b reply hauth
    rw [hauth]
    exact .inl rfl
  · rename_i b u hauth
    exact .inr ⟨b, u, hauth, rfl⟩

theorem protect_eq (ho : o.authHandler = some h) (next : Next τ) :
    protect env o r x next = authenticated env h.issuer r x fun _ => next := by
  obtain ⟨hissuer, hlist⟩ := Options.authHandler_eq_some ho
  funext s
  simp only [protect, hissuer, hlist, ↓reduceIte]

/-- What is behind `RequireAuth` is reached with an accepted token. -/
theorem effect_protect (ho : o.authHandler = some h) {next : Next τ}
    (hnext : ∀ b u,
      requireAuth env h.issuer s.session.blacklist x.check r.authorization = (b, .ok u) →
      Effect env o ts h s r x (next ((s.begin ts x).setBlacklist b)).1) :
    Effect env o ts h s r x (protect env o r x next (s.begin ts x)).1 := by
  rw [protect_eq ho]
  rcases authenticated_cases h.issuer r x (fun _ => next) (s.begin ts x) with
    hasked | ⟨b, u, hauth, heq⟩
  · rw [hasked]
    exact .asked
  · rw [heq]
    exact hnext b u hauth

/-- A handler that only reads, behind `RequireAuth`. -/
theorem effect_read {b : MemoryBlacklist} {u : Int64}
    (hauth : requireAuth env h.issuer s.session.blacklist x.check r.authorization = (b, .ok u)) :
    Effect env o ts h s r x ((s.begin ts x).setBlacklist b) := by
  have hb : b = (requireAuth env h.issuer s.session.blacklist x.check r.authorization).1 := by
    rw [hauth]
  rw [hb]
  exact .asked

theorem effect_serveUsers (ho : o.authHandler = some h) (hpath : r.path = "/users") :
    Effect env o ts h s r x (serveUsers env o r x (s.begin ts x)).1 := by
  unfold serveUsers
  split
  · exact effect_protect ho fun b u hauth => effect_read hauth
  · split
    · refine effect_protect ho fun b u hauth => ?_
      rcases idempotent_cases x _ ((s.begin ts x).setBlacklist b) with heq | heq
      · rw [heq]
        exact effect_read hauth
      · rw [heq]
        exact .create hpath hauth rfl
    · exact .nothing

theorem effect_serveUserByID (ho : o.authHandler = some h)
    (hpath : "/users/".toList <+: r.path.toList) :
    Effect env o ts h s r x (serveUserByID env o r x (s.begin ts x)).1 := by
  unfold serveUserByID
  split
  · exact effect_protect ho fun b u hauth => effect_read hauth
  · split
    · exact effect_protect ho fun b u hauth => .update hpath hauth rfl
    · split
      · exact effect_protect ho fun b u hauth => .delete hpath hauth rfl
      · exact .nothing

theorem effect_forgotPassword :
    Effect env o ts h s r x (forgotPassword env ts r x (s.begin ts x)).1 := by
  unfold forgotPassword
  split
  · exact .nothing
  · split
    · exact .nothing
    · exact .forgot rfl

theorem effect_resetPassword (hpath : r.path = "/auth/reset-password") :
    Effect env o ts h s r x (resetPassword env h ts r x (s.begin ts x)).1 := by
  unfold resetPassword
  split
  · exact .nothing
  · rename_i input hinput
    exact .reset hpath hinput rfl rfl

theorem effect_serveAuth {p : AuthRoute} (hpath : (r.path, p) ∈ Options.authPatterns) :
    Effect env o ts h s r x (serveAuth env o ts h r x p (s.begin ts x)).1 := by
  -- what a limiter has in front of it is not reached, or done
  have hlimited : ∀ next : Next τ, Effect env o ts h s r x (next (s.begin ts x)).1 →
      Effect env o ts h s r x (limited x next (s.begin ts x)).1 := by
    intro next hnext
    rcases limited_cases x next (s.begin ts x) with heq | heq
    · rw [heq]
      exact .nothing
    · rw [heq]
      exact hnext
  cases p with
  | login => exact hlimited _ .login
  | register =>
    refine hlimited _ ?_
    rcases idempotent_cases x _ (s.begin ts x) with heq | heq
    · rw [heq]
      exact .nothing
    · rw [heq]
      have hregister : r.path = "/auth/register" := by
        simpa [Options.authPatterns] using hpath
      exact .register hregister rfl
  | refresh => exact hlimited _ (.refresh rfl)
  | forgotPassword => exact hlimited _ effect_forgotPassword
  | resetPassword =>
    have hreset : r.path = "/auth/reset-password" := by
      simpa [Options.authPatterns] using hpath
    exact hlimited _ (effect_resetPassword hreset)
  | logout => exact .logout rfl
  | me =>
    refine hlimited _ ?_
    rcases authenticated_cases h.issuer r x _ (s.begin ts x) with hasked | ⟨b, u, hauth, heq⟩
    · rw [hasked]
      exact .asked
    · rw [heq]
      exact effect_read hauth

/-- **Inversion.** A request does one of these things. -/
theorem effect_of_serve (ho : o.authHandler = some h) :
    Effect env o ts h s r x (serve env cleanPath o ts r x s).1 := by
  unfold serve
  dsimp only
  split
  · exact .nothing
  · split
    · exact .nothing
    · split
      · rename_i g p hroute
        obtain ⟨hg, hpath⟩ := Options.route_auth hroute
        cases ho.symm.trans hg
        exact effect_serveAuth hpath
      · exact .nothing
      · rename_i hroute
        rcases limited_cases x _ (s.begin ts x) with heq | heq
        · rw [heq]
          exact .nothing
        · rw [heq]
          exact effect_serveUsers ho (Options.route_users hroute)
      · rename_i hroute
        rcases limited_cases x _ (s.begin ts x) with heq | heq
        · rw [heq]
          exact .nothing
        · rw [heq]
          exact effect_serveUserByID ho (Options.route_userByID hroute)
      · exact .nothing
      · split <;> exact .nothing

/-! ## Tokens -/

/-- The clock does not go backwards, `newJTI` gives new IDs, and no JSON Web
Token is forged. -/
structure Sane (env : Env) (h : AuthHandler) (s : Service τ) (v : Visit) : Prop where
  clock : (s.session.clock :: v.outside.times).Pairwise (· ≤ ·)
  fresh : s.session.Fresh v.outside.stamps
  bearer : ∀ raw ∈ Server.bearer v.request.authorization, s.session.Unforged env h raw
  refresh : ∀ raw ∈ v.request.refresh.toOption, s.session.Unforged env h raw

instance (env : Env) (h : AuthHandler) (s : Service τ) (v : Visit) : Decidable (s.Sane env h v) :=
  decidable_of_iff ((s.session.clock :: v.outside.times).Pairwise (· ≤ ·) ∧
    s.session.Fresh v.outside.stamps ∧
    (∀ raw ∈ Server.bearer v.request.authorization, s.session.Unforged env h raw) ∧
    ∀ raw ∈ v.request.refresh.toOption, s.session.Unforged env h raw)
    ⟨fun h => ⟨h.1, h.2.1, h.2.2.1, h.2.2.2⟩, fun h => ⟨h.clock, h.fresh, h.bearer, h.refresh⟩⟩

section Moves

variable {s' : Service τ} {v : Visit}

/-- **The session goes through moves**, whatever the request is. -/
theorem moves_of_effect (hjwt : env.jwt.Correct) (hw : Session.Wired h)
    (hs : s.session.Consistent env h) (hv : s.Sane env h v)
    (he : Effect env o ts h s v.request v.outside s') :
    Session.Moves env h s.session s'.session := by
  have hclock := hv.clock
  simp only [Outside.times, List.pairwise_cons, List.mem_cons, List.not_mem_nil, or_false,
    forall_eq_or_imp, forall_eq] at hclock
  obtain ⟨⟨_, _, hasked, _, _, hnow⟩, _, _, ⟨_, _, hlater⟩, _⟩ := hclock
  have htick : Session.Moves env h s.session { s.session with clock := v.outside.now } :=
    .single (.tick hnow)
  have hauth : Session.Moves env h s.session
      { s.session with
        clock := v.outside.now
        blacklist := (requireAuth env h.issuer s.session.blacklist v.outside.check
          v.request.authorization).1 } :=
    .tail (Session.moves_requireAuth hasked h.issuer v.request.authorization) (.tick hlater)
  cases he with
  | nothing | forgot _ => exact htick
  | asked => exact hauth
  | login => exact Session.moves_login hjwt hw hnow hv.fresh _
  | @register store issued reply _ heq =>
    have hmoves := Session.moves_register hjwt hw hnow hv.fresh
      (v.request.decoding v.request.createUser)
    rw [heq] at hmoves
    exact hmoves
  | @refresh b issued reply heq =>
    have hforge : ∀ raw, (v.request.decoding v.request.refresh).body = .ok raw →
        s.session.Unforged env h raw := by
      intro raw hraw
      refine hv.refresh raw ?_
      have hraw' : v.request.refresh = .ok raw := hraw
      simp [hraw', Except.toOption]
    have hmoves := Session.moves_refresh hjwt hw hs hasked hlater hv.fresh hforge
    rw [heq] at hmoves
    exact hmoves
  | reset _ _ _ _ => exact .tail htick (.store _)
  | @logout b reply heq =>
    have hmoves := @Session.moves_logout env h s.session hw hs v.outside.check v.outside.now
      v.request.method v.request.authorization hasked hlater hv.bearer
    rw [heq] at hmoves
    exact hmoves
  | create _ heq _ | update _ heq _ | delete _ heq _ =>
    rw [heq] at hauth
    exact .tail hauth (.store _)

end Moves

/-- The header has the text of an access token that was issued to the user `u`
and has not expired when `RawClaims` reads the clock; and it has not been logged
out, unless it expires before `IsRevoked` reads the clock. -/
def Authorized (env : Env) (h : AuthHandler) (s : Session) (t : CheckTimes) (header : String)
    (u : Int64) : Prop :=
  ∃ y ∈ s.issued, (∃ raw, bearerToken header = .ok raw ∧ y.IsText env h raw) ∧
    y.kind = .access ∧ y.subject = u ∧ t.rawClaims < y.expiresAt ∧
    (¬ s.LoggedOut env h y ∨ y.expiresAt < t.isRevoked)

theorem authorized_of_requireAuth {s : Session} (hs : s.Consistent env h) (hw : Session.Wired h)
    {t : CheckTimes} {header : String} {b : MemoryBlacklist} {u : Int64}
    (hclock : s.clock ≤ t.isRevoked)
    (hforge : ∀ raw ∈ Server.bearer header, s.Unforged env h raw)
    (hauth : requireAuth env h.issuer s.blacklist t header = (b, .ok u)) :
    Authorized env h s t header u := by
  obtain ⟨jti, ⟨raw, claims, c, htoken, hparse, hraw, rfl⟩, hrevoked⟩ :=
    Session.requireAuth_eq_ok_iff.mp (congrArg Prod.snd hauth)
  obtain ⟨y, hy, htext, hkind, _, rfl, hexp⟩ :=
    hs.issued_of_rawClaims rfl (hforge raw (bearer_of_bearerToken htoken)) hraw
  obtain ⟨_, _, rfl⟩ := ((hs.signed y hy).parse_iff rfl htext).mp hparse
  refine ⟨y, hy, ⟨raw, htoken, htext⟩, hkind.trans hw.access, rfl, hexp, ?_⟩
  by_cases hout : s.LoggedOut env h y
  · right
    rcases hs.kept y hy hout with he | hlt
    · exact (MemoryBlacklist.isRevoked_eq_false_iff (hs.signed y hy).jti_ne).mp hrevoked _ he
    · exact Int.lt_of_lt_of_le hlt hclock
  · exact .inl hout

/-! ## Reset tokens -/

section Resets

variable {holds : τ → String → Option ResetToken} {reads : ρ → Option ResetToken}

/-- What the token store holds was issued, to the user it holds it for. -/
def ResetsKnown (holds : τ → String → Option ResetToken) (s : Service τ) : Prop :=
  ∀ token t, holds s.resetTokens token = some t → (token, t.userID) ∈ s.resetsIssued

theorem holds_evicted (hts : ts.Lawful holds reads) {keys : List String} {tokens : τ}
    {token : String} {t : ResetToken}
    (ht : holds (keys.foldl ts.evict tokens) token = some t) : holds tokens token = some t := by
  induction keys generalizing tokens with
  | nil => exact ht
  | cons key keys ih => exact hts.evict tokens key token t (ih ht)

/-- What `Consume` returns is the user of a token that the store held. -/
theorem consume_some (hts : ts.Lawful holds reads) {tokens tokens' : τ} {token : String}
    {now : Time} {userID : Int64} (hc : ts.consume tokens token now = (tokens', some userID)) :
    ∃ t, holds tokens token = some t ∧ t.userID = userID := by
  unfold TokenStore.consume at hc
  split at hc
  · cases hc
  · rename_i tokens₁ taken htake
    simp only [Prod.mk.injEq] at hc
    obtain ⟨t, ht, huser, _⟩ := hts.check taken now userID hc.2
    exact ⟨t, (hts.take_some _ _ _ _ htake).1.symm.trans ht, huser⟩

theorem holds_consume (hts : ts.Lawful holds reads) {tokens tokens' : τ} {token : String}
    {now : Time} {consumed : Option Int64} (hc : ts.consume tokens token now = (tokens', consumed))
    {token' : String} {t : ResetToken} (ht : holds tokens' token' = some t) :
    holds tokens token' = some t := by
  unfold TokenStore.consume at hc
  split at hc
  · rename_i tokens₁ htake
    cases hc
    rwa [hts.take_none _ _ _ htake] at ht
  · rename_i tokens₁ taken htake
    cases hc
    rw [(hts.take_some _ _ _ _ htake).2] at ht
    by_cases hne : token' = token
    · subst hne
      simp at ht
    · rwa [Function.update_of_ne hne] at ht

theorem ResetsKnown.effect (hts : ts.Lawful holds reads) {s' : Service τ}
    (hs : s.ResetsKnown holds) (he : Effect env o ts h s r x s') : s'.ResetsKnown holds := by
  have hbegin : (s.begin ts x).ResetsKnown holds :=
    fun token t ht => hs token t (holds_evicted hts ht)
  cases he with
  | @forgot user tokens token expiresAt hissue =>
    intro token' t ht
    rcases hts.issue _ _ _ _ _ _ _ _ hissue with ⟨htoken, hholds⟩ | ⟨-, hholds⟩
    · rw [hholds, ← htoken] at ht
      by_cases hne : token' = token
      · subst hne
        rw [Function.update_self] at ht
        cases ht
        exact List.mem_append_right _ (List.mem_singleton_self _)
      · rw [Function.update_of_ne hne] at ht
        exact List.mem_append_left _ (hbegin token' t ht)
    · rw [hholds] at ht
      exact List.mem_append_left _ (hbegin token' t ht)
  | reset _ _ hc _ => exact fun token' t ht => hbegin token' t (holds_consume hts hc ht)
  | _ => exact hbegin

end Resets

/-! ## Who may change the users -/

section Access

variable {holds : τ → String → Option ResetToken} {reads : ρ → Option ResetToken}

/-- What holds in every state of a run. -/
structure Kept (env : Env) (h : AuthHandler) (holds : τ → String → Option ResetToken)
    (s : Service τ) : Prop where
  consistent : s.session.Consistent env h
  resets : s.ResetsKnown holds

theorem kept_of_run (hjwt : env.jwt.Correct) (hw : Session.Wired h) (ho : o.authHandler = some h)
    (hts : ts.Lawful holds reads) {store : MemoryUserStore} {clock : Time} {tokens : τ}
    (hempty : ∀ token, holds tokens token = none) {vs : List Visit} {s : Service τ}
    (hrun : run (step env cleanPath o ts) (init store clock tokens) vs = some s)
    (hsane : Along (step env cleanPath o ts) (Sane env h) (init store clock tokens) vs) :
    s.Kept env h holds := by
  refine hsane.invariant (I := Kept env h holds) ?_ ⟨.init store clock, ?_⟩ hrun
  · rintro s v s' hs hv ⟨⟩
    have he : Effect env o ts h s v.request v.outside
        (serve env cleanPath o ts v.request v.outside s).1 := effect_of_serve ho
    exact ⟨hs.consistent.moves (moves_of_effect hjwt hw hs.consistent hv he),
      hs.resets.effect hts he⟩
  · intro token t ht
    have ht' : holds tokens token = some t := ht
    rw [hempty] at ht'
    cases ht'

/-- **Who may change the users.** On a server with both issuers and the
blacklist, after any requests, one at a time: a request leaves the user store as
it is, unless it registers a new account; or it sets a password with a reset
token that was issued for that account; or it is for `/users` or below, and
`Authorized`. -/
theorem store_changes_authorized (hjwt : env.jwt.Correct) (hw : Session.Wired h)
    (ho : o.authHandler = some h) (hts : ts.Lawful holds reads) {store : MemoryUserStore}
    {clock : Time} {tokens : τ} (hempty : ∀ token, holds tokens token = none) {vs : List Visit}
    {s s' : Service τ} (hrun : run (step env cleanPath o ts) (init store clock tokens) vs = some s)
    (hsane : Along (step env cleanPath o ts) (Sane env h) (init store clock tokens) vs)
    {v : Visit} (hv : s.Sane env h v) (hstep : s.step env cleanPath o ts v = some s') :
    s'.session.store = s.session.store ∨
    (v.request.path = "/auth/register" ∧ ∃ user, user.id = s.session.store.nextID ∧
      s'.session.store = ⟨s.session.store.users ++ [user], s.session.store.nextID + 1⟩) ∨
    (v.request.path = "/auth/reset-password" ∧ ∃ input userID hashed,
      v.request.resetPassword = .ok input ∧ (input.token, userID) ∈ s.resetsIssued ∧
      s.session.store.updatePassword userID.toInt hashed = (s'.session.store, .ok ())) ∨
    ((v.request.path = "/users" ∨ "/users/".toList <+: v.request.path.toList) ∧
      ∃ u, Authorized env h s.session v.outside.check v.request.authorization u) := by
  have hkept := kept_of_run hjwt hw ho hts hempty hrun hsane
  have hclock : s.session.clock ≤ v.outside.check.isRevoked := by
    have := hv.clock
    simp_all [Outside.times]
  have hauthorized : ∀ {b u},
      requireAuth env h.issuer s.session.blacklist v.outside.check v.request.authorization =
        (b, .ok u) →
      ∃ u, Authorized env h s.session v.outside.check v.request.authorization u :=
    fun hauth => ⟨_, authorized_of_requireAuth hkept.consistent hw hclock hv.bearer hauth⟩
  cases hstep
  have he : Effect env o ts h s v.request v.outside
      (serve env cleanPath o ts v.request v.outside s).1 := effect_of_serve ho
  generalize (serve env cleanPath o ts v.request v.outside s).1 = s' at he ⊢
  cases he with
  | nothing | asked | login | refresh _ | forgot _ | logout _ => exact .inl rfl
  | @register store issued reply hpath heq =>
    rcases register_cases heq with ⟨rfl, _⟩ | ⟨input, user, _, hcreate, _⟩
    · exact .inl rfl
    · obtain ⟨huser, hstore⟩ := create_ok hcreate
      exact .inr (.inl ⟨hpath, user, by rw [huser], hstore⟩)
  | @reset input tokens consumed store reply hpath hinput hconsume hreset =>
    rcases resetConsumed_cases hreset with ⟨rfl, _⟩ | ⟨userID, hashed, rfl, _, hupdate, _⟩
    · exact .inl rfl
    · obtain ⟨t, ht, rfl⟩ := consume_some hts hconsume
      have hissued := hkept.resets _ t (holds_evicted hts ht)
      exact .inr (.inr (.inl ⟨hpath, input, t.userID, hashed, resetInput_body hinput, hissued,
        hupdate⟩))
  | create hpath hauth _ => exact .inr (.inr (.inr ⟨.inl hpath, hauthorized hauth⟩))
  | update hpath hauth _ | delete hpath hauth _ =>
    exact .inr (.inr (.inr ⟨.inr hpath, hauthorized hauth⟩))

end Access

/-! An account is registered, and its owner changes its name. -/

section OneAccount

/-- A server as `main` builds it, over the in-memory stores. -/
def sampleOptions : Options where
  tokenIssuer := some Sample.handler.issuer
  refreshIssuer := some Sample.handler.refreshIssuer
  hasBlacklist := true
  hasOutbox := true
  hasJobQueue := true
  hasProbes := true
  hasMetrics := true
  bcryptCost := 10
  marshal := fun _ name email => (name ++ email).toUTF8.toList

def sampleEnv : Env := Sample.env (Sample.tokens 0 "1" ++ Sample.tokens 0 "2")

/-- A request without a body. -/
def bare (method path authorization : String) : HTTPRequest where
  method := method
  path := path
  authorization := authorization
  contentType := "application/json"
  createUser := .error "request body is required"
  updateUser := .error "request body is required"
  login := .error "request body is required"
  refresh := .error "request body is required"
  forgotPassword := .error "request body is required"
  resetPassword := .error "request body is required"

/-- The `n`-th request, all in the first instant. -/
def sampleOutside (n : String) : Outside where
  check := ⟨0, 0, 0⟩
  stamps := Sample.stamps 0 n
  now := 0
  resetToken := "4f1c"
  allowed := true
  answered := none
  evicted := []

def registerAda : Visit where
  request := { bare "POST" "/auth/register" "" with
    createUser := .ok ⟨"Ada", "ada@example.com", "correct horse"⟩ }
  outside := sampleOutside "1"

def renameAda : Visit where
  request := { bare "PUT" "/users/1" "Bearer access-1" with
    updateUser := .ok ⟨"Ada L.", "ada@example.com"⟩ }
  outside := sampleOutside "2"

theorem sampleEnv_correct : sampleEnv.jwt.Correct :=
  JwtLib.correct_ofTable (by decide +kernel) (by decide +kernel)

theorem store_changes_authorized_renamed :
    ∃ s s', run (step sampleEnv id sampleOptions ResetTokenStore.tokenStore)
        (init newMemoryUserStore 0 .new) [registerAda] = some s ∧
      s.step sampleEnv id sampleOptions ResetTokenStore.tokenStore renameAda = some s' ∧
      s'.session.store.users.map User.name = ["Ada L."] ∧
      ∃ u, Authorized sampleEnv Sample.handler s.session renameAda.outside.check
        renameAda.request.authorization u := by
  have hends : ∃ s, run (step sampleEnv id sampleOptions ResetTokenStore.tokenStore)
      (init newMemoryUserStore 0 .new) [registerAda] = some s ∧
      s.Sane sampleEnv Sample.handler renameAda ∧ s.session.store.users.map User.name = ["Ada"] ∧
      (run (step sampleEnv id sampleOptions ResetTokenStore.tokenStore) s [renameAda]).any
        (fun s' => decide (s'.session.store.users.map User.name = ["Ada L."])) = true :=
    exists_run_of_any (by decide +kernel)
  obtain ⟨s, hrun, hv, hbefore, hany⟩ := hends
  obtain ⟨s', hstep, hafter⟩ := exists_run_of_any hany
  rw [run_singleton] at hstep
  have hsane : Along (step sampleEnv id sampleOptions ResetTokenStore.tokenStore)
      (Sane sampleEnv Sample.handler) (init newMemoryUserStore 0 .new) [registerAda] := by
    decide +kernel
  refine ⟨s, s', hrun, hstep, hafter, ?_⟩
  rcases store_changes_authorized sampleEnv_correct Session.sample_wired rfl
    ResetTokenStore.lawful_tokenStore (fun _ => rfl) hrun hsane hv hstep with
    hsame | ⟨hpath, _⟩ | ⟨hpath, _⟩ | ⟨_, hauthorized⟩
  · rw [hsame, hbefore] at hafter
    simp at hafter
  · simp [renameAda, bare] at hpath
  · simp [renameAda, bare] at hpath
  · exact hauthorized

end OneAccount

end Service

end GoRestApi.Server
