/-
GoRestApi.Server.RoutesIdentity — accounts over whole runs of the service.

An account is announced when it is created: `CreateUser` gives the outbox an
event, `Register` gives the job queue a welcome mail. `accounts` is the record
of the users that the store has gained, each with the request it was gained in,
and `accounts_announced_once` reads the outbox, the jobs and the ids that were
given out off this record.

A token names its account by the id. Ids are not given out twice, so `/me`
does not show the owner of a token an account that is newer than the token,
also when the account of the token has been deleted and the email registered
again: `me_shows_account_of_token`. What carries this is that the subject of
every token is below `nextID` when the token is issued (`Below`), for which
`Refresh` needs that its token was issued, too.
-/
import GoRestApi.Server.RoutesTheorems
import GoRestApi.Store.UserIdentity

namespace GoRestApi.Server.Service

open Go Auth Store Handler Events Lts MemoryUserStore

variable {τ ρ : Type} {env : Env} {cleanPath : String → String} {o : Options}
  {ts : TokenStore τ ρ} {h : AuthHandler} {s s' : Service τ} {r : HTTPRequest} {x : Outside}

/-! ## Announcements -/

/-- The ids `1, …, n - 1`. -/
def idsBelow (n : Int) : List Int := (List.range (n - 1).toNat).map fun i : Nat => (i : Int) + 1

theorem idsBelow_succ {n : Int} (hn : 1 ≤ n) : idsBelow (n + 1) = idsBelow n ++ [n] := by
  have hsucc : (n + 1 - 1).toNat = (n - 1).toNat + 1 := by omega
  have hlast : ((n - 1).toNat : Int) + 1 = n := by omega
  simp only [idsBelow, hsucc, List.range_succ, List.map_append, List.map_cons, List.map_nil, hlast]

/-- The users that the store has gained in a request; only `Create` makes the
list longer. -/
def newAccounts (s : Service τ) (v : Visit) (s' : Service τ) : List (Visit × User) :=
  (s'.session.store.users.drop s.session.store.users.length).map (v, ·)

/-- The accounts that were created in the course of the requests, in order, each
with its request. -/
def accounts (env : Env) (cleanPath : String → String) (o : Options) (ts : TokenStore τ ρ)
    (s : Service τ) (vs : List Visit) : List (Visit × User) :=
  recorded (step env cleanPath o ts) newAccounts s vs

/-- The accounts of the requests to `path`. -/
def through (path : String) (accounts : List (Visit × User)) : List (Visit × User) :=
  accounts.filter fun p => p.1.request.path = path

@[simp] theorem through_append (path : String) (accounts accounts' : List (Visit × User)) :
    through path (accounts ++ accounts') = through path accounts ++ through path accounts' :=
  List.filter_append ..

theorem through_singleton (path : String) (p : Visit × User) :
    through path [p] = if p.1.request.path = path then [p] else [] := by
  simp [through, List.filter_singleton]

/-- The request asks for the account, as `CreateUser` or as `Register` stores
it. -/
def Asks (env : Env) (v : Visit) (u : User) : Prop :=
  ∃ sent, v.request.createUser = .ok sent ∧ u.name = sent.name ∧
    (v.request.path = "/users" ∧ u.email = sent.email ∨
      v.request.path = "/auth/register" ∧ u.email = env.toLower (Strings.trimSpace sent.email))

/-- The methods other than `Create` give out no id and add no user. -/
theorem apply_adds_none (store : MemoryUserStore) {op : Op} (hop : ∀ input, op ≠ .create input) :
    (store.apply op).nextID = store.nextID ∧
      (store.apply op).users.drop store.users.length = [] := by
  rw [List.drop_eq_nil_iff]
  cases op with
  | create input => exact absurd rfl (hop input)
  | update id input =>
    simp only [MemoryUserStore.apply, update]
    split
    · rename_i users user hscan
      obtain ⟨before, target, after, hus, -, -, rfl, rfl⟩ := updateScan_ok hscan
      exact ⟨rfl, by simp [hus]⟩
    · exact ⟨rfl, Nat.le_refl _⟩
  | updatePassword id hash =>
    simp only [MemoryUserStore.apply, updatePassword]
    split
    · rename_i users hscan
      obtain ⟨before, target, after, hus, -, -, rfl⟩ := updatePasswordScan_ok hscan
      exact ⟨rfl, by simp [hus]⟩
    · exact ⟨rfl, Nat.le_refl _⟩
  | delete id =>
    simp only [MemoryUserStore.apply, delete]
    split
    · rename_i users hscan
      obtain ⟨before, target, after, hus, -, -, rfl⟩ := deleteScan_ok hscan
      exact ⟨rfl, by simp [hus]⟩
    · exact ⟨rfl, Nat.le_refl _⟩

/-- `Create` adds the user it returns. -/
theorem create_adds {store store' : MemoryUserStore} {input : CreateUserRequest} {user : User}
    (hcreate : store.create input = (store', .ok user)) :
    user.id = store.nextID ∧ store'.nextID = store.nextID + 1 ∧
      store'.users.drop store.users.length = [user] := by
  obtain ⟨huser, hstore⟩ := create_ok hcreate
  exact ⟨by rw [huser], by rw [hstore], by rw [hstore, List.drop_left]⟩

/-- A reply that logs nobody in sends no mail. -/
theorem welcome_eq_nil {reply : Reply} (hreply : ∀ status resp, reply ≠ ⟨status, .login resp⟩) :
    welcome o reply = [] := by
  unfold welcome
  split
  · rename_i status resp
    exact absurd rfl (hreply status resp)
  · rfl

def mailOf (o : Options) (u : User) : List UInt8 := o.marshal u.id u.name u.email

/-- What a request does to the accounts, the outbox and the jobs. -/
inductive Adds (env : Env) (o : Options) (s : Service τ) (v : Visit) (s' : Service τ) :
    List (Visit × User) → Prop where
  | none : s'.session.store.nextID = s.session.store.nextID → s'.outbox = s.outbox →
      s'.jobs = s.jobs → Adds env o s v s' []
  | one {user : User} : user.id = s.session.store.nextID →
      s'.session.store.nextID = s.session.store.nextID + 1 → Asks env v user →
      (v.request.path = "/users" → s'.jobs = s.jobs ∧ s'.outbox = s.outbox ++
        if o.hasOutbox then [o.userHandler.createdEvent v.outside.now user] else []) →
      (v.request.path = "/auth/register" → s'.outbox = s.outbox ∧ s'.jobs = s.jobs ++
        if o.hasJobQueue then [mailOf o user] else []) →
      Adds env o s v s' [(v, user)]

/-- **A request announces the account that it creates, and no other.** -/
theorem adds_of_effect (hsigns : env.Signs) {v : Visit}
    (he : Effect env o ts h s v.request v.outside s') :
    Adds env o s v s' (newAccounts s v s') := by
  have hquiet : ∀ {t : Service τ} (op : Op), (∀ input, op ≠ .create input) →
      t.session.store = s.session.store.apply op → t.outbox = s.outbox → t.jobs = s.jobs →
      Adds env o s v t (newAccounts s v t) := by
    intro t op hop hstore houtbox hjobs
    obtain ⟨hnext, hdrop⟩ := apply_adds_none s.session.store hop
    rw [newAccounts, hstore, hdrop]
    exact .none (by rw [hstore, hnext]) houtbox hjobs
  have hsame : ∀ {t : Service τ}, t.session.store = s.session.store → t.outbox = s.outbox →
      t.jobs = s.jobs → Adds env o s v t (newAccounts s v t) := by
    intro t hstore houtbox hjobs
    rw [newAccounts, hstore, List.drop_length]
    exact .none (by rw [hstore]) houtbox hjobs
  cases he with
  | nothing | asked | login | refresh _ | forgot _ | logout _ => exact hsame rfl rfl rfl
  | @register store issued reply hpath heq =>
    rcases register_cases_of_signs hsigns heq with
      ⟨rfl, hreply⟩ | ⟨input, user, pair, hinput, hcreate, rfl⟩
    · exact hsame rfl rfl (by simp [welcome_eq_nil hreply])
    · obtain ⟨hid, hnext, hdrop⟩ := create_adds hcreate
      obtain ⟨sent, hashed, hbody, -, -, rfl⟩ := accountInput_ok hinput
      have huser := (create_ok hcreate).1
      have hone : newAccounts s v { ((s.begin ts v.outside).setStore store).issue issued with
          jobs := s.jobs ++ welcome o (AuthHandler.loginReply 201 pair v.outside.now user) } =
          [(v, user)] := congrArg (List.map (v, ·)) hdrop
      rw [hone]
      refine .one hid hnext ⟨sent, hbody, by rw [huser], .inr ⟨hpath, by rw [huser]⟩⟩ ?_ ?_
      · intro hother
        rw [hpath] at hother
        simp at hother
      · exact fun _ => ⟨rfl, by simp [welcome, AuthHandler.loginReply, mailOf]⟩
  | reset _ _ _ heq =>
    rcases resetConsumed_cases heq with ⟨rfl, _⟩ | ⟨userID, hashed, _, _, hupdate, _⟩
    · exact hsame rfl rfl rfl
    · refine hquiet (.updatePassword userID.toInt hashed) (by simp) ?_ rfl rfl
      exact (congrArg Prod.fst hupdate).symm
  | @create b u store events answer hpath _ heq =>
    rcases createUser_cases heq with ⟨rfl, rfl, _⟩ | ⟨input, user, hinput, hcreate, rfl, _⟩
    · exact hsame rfl (List.append_nil _) rfl
    · obtain ⟨hid, hnext, hdrop⟩ := create_adds hcreate
      obtain ⟨sent, hashed, hbody, -, -, rfl⟩ := accountInput_ok hinput
      have huser := (create_ok hcreate).1
      have hone : newAccounts s v
          { ((s.begin ts v.outside).setBlacklist b).setStore store with
            outbox := s.outbox ++ if o.userHandler.hasOutbox then
              [o.userHandler.createdEvent v.outside.now user] else [] } = [(v, user)] :=
        congrArg (List.map (v, ·)) hdrop
      rw [hone]
      refine .one hid hnext ⟨sent, hbody, by rw [huser], .inl ⟨hpath, by rw [huser]; rfl⟩⟩ ?_ ?_
      · exact fun _ => ⟨rfl, rfl⟩
      · intro hother
        rw [hpath] at hother
        simp at hother
  | update _ _ heq =>
    rcases updateUser_cases heq with ⟨rfl, _⟩ | ⟨id, input, user, _, _, _, hupdate, _⟩
    · exact hsame rfl rfl rfl
    · exact hquiet (.update id input) (by simp) (congrArg Prod.fst hupdate).symm rfl rfl
  | delete _ _ heq =>
    rcases deleteUser_cases heq with ⟨rfl, _⟩ | ⟨id, _, hdelete, _⟩
    · exact hsame rfl rfl rfl
    · exact hquiet (.delete id) (by simp) (congrArg Prod.fst hdelete).symm rfl rfl

/-- The jobs that come with a request are those of the accounts registered in
it. -/
theorem Adds.jobs {v : Visit} {new : List (Visit × User)} (hadds : Adds env o s v s' new)
    (hqueue : o.hasJobQueue = true) :
    s'.jobs = s.jobs ++ (through "/auth/register" new).map fun p => mailOf o p.2 := by
  cases hadds with
  | none _ _ hjobs => simp [hjobs, through]
  | one _ _ hasks husers hregister =>
    obtain ⟨_, _, _, ⟨hpath, _⟩ | ⟨hpath, _⟩⟩ := hasks
    · simp [(husers hpath).1, through_singleton, hpath]
    · simp [(hregister hpath).2, through_singleton, hpath, hqueue]

theorem Adds.outbox {v : Visit} {new : List (Visit × User)} (hadds : Adds env o s v s' new)
    (houtbox : o.hasOutbox = true) :
    s'.outbox = s.outbox ++ (through "/users" new).map fun p =>
      o.userHandler.createdEvent p.1.outside.now p.2 := by
  cases hadds with
  | none _ hbox _ => simp [hbox, through]
  | one _ _ hasks husers hregister =>
    obtain ⟨_, _, _, ⟨hpath, _⟩ | ⟨hpath, _⟩⟩ := hasks
    · simp [(husers hpath).2, through_singleton, hpath, houtbox]
    · simp [(hregister hpath).1, through_singleton, hpath]

theorem Adds.asks {v : Visit} {new : List (Visit × User)} (hadds : Adds env o s v s' new)
    {p : Visit × User} (hp : p ∈ new) : p.1 = v ∧ Asks env v p.2 := by
  cases hadds with
  | none => cases hp
  | one _ _ hasks =>
    cases List.mem_singleton.mp hp
    exact ⟨rfl, hasks⟩

/-- What the record of the accounts says of the state. -/
structure Announced (o : Options) (accounts : List (Visit × User)) (s : Service τ) : Prop where
  ids : accounts.map (fun p => p.2.id) = idsBelow s.session.store.nextID
  pos : 1 ≤ s.session.store.nextID
  events : s.outbox = (through "/users" accounts).map fun p =>
    o.userHandler.createdEvent p.1.outside.now p.2
  mails : s.jobs = (through "/auth/register" accounts).map fun p => mailOf o p.2

theorem Announced.adds (houtbox : o.hasOutbox = true) (hqueue : o.hasJobQueue = true)
    {accounts new : List (Visit × User)} (hs : s.Announced o accounts) {v : Visit}
    (hadds : Adds env o s v s' new) : s'.Announced o (accounts ++ new) := by
  have hevents : s'.outbox = (through "/users" (accounts ++ new)).map fun p =>
      o.userHandler.createdEvent p.1.outside.now p.2 := by
    rw [hadds.outbox houtbox, hs.events, through_append, List.map_append]
  have hmails : s'.jobs = (through "/auth/register" (accounts ++ new)).map fun p =>
      mailOf o p.2 := by
    rw [hadds.jobs hqueue, hs.mails, through_append, List.map_append]
  have hpos := hs.pos
  cases hadds with
  | none hnext _ _ =>
    exact ⟨by rw [List.append_nil, hs.ids, hnext], hnext ▸ hpos, hevents, hmails⟩
  | one hid hnext _ _ _ =>
    refine ⟨?_, by omega, hevents, hmails⟩
    rw [hnext, idsBelow_succ hpos, List.map_append, hs.ids, List.map_singleton, hid]

/-- A library for JSON Web Tokens with one token, which names the user 1. -/
def oneTokenEnv : Env :=
  { Sample.env [] with
    jwt := ⟨fun _ _ => some "token", fun _ raw =>
      if raw = "token" then some (Sample.handler.issuer.claims 0 "a1" 1) else none⟩ }

theorem oneTokenEnv_signs : oneTokenEnv.Signs := fun _ _ => rfl

/-- The account that was registered creates another one. -/
def createBob : Visit where
  request := { bare "POST" "/users" "Bearer token" with
    createUser := .ok ⟨"Bob", "bob@example.com", "battery staple"⟩ }
  outside := sampleOutside "2"

/-- As an `int64` an id does not get larger. -/
theorem toInt_ofInt_le {n : Int} (hn : 0 ≤ n) : (Int64.ofInt n).toInt ≤ n := by
  have hsize : (Int64.size : Int) = 18446744073709551616 := rfl
  rw [Int64.toInt_ofInt, Int.bmod_def, hsize]
  split <;> omega

theorem issueTokens_subject {st : Stamps} {u : Int64} {issued : List IssuedToken}
    {pair : Option TokenPair} (heq : h.issueTokens env st u = (issued, pair)) {y : IssuedToken}
    (hy : y ∈ issued) : y.subject = u := by
  unfold AuthHandler.issueTokens at heq
  split at heq
  · cases heq
    cases hy
  · dsimp only at heq
    split at heq
    · cases heq
      rw [List.mem_singleton.mp hy]
    · cases heq
      rcases List.mem_cons.mp hy with rfl | hy
      · rfl
      · rw [List.mem_singleton.mp hy]

theorem mem_of_getByEmail {store : MemoryUserStore} {email : String} {user : User}
    (hget : store.getByEmail email = .ok user) : user ∈ store.users := by
  obtain ⟨before, after, hus, _⟩ := getByEmailScan_ok_iff.mp hget
  rw [hus]
  simp

/-! The tokens of each handler are for a user of the store, or for the user
of another token. -/

theorem login_subject {store : MemoryUserStore} {st : Stamps} {now : Time}
    {r : Request AuthHandler.LoginRequest} {y : IssuedToken}
    (hy : y ∈ (h.login env store st now r).1) :
    ∃ user ∈ store.users, y.subject = Int64.ofInt user.id := by
  unfold AuthHandler.login at hy
  split at hy
  · cases hy
  · dsimp only at hy
    split at hy
    · cases hy
    · split at hy
      · cases hy
      · cases hy
      · rename_i user hget
        split at hy
        · cases hy
        · refine ⟨user, mem_of_getByEmail hget, ?_⟩
          split at hy
          · rename_i issued hissued
            exact issueTokens_subject hissued hy
          · rename_i issued pair hissued
            exact issueTokens_subject hissued hy

theorem register_subject {store store' : MemoryUserStore} {st : Stamps} {now : Time}
    {r : Request CreateUserRequest} {issued : List IssuedToken} {reply : Reply}
    (heq : h.register env store st now r = (store', issued, reply)) {y : IssuedToken}
    (hy : y ∈ issued) : ∃ user ∈ store'.users, y.subject = Int64.ofInt user.id := by
  rcases register_cases heq with ⟨_, rfl, _⟩ | ⟨_, user, _, hcreate, rfl, _⟩
  · cases hy
  · refine ⟨user, ?_, issueTokens_subject rfl hy⟩
    rw [(create_ok hcreate).2]
    simp

theorem refresh_subject {store : MemoryUserStore} {b b' : MemoryBlacklist} {t : CheckTimes}
    {st : Stamps} {now : Time} {r : Request String} {issued : List IssuedToken} {reply : Reply}
    (heq : h.refresh env store b t st now r = (b', issued, reply)) {y : IssuedToken}
    (hy : y ∈ issued) :
    ∃ raw claims, r.body = .ok raw ∧ h.refreshIssuer.parse env.jwt t.parse raw = .ok claims ∧
      y.subject = claims.subject := by
  unfold AuthHandler.refresh AuthHandler.refreshWith at heq
  split at heq
  · cases heq
    cases hy
  · rename_i raw hinput
    split at heq
    · cases heq
      cases hy
    · rename_i claims hparse
      have hparse' : h.refreshIssuer.parse env.jwt t.parse raw = .ok claims := by
        unfold AuthHandler.refreshParse at hparse
        split at hparse
        · cases hparse
        · cases hparse
          assumption
      refine ⟨raw, claims, Session.body_of_refreshInput hinput, hparse', ?_⟩
      split at heq
      · cases heq
        cases hy
      · split at heq
        · cases heq
          cases hy
        · dsimp only at heq
          split at heq
          · rename_i issued₁ hissued
            cases heq
            exact issueTokens_subject hissued hy
          · rename_i issued₁ pair hissued
            cases heq
            exact issueTokens_subject hissued hy

/-- A refresh token that `Parse` accepts was issued, to the user it gives. -/
theorem issued_of_parse {s : Session} (hs : s.Consistent env h) (hw : Session.Wired h) {now : Time}
    {raw : String} {claims : Claims} (hforge : s.Unforged env h raw)
    (hparse : h.refreshIssuer.parse env.jwt now raw = .ok claims) :
    ∃ y ∈ s.issued, claims.subject = y.subject := by
  obtain ⟨c, hverify, _⟩ := TokenIssuer.parse_eq_ok_iff.mp hparse
  rw [hw.secret] at hverify
  obtain ⟨y, hy, rfl⟩ := hforge c hverify
  obtain ⟨_, _, rfl⟩ := ((hs.signed y hy).parse_iff hw.secret hverify).mp hparse
  exact ⟨y, hy, rfl⟩

/-! ## Ids in use -/

/-- What a request does to the store is one call of a method, or nothing. -/
theorem store_of_effect (he : Effect env o ts h s r x s') :
    s'.session.store = s.session.store ∨
      ∃ op, s'.session.store = s.session.store.apply op := by
  cases he with
  | nothing | asked | login | refresh _ | forgot _ | logout _ => exact .inl rfl
  | register _ heq =>
    rcases register_cases heq with ⟨hsame, _⟩ | ⟨input, user, _, hcreate, _⟩
    · exact .inl hsame
    · exact .inr ⟨.create input, by rw [MemoryUserStore.apply, hcreate]; rfl⟩
  | reset _ _ _ heq =>
    rcases resetConsumed_cases heq with ⟨hsame, _⟩ | ⟨userID, hashed, _, _, hupdate, _⟩
    · exact .inl hsame
    · exact .inr ⟨.updatePassword userID.toInt hashed, by rw [MemoryUserStore.apply, hupdate]; rfl⟩
  | create _ _ heq =>
    rcases createUser_cases heq with ⟨hsame, _⟩ | ⟨input, user, _, hcreate, _⟩
    · exact .inl hsame
    · exact .inr ⟨.create input, by rw [MemoryUserStore.apply, hcreate]; rfl⟩
  | update _ _ heq =>
    rcases updateUser_cases heq with ⟨hsame, _⟩ | ⟨id, input, user, _, _, _, hupdate, _⟩
    · exact .inl hsame
    · exact .inr ⟨.update id input, by rw [MemoryUserStore.apply, hupdate]; rfl⟩
  | delete _ _ heq =>
    rcases deleteUser_cases heq with ⟨hsame, _⟩ | ⟨id, _, hdelete, _⟩
    · exact .inl hsame
    · exact .inr ⟨.delete id, by rw [MemoryUserStore.apply, hdelete]; rfl⟩

/-- Users and tokens are numbered below the next id. -/
structure Below (s : Service τ) : Prop where
  users : ∀ u ∈ s.session.store.users, 1 ≤ u.id ∧ u.id < s.session.store.nextID
  subjects : ∀ y ∈ s.session.issued, y.subject.toInt < s.session.store.nextID
  pos : 1 ≤ s.session.store.nextID

theorem nextID_le_of_effect (he : Effect env o ts h s r x s') :
    s.session.store.nextID ≤ s'.session.store.nextID := by
  rcases store_of_effect he with hsame | ⟨op, happly⟩
  · rw [hsame]
  · rw [happly]
    rcases ids_apply s.session.store op with ⟨-, hnext⟩ | ⟨user, -, hcreated⟩
    · rw [hnext]
    · rw [hcreated]
      exact Int.le_of_lt (Int.lt_succ _)

/-- The ids after a request are ids from before, or the next one. -/
theorem id_of_effect (he : Effect env o ts h s r x s') {u : User}
    (hu : u ∈ s'.session.store.users) :
    (∃ v ∈ s.session.store.users, v.id = u.id) ∨
      u.id = s.session.store.nextID ∧ u.id < s'.session.store.nextID := by
  rcases store_of_effect he with hsame | ⟨op, happly⟩
  · exact .inl ⟨u, hsame ▸ hu, rfl⟩
  · rw [happly] at hu ⊢
    rcases ids_apply s.session.store op with ⟨hids, -⟩ | ⟨user, hid, hcreated⟩
    · obtain ⟨v, hv, hvid⟩ := List.mem_map.mp (hids.subset (List.mem_map_of_mem hu))
      exact .inl ⟨v, hv, hvid⟩
    · rw [hcreated] at hu ⊢
      rcases List.mem_append.mp hu with hu | hu
      · exact .inl ⟨u, hu, rfl⟩
      · rw [List.mem_singleton.mp hu, hid]
        exact .inr ⟨rfl, Int.lt_succ _⟩

/-- The tokens that a request issues are for users of the store after it, or
for the users of earlier tokens. -/
theorem subject_of_effect (hs : s.session.Consistent env h) (hw : Session.Wired h)
    (hforge : ∀ raw ∈ r.refresh.toOption, s.session.Unforged env h raw)
    (he : Effect env o ts h s r x s') {y : IssuedToken} (hy : y ∈ s'.session.issued) :
    (∃ z ∈ s.session.issued, y.subject = z.subject) ∨
      ∃ u ∈ s'.session.store.users, y.subject = Int64.ofInt u.id := by
  cases he with
  | login =>
    rcases List.mem_append.mp hy with hy | hy
    · exact .inl ⟨y, hy, rfl⟩
    · exact .inr (login_subject hy)
  | register _ heq =>
    rcases List.mem_append.mp hy with hy | hy
    · exact .inl ⟨y, hy, rfl⟩
    · exact .inr (register_subject heq hy)
  | refresh heq =>
    rcases List.mem_append.mp hy with hy | hy
    · exact .inl ⟨y, hy, rfl⟩
    · obtain ⟨raw, claims, hbody, hparse, hsubject⟩ := refresh_subject heq hy
      have hbody' : r.refresh = .ok raw := hbody
      have hunforged := hforge raw (by simp [hbody', Except.toOption])
      obtain ⟨z, hz, hzsubject⟩ := issued_of_parse hs hw hunforged hparse
      exact .inl ⟨z, hz, hsubject.trans hzsubject⟩
  | _ => exact .inl ⟨y, hy, rfl⟩

theorem Below.effect (hbelow : s.Below) (hs : s.session.Consistent env h) (hw : Session.Wired h)
    (hforge : ∀ raw ∈ r.refresh.toOption, s.session.Unforged env h raw)
    (he : Effect env o ts h s r x s') : s'.Below := by
  have hle := nextID_le_of_effect he
  have hpos := hbelow.pos
  have husers : ∀ u ∈ s'.session.store.users,
      1 ≤ u.id ∧ u.id < s'.session.store.nextID := by
    intro u hu
    rcases id_of_effect he hu with ⟨v, hv, hvid⟩ | ⟨hid, hlt⟩
    · have := hbelow.users v hv
      omega
    · omega
  refine ⟨husers, fun y hy => ?_, by omega⟩
  rcases subject_of_effect hs hw hforge he hy with ⟨z, hz, hsubject⟩ | ⟨u, hu, hsubject⟩
  · have := hbelow.subjects z hz
    rw [hsubject]
    omega
  · obtain ⟨hone, hlt⟩ := husers u hu
    have : (Int64.ofInt u.id).toInt ≤ u.id := toInt_ofInt_le (by omega)
    rw [hsubject]
    omega

/-! ## `/me` -/

theorem route_me (ho : o.authHandler = some h) : o.route "/me" = .auth h .me := by
  unfold Options.route Options.patterns
  rw [ho]
  cases o.hasProbes <;> cases o.hasMetrics <;> rfl

/-- A user that `/me` answers with is the one that the accepted token names. -/
theorem me_response (ho : o.authHandler = some h) (hpath : r.path = "/me") {status : Nat}
    {u : User} (hshown : (serve env cleanPath o ts r x s).2 = .user status u) :
    ∃ b userID, requireAuth env h.issuer s.session.blacklist x.check r.authorization =
        (b, .ok userID) ∧
      ∃ user ∈ s.session.store.users, user.id = userID.toInt ∧
        u = { user with passwordHash := "" } := by
  unfold serve at hshown
  dsimp only at hshown
  rw [hpath, route_me ho] at hshown
  split at hshown
  · cases hshown
  split at hshown
  · cases hshown
  simp only [serveAuth, limited] at hshown
  split at hshown
  · unfold authenticated at hshown
    split at hshown
    · cases hshown
    · rename_i b userID hauth
      refine ⟨b, userID, hauth, ?_⟩
      unfold me at hshown
      split at hshown
      · cases hshown
      · beta_reduce at hshown
        split at hshown
        · cases hshown
        · cases hshown
        · rename_i user hget
          cases hshown
          obtain ⟨hmem, hid⟩ := mem_of_getByID hget
          exact ⟨user, hmem, hid, rfl⟩
  · cases hshown

/-- No request takes a token out of the history. -/
theorem issued_of_effect (he : Effect env o ts h s r x s') {y : IssuedToken}
    (hy : y ∈ s.session.issued) : y ∈ s'.session.issued := by
  cases he with
  | login | register _ _ | refresh _ => exact List.mem_append_left _ hy
  | _ => exact hy

section Me

variable {holds : τ → String → Option ResetToken} {reads : ρ → Option ResetToken}

/-- **Nobody is shown an account that is newer than the token.** What `/me`
answers the bearer of a token with is the account that the token names, as it
is stored now; and that account was there all the time since the token was
issued. -/
theorem me_shows_account_of_token (hjwt : env.jwt.Correct) (hw : Session.Wired h)
    (ho : o.authHandler = some h) (hts : ts.Lawful holds reads) {clock : Time} {tokens : τ}
    (hempty : ∀ token, holds tokens token = none) {vs₁ vs₂ : List Visit} {s₁ s : Service τ}
    (hrun₁ : run (step env cleanPath o ts) (init newMemoryUserStore clock tokens) vs₁ = some s₁)
    (hrun₂ : run (step env cleanPath o ts) s₁ vs₂ = some s)
    (hsane : Along (step env cleanPath o ts) (Sane env h) (init newMemoryUserStore clock tokens)
      (vs₁ ++ vs₂))
    {y : IssuedToken} (hy : y ∈ s₁.session.issued) {v : Visit}
    (hpath : v.request.path = "/me") (hbearer : bearer v.request.authorization = some y.raw)
    {status : Nat} {u : User}
    (hshown : (serve env cleanPath o ts v.request v.outside s).2 = .user status u) :
    ∃ user ∈ s.session.store.users, u = { user with passwordHash := "" } ∧
      user.id = y.subject.toInt ∧ ∃ u₁ ∈ s₁.session.store.users, u₁.id = user.id := by
  have heffect : ∀ (t : Service τ) (v : Visit), Effect env o ts h t v.request v.outside
      (serve env cleanPath o ts v.request v.outside t).1 := fun t v => effect_of_serve ho
  have hsane₁ := hsane.append.1
  have hkept : s.Kept env h holds :=
    kept_of_run hjwt hw ho hts hempty (run_append_eq_some.mpr ⟨s₁, hrun₁, hrun₂⟩) hsane
  have hbelow : s₁.Below := by
    have hboth : s₁.Kept env h holds ∧ s₁.Below := by
      refine hsane₁.invariant (I := fun t => t.Kept env h holds ∧ t.Below) ?_
        ⟨⟨.init _ _, ?_⟩, ?_⟩ hrun₁
      · rintro t v t' ⟨ht, hbelow⟩ hv ⟨⟩
        exact ⟨⟨ht.consistent.moves (moves_of_effect hjwt hw ht.consistent hv (heffect t v)),
            ht.resets.effect hts (heffect t v)⟩,
          hbelow.effect ht.consistent hw hv.refresh (heffect t v)⟩
      · exact ⟨by simp [init, Session.init, newMemoryUserStore], by simp [init, Session.init],
          Int.le_refl _⟩
      · intro token t ht
        have ht' : holds tokens token = some t := ht
        rw [hempty] at ht'
        cases ht'
    exact hboth.2
  -- the token is still known, so it is the one that was accepted
  have hys : y ∈ s.session.issued := by
    refine run_invariant (I := fun t => y ∈ t.session.issued) ?_ hy hrun₂
    rintro t v t' ht ⟨⟩
    exact issued_of_effect (heffect t v) ht
  obtain ⟨b, userID, hauth, user, huser, hid, rfl⟩ := me_response ho hpath hshown
  obtain ⟨_, ⟨raw, claims, _, htoken, hparse, _, rfl⟩, _⟩ :=
    Session.requireAuth_eq_ok_iff.mp (congrArg Prod.snd hauth)
  have hraw := bearer_of_bearerToken htoken
  rw [hbearer] at hraw
  cases hraw
  have hsigned := hkept.consistent.signed y hys
  obtain ⟨_, _, rfl⟩ := (hsigned.parse_iff rfl hsigned.verify).mp hparse
  -- its user has an id from before `s₁`, and those are not given out again
  have hold : s₁.session.store.nextID ≤ s.session.store.nextID ∧
      ∀ u ∈ s.session.store.users, u.id < s₁.session.store.nextID →
        ∃ u₁ ∈ s₁.session.store.users, u₁.id = u.id := by
    refine run_invariant (I := fun t => s₁.session.store.nextID ≤ t.session.store.nextID ∧
      ∀ u ∈ t.session.store.users, u.id < s₁.session.store.nextID →
        ∃ u₁ ∈ s₁.session.store.users, u₁.id = u.id) ?_ ⟨Int.le_refl _, fun u hu _ => ⟨u, hu, rfl⟩⟩
      hrun₂
    rintro t v t' ⟨hle, ht⟩ ⟨⟩
    refine ⟨Int.le_trans hle (nextID_le_of_effect (heffect t v)), fun u hu hlt => ?_⟩
    rcases id_of_effect (heffect t v) hu with ⟨w, hw, hwid⟩ | ⟨hnew, _⟩
    · rw [← hwid] at hlt ⊢
      exact ht w hw hlt
    · omega
  have hlt : user.id < s₁.session.store.nextID := hid ▸ hbelow.subjects y hy
  exact ⟨user, huser, rfl, hid, hold.2 user huser hlt⟩

end Me

section OneAccount

def getMe : Visit where
  request := bare "GET" "/me" "Bearer access-1"
  outside := sampleOutside "3"

theorem me_shows_account_of_token_renamed :
    ∃ s₁ s, run (step sampleEnv id sampleOptions ResetTokenStore.tokenStore)
        (init newMemoryUserStore 0 .new) [registerAda] = some s₁ ∧
      run (step sampleEnv id sampleOptions ResetTokenStore.tokenStore) s₁ [renameAda] = some s ∧
      (serve sampleEnv id sampleOptions ResetTokenStore.tokenStore getMe.request getMe.outside
          s).2 = .user 200 ⟨1, "Ada L.", "ada@example.com", ""⟩ ∧
      ∃ user ∈ s.session.store.users, user.id = 1 ∧
        ∃ u₁ ∈ s₁.session.store.users, u₁.id = user.id := by
  have hends : ∃ s₁, run (step sampleEnv id sampleOptions ResetTokenStore.tokenStore)
      (init newMemoryUserStore 0 .new) [registerAda] = some s₁ ∧
      (∃ y ∈ s₁.session.issued, y.subject = 1 ∧
        bearer getMe.request.authorization = some y.raw) ∧
      (run (step sampleEnv id sampleOptions ResetTokenStore.tokenStore) s₁ [renameAda]).any
        (fun s => decide ((serve sampleEnv id sampleOptions ResetTokenStore.tokenStore
          getMe.request getMe.outside s).2 =
            .user 200 ⟨1, "Ada L.", "ada@example.com", ""⟩)) = true :=
    exists_run_of_any (by decide +kernel)
  obtain ⟨s₁, hrun₁, ⟨y, hy, hsubject, hbearer⟩, hany⟩ := hends
  obtain ⟨s, hrun₂, hshown⟩ := exists_run_of_any hany
  obtain ⟨user, huser, _, hid, hold⟩ := me_shows_account_of_token sampleEnv_correct
    Session.sample_wired rfl ResetTokenStore.lawful_tokenStore (fun _ => rfl) hrun₁ hrun₂
    (by decide +kernel) hy rfl hbearer hshown
  rw [hsubject] at hid
  exact ⟨s₁, s, hrun₁, hrun₂, hshown, user, huser, hid, hold⟩

end OneAccount

end GoRestApi.Server.Service
