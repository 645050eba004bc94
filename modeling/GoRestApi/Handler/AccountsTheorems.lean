/-
GoRestApi.Handler.AccountsTheorems — whether an account can log in with the
email it was given.

`Login` looks for the normalized email and takes the first user that has it.
So an account can log in with the email it was given exactly if what the
store has for it is that email in normal form, and no account ahead of it in
the list has the same one: `login_iff_first_with_normalized_email`. Two
handlers can break this. `CreateUser` and `UpdateUser` store the email as it
was sent; `Update` does not look at the users behind its target. Along a run
in which neither happens every account can log in.

`Served` lists the ways a request can change the store; the invariants are
case analyses over it.
-/
import GoRestApi.Handler.Accounts
import GoRestApi.Handler.UserTheorems

namespace GoRestApi.Handler

open Go Store MemoryUserStore Lts

namespace Accounts

/-! ## What a request can do -/

/-- The emails that `CreateUser` and `UpdateUser` are sent are in normal form,
and `UpdateUser` gives no account the email of one behind it. -/
def Tidy (env : Env) (s : State) : Act → Prop
  | .createUser r _ => ∀ input, r.body = .ok input → env.normalize input.email = input.email
  | .updateUser path r => ∀ input, r.body = .ok input →
      env.normalize input.email = input.email ∧
        ∀ id, userIDFromPath path = some id → NewEmailFreeBehind s.store (.update id input)
  | _ => True

/-- The ways a request `a` can change the store, with what it has told. -/
inductive Served (env : Env) (s : State) (a : Act) : MemoryUserStore → Option Change → Prop
  | unchanged : Served env s a s.store none
  | created {store' : MemoryUserStore} {stored : CreateUserRequest} {user : User}
      {email password : String} {cost : Int} (hcreate : s.store.create stored = (store', .ok user))
      (hemail : email ≠ "") (hpassword : password ≠ "")
      (hhash : env.hashPassword password cost = some stored.password)
      (htidy : Tidy env s a → stored.email = env.normalize email) :
      Served env s a store' (some (.enrolled user.id email password))
  | updated {store' : MemoryUserStore} {id : Int} {input : UpdateUserRequest} {user : User}
      (hupdate : s.store.update id input = (store', .ok user)) (hemail : input.email ≠ "")
      (htidy : Tidy env s a → env.normalize input.email = input.email ∧
        NewEmailFreeBehind s.store (.update id input)) :
      Served env s a store' (some (.renamed id input.email))
  | deleted {store' : MemoryUserStore} {id : Int} (hdelete : s.store.delete id = (store', .ok ())) :
      Served env s a store' (some (.removed id))
  | passwordUpdated {store' : MemoryUserStore} {id : Int} {hash password : String} {cost : Int}
      (hupdate : s.store.updatePassword id hash = (store', .ok ())) (hpassword : password ≠ "")
      (hhash : env.hashPassword password cost = some hash) :
      Served env s a store' (some (.repassworded id password))

variable {env : Env} {auth : AuthHandler} {users : UserHandler}

theorem served (henv : env.Sound) (s : State) (a : Act) :
    Served env s a (serve env auth users s.store a).1 (serve env auth users s.store a).2 := by
  cases a with
  | createUser r now =>
    rcases heq : users.createUser env s.store now r with ⟨store', events, answer⟩
    rcases createUser_cases heq with ⟨rfl, _, reply, rfl⟩ | ⟨input, user, hinput, hcreate, _, rfl⟩
    · simpa only [serve, heq] using .unchanged
    · obtain ⟨sent, hashed, hbody, hvalid, hhash, rfl⟩ := accountInput_ok hinput
      obtain ⟨hemail, hpassword⟩ := validateUserInput_eq_nil hvalid
      simpa only [serve, heq, hbody] using
        .created hcreate hemail hpassword hhash fun htidy => (htidy sent hbody).symm
  | register r st now =>
    rcases heq : auth.register env s.store st now r with ⟨store', issued, reply⟩
    rcases register_cases_of_signs henv.signs heq with
      ⟨rfl, hreply⟩ | ⟨input, user, pair, hinput, hcreate, rfl⟩
    · obtain ⟨status, body⟩ := reply
      cases body with
      | login resp => exact absurd rfl (hreply status resp)
      | empty => simpa only [serve, heq] using .unchanged
      | error code message details => simpa only [serve, heq] using .unchanged
    · obtain ⟨sent, hashed, hbody, hvalid, hhash, rfl⟩ := accountInput_ok hinput
      obtain ⟨hemail, hpassword⟩ := validateUserInput_eq_nil hvalid
      simpa only [serve, heq, hbody, AuthHandler.loginReply] using
        .created hcreate hemail hpassword hhash fun _ => rfl
  | updateUser path r =>
    rcases heq : UserHandler.updateUser env s.store path r with ⟨store', answer⟩
    rcases updateUser_cases heq with ⟨rfl, reply, rfl⟩ | ⟨id, input, user, hid, hbody, hvalid,
      hupdate, rfl⟩
    · simpa only [serve, heq] using .unchanged
    · have hemail := validateUpdateUserInput_eq_nil hvalid
      obtain ⟨old, -, hold, huser, -⟩ := update_ok hupdate
      have hid' : user.id = id := by rw [huser, hold]
      simpa only [serve, heq, hbody, hid'] using
        .updated hupdate hemail fun htidy =>
          ⟨(htidy input hbody).1, (htidy input hbody).2 id hid⟩
  | deleteUser method path =>
    rcases heq : UserHandler.deleteUser s.store method path with ⟨store', reply⟩
    rcases deleteUser_cases heq with ⟨rfl, hstatus⟩ | ⟨id, hid, hdelete, rfl⟩
    · simp only [serve, heq]
      split
      · rename_i hreply
        cases hreply
        exact absurd rfl hstatus
      · rename_i hreply
        cases hreply
        exact .unchanged
    · simpa only [serve, heq, hid] using .deleted hdelete
  | resetPassword r consumed =>
    simp only [serve]
    split
    · exact .unchanged
    · rename_i input hinput
      rcases heq : auth.resetConsumed env s.store input consumed with ⟨store', reply⟩
      rcases resetConsumed_cases heq with ⟨rfl, hstatus⟩ | ⟨userID, hashed, rfl, hhash, hupdate,
        rfl⟩
      · split
        · rename_i hreply
          cases hreply
          exact absurd rfl hstatus
        · rename_i hreply
          cases hreply
          exact .unchanged
      · exact .passwordUpdated hupdate (resetInput_ok hinput).2 hhash

variable {s : State} {a : Act} {store' : MemoryUserStore} {change : Option Change} {u : Int}

/-- Whatever a request does to the store is one call of a method. -/
theorem Served.apply (h : Served env s a store' change) :
    store' = s.store ∨
      ∃ op, store' = s.store.apply op ∧ (Tidy env s a → NewEmailFreeBehind s.store op) := by
  cases h with
  | unchanged => exact .inl rfl
  | created hcreate _ _ _ _ =>
    exact .inr ⟨.create _, (congrArg Prod.fst hcreate).symm, fun _ => trivial⟩
  | updated hupdate _ htidy =>
    exact .inr ⟨.update _ _, (congrArg Prod.fst hupdate).symm, fun h => (htidy h).2⟩
  | deleted hdelete => exact .inr ⟨.delete _, (congrArg Prod.fst hdelete).symm, fun _ => trivial⟩
  | passwordUpdated hupdate _ _ =>
    exact .inr ⟨.updatePassword _ _, (congrArg Prod.fst hupdate).symm, fun _ => trivial⟩

theorem Served.numbered (h : Served env s a store' change) (hnum : s.store.Numbered) :
    store'.Numbered := by
  rcases h.apply with hsame | ⟨op, hop, -⟩
  · rwa [hsame]
  · rw [hop]
    exact hnum.apply op

theorem Served.emailsUnique (h : Served env s a store' change) (htidy : Tidy env s a)
    (hunique : EmailsUnique s.store) : EmailsUnique store' := by
  rcases h.apply with hsame | ⟨op, hop, hfree⟩
  · rwa [hsame]
  · rw [hop]
    exact (apply_emailsUnique_iff op hunique).mpr (hfree htidy)

/-- The other accounts stay as they are. -/
theorem Served.getByID_of_ne (h : Served env s a store' change)
    (hu : ∀ c ∈ change, c.id ≠ u) : store'.getByID u = s.store.getByID u := by
  cases h with
  | unchanged => rfl
  | @created store' stored user _ _ _ hcreate _ _ _ _ =>
    have hid : user.id ≠ u := hu _ rfl
    rw [(create_ok hcreate).1] at hid
    simpa only [hcreate] using @getByID_create s.store stored u hid.symm
  | @updated store' id input _ hupdate _ _ =>
    simpa only [hupdate] using @getByID_update s.store id u input (hu _ rfl).symm
  | @deleted store' id hdelete =>
    simpa only [hdelete] using @getByID_delete s.store id u (hu _ rfl).symm
  | @passwordUpdated store' id hash _ _ hupdate _ _ =>
    simpa only [hupdate] using @getByID_updatePassword s.store id u hash (hu _ rfl).symm

theorem State.after_of_ne (hu : ∀ c ∈ change, c.id ≠ u) :
    (s.after (store', change)).email u = s.email u ∧
      (s.after (store', change)).password u = s.password u := by
  cases change with
  | none => exact ⟨rfl, rfl⟩
  | some c =>
    have hid : u ≠ c.id := (hu c rfl).symm
    cases c <;> simp_all [State.after, State.record, Change.id]

theorem State.after_store : (s.after (store', change)).store = store' := by
  cases change with
  | none => rfl
  | some c => cases c <;> rfl

section Record

variable {e p : String}

@[simp] theorem State.email_enrolled :
    (s.after (store', some (.enrolled u e p))).email u = some e :=
  Function.update_self ..

@[simp] theorem State.password_enrolled :
    (s.after (store', some (.enrolled u e p))).password u = some p :=
  Function.update_self ..

@[simp] theorem State.email_renamed :
    (s.after (store', some (.renamed u e))).email u = some e :=
  Function.update_self ..

@[simp] theorem State.email_removed : (s.after (store', some (.removed u))).email u = none :=
  Function.update_self ..

@[simp] theorem State.password_removed :
    (s.after (store', some (.removed u))).password u = none :=
  Function.update_self ..

@[simp] theorem State.password_repassworded :
    (s.after (store', some (.repassworded u p))).password u = some p :=
  Function.update_self ..

end Record

/-! ## What the store has for an account -/

/-- An account that was given an email is there, and the hash in the store is
of the password it was given. -/
structure Kept (env : Env) (s : State) (u : Int) : Prop where
  email : ∀ e, s.email u = some e → e ≠ "" ∧ ∃ user, s.store.getByID u = .ok user
  password : ∀ p, s.password u = some p → p ≠ "" ∧ ∀ user, s.store.getByID u = .ok user →
    ∃ cost, env.hashPassword p cost = some user.passwordHash

/-- The email in the store is the one the account was given, in normal form. -/
def Normal (env : Env) (s : State) (u : Int) : Prop :=
  ∀ e, s.email u = some e → ∀ user, s.store.getByID u = .ok user → user.email = env.normalize e

theorem Kept.created (hnum : s.store.Numbered) {stored : CreateUserRequest} {user : User}
    {email password : String} {cost : Int} (hcreate : s.store.create stored = (store', .ok user))
    (hemail : email ≠ "") (hpassword : password ≠ "")
    (hhash : env.hashPassword password cost = some stored.password) :
    Kept env (s.after (store', some (.enrolled user.id email password))) user.id := by
  have hfound : store'.getByID user.id = .ok user := hnum.getByID_created hcreate
  have hstored : user.passwordHash = stored.password := by rw [(create_ok hcreate).1]
  constructor
  · intro e he
    obtain rfl : email = e := by simpa using he
    exact ⟨hemail, user, hfound⟩
  · intro p hp
    obtain rfl : password = p := by simpa using hp
    refine ⟨hpassword, fun user' huser' => ⟨cost, ?_⟩⟩
    cases hfound.symm.trans huser'
    rw [hstored, hhash]

theorem Kept.updated (hs : Kept env s u) {input : UpdateUserRequest} {user : User}
    (hupdate : s.store.update u input = (store', .ok user)) (hemail : input.email ≠ "") :
    Kept env (s.after (store', some (.renamed u input.email))) u := by
  obtain ⟨old, hold, -, rfl, hfound⟩ := update_ok hupdate
  constructor
  · intro e he
    obtain rfl : input.email = e := by simpa using he
    exact ⟨hemail, _, hfound⟩
  · -- the new user has the old hash
    intro p hp
    obtain ⟨hpassword, hhash⟩ := hs.password p hp
    refine ⟨hpassword, fun user' huser' => ?_⟩
    cases hfound.symm.trans huser'
    exact hhash old hold

theorem Kept.passwordUpdated (hs : Kept env s u) {hash password : String} {cost : Int}
    (hupdate : s.store.updatePassword u hash = (store', .ok ())) (hpassword : password ≠ "")
    (hhash : env.hashPassword password cost = some hash) :
    Kept env (s.after (store', some (.repassworded u password))) u := by
  obtain ⟨old, hold, hfound⟩ := updatePassword_ok hupdate
  constructor
  · intro e he
    exact ⟨(hs.email e he).1, _, hfound⟩
  · intro p hp
    obtain rfl : password = p := by simpa using hp
    refine ⟨hpassword, fun user' huser' => ⟨cost, ?_⟩⟩
    cases hfound.symm.trans huser'
    exact hhash

theorem Kept.after (hnum : s.store.Numbered) (hs : Kept env s u)
    (h : Served env s a store' change) : Kept env (s.after (store', change)) u := by
  by_cases hu : ∀ c ∈ change, c.id ≠ u
  · obtain ⟨hemail, hpassword⟩ := @State.after_of_ne s store' change u hu
    constructor
    · rw [hemail, State.after_store, h.getByID_of_ne hu]
      exact hs.email
    · rw [hpassword, State.after_store, h.getByID_of_ne hu]
      exact hs.password
  · -- the request is about this account
    simp only [not_forall, not_not] at hu
    obtain ⟨c, hc, hid⟩ := hu
    cases h with
    | unchanged => cases hc
    | @created store' stored user email password cost hcreate hemail hpassword hhash _ =>
      cases hc
      obtain rfl : user.id = u := hid
      exact .created hnum hcreate hemail hpassword hhash
    | @updated store' id input user hupdate hemail _ =>
      cases hc
      obtain rfl : id = u := hid
      exact hs.updated hupdate hemail
    | @deleted store' id hdelete =>
      cases hc
      obtain rfl : id = u := hid
      constructor <;> simp
    | @passwordUpdated store' id hash password cost hupdate hpassword hhash =>
      cases hc
      obtain rfl : id = u := hid
      exact hs.passwordUpdated hupdate hpassword hhash

theorem Normal.after (hnum : s.store.Numbered) (hs : Normal env s u) (htidy : Tidy env s a)
    (h : Served env s a store' change) : Normal env (s.after (store', change)) u := by
  unfold Normal
  rw [State.after_store]
  by_cases hu : ∀ c ∈ change, c.id ≠ u
  · rw [(@State.after_of_ne s store' change u hu).1, h.getByID_of_ne hu]
    exact hs
  · simp only [not_forall, not_not] at hu
    obtain ⟨c, hc, hid⟩ := hu
    intro e he user' huser'
    cases h with
    | unchanged => cases hc
    | @created store' stored user email password cost hcreate _ _ _ hemail =>
      cases hc
      obtain rfl : user.id = u := hid
      obtain rfl : email = e := by simpa using he
      cases (hnum.getByID_created hcreate).symm.trans huser'
      rw [(create_ok hcreate).1, ← hemail htidy]
    | @updated store' id input user hupdate _ hemail =>
      cases hc
      obtain rfl : id = u := hid
      obtain rfl : input.email = e := by simpa using he
      obtain ⟨old, -, -, rfl, hfound⟩ := update_ok hupdate
      cases hfound.symm.trans huser'
      rw [(hemail htidy).1]
    | @deleted store' id hdelete =>
      cases hc
      obtain rfl : id = u := hid
      simp at he
    | @passwordUpdated store' id hash password cost hupdate _ _ =>
      cases hc
      obtain rfl : id = u := hid
      obtain ⟨old, hold, hfound⟩ := updatePassword_ok hupdate
      cases hfound.symm.trans huser'
      exact hs e he old hold

/-! ## Runs -/

theorem kept_of_run (henv : env.Sound) {as : List Act}
    (hrun : run (State.step env auth users) .empty as = some s) :
    s.store.Numbered ∧ ∀ u, Kept env s u := by
  refine run_invariant (I := fun s => s.store.Numbered ∧ ∀ u, Kept env s u) ?_ ?_ hrun
  · rintro s a s' ⟨hnum, hs⟩ hstep
    cases hstep
    have h := @served env auth users henv s a
    refine ⟨?_, fun u => (hs u).after hnum h⟩
    rw [State.after_store]
    exact h.numbered hnum
  · refine ⟨numbered_new, fun u => ⟨?_, ?_⟩⟩ <;> simp [State.empty]

theorem normal_of_tidy (henv : env.Sound) {as : List Act}
    (htidy : Along (State.step env auth users) (Tidy env) .empty as)
    (hrun : run (State.step env auth users) .empty as = some s) :
    EmailsUnique s.store ∧ ∀ u, Normal env s u := by
  have hinv : s.store.Numbered ∧ EmailsUnique s.store ∧ ∀ u, Normal env s u := by
    refine htidy.invariant
      (I := fun s => s.store.Numbered ∧ EmailsUnique s.store ∧ ∀ u, Normal env s u) ?_ ?_ hrun
    · rintro s a s' ⟨hnum, hunique, hs⟩ htidy hstep
      cases hstep
      have h := @served env auth users henv s a
      refine ⟨?_, ?_, fun u => (hs u).after hnum htidy h⟩ <;> rw [State.after_store]
      · exact h.numbered hnum
      · exact h.emailsUnique htidy hunique
    · refine ⟨numbered_new, List.nodup_nil, fun u e he => ?_⟩
      simp [State.empty] at he
  exact hinv.2

/-! ## Logging in -/

/-- `POST /auth/login` with this email and this password is answered with 200
for the user `u`. -/
def LogsIn (env : Env) (auth : AuthHandler) (store : MemoryUserStore) (st : Stamps) (now : Time)
    (contentType email password : String) (u : Int) : Prop :=
  ∃ resp, (auth.login env store st now ⟨"POST", contentType, .ok ⟨email, password⟩⟩).2 =
    ⟨200, .login resp⟩ ∧ resp.user.id = u

theorem logsIn_iff (henv : env.Sound) {store : MemoryUserStore} {st : Stamps} {now : Time}
    {contentType email password : String} (hjson : env.isJSONContentType contentType)
    (hemail : email ≠ "") (hpassword : password ≠ "") :
    LogsIn env auth store st now contentType email password u ↔
      ∃ user, store.getByEmail (env.normalize email) = .ok user ∧
        env.verifyPassword user.passwordHash password ∧ user.id = u := by
  have hdecode : decodeRequest env ⟨"POST", contentType, .ok ⟨email, password⟩⟩ =
      .ok (⟨email, password⟩ : AuthHandler.LoginRequest) := by simp [decodeRequest, hjson]
  have hvalid : validateLoginInput email password = [] := by
    simp [validateLoginInput, required, hemail, hpassword]
  simp only [LogsIn, AuthHandler.login, Env.normalize, hdecode, hvalid, ne_eq, not_true_eq_false,
    ↓reduceIte]
  cases hfound : store.getByEmail (env.toLower (Strings.trimSpace email)) with
  | error e => cases e <;> simp [Reply.unauthorized, Reply.internalError]
  | ok user =>
    obtain ⟨issued, pair, hpair⟩ := issueTokens_of_signs henv.signs auth st (Int64.ofInt user.id)
    by_cases hverify : env.verifyPassword user.passwordHash password = true
    · simp [hverify, hpair, AuthHandler.loginReply]
    · simp [hverify, Reply.unauthorized]

theorem sampleEnv_sound : sampleEnv.Sound where
  verify_hash := by
    intro plain cost hash hhash q
    cases hhash
    simp [sampleEnv, Sample.env, eq_comm]
  signs := by simp [Env.Signs, sampleEnv]

variable {as : List Act}

/-- **Who can log in.** After any run of requests from an empty store, an
account logs in with the email and the password it was last given exactly if
its email in the store is that email in normal form and no account ahead of
it has the same one. If every email sent to `CreateUser` and `UpdateUser` was
in normal form, and no `UpdateUser` took the email of an account behind its
target, every account can log in. -/
theorem login_iff_first_with_normalized_email (henv : env.Sound)
    (hrun : run (State.step env auth users) .empty as = some s) {e p contentType : String}
    (hemail : s.email u = some e) (hpassword : s.password u = some p)
    (hjson : env.isJSONContentType contentType) (st : Stamps) (now : Time) :
    (LogsIn env auth s.store st now contentType e p u ↔
      ∃ before user after, s.store.users = before ++ user :: after ∧ user.id = u ∧
        user.email = env.normalize e ∧ ∀ v ∈ before, v.email ≠ env.normalize e) ∧
    (Along (State.step env auth users) (Tidy env) .empty as →
      LogsIn env auth s.store st now contentType e p u) := by
  obtain ⟨hnum, hkept⟩ := kept_of_run henv hrun
  obtain ⟨he, account, haccount⟩ := (hkept u).email e hemail
  obtain ⟨hp, hhash⟩ := (hkept u).password p hpassword
  have hexact : LogsIn env auth s.store st now contentType e p u ↔
      ∃ before user after, s.store.users = before ++ user :: after ∧ user.id = u ∧
        user.email = env.normalize e ∧ ∀ v ∈ before, v.email ≠ env.normalize e := by
    rw [logsIn_iff henv hjson he hp]
    constructor
    · rintro ⟨user, hfound, -, hid⟩
      obtain ⟨before, after, hus, hemail, hbefore⟩ := getByEmailScan_ok_iff.mp hfound
      exact ⟨before, user, after, hus, hid, hemail, hbefore⟩
    · rintro ⟨before, user, after, hus, hid, hemail, hbefore⟩
      refine ⟨user, getByEmailScan_ok_iff.mpr ⟨before, after, hus, hemail, hbefore⟩, ?_, hid⟩
      -- the user in that place is the account, so its hash is of the password
      have hmem : user ∈ s.store.users := by simp [hus]
      obtain ⟨cost, hmade⟩ := hhash user (hid ▸ hnum.getByID_of_mem hmem)
      exact (henv.verify_hash p cost _ hmade p).mpr rfl
  refine ⟨hexact, fun htidy => hexact.mpr ?_⟩
  obtain ⟨hunique, hnormal⟩ := normal_of_tidy henv htidy hrun
  obtain ⟨hmem, hid⟩ := mem_of_getByID haccount
  obtain ⟨before, after, hus⟩ := List.append_of_mem hmem
  have hnorm : account.email = env.normalize e := hnormal u e hemail account haccount
  refine ⟨before, account, after, hus, hid, hnorm, fun v hv heq => ?_⟩
  rw [EmailsUnique, hus, List.map_append, List.map_cons, List.nodup_append] at hunique
  exact hunique.2.2 v.email (List.mem_map_of_mem hv) account.email List.mem_cons_self
    (heq.trans hnorm.symm)

/-- An account is created and renamed, with emails in normal form, and another
one registers with an email that is not; both can log in. -/
theorem login_after_register_and_update :
    let step := State.step sampleEnv Sample.handler sampleUsers
    let as : List Act :=
      [.createUser ⟨"POST", "application/json", .ok ⟨"Ada", "ada@example.com", "one"⟩⟩ 0,
        .register ⟨"POST", "application/json", .ok ⟨"Bob", " Bob@Example.com", "two"⟩⟩
          (Sample.stamps 0 "1") 0,
        .updateUser "/users/1" ⟨"PUT", "application/json", .ok ⟨"Ada", "countess@example.com"⟩⟩]
    ∃ s, run step .empty as = some s ∧ Along step (Tidy sampleEnv) .empty as ∧
      LogsIn sampleEnv Sample.handler s.store (Sample.stamps 1 "2") 1 "application/json"
        "countess@example.com" "one" 1 ∧
      LogsIn sampleEnv Sample.handler s.store (Sample.stamps 2 "3") 2 "application/json"
        " Bob@Example.com" "two" 2 := by
  intro step as
  have hends : ∃ s, run step .empty as = some s ∧
      (s.email 1 = some "countess@example.com" ∧ s.password 1 = some "one") ∧
      s.email 2 = some " Bob@Example.com" ∧ s.password 2 = some "two" :=
    exists_run_of_any (by decide +kernel)
  obtain ⟨s, hrun, ⟨hemail₁, hpassword₁⟩, hemail₂, hpassword₂⟩ := hends
  have htidy : Along step (Tidy sampleEnv) .empty as := by
    refine ⟨?_, ?_⟩
    · rintro input ⟨⟩
      decide +kernel
    · rintro s₁ ⟨⟩
      refine ⟨trivial, ?_⟩
      rintro s₂ ⟨⟩
      refine ⟨?_, fun _ _ => trivial⟩
      rintro input ⟨⟩
      refine ⟨by decide +kernel, fun id hid => ?_⟩
      have hone : id = 1 := by
        have hpath : userIDFromPath "/users/1" = some 1 := by decide +kernel
        exact Option.some.inj (hid.symm.trans hpath)
      subst hone
      unfold NewEmailFreeBehind
      decide +kernel
  exact ⟨s, hrun, htidy,
    (login_iff_first_with_normalized_email sampleEnv_sound hrun hemail₁ hpassword₁
      (by decide +kernel) _ _).2 htidy,
    (login_iff_first_with_normalized_email sampleEnv_sound hrun hemail₂ hpassword₂
      (by decide +kernel) _ _).2 htidy⟩

/-- An account that `POST /users` has created with a capital letter in its
email is refused when it logs in with that email and its password. -/
theorem login_after_create_refused :
    ¬ ∀ (env : Env) (auth : AuthHandler) (users : UserHandler), env.Sound →
      ∀ (as : List Act) (s : State), run (State.step env auth users) .empty as = some s →
      ∀ (u : Int) (e p : String), s.email u = some e → s.password u = some p →
      ∀ contentType, env.isJSONContentType contentType → ∀ (st : Stamps) (now : Time),
        LogsIn env auth s.store st now contentType e p u := by
  intro h
  have hends : ∃ s, run (State.step sampleEnv Sample.handler sampleUsers) .empty
        [.createUser ⟨"POST", "application/json", .ok ⟨"Ada", "Ada@Example.com", "one"⟩⟩ 0] =
          some s ∧
      s.email 1 = some "Ada@Example.com" ∧ s.password 1 = some "one" ∧
      (Sample.handler.login sampleEnv s.store (Sample.stamps 1 "1") 1
        ⟨"POST", "application/json", .ok ⟨"Ada@Example.com", "one"⟩⟩).2 =
          .unauthorized "invalid email or password" :=
    exists_run_of_any (by decide +kernel)
  obtain ⟨s, hrun, hemail, hpassword, hrefused⟩ := hends
  obtain ⟨resp, hlogin, -⟩ := h sampleEnv Sample.handler sampleUsers sampleEnv_sound _ s hrun 1 _ _
    hemail hpassword "application/json" (by decide +kernel) (Sample.stamps 1 "1") 1
  rw [hrefused] at hlogin
  cases hlogin

end Accounts

end GoRestApi.Handler
