/-
GoRestApi.Handler.UserTheorems — what the handlers that write the user store
can do, one lemma for each.

Every such handler makes one call of the store, after its checks, and the
store is as it was unless the call succeeded. A lemma gives the two cases,
with the reply and what the checks have found.
-/
import GoRestApi.Handler.ResetTokens
import GoRestApi.Store.UserStoreTheorems

namespace GoRestApi.Handler

open Go Store MemoryUserStore

/-! ## What is assumed of the libraries -/

/-- Signing a token does not fail. -/
def Env.Signs (env : Env) : Prop :=
  ∀ secret claims, (env.jwt.signedString secret claims).isSome

/-- bcrypt accepts a password against a hash exactly if the hash was made from
it, and signing a token does not fail. -/
structure Env.Sound (env : Env) : Prop where
  verify_hash : ∀ plain cost hash, env.hashPassword plain cost = some hash →
    ∀ q, env.verifyPassword hash q = true ↔ q = plain
  signs : env.Signs

theorem issueTokens_of_signs {env : Env} (hsigns : env.Signs) (h : AuthHandler) (st : Stamps)
    (userID : Int64) : ∃ issued pair, h.issueTokens env st userID = (issued, some pair) := by
  obtain ⟨access, haccess⟩ :=
    Option.isSome_iff_exists.mp (hsigns h.issuer.secret (h.issuer.claims st.now st.jti userID))
  obtain ⟨refresh, hrefresh⟩ := Option.isSome_iff_exists.mp (hsigns h.refreshIssuer.secret
    (h.refreshIssuer.claims st.refreshNow st.refreshJTI userID))
  simp [AuthHandler.issueTokens, Auth.TokenIssuer.issue, haccess, hrefresh]

/-! ## One lemma per handler -/

theorem required_eq_nil {field : String} {missing : Bool} :
    required field missing = [] ↔ missing = false := by
  cases missing <;> simp [required]

theorem ne_empty_of_trimSpace {s : String} (h : Strings.trimSpace s ≠ "") : s ≠ "" := by
  rintro rfl
  exact h (by decide)

theorem validateUserInput_eq_nil {name email password : String}
    (h : validateUserInput name email password = []) : email ≠ "" ∧ password ≠ "" := by
  simp only [validateUserInput, List.append_eq_nil_iff, required_eq_nil, decide_eq_false_iff_not]
    at h
  exact ⟨ne_empty_of_trimSpace h.1.2, h.2⟩

theorem validateUpdateUserInput_eq_nil {name email : String}
    (h : validateUpdateUserInput name email = []) : email ≠ "" := by
  simp only [validateUpdateUserInput, List.append_eq_nil_iff, required_eq_nil,
    decide_eq_false_iff_not] at h
  exact ne_empty_of_trimSpace h.2

theorem accountInput_ok {env : Env} {cost : Int} {storedEmail : String → String}
    {r : Request CreateUserRequest} {input : CreateUserRequest}
    (h : accountInput env cost storedEmail r = .ok input) :
    ∃ sent hashed, r.body = .ok sent ∧
      validateUserInput sent.name sent.email sent.password = [] ∧
      env.hashPassword sent.password cost = some hashed ∧
      input = { sent with email := storedEmail sent.email, password := hashed } := by
  unfold accountInput at h
  split at h
  · cases h
  · rename_i sent hdecode
    dsimp only at h
    split at h
    · cases h
    · rename_i hvalid
      split at h
      · cases h
      · rename_i hashed hhash
        cases h
        exact ⟨sent, hashed, decodeRequest_ok hdecode, not_not.mp hvalid, hhash, rfl⟩

/-- What is replied before `Create` is called is an error. -/
theorem accountInput_ne_login {env : Env} {cost : Int} {storedEmail : String → String}
    {r : Request CreateUserRequest} {status : Nat} {resp : LoginResponse} :
    accountInput env cost storedEmail r ≠ .error ⟨status, .login resp⟩ := by
  intro h
  unfold accountInput at h
  split at h
  · rename_i hdecode
    cases h
    exact decodeRequest_ne_login hdecode
  · dsimp only at h
    split at h
    · cases h
    · split at h <;> cases h

theorem memoryCreate_ok {store store' : MemoryUserStore} {input : CreateUserRequest} {user : User}
    (h : memoryCreate store input = (store', .ok user)) :
    store.create input = (store', .ok user) := by
  unfold memoryCreate at h
  rcases hcreate : store.create input with ⟨store₁, e | user₁⟩ <;> rw [hcreate] at h <;> cases h
  rfl

theorem memoryCreate_error {store store' : MemoryUserStore} {input : CreateUserRequest}
    {e : PostgresError} (h : memoryCreate store input = (store', .error e)) : store' = store := by
  unfold memoryCreate at h
  rcases hcreate : store.create input with ⟨store₁, e₁ | user⟩ <;> rw [hcreate] at h <;> cases h
  exact create_error hcreate

/-- `CreateUser` creates an account and announces it, or does neither. -/
theorem createUser_cases {env : Env} {h : UserHandler} {store store' : MemoryUserStore}
    {now : Time} {r : Request CreateUserRequest} {events : List Events.Event}
    {answer : Answer User} (heq : h.createUser env store now r = (store', events, answer)) :
    (store' = store ∧ events = [] ∧ ∃ reply, answer = .error reply) ∨
      ∃ input user, h.createInput env r = .ok input ∧ store.create input = (store', .ok user) ∧
        events = (if h.hasOutbox then [h.createdEvent now user] else []) ∧
        answer = .ok (201, { user with passwordHash := "" }) := by
  unfold UserHandler.createUser UserHandler.createUserWith at heq
  split at heq
  · cases heq
    exact .inl ⟨rfl, rfl, _, rfl⟩
  · rename_i input hinput
    split at heq
    · rename_i store₁ e hcreate
      cases heq
      exact .inl ⟨memoryCreate_error hcreate, rfl, _, rfl⟩
    · rename_i store₁ user hcreate
      cases heq
      exact .inr ⟨input, user, hinput, memoryCreate_ok hcreate, rfl, rfl⟩

/-- `Register` creates an account and issues tokens to it, or does neither. -/
theorem register_cases {env : Env} {h : AuthHandler} {store store' : MemoryUserStore}
    {st : Stamps} {now : Time} {r : Request CreateUserRequest} {issued : List IssuedToken}
    {reply : Reply} (heq : h.register env store st now r = (store', issued, reply)) :
    (store' = store ∧ issued = [] ∧ ∀ status resp, reply ≠ ⟨status, .login resp⟩) ∨
      ∃ input user, h.registerInput env r = .ok input ∧ store.create input = (store', .ok user) ∧
        issued = (h.issueTokens env st (Int64.ofInt user.id)).1 ∧
        reply = ((h.issueTokens env st (Int64.ofInt user.id)).2.elim .internalError
          fun pair => AuthHandler.loginReply 201 pair now user) := by
  unfold AuthHandler.register AuthHandler.registerWith at heq
  split at heq
  · rename_i reply₁ hinput
    cases heq
    refine .inl ⟨rfl, rfl, ?_⟩
    rintro status resp rfl
    exact accountInput_ne_login hinput
  · rename_i input hinput
    split at heq
    · rename_i store₁ hcreate
      cases heq
      exact .inl ⟨memoryCreate_error hcreate, rfl, by rintro _ _ ⟨⟩⟩
    · rename_i store₁ e _ hcreate
      cases heq
      exact .inl ⟨memoryCreate_error hcreate, rfl, by rintro _ _ ⟨⟩⟩
    · rename_i store₁ user hcreate
      refine .inr ⟨input, user, hinput, ?_⟩
      split at heq <;> rename_i hissued <;> cases heq <;> rw [hissued] <;>
        exact ⟨memoryCreate_ok hcreate, rfl, rfl⟩

/-- When signing does not fail, whoever is registered gets their tokens. -/
theorem register_cases_of_signs {env : Env} (hsigns : env.Signs) {h : AuthHandler}
    {store store' : MemoryUserStore} {st : Stamps} {now : Time} {r : Request CreateUserRequest}
    {issued : List IssuedToken} {reply : Reply}
    (heq : h.register env store st now r = (store', issued, reply)) :
    (store' = store ∧ ∀ status resp, reply ≠ ⟨status, .login resp⟩) ∨
      ∃ input user pair, h.registerInput env r = .ok input ∧
        store.create input = (store', .ok user) ∧
        reply = AuthHandler.loginReply 201 pair now user := by
  rcases register_cases heq with ⟨hstore, _, hreply⟩ | ⟨input, user, hinput, hcreate, _, hreply⟩
  · exact .inl ⟨hstore, hreply⟩
  · obtain ⟨issued₁, pair, hpair⟩ := issueTokens_of_signs hsigns h st (Int64.ofInt user.id)
    rw [hpair] at hreply
    exact .inr ⟨input, user, pair, hinput, hcreate, hreply⟩

theorem updateUser_cases {env : Env} {store store' : MemoryUserStore} {path : String}
    {r : Request UpdateUserRequest} {answer : Answer User}
    (heq : UserHandler.updateUser env store path r = (store', answer)) :
    (store' = store ∧ ∃ reply, answer = .error reply) ∨
      ∃ id input user, userIDFromPath path = some id ∧ r.body = .ok input ∧
        validateUpdateUserInput input.name input.email = [] ∧
        store.update id input = (store', .ok user) ∧ answer = .ok (200, user) := by
  unfold UserHandler.updateUser at heq
  split at heq
  · cases heq
    exact .inl ⟨rfl, _, rfl⟩
  · split at heq
    · cases heq
      exact .inl ⟨rfl, _, rfl⟩
    · rename_i id hid
      split at heq
      · cases heq
        exact .inl ⟨rfl, _, rfl⟩
      · rename_i input hdecode
        dsimp only at heq
        split at heq
        · cases heq
          exact .inl ⟨rfl, _, rfl⟩
        · rename_i hvalid
          split at heq
          · rename_i store₁ e hupdate
            cases heq
            exact .inl ⟨update_error hupdate, _, rfl⟩
          · rename_i store₁ user hupdate
            cases heq
            exact .inr ⟨id, input, user, hid, decodeBody_ok hdecode, not_not.mp hvalid, hupdate,
              rfl⟩

theorem deleteUser_cases {store store' : MemoryUserStore} {method path : String} {reply : Reply}
    (heq : UserHandler.deleteUser store method path = (store', reply)) :
    (store' = store ∧ reply.status ≠ 204) ∨
      ∃ id, userIDFromPath path = some id ∧ store.delete id = (store', .ok ()) ∧
        reply = .noContent := by
  unfold UserHandler.deleteUser at heq
  split at heq
  · cases heq
    exact .inl ⟨rfl, by decide⟩
  · split at heq
    · cases heq
      exact .inl ⟨rfl, Nat.ne_of_beq_eq_false rfl⟩
    · rename_i id hid
      split at heq
      · rename_i store₁ e hdelete
        cases heq
        exact .inl ⟨delete_error hdelete, by cases e <;> exact Nat.ne_of_beq_eq_false rfl⟩
      · rename_i store₁ hdelete
        cases heq
        exact .inr ⟨id, hid, hdelete, rfl⟩

theorem resetInput_ok {env : Env} {r : Request ResetPasswordRequest}
    {input : ResetPasswordRequest} (h : AuthHandler.resetInput env r = .ok input) :
    input.token ≠ "" ∧ input.password ≠ "" := by
  unfold AuthHandler.resetInput at h
  split at h
  · cases h
  · dsimp only at h
    split at h
    · cases h
    · rename_i hvalid
      cases h
      simp only [not_not, List.append_eq_nil_iff, required_eq_nil, decide_eq_false_iff_not]
        at hvalid
      exact ⟨ne_empty_of_trimSpace hvalid.1, hvalid.2⟩

theorem resetInput_body {env : Env} {r : Request ResetPasswordRequest}
    {input : ResetPasswordRequest} (h : AuthHandler.resetInput env r = .ok input) :
    r.body = .ok input := by
  unfold AuthHandler.resetInput at h
  split at h
  · cases h
  · rename_i input' hdecode
    dsimp only at h
    split at h <;> cases h
    exact decodeRequest_ok hdecode

theorem resetConsumed_cases {env : Env} {h : AuthHandler} {store store' : MemoryUserStore}
    {input : ResetPasswordRequest} {consumed : Option Int64} {reply : Reply}
    (heq : h.resetConsumed env store input consumed = (store', reply)) :
    (store' = store ∧ reply.status ≠ 204) ∨
      ∃ userID hashed, consumed = some userID ∧
        env.hashPassword input.password h.bcryptCost = some hashed ∧
        store.updatePassword userID.toInt hashed = (store', .ok ()) ∧ reply = .noContent := by
  unfold AuthHandler.resetConsumed AuthHandler.resetConsumedWith at heq
  split at heq
  · cases heq
    exact .inl ⟨rfl, Nat.ne_of_beq_eq_false rfl⟩
  · rename_i userID
    split at heq
    · cases heq
      exact .inl ⟨rfl, by decide⟩
    · rename_i hashed hhash
      split at heq
      · rename_i store₁ e hupdate
        cases heq
        exact .inl ⟨updatePassword_error hupdate, by decide⟩
      · rename_i store₁ hupdate
        cases heq
        exact .inr ⟨userID, hashed, rfl, hhash, hupdate, rfl⟩

end GoRestApi.Handler
