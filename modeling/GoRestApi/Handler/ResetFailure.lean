/-
GoRestApi.Handler.ResetFailure — what a `POST /auth/reset-password` that fails
leaves behind.

`resetPassword` is the handler as a whole, over any token store and any
`UpdatePassword`. `Consume` takes the
token out of the store before the password is hashed and before the user is
updated, so a failure of either leaves the user without the token:
`failed_reset_keeps_token_iff`. What is left to keep the token are the checks
that come before `Consume`.
-/
import GoRestApi.Handler.PasswordResetTheorems

namespace GoRestApi.Handler

open Go Store Lts

variable {σ τ υ ε : Type}

/-! ## The token -/

/-- Once `Consume` has returned a user for a token, it returns none any more. -/
theorem TokenStore.Lawful.consume_spent {ts : TokenStore σ τ}
    {holds : σ → String → Option ResetToken} {reads : τ → Option ResetToken}
    (hts : ts.Lawful holds reads) {tokens : σ} {token : String} {now : Time} {userID : Int64}
    (h : (ts.consume tokens token now).2 = some userID) (later : Time) :
    (ts.consume (ts.consume tokens token now).1 token later).2 = none := by
  unfold TokenStore.consume at h ⊢
  rcases htake : ts.take tokens token with ⟨tokens', _ | taken⟩ <;> rw [htake] at h
  · cases h
  · obtain ⟨-, hgone⟩ := hts.take_some _ _ _ _ htake
    dsimp only
    rcases htake' : ts.take tokens' token with ⟨tokens'', _ | taken'⟩
    · rfl
    · obtain ⟨hreads, -⟩ := hts.take_some _ _ _ _ htake'
      rw [hgone, Function.update_self] at hreads
      dsimp only
      by_contra hsome
      obtain ⟨userID', huser⟩ := Option.ne_none_iff_exists'.1 hsome
      obtain ⟨t, ht, -⟩ := hts.check _ _ _ huser
      rw [hreads] at ht
      cases ht

/-! ## The handler -/

namespace AuthHandler

/-- `ResetPassword`: the token store, the user store and the reply. -/
def resetPassword (env : Env) (h : AuthHandler) (ts : TokenStore σ τ)
    (updatePassword : υ → Int → String → υ × Except ε Unit) (tokens : σ) (users : υ) (now : Time)
    (r : Request ResetPasswordRequest) : σ × υ × Reply :=
  match resetInput env r with
  | .error reply => (tokens, users, reply)
  | .ok input =>
    let (tokens', consumed) := ts.consume tokens input.token now
    (tokens', h.resetConsumedWith env updatePassword users input consumed)

/-- Nothing fails after `Consume`: the password is hashed and the user updated. -/
def ResetCompletes (env : Env) (h : AuthHandler)
    (updatePassword : υ → Int → String → υ × Except ε Unit) (users : υ)
    (input : ResetPasswordRequest) (userID : Int64) : Prop :=
  ∃ hashed, env.hashPassword input.password h.bcryptCost = some hashed ∧
    (updatePassword users userID.toInt hashed).2 = .ok ()

theorem resetConsumedWith_status_iff {env : Env} {h : AuthHandler}
    {updatePassword : υ → Int → String → υ × Except ε Unit} {users : υ}
    {input : ResetPasswordRequest} {userID : Int64} :
    (h.resetConsumedWith env updatePassword users input (some userID)).2.status = 204 ↔
      ResetCompletes env h updatePassword users input userID := by
  unfold resetConsumedWith ResetCompletes
  cases env.hashPassword input.password h.bcryptCost with
  | none => simp [Reply.internalError]
  | some hashed =>
    rcases hupdate : updatePassword users userID.toInt hashed with ⟨users', e | ⟨⟩⟩
    · simp [hupdate, Reply.internalError]
    · simp [hupdate, Reply.noContent]

/-- **A failed reset.** For a token that `Consume` would accept now: that a
request which is not answered with 204 leaves the password hash of the user and
leaves the token good, as long as it would have been good without the request,
is true exactly if the request was refused before `Consume`, or nothing failed
after it. A failure of the hashing or of the update burns the token. -/
theorem failed_reset_keeps_token_iff {ts : TokenStore σ τ}
    {holds : σ → String → Option ResetToken} {reads : τ → Option ResetToken}
    (hts : ts.Lawful holds reads) (env : Env) (h : AuthHandler)
    (updatePassword : υ → Int → String → υ × Except ε Unit)
    (passwordHash : υ → Int → Option String) {tokens : σ} (users : υ) {now : Time}
    {r : Request ResetPasswordRequest} {input : ResetPasswordRequest} (hbody : r.body = .ok input)
    {userID : Int64}
    (haccepted : (ts.consume tokens input.token now).2 = some userID) :
    let out := h.resetPassword env ts updatePassword tokens users now r
    (out.2.2.status ≠ 204 →
      passwordHash out.2.1 userID.toInt = passwordHash users userID.toInt ∧
      ∀ later userID', (ts.consume tokens input.token later).2 = some userID' →
        (ts.consume out.1 input.token later).2 = some userID') ↔
    ResetCompletes env h updatePassword users input userID ∨
      ∃ reply, resetInput env r = .error reply := by
  intro out
  cases hinput : resetInput env r with
  | error reply =>
    have hout : out = (tokens, users, reply) := by simp only [out, resetPassword, hinput]
    rw [hout]
    exact iff_of_true (fun _ => ⟨rfl, fun _ _ haccept => haccept⟩) (.inr ⟨reply, rfl⟩)
  | ok input' =>
    have hsame := resetInput_body hinput
    rw [hbody] at hsame
    cases hsame
    have hout : out = ((ts.consume tokens input.token now).1,
        h.resetConsumedWith env updatePassword users input (some userID)) := by
      simp only [out, resetPassword, hinput, ← haccepted]
    have hstatus : out.2.2.status = 204 ↔
        ResetCompletes env h updatePassword users input userID := by
      rw [hout, resetConsumedWith_status_iff]
    rw [or_iff_left (by rintro ⟨reply, ⟨⟩⟩), ← hstatus]
    refine ⟨fun hgood => ?_, fun hdone hfailed => absurd hdone hfailed⟩
    -- the token is spent, so a failure after `Consume` would have burned it
    by_contra hfailed
    have hnow := (hgood hfailed).2 now userID haccepted
    rw [hout, hts.consume_spent haccepted] at hnow
    cases hnow

/-- The password is hashed as long as bcrypt takes it, up to 72 bytes. -/
def limitedEnv : Env :=
  { Sample.env [] with
    hashPassword := fun plain _ =>
      if 72 < plain.utf8ByteSize then none else some ("hash of " ++ plain) }

/-- A token for user 1, good for a minute. -/
def oneToken : ResetTokenStore := (ResetTokenStore.new.issue "4f1c" 0 1 Time.minute).1

def sampleReset (contentType password : String) : Request ResetPasswordRequest :=
  ⟨"POST", contentType, .ok ⟨"4f1c", password⟩⟩

theorem failed_reset_keeps_token_contentType :
    (ResetTokenStore.tokenStore.consume
      (Sample.handler.resetPassword limitedEnv ResetTokenStore.tokenStore
        MemoryUserStore.updatePassword oneToken PasswordReset.sampleUsers 0
        (sampleReset "text/plain" "two")).1 "4f1c" 5).2 = some 1 := by
  have hbody : (sampleReset "text/plain" "two").body = .ok ⟨"4f1c", "two"⟩ := rfl
  have haccepted : (ResetTokenStore.tokenStore.consume oneToken "4f1c" 0).2 = some 1 := by
    decide +kernel
  have hmain := failed_reset_keeps_token_iff ResetTokenStore.lawful_tokenStore limitedEnv
    Sample.handler MemoryUserStore.updatePassword
    (fun users id => (users.users.find? fun u => u.id = id).map User.passwordHash)
    PasswordReset.sampleUsers hbody haccepted
  have hkept := hmain.2 (.inr ⟨.unsupportedMediaType, by decide +kernel⟩) (by decide +kernel)
  exact hkept.2 5 1 (by decide +kernel)

/-- The password has 73 bytes: the request is answered with 500 and the next
one, with a shorter password, with 401. -/
theorem long_password_burns_token :
    let reset := fun (tokens : ResetTokenStore) (password : String) =>
      Sample.handler.resetPassword limitedEnv ResetTokenStore.tokenStore
        MemoryUserStore.updatePassword tokens PasswordReset.sampleUsers 0
        (sampleReset "application/json" password)
    let long := String.ofList (List.replicate 73 'x')
    (ResetTokenStore.tokenStore.consume oneToken "4f1c" 5).2 = some 1 ∧
    (reset oneToken long).2.2 = .internalError ∧
    (ResetTokenStore.tokenStore.consume (reset oneToken long).1 "4f1c" 5).2 = none ∧
    (reset oneToken "two").2.2 = .noContent ∧
    (reset (reset oneToken long).1 "two").2.2 =
      .unauthorized "invalid or expired reset token" := by
  decide +kernel

end AuthHandler

/-! ## The request among others -/

namespace PasswordReset.State

variable {ι : Type} [DecidableEq ι]

/-- **Alone.** A reset request that no other comes in between does what
`resetPassword` says. -/
theorem alone_reset {env : Env} {auth : AuthHandler} {ttl : Duration} {ts : TokenStore σ τ}
    {reqs : ι → Req} {i : ι} {r : Request ResetPasswordRequest} (hreq : reqs i = .reset r)
    {s : State ι σ τ} (hpc : s.pc i = .start) (now : Time) :
    ∃ as s', run (step env auth ttl ts reqs) s as = some s' ∧
      ∃ reply, s'.pc i = .resetDone reply ∧
        (s'.tokens, s'.users, reply) =
          auth.resetPassword env ts MemoryUserStore.updatePassword s.tokens s.users now r := by
  unfold AuthHandler.resetPassword
  cases hinput : AuthHandler.resetInput env r with
  | error reply =>
    have hbegin : s.step env auth ttl ts reqs (.begin i) = some (s.setPc i (.resetDone reply)) := by
      simp only [step, hpc, hreq, hinput]
    refine ⟨[.begin i], _, (run_singleton ..).trans hbegin, reply, ?_, rfl⟩
    exact Function.update_self ..
  | ok input =>
    let s₁ := s.setPc i (.consuming input)
    have hbegin : s.step env auth ttl ts reqs (.begin i) = some s₁ := by
      simp only [step, hpc, hreq, hinput, s₁]
    have hpc₁ : s₁.pc i = .consuming input := Function.update_self ..
    rcases htake : ts.take s.tokens input.token with ⟨tokens', _ | taken⟩
    · -- there is no such token
      let s₂ : State ι σ τ :=
        { s₁.setPc i (.resetDone (auth.resetConsumed env s.users input none).2) with
          tokens := tokens' }
      have hstep : s₁.step env auth ttl ts reqs (.take i) = some s₂ := by
        simp only [step, hpc₁, show s₁.tokens = s.tokens from rfl, htake]
        rfl
      refine ⟨[.begin i, .take i], s₂, ?_, _, Function.update_self .., ?_⟩
      · rw [run_cons_of_step hbegin, run_singleton, hstep]
      · simp only [TokenStore.consume, htake]
        rfl
    · let s₂ : State ι σ τ := { s₁.setPc i (.checking input taken) with tokens := tokens' }
      have hstep : s₁.step env auth ttl ts reqs (.take i) = some s₂ := by
        simp only [step, hpc₁, show s₁.tokens = s.tokens from rfl, htake]
        rfl
      have hpc₂ : s₂.pc i = .checking input taken := Function.update_self ..
      cases hcheck : ts.check taken now with
      | none =>
        -- it has expired
        let s₃ := s₂.setPc i (.resetDone (auth.resetConsumed env s.users input none).2)
        have hstep' : s₂.step env auth ttl ts reqs (.check i now) = some s₃ := by
          simp only [step, hpc₂, hcheck]
          rfl
        refine ⟨[.begin i, .take i, .check i now], s₃, ?_, _, Function.update_self .., ?_⟩
        · rw [run_cons_of_step hbegin, run_cons_of_step hstep, run_singleton, hstep']
        · simp only [TokenStore.consume, htake, hcheck]
          rfl
      | some userID =>
        let s₃ : State ι σ τ :=
          { s₂.setPc i (.updating input userID) with
            consumed := s₂.consumed ++ [⟨i, input.token, userID, now⟩] }
        have hstep' : s₂.step env auth ttl ts reqs (.check i now) = some s₃ := by
          simp only [step, hpc₂, hcheck]
          rfl
        have hpc₃ : s₃.pc i = .updating input userID := Function.update_self ..
        let out := auth.resetConsumed env s.users input (some userID)
        let s₄ : State ι σ τ :=
          { s₃.setPc i (.resetDone out.2) with
            users := out.1
            changed := s₃.changed ++
              if out.2.status = 204 then [⟨i, input.token, userID⟩] else [] }
        have hstep'' : s₃.step env auth ttl ts reqs (.update i) = some s₄ := by
          simp only [step, hpc₃]
          rfl
        refine ⟨[.begin i, .take i, .check i now, .update i], s₄, ?_, _, Function.update_self ..,
          ?_⟩
        · rw [run_cons_of_step hbegin, run_cons_of_step hstep, run_cons_of_step hstep',
            run_singleton, hstep'']
        · simp only [TokenStore.consume, htake, hcheck]
          rfl

end PasswordReset.State

end GoRestApi.Handler
