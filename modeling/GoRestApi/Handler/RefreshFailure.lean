/-
GoRestApi.Handler.RefreshFailure — what a `POST /auth/refresh` that fails
leaves behind.

The look-up of the user may fail with any error, and the code answers 401 to
all of them. A request passes the checks of its token (`Admits`) or is refused
by one of them; in the first case `Revoke` is called, and what can still fail,
the signing of the new pair and the look-up, comes after it (`Completes`).
`refresh_failed_unchanged_iff` is the consequence for the set of revoked IDs.
-/
import GoRestApi.Handler.RefreshTheorems

namespace GoRestApi.Auth.MemoryBlacklist

open Go

/-! ## The revoked IDs -/

/-- `IsRevoked(jti)` is true at `now`. -/
def Revokes (b : MemoryBlacklist) (now : Time) (jti : String) : Prop :=
  (b.isRevoked now jti).2 = true

instance (b : MemoryBlacklist) (now : Time) (jti : String) : Decidable (b.Revokes now jti) :=
  inferInstanceAs (Decidable (_ = _))

theorem revokes_iff {b : MemoryBlacklist} {now : Time} {jti : String} :
    b.Revokes now jti ↔ jti ≠ "" ∧ ∃ exp, b.entries jti = some exp ∧ now ≤ exp := by
  by_cases hjti : jti = ""
  · simp [Revokes, isRevoked, hjti]
  · rw [← not_iff_not, Revokes, Bool.not_eq_true, isRevoked_eq_false_iff hjti]
    simp [hjti]

/-- Asking changes no later answer. -/
theorem revokes_isRevoked {b : MemoryBlacklist} {now u : Time} (h : now ≤ u) (jti jti' : String) :
    (b.isRevoked now jti).1.Revokes u jti' ↔ b.Revokes u jti' := by
  rw [revokes_iff, revokes_iff]
  refine and_congr_right fun _ => exists_congr fun exp => and_congr_left fun hexp => ?_
  constructor
  · exact entries_of_isRevoked
  · exact fun he => entries_isRevoked_of_live he (Int.le_trans h hexp)

/-- What is revoked was revoked before. -/
theorem Revokes.earlier {b : MemoryBlacklist} {now u : Time} {jti : String}
    (h : b.Revokes u jti) (hle : now ≤ u) : b.Revokes now jti := by
  obtain ⟨hjti, exp, he, hexp⟩ := revokes_iff.1 h
  exact revokes_iff.2 ⟨hjti, exp, he, Int.le_trans hle hexp⟩

theorem revokes_revoke {b : MemoryBlacklist} {jti : String} {exp u : Time} {jti' : String} :
    (b.revoke jti exp).Revokes u jti' ↔
      if jti' = jti then jti ≠ "" ∧ u ≤ exp else b.Revokes u jti' := by
  rw [revokes_iff]
  split
  · rename_i hj
    subst hj
    by_cases hjti : jti' = ""
    · simp [hjti]
    · simp [entries_revoke_self b hjti, hjti]
  · rename_i hj
    rw [entries_revoke_of_ne b hj, revokes_iff]

end GoRestApi.Auth.MemoryBlacklist

namespace GoRestApi.Handler

open Go Auth Store

namespace AuthHandler

variable {ε : Type}

/-! ## The checks -/

/-- The request has passed the checks of its token, which has the ID `jti` and
expires at `exp`. -/
structure Admits (env : Env) (h : AuthHandler) (b : MemoryBlacklist) (t : CheckTimes)
    (r : Request String) (claims : Claims) (jti : String) (exp : Time) : Prop where
  token : ∃ token, refreshInput env r = .ok token ∧ h.refreshParse env t.parse token = .ok claims ∧
    h.refreshIdentify env t.rawClaims token = .ok (jti, exp)
  unrevoked : ¬ b.Revokes t.isRevoked jti

/-- An admitted request revokes its token and then goes on. -/
theorem Admits.refreshWith_eq {env : Env} {h : AuthHandler} {b : MemoryBlacklist} {t : CheckTimes}
    {r : Request String} {claims : Claims} {jti : String} {exp : Time}
    (ha : Admits env h b t r claims jti exp) (getByID : Int → Except ε User) (st : Stamps)
    (now : Time) :
    h.refreshWith env getByID b t st now r =
      ((b.isRevoked t.isRevoked jti).1.revoke jti exp, (h.issueTokens env st claims.subject).1,
        match (h.issueTokens env st claims.subject).2 with
        | none => .internalError
        | some pair => refreshReply pair now (getByID claims.subject.toInt)) := by
  obtain ⟨⟨token, hinput, hparse, hid⟩, hfree⟩ := ha
  have hasked : b.isRevoked t.isRevoked jti = ((b.isRevoked t.isRevoked jti).1, false) :=
    Prod.ext rfl (Bool.not_eq_true _ ▸ hfree)
  simp only [refreshWith, hinput, hparse, hid]
  rw [hasked]
  dsimp only
  split <;> rename_i hissue <;> rw [hissue]

/-- A request that is not admitted leaves the revoked IDs, and issues nothing. -/
theorem refreshWith_of_refused {env : Env} {h : AuthHandler} {b : MemoryBlacklist}
    {t : CheckTimes} {r : Request String}
    (hno : ∀ claims jti exp, ¬ Admits env h b t r claims jti exp)
    (getByID : Int → Except ε User) (st : Stamps) (now : Time) :
    ∃ reply, h.refreshWith env getByID b t st now r = (b, [], reply) ∧ reply.status ≠ 200 := by
  unfold refreshWith
  split
  · rename_i reply hinput
    exact ⟨reply, rfl, RefreshSystem.refreshInput_status hinput⟩
  · rename_i token hinput
    split
    · rename_i reply hparse
      exact ⟨reply, rfl, RefreshSystem.refreshParse_status hparse⟩
    · rename_i claims hparse
      split
      · rename_i reply hid
        exact ⟨reply, rfl, RefreshSystem.refreshIdentify_status hid⟩
      · rename_i jti exp hid
        split
        · rename_i b' hb
          have hb' : b' = b := by
            rw [← MemoryBlacklist.isRevoked_fst_of_true (b := b) (by rw [hb]), hb]
          rw [hb']
          exact ⟨_, rfl, by simp [Reply.unauthorized]⟩
        · rename_i b' hb
          refine absurd ⟨⟨token, hinput, hparse, hid⟩, ?_⟩ (hno claims jti exp)
          simp [MemoryBlacklist.Revokes, hb]

/-- Nothing fails after `Revoke`: the new pair is signed and the user found. -/
def Completes (env : Env) (h : AuthHandler) (getByID : Int → Except ε User) (st : Stamps)
    (claims : Claims) : Prop :=
  ∃ pair user, (h.issueTokens env st claims.subject).2 = some pair ∧
    getByID claims.subject.toInt = .ok user

theorem Admits.status_eq_iff {env : Env} {h : AuthHandler} {b : MemoryBlacklist} {t : CheckTimes}
    {r : Request String} {claims : Claims} {jti : String} {exp : Time}
    (ha : Admits env h b t r claims jti exp) (getByID : Int → Except ε User) (st : Stamps)
    (now : Time) :
    (h.refreshWith env getByID b t st now r).2.2.status = 200 ↔
      Completes env h getByID st claims := by
  rw [ha.refreshWith_eq, Completes]
  cases (h.issueTokens env st claims.subject).2 with
  | none => simp [Reply.internalError]
  | some pair =>
    cases getByID claims.subject.toInt <;> simp [refreshReply, Reply.unauthorized, loginReply]

/-! ## What a failure leaves -/

/-- After an admitted request the token is revoked until it expires. -/
theorem Admits.revokes {env : Env} {h : AuthHandler} {b : MemoryBlacklist} {t : CheckTimes}
    {r : Request String} {claims : Claims} {jti : String} {exp : Time}
    (ha : Admits env h b t r claims jti exp) (getByID : Int → Except ε User) (st : Stamps)
    (now : Time) {u : Time} (hu : t.isRevoked ≤ u) (jti' : String) :
    (h.refreshWith env getByID b t st now r).1.Revokes u jti' ↔
      b.Revokes u jti' ∨ jti' = jti ∧ jti ≠ "" ∧ u ≤ exp := by
  rw [ha.refreshWith_eq, MemoryBlacklist.revokes_revoke]
  split
  · rename_i hj
    have hfree : ¬ b.Revokes u jti' := fun hr => ha.unrevoked (hj ▸ hr.earlier hu)
    simp [hj ▸ hfree, hj]
  · rename_i hj
    simp [MemoryBlacklist.revokes_isRevoked hu, hj]

/-- **A failed refresh.** That a request which is not answered with 200 leaves
the revoked IDs, from the instant it asked the blacklist on, is true exactly
if its token was refused by one of the checks, or nothing failed after them: an
admitted token is revoked before anything that can still fail. (A token without
an ID, or one that has expired between `RawClaims` and `IsRevoked`, cannot be
revoked.) -/
theorem refresh_failed_unchanged_iff (env : Env) (h : AuthHandler)
    (getByID : Int → Except ε User) (b : MemoryBlacklist) (t : CheckTimes) (st : Stamps)
    (now : Time) (r : Request String) :
    ((h.refreshWith env getByID b t st now r).2.2.status ≠ 200 →
      ∀ u, t.isRevoked ≤ u → ∀ jti,
        (h.refreshWith env getByID b t st now r).1.Revokes u jti ↔ b.Revokes u jti) ↔
    ∀ claims jti exp, Admits env h b t r claims jti exp →
      Completes env h getByID st claims ∨ jti = "" ∨ exp < t.isRevoked := by
  constructor
  · intro hsame claims jti exp ha
    by_contra hburn
    rw [not_or, not_or, Int.not_lt] at hburn
    obtain ⟨hfails, hburn⟩ := hburn
    have hstatus := mt (ha.status_eq_iff getByID st now).1 hfails
    refine ha.unrevoked ((hsame hstatus t.isRevoked (Int.le_refl _) jti).1 ?_)
    exact (ha.revokes getByID st now (Int.le_refl _) jti).2 (.inr ⟨rfl, hburn⟩)
  · intro hvoid hstatus u hu jti'
    by_cases hadm : ∃ claims jti exp, Admits env h b t r claims jti exp
    · obtain ⟨claims, jti, exp, ha⟩ := hadm
      rw [ha.revokes getByID st now hu]
      refine or_iff_left ?_
      rintro ⟨-, hjti, hexp⟩
      rcases hvoid claims jti exp ha with hcompletes | hempty | hlate
      · exact hstatus ((ha.status_eq_iff getByID st now).2 hcompletes)
      · exact hjti hempty
      · exact absurd (Int.le_trans hu hexp) (Int.not_le.2 hlate)
    · have hno : ∀ claims jti exp, ¬ Admits env h b t r claims jti exp :=
        fun claims jti exp ha => hadm ⟨claims, jti, exp, ha⟩
      obtain ⟨reply, hout, -⟩ := refreshWith_of_refused hno getByID st now
      rw [hout]

/-- The look-up times out, and the retry with the same token is refused, though
the database is back and the token had been good. -/
theorem refresh_burned_by_timeout :
    let env := Sample.env (Sample.tokens 0 "1" ++ Sample.tokens 0 "2")
    let attempt := fun (getByID : Int → Except PostgresError User) (b : MemoryBlacklist) =>
      Sample.handler.refreshWith env getByID b ⟨0, 0, 0⟩ (Sample.stamps 0 "2") 0
        ⟨"POST", "application/json", .ok "refresh-1"⟩
    let down := fun _ => .error (.sql (.other "timeout"))
    let up := fun id => .ok ⟨id, "Ada", "ada@example.com", ""⟩
    (attempt down .new).2.2 = .unauthorized "user no longer exists" ∧
    ¬ MemoryBlacklist.new.Revokes 0 "r1" ∧ (attempt down .new).1.Revokes 0 "r1" ∧
    (attempt up .new).2.2.status = 200 ∧
    (attempt up (attempt down .new).1).2.2 = .unauthorized "invalid refresh token" := by
  decide +kernel

end AuthHandler

end GoRestApi.Handler
