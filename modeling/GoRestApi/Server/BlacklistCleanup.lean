/-
GoRestApi.Server.BlacklistCleanup — when an entry leaves the in-memory
blacklist.

`IsRevoked` drops an entry whose time has passed. It is asked about a token
only after `Parse` and `RawClaims` have accepted the token, and both reject it
from its `exp` on, which is the time of the entry as well. So the entry goes
only if the token expires inside one request, after `RawClaims` has read the
clock and before `IsRevoked` does (`Straddles`); and a refresh that does this
puts the entry back. A token that is presented after it has expired leaves its
entry where it is, and the map keeps it for good: `expired_entry_dropped_iff`.
-/
import GoRestApi.Handler.RefreshFailure
import GoRestApi.Server.SessionTheorems

namespace GoRestApi.Auth.MemoryBlacklist

open Go

/-- An entry is dropped by a question about it that comes after its time. -/
theorem forgets_iff {b : MemoryBlacklist} {jti : String} {exp : Time} (hjti : jti ≠ "")
    (he : b.entries jti = some exp) (now : Time) :
    (b.isRevoked now jti).1.entries jti = none ↔ exp < now := by
  by_cases hlate : exp < now
  · simp [isRevoked, hjti, he, hlate]
  · simp [isRevoked, hjti, he, hlate]

end GoRestApi.Auth.MemoryBlacklist

namespace GoRestApi.Server

open Go Auth Store Handler Lts

/-! ## The entry of one token -/

/-- The token expires inside the request, between `RawClaims` and
`IsRevoked`. -/
def Astride (env : Env) (h : AuthHandler) (x : IssuedToken) (t : CheckTimes) (header : String) :
    Prop :=
  x.kind = .access ∧ (∃ raw, bearerToken header = .ok raw ∧ x.IsText env h raw) ∧
    t.rawClaims < x.expiresAt ∧ x.expiresAt < t.isRevoked

/-- The request has `RequireAuth` check the token while it expires. -/
def SessionAct.Straddles (env : Env) (h : AuthHandler) (x : IssuedToken) : SessionAct → Prop
  | .logout t _ _ header | .behindAuth t header => Astride env h x t header
  | .register _ _ _ | .login _ _ _ | .refresh _ _ _ _ => False

namespace Session

variable {env : Env} {h : AuthHandler} {s : Session}

/-- The entries have the times of their tokens. -/
def Dated (s : Session) : Prop :=
  ∀ x ∈ s.issued, ∀ exp, s.blacklist.entries x.jti = some exp → exp = x.expiresAt

theorem Consistent.dated_revoke (hs : s.Consistent env h) (hd : s.Dated) {x : IssuedToken}
    (hx : x ∈ s.issued) {y : IssuedToken} (hy : y ∈ s.issued) {exp : Time}
    (he : (s.blacklist.revoke x.jti x.expiresAt).entries y.jti = some exp) :
    exp = y.expiresAt := by
  by_cases hyx : y = x
  · subst hyx
    rw [MemoryBlacklist.entries_revoke_self _ (hs.signed y hy).jti_ne] at he
    exact (Option.some.inj he).symm
  · rw [hs.entries_revoke hx hy hyx] at he
    exact hd y hy exp he

theorem Consistent.dated_move (hs : s.Consistent env h) (hd : s.Dated) {s' : Session}
    (hm : Move env h s s') : s'.Dated := by
  cases hm with
  | store store => exact hd
  | tick hnow => exact hd
  | ask jti hnow => exact fun x hx exp he => hd x hx exp (MemoryBlacklist.entries_of_isRevoked he)
  | @issue x hx hnew =>
    intro y hy exp he
    rcases List.mem_append.1 hy with hy | hy
    · exact hd y hy exp he
    · cases List.mem_singleton.1 hy
      obtain ⟨z, hz, hjti⟩ := hs.known _ exp he
      exact absurd hjti (hnew z hz)
  | logOut hx _ => exact fun y hy exp he => hs.dated_revoke hd hx hy he
  | rotate hx hkind => exact fun y hy exp he => hs.dated_revoke hd hx hy he

theorem Consistent.dated_moves (hs : s.Consistent env h) (hd : s.Dated) {s' : Session}
    (hm : Moves env h s s') : s'.Dated := by
  induction hm with
  | refl => exact hd
  | tail hms hm ih => exact (hs.moves hms).dated_move ih hm

/-- The token that a check reaches the blacklist with. -/
theorem Consistent.issued_of_reaches (hs : s.Consistent env h) (hw : Wired h) {t : CheckTimes}
    {header jti : String} {u : Int64} (hforge : ∀ raw ∈ bearer header, s.Unforged env h raw)
    (hr : Reaches env h.issuer t header u jti) :
    ∃ x ∈ s.issued, x.jti = jti ∧ x.kind = .access ∧
      (∃ raw, bearerToken header = .ok raw ∧ x.IsText env h raw) ∧ t.rawClaims < x.expiresAt := by
  obtain ⟨raw, claims, c, htoken, -, hclaims, -⟩ := hr
  obtain ⟨x, hx, hraw, hkind, -, hjti, hexp⟩ :=
    hs.issued_of_rawClaims rfl (hforge raw (bearer_of_bearerToken htoken)) hclaims
  exact ⟨x, hx, hjti, hkind.trans hw.access, ⟨raw, htoken, hraw⟩, hexp⟩

theorem Consistent.reaches_of_issued (hs : s.Consistent env h) (hw : Wired h) {t : CheckTimes}
    {header raw : String} {x : IssuedToken} (hx : x ∈ s.issued) (hkind : x.kind = .access)
    (htoken : bearerToken header = .ok raw) (hraw : x.IsText env h raw)
    (hparse : t.parse ≤ t.rawClaims) (hexp : t.rawClaims < x.expiresAt) :
    Reaches env h.issuer t header x.subject x.jti := by
  have hsigned := hs.signed x hx
  refine ⟨raw, _, x.claims, htoken, (hsigned.parse_iff rfl hraw).2 ⟨?_, ?_, rfl⟩,
    (hsigned.rawClaims_iff rfl hraw).2 ⟨hexp, ?_, rfl, rfl⟩, rfl⟩
  · exact Int.lt_of_le_of_lt hparse hexp
  · exact hkind.trans hw.access.symm
  · exact hkind.trans hw.access.symm

/-- **`RequireAuth`.** -/
theorem Consistent.requireAuth_forgets_iff (hs : s.Consistent env h) (hw : Wired h)
    {t : CheckTimes} {header : String} (hforge : ∀ raw ∈ bearer header, s.Unforged env h raw)
    (hparse : t.parse ≤ t.rawClaims) {x : IssuedToken} (hx : x ∈ s.issued)
    (he : s.blacklist.entries x.jti = some x.expiresAt) :
    (requireAuth env h.issuer s.blacklist t header).1.entries x.jti = none ↔
      Astride env h x t header := by
  have hjti := (hs.signed x hx).jti_ne
  constructor
  · intro hnone
    rcases requireAuth_cases env h.issuer s.blacklist t header with ⟨_, heq, -⟩ | ⟨u, jti, hr⟩
    · rw [heq, he] at hnone
      cases hnone
    · obtain ⟨y, hy, rfl, hkind, hbearer, hexp⟩ := hs.issued_of_reaches hw hforge hr
      rw [hr.requireAuth_eq] at hnone
      by_cases hyx : x.jti = y.jti
      · cases hs.eq_of_jti hx hy hyx
        exact ⟨hkind, hbearer, hexp, (MemoryBlacklist.forgets_iff hjti he _).1 hnone⟩
      · rw [MemoryBlacklist.entries_isRevoked_of_ne _ hyx, he] at hnone
        cases hnone
  · rintro ⟨hkind, ⟨raw, htoken, hraw⟩, hexp, hlate⟩
    rw [(hs.reaches_of_issued hw hx hkind htoken hraw hparse hexp).requireAuth_eq]
    exact (MemoryBlacklist.forgets_iff hjti he _).2 hlate

/-- **`Logout`.** What it revokes has not expired yet. -/
theorem Consistent.logoutRoute_forgets_iff (hs : s.Consistent env h) (hw : Wired h)
    {t : CheckTimes} {now : Time} {method header : String}
    (hforge : ∀ raw ∈ bearer header, s.Unforged env h raw) (hparse : t.parse ≤ t.rawClaims)
    (hlater : t.isRevoked ≤ now) {x : IssuedToken} (hx : x ∈ s.issued)
    (he : s.blacklist.entries x.jti = some x.expiresAt) :
    (logoutRoute env h s.blacklist t now method header).1.entries x.jti = none ↔
      Astride env h x t header := by
  have hauth := hs.requireAuth_forgets_iff hw hforge hparse hx he
  rcases logoutRoute_cases s.blacklist t now method header with
    ⟨hb, -⟩ | ⟨token, c, jti, exp, hbearer, hraw, hexp, hout⟩
  · rw [hb, hauth]
  · obtain ⟨y, hy, hyraw, -, -, rfl, hlive⟩ :=
      hs.issued_of_rawClaims rfl (hforge token hbearer) hraw
    rw [hout]
    by_cases hyx : x = y
    · subst hyx
      rw [MemoryBlacklist.entries_revoke_self _ (hs.signed x hx).jti_ne]
      refine iff_of_false (by simp) ?_
      rintro ⟨-, -, -, hlate⟩
      exact absurd (Int.lt_of_lt_of_le hlate hlater) (Int.not_lt.2 (Int.le_of_lt hlive))
    · have hne : x.jti ≠ y.jti := fun hj => hyx (hs.eq_of_jti hx hy hj)
      rw [MemoryBlacklist.entries_revoke_of_ne _ hne, hauth]

/-- **`Refresh`.** What it drops it puts back. -/
theorem Consistent.refresh_keeps (hs : s.Consistent env h) {t : CheckTimes} {st : Stamps}
    {now : Time} {r : Request String} {x : IssuedToken} (hx : x ∈ s.issued)
    (he : s.blacklist.entries x.jti ≠ none) :
    (h.refresh env s.store s.blacklist t st now r).1.entries x.jti ≠ none := by
  unfold AuthHandler.refresh
  by_cases hadm : ∃ claims jti exp, AuthHandler.Admits env h s.blacklist t r claims jti exp
  · obtain ⟨claims, jti, exp, ha⟩ := hadm
    rw [ha.refreshWith_eq]
    by_cases hj : x.jti = jti
    · rw [← hj, MemoryBlacklist.entries_revoke_self _ (hs.signed x hx).jti_ne]
      simp
    · rwa [MemoryBlacklist.entries_revoke_of_ne _ hj, MemoryBlacklist.entries_isRevoked_of_ne _ hj]
  · obtain ⟨reply, hout, -⟩ := AuthHandler.refreshWith_of_refused
      (fun claims jti exp ha => hadm ⟨claims, jti, exp, ha⟩) s.store.getByID st now
    rwa [hout]

/-- **One request.** -/
theorem Consistent.step_forgets_iff (hs : s.Consistent env h) (hd : s.Dated) (hw : Wired h)
    {a : SessionAct} {s' : Session} (ha : s.Sane env h a) (hstep : s.step env h a = some s')
    {x : IssuedToken} (hx : x ∈ s.issued) (he : s.blacklist.entries x.jti ≠ none) :
    s'.blacklist.entries x.jti = none ↔ a.Straddles env h x := by
  obtain ⟨exp, hexp⟩ := Option.ne_none_iff_exists'.1 he
  have hexp' := hexp
  rw [hd x hx exp hexp] at hexp'
  have hclock := ha.clock
  cases a with
  | register st now r =>
    cases hstep
    exact iff_of_false he id
  | login st now r =>
    cases hstep
    exact iff_of_false he id
  | refresh t st now r =>
    cases hstep
    exact iff_of_false (hs.refresh_keeps hx he) id
  | logout t now method header =>
    cases hstep
    exact hs.logoutRoute_forgets_iff hw ha.unforged (by simp_all [SessionAct.times])
      (by simp_all [SessionAct.times]) hx hexp'
  | behindAuth t header =>
    cases hstep
    exact hs.requireAuth_forgets_iff hw ha.unforged (by simp_all [SessionAct.times]) hx hexp'

/-! ## After the expiry -/

/-- `RequireAuth` adds no entry. -/
theorem entries_requireAuth_eq_none {i : TokenIssuer} {b : MemoryBlacklist} {jti : String}
    (he : b.entries jti = none) (t : CheckTimes) (header : String) :
    (requireAuth env i b t header).1.entries jti = none := by
  rcases requireAuth_fst i b t header with hb | ⟨jti', hb⟩
  · rwa [hb]
  · rw [hb]
    exact MemoryBlacklist.entries_isRevoked_eq_none he _ _

/-- A token that `RawClaims` accepts is not one that has expired. -/
theorem Consistent.ne_of_rawClaims (hs : s.Consistent env h) {x : IssuedToken} (hx : x ∈ s.issued)
    (hexp : x.expiresAt < s.clock) {i : TokenIssuer} (hsecret : i.secret = h.issuer.secret)
    {now : Time} {raw jti : String} {c : MapClaims} (hforge : s.Unforged env h raw)
    (hnow : s.clock ≤ now) (hraw : i.rawClaims env.jwt now raw = .ok (c, jti)) : x.jti ≠ jti := by
  intro hjti
  obtain ⟨y, hy, -, -, -, hyjti, hlive⟩ := hs.issued_of_rawClaims hsecret hforge hraw
  cases hs.eq_of_jti hx hy (hjti.trans hyjti.symm)
  exact absurd (Int.lt_of_lt_of_le hexp hnow) (Int.not_lt.2 (Int.le_of_lt hlive))

/-- A token that is revoked by a request has not expired when the request
begins. -/
theorem Consistent.stays_forgotten (hs : s.Consistent env h) (hw : Wired h) {a : SessionAct}
    {s' : Session} (ha : s.Sane env h a) (hstep : s.step env h a = some s') {x : IssuedToken}
    (hx : x ∈ s.issued) (hexp : x.expiresAt < s.clock) (he : s.blacklist.entries x.jti = none) :
    s'.blacklist.entries x.jti = none := by
  have hclock := ha.clock
  -- asking adds no entry, so only a call of `Revoke` could
  have hask := MemoryBlacklist.entries_isRevoked_eq_none he
  cases a with
  | register st now r =>
    cases hstep
    exact he
  | login st now r =>
    cases hstep
    exact he
  | refresh t st now r =>
    cases hstep
    show (h.refresh env s.store s.blacklist t st now r).1.entries x.jti = none
    rcases @refresh_cases env h s.store s.blacklist t st now r with
      ⟨hb, -⟩ | ⟨raw, c, jti, hbody, hraw, ⟨hb, -⟩ | ⟨hb, -⟩⟩ <;> rw [hb]
    · exact he
    · exact hask _ _
    · have hforge := ha.unforged raw (by simp [SessionAct.presented, hbody, Except.toOption])
      rw [MemoryBlacklist.entries_revoke_of_ne]
      · exact hask _ _
      · exact hs.ne_of_rawClaims hx hexp hw.secret hforge (by simp_all [SessionAct.times]) hraw
  | logout t now method header =>
    cases hstep
    show (logoutRoute env h s.blacklist t now method header).1.entries x.jti = none
    rcases logoutRoute_cases s.blacklist t now method header with
      ⟨hb, -⟩ | ⟨token, c, jti, exp, hbearer, hraw, -, hout⟩
    · rw [hb]
      exact entries_requireAuth_eq_none he t header
    · rw [hout, MemoryBlacklist.entries_revoke_of_ne]
      · exact entries_requireAuth_eq_none he t header
      · exact hs.ne_of_rawClaims hx hexp rfl (ha.unforged token hbearer)
          (by simp_all [SessionAct.times]) hraw
  | behindAuth t header =>
    cases hstep
    exact entries_requireAuth_eq_none he t header

/-! ## Runs -/

theorem Moves.grows {s' : Session} (hm : Moves env h s s') :
    s.issued ⊆ s'.issued ∧ s.clock ≤ s'.clock := by
  induction hm with
  | refl => exact ⟨List.Subset.refl _, Int.le_refl _⟩
  | tail _ hm ih =>
    refine ⟨List.Subset.trans ih.1 ?_, Int.le_trans ih.2 ?_⟩
    · cases hm with
      | issue => exact List.subset_append_left ..
      | _ => exact List.Subset.refl _
    · cases hm with
      | tick hnow | ask _ hnow => exact hnow
      | _ => exact Int.le_refl _

/-- A request in which the token expires ends after the expiry. -/
theorem clock_of_straddles {a : SessionAct} {s' : Session} (ha : s.Sane env h a)
    (hstep : s.step env h a = some s') {x : IssuedToken} (hstr : a.Straddles env h x) :
    s.clock < x.expiresAt ∧ x.expiresAt < s'.clock := by
  have hclock := ha.clock
  cases a with
  | register st now r => cases hstr
  | login st now r => cases hstr
  | refresh t st now r => cases hstr
  | logout t now method header =>
    cases hstep
    obtain ⟨-, -, hraw, hlate⟩ := hstr
    simp only [SessionAct.times, List.pairwise_cons, List.mem_cons, List.not_mem_nil, or_false,
      forall_eq_or_imp, forall_eq] at hclock
    exact ⟨Int.lt_of_le_of_lt hclock.1.2.1 hraw, Int.lt_of_lt_of_le hlate hclock.2.2.2.1⟩
  | behindAuth t header =>
    cases hstep
    obtain ⟨-, -, hraw, hlate⟩ := hstr
    simp only [SessionAct.times, List.pairwise_cons, List.mem_cons, List.not_mem_nil, or_false,
      forall_eq_or_imp, forall_eq] at hclock
    exact ⟨Int.lt_of_le_of_lt hclock.1.2.1 hraw, hlate⟩

/-- Once the entry of an expired token is gone, it stays away. -/
theorem Consistent.stays_forgotten_of_run (hs : s.Consistent env h) (hjwt : env.jwt.Correct)
    (hw : Wired h) {as : List SessionAct} {s' : Session}
    (hsane : Along (step env h) (Sane env h) s as) (hrun : run (step env h) s as = some s')
    {x : IssuedToken} (hx : x ∈ s.issued) (hexp : x.expiresAt < s.clock)
    (he : s.blacklist.entries x.jti = none) : s'.blacklist.entries x.jti = none := by
  have hinv : s'.Consistent env h ∧ x ∈ s'.issued ∧ x.expiresAt < s'.clock ∧
      s'.blacklist.entries x.jti = none := by
    refine hsane.invariant (I := fun u => u.Consistent env h ∧ x ∈ u.issued ∧
      x.expiresAt < u.clock ∧ u.blacklist.entries x.jti = none) ?_ ⟨hs, hx, hexp, he⟩ hrun
    rintro u a u' ⟨hu, hx, hexp, he⟩ ha hstep
    have hm := moves_of_step hjwt hw hu ha hstep
    exact ⟨hu.moves hm, hm.grows.1 hx, Int.lt_of_lt_of_le hexp hm.grows.2,
      hu.stays_forgotten hw ha hstep hx hexp he⟩
  exact hinv.2.2.2

/-- **A run.** An entry is gone at the end exactly if the token has expired
inside a check of `RequireAuth`. -/
theorem Consistent.run_forgets_iff (hs : s.Consistent env h) (hd : s.Dated)
    (hjwt : env.jwt.Correct) (hw : Wired h) {as : List SessionAct} {s' : Session}
    (hsane : Along (step env h) (Sane env h) s as) (hrun : run (step env h) s as = some s')
    {x : IssuedToken} (hx : x ∈ s.issued) (he : s.blacklist.entries x.jti ≠ none) :
    s'.blacklist.entries x.jti = none ↔ ∃ a ∈ as, a.Straddles env h x := by
  induction as generalizing s with
  | nil =>
    cases hrun
    simp [he]
  | cons a as ih =>
    obtain ⟨u, hstep, hrun⟩ := run_cons_eq_some.1 hrun
    have hm := moves_of_step hjwt hw hs hsane.1 hstep
    have hiff := hs.step_forgets_iff hd hw hsane.1 hstep hx he
    by_cases hstr : a.Straddles env h x
    · have hlate := (clock_of_straddles hsane.1 hstep hstr).2
      refine iff_of_true ?_ ⟨a, List.mem_cons_self, hstr⟩
      exact (hs.moves hm).stays_forgotten_of_run hjwt hw (hsane.tail hstep) hrun (hm.grows.1 hx)
        hlate (hiff.2 hstr)
    · rw [ih (hs.moves hm) (hs.dated_moves hd hm) (hsane.tail hstep) hrun (hm.grows.1 hx)
        (fun hnone => hstr (hiff.1 hnone))]
      simp [hstr]

/-- The entry of a token that has expired stays. -/
theorem Consistent.stays_of_expired (hs : s.Consistent env h) (hd : s.Dated)
    (hjwt : env.jwt.Correct) (hw : Wired h) {as : List SessionAct} {s' : Session}
    (hsane : Along (step env h) (Sane env h) s as) (hrun : run (step env h) s as = some s')
    {x : IssuedToken} (hx : x ∈ s.issued) (he : s.blacklist.entries x.jti ≠ none)
    (hexp : x.expiresAt ≤ s.clock) : s'.blacklist.entries x.jti ≠ none := by
  have hinv : s'.Consistent env h ∧ s'.Dated ∧ x ∈ s'.issued ∧ x.expiresAt ≤ s'.clock ∧
      s'.blacklist.entries x.jti ≠ none := by
    refine hsane.invariant (I := fun u => u.Consistent env h ∧ u.Dated ∧ x ∈ u.issued ∧
      x.expiresAt ≤ u.clock ∧ u.blacklist.entries x.jti ≠ none) ?_ ⟨hs, hd, hx, hexp, he⟩ hrun
    rintro u a u' ⟨hu, hd, hx, hexp, he⟩ ha hstep
    have hm := moves_of_step hjwt hw hu ha hstep
    refine ⟨hu.moves hm, hu.dated_moves hd hm, hm.grows.1 hx, Int.le_trans hexp hm.grows.2, ?_⟩
    intro hnone
    have hstr := (hu.step_forgets_iff hd hw ha hstep hx he).1 hnone
    exact absurd hexp (Int.not_le.2 (clock_of_straddles ha hstep hstr).1)
  exact hinv.2.2.2.2

theorem dated_of_run (hjwt : env.jwt.Correct) (hw : Wired h) {store : MemoryUserStore}
    {clock : Time} {as : List SessionAct} (hrun : run (step env h) (init store clock) as = some s)
    (hsane : Along (step env h) (Sane env h) (init store clock) as) : s.Dated := by
  have hinv : s.Consistent env h ∧ s.Dated := by
    refine hsane.invariant (I := fun u => u.Consistent env h ∧ u.Dated) ?_
      ⟨.init store clock, fun x hx => by cases hx⟩ hrun
    rintro u a u' ⟨hu, hd⟩ ha hstep
    have hm := moves_of_step hjwt hw hu ha hstep
    exact ⟨hu.moves hm, hu.dated_moves hd hm⟩
  exact hinv.2

/-- **Expired revocations stay.** After any requests, take a token on the
blacklist and any further requests, on a clock that does not go backwards. Its
entry is gone at the end exactly if `RequireAuth` was passed the token and
read the clock for `RawClaims` before and for `IsRevoked` after the expiry. If
the token has expired before these requests, its entry is there at the end,
however often the token was presented. -/
theorem expired_entry_dropped_iff (hjwt : env.jwt.Correct) (hw : Wired h)
    {store : MemoryUserStore} {clock : Time} {as : List SessionAct} {s : Session}
    (hrun : run (step env h) (init store clock) as = some s)
    (hsane : Along (step env h) (Sane env h) (init store clock) as)
    {x : IssuedToken} (hx : x ∈ s.issued) (hrevoked : s.blacklist.entries x.jti ≠ none)
    {as' : List SessionAct} {s' : Session} (hrun' : run (step env h) s as' = some s')
    (hsane' : Along (step env h) (Sane env h) s as') :
    (s'.blacklist.entries x.jti = none ↔ ∃ a ∈ as', a.Straddles env h x) ∧
    (x.expiresAt ≤ s.clock → s'.blacklist.entries x.jti ≠ none) := by
  have hs := consistent_of_run hjwt hw hrun hsane
  have hd := dated_of_run hjwt hw hrun hsane
  exact ⟨hs.run_forgets_iff hd hjwt hw hsane' hrun' hx hrevoked,
    hs.stays_of_expired hd hjwt hw hsane' hrun' hx hrevoked⟩

/-- The token of the first session is presented, `n` seconds after it was
issued; it is good for 900 seconds. -/
def presentAt (n : Int) : SessionAct :=
  .behindAuth ⟨n * Time.second, n * Time.second, n * Time.second⟩ "Bearer access-1"

theorem expired_entry_presentAt :
    ∃ s s', run (step oneUserEnv Sample.handler) (init newMemoryUserStore 0)
        [registration, firstLogout, presentAt 901] = some s ∧
      run (step oneUserEnv Sample.handler) s [presentAt 902] = some s' ∧
      s'.blacklist.entries "a1" ≠ none := by
  have hends : ∃ s, run (step oneUserEnv Sample.handler) (init newMemoryUserStore 0)
        [registration, firstLogout, presentAt 901] = some s ∧
      Along (step oneUserEnv Sample.handler) (Sane oneUserEnv Sample.handler) s
        [presentAt 902] ∧
      (∃ x ∈ s.issued, x.jti = "a1" ∧ x.expiresAt ≤ s.clock) ∧
      s.blacklist.entries "a1" ≠ none := exists_run_of_any (by decide +kernel)
  obtain ⟨s, hrun, hsane', ⟨x, hx, hjti, hexp⟩, he⟩ := hends
  have hsane : Along (step oneUserEnv Sample.handler) (Sane oneUserEnv Sample.handler)
      (init newMemoryUserStore 0) [registration, firstLogout, presentAt 901] := by decide +kernel
  rw [← hjti] at he ⊢
  exact ⟨s, _, hrun, rfl, (expired_entry_dropped_iff oneUserEnv_correct sample_wired hrun hsane hx
    he rfl hsane').2 hexp⟩

/-- The token is logged out, expires and is presented again: the entry is still
in the map. -/
theorem expired_entry_kept :
    ∃ s, run (step oneUserEnv Sample.handler) (init newMemoryUserStore 0)
        [registration, firstLogout, presentAt 901, presentAt 902] = some s ∧
      s.blacklist.entries "a1" = some (900 * Time.second) ∧ 900 * Time.second < s.clock :=
  exists_run_of_any (by decide +kernel)

end Session

end GoRestApi.Server
