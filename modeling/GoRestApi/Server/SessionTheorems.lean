/-
GoRestApi.Server.SessionTheorems — who gets past `RequireAuth`.

What a request does to the blacklist and to the history is a sequence of
`Move`s: the clock goes on, the blacklist is asked, a token is issued, logged
out or rotated. `moves_of_step` is the refinement; the invariant `Consistent`
is proved of the moves and carried to the requests by it. `reaches_iff` reads
the answer of `RequireAuth` off the invariant.

A logged-out token is forgotten as soon as its time has passed, by a clock
reading that comes after the one of `RawClaims`. So a token that was logged
out is let through once more if it expires between the two, and apart from the
blanks that are trimmed off this is all that is wrong with the gate:
`session_gate_iff`.
-/
import GoRestApi.Handler.UserTheorems
import GoRestApi.Server.Session
import Mathlib.Logic.Relation

namespace GoRestApi.Handler

open Go Auth

/-! ## Issued tokens -/

namespace IssuedToken

def jti (x : IssuedToken) : String := x.claims.jti.getD ""

/-- The time of the `exp` claim. -/
def expiresAt (x : IssuedToken) : Time := Time.ofUnix (x.claims.exp.getD 0)

/-- The token verifies, to claims that say what it was issued for. -/
structure Signed (env : Env) (h : AuthHandler) (x : IssuedToken) : Prop where
  verify : x.IsText env h x.raw
  raw_ne : x.raw ≠ ""
  sub : x.claims.sub = some (Strconv.formatInt x.subject)
  aud : x.claims.aud = some x.kind.audience
  jti_ne : x.jti ≠ ""
  exp : ∃ exp, x.claims.exp = some exp

theorem audience_injective {k k' : TokenKind} (h : k.audience = k'.audience) : k = k' := by
  cases k <;> cases k' <;> first | rfl | simp [TokenKind.audience] at h

theorem jti_ne_of_claims {x : IssuedToken} {jti : String} (hjti : jti ≠ "")
    (hx : x.claims.jti ≠ some jti) : x.jti ≠ jti := by
  unfold IssuedToken.jti
  cases hc : x.claims.jti with
  | none => exact Ne.symm hjti
  | some j =>
    rintro rfl
    exact hx hc

section Signed

variable {env : Env} {h : AuthHandler} {x : IssuedToken} {raw : String} {i : TokenIssuer}
  {now : Time}

/-- A text is that of one token, as far as the claims go. -/
theorem IsText.jti_eq {y : IssuedToken} (hx : x.IsText env h raw) (hy : y.IsText env h raw) :
    y.jti = x.jti := by
  have hclaims : y.claims = x.claims := Option.some.inj (hy.symm.trans hx)
  simp only [IssuedToken.jti, hclaims]

theorem Signed.exp_iff (hx : x.Signed env h) :
    (∀ exp, x.claims.exp = some exp → now < Time.ofUnix exp) ↔ now < x.expiresAt := by
  obtain ⟨exp, he⟩ := hx.exp
  simp [expiresAt, he]

/-- `RawClaims` accepts the token until it expires, with an issuer of its
kind. -/
theorem Signed.rawClaims_iff (hx : x.Signed env h) (hsecret : i.secret = h.issuer.secret)
    (htext : x.IsText env h raw) {c : MapClaims} {jti : String} :
    i.rawClaims env.jwt now raw = .ok (c, jti) ↔
      now < x.expiresAt ∧ x.kind = i.kind ∧ x.claims = c ∧ x.jti = jti := by
  rw [TokenIssuer.rawClaims_eq_ok_iff, hsecret, htext]
  constructor
  · rintro ⟨hc, hexp, haud, hjti⟩
    cases hc
    refine ⟨hx.exp_iff.mp hexp, ?_, rfl, hjti⟩
    rw [hx.aud] at haud
    exact audience_injective haud
  · rintro ⟨hexp, hkind, rfl, hjti⟩
    refine ⟨rfl, hx.exp_iff.mpr hexp, ?_, hjti⟩
    simp [hx.aud, TokenIssuer.aud, hkind]

/-- `Parse` as well, and it gives the subject. -/
theorem Signed.parse_iff (hx : x.Signed env h) (hsecret : i.secret = h.issuer.secret)
    (htext : x.IsText env h raw) {claims : Claims} :
    i.parse env.jwt now raw = .ok claims ↔
      now < x.expiresAt ∧ x.kind = i.kind ∧
        claims = ⟨x.subject, x.claims.iss.getD "", i.kind⟩ := by
  have hsub : x.claims.sub.bind Strconv.parseInt = some x.subject := by
    simp [hx.sub, Strconv.parseInt_formatInt]
  rw [TokenIssuer.parse_eq_ok_iff, hsecret, htext]
  constructor
  · rintro ⟨c, hc, hexp, haud, hs, hiss, hkind⟩
    cases hc
    refine ⟨hx.exp_iff.mp hexp, ?_, ?_⟩
    · rw [hx.aud] at haud
      exact audience_injective haud
    · rw [hsub] at hs
      cases claims
      simp_all
  · rintro ⟨hexp, hkind, rfl⟩
    refine ⟨_, rfl, hx.exp_iff.mpr hexp, ?_, hsub, rfl, rfl⟩
    simp [hx.aud, TokenIssuer.aud, hkind]

end Signed

end IssuedToken

end GoRestApi.Handler

namespace GoRestApi.Server

open Go Auth Store Handler Lts

namespace Session

variable {env : Env} {h : AuthHandler}

/-! ## Moves -/

/-- What the requests are made of. -/
inductive Move (env : Env) (h : AuthHandler) (s : Session) : Session → Prop where
  | store (store : MemoryUserStore) : Move env h s { s with store := store }
  | tick {now : Time} : s.clock ≤ now → Move env h s { s with clock := now }
  | ask {now : Time} (jti : String) : s.clock ≤ now →
      Move env h s { s with clock := now, blacklist := (s.blacklist.isRevoked now jti).1 }
  | issue {x : IssuedToken} : x.Signed env h → (∀ y ∈ s.issued, y.jti ≠ x.jti) →
      Move env h s { s with issued := s.issued ++ [x] }
  | logOut {x : IssuedToken} {raw : String} : x ∈ s.issued → x.kind = .access →
      x.IsText env h raw →
      Move env h s { s with
        blacklist := s.blacklist.revoke x.jti x.expiresAt
        loggedOut := s.loggedOut ++ [raw] }
  | rotate {x : IssuedToken} : x ∈ s.issued → x.kind = .refresh →
      Move env h s { s with blacklist := s.blacklist.revoke x.jti x.expiresAt }

abbrev Moves (env : Env) (h : AuthHandler) := Relation.ReflTransGen (Move env h)

/-- What the blacklist and the history say of each other. -/
structure Consistent (env : Env) (h : AuthHandler) (s : Session) : Prop where
  signed : ∀ x ∈ s.issued, x.Signed env h
  ids : (s.issued.map IssuedToken.jti).Nodup
  known : ∀ jti exp, s.blacklist.entries jti = some exp → ∃ x ∈ s.issued, x.jti = jti
  out : ∀ raw ∈ s.loggedOut, ∃ x ∈ s.issued, x.IsText env h raw
  /-- an access token on the blacklist was logged out -/
  revoked : ∀ x ∈ s.issued, x.kind = .access → ∀ exp, s.blacklist.entries x.jti = some exp →
    exp = x.expiresAt ∧ s.LoggedOut env h x
  /-- a logged-out token is on the blacklist until it has expired -/
  kept : ∀ x ∈ s.issued, s.LoggedOut env h x →
    s.blacklist.entries x.jti = some x.expiresAt ∨ x.expiresAt < s.clock

namespace Consistent

variable {s : Session}

theorem init (store : MemoryUserStore) (clock : Time) : Consistent env h (init store clock) where
  signed := by simp [Session.init]
  ids := List.nodup_nil
  known := by simp [Session.init, MemoryBlacklist.new]
  out := by simp [Session.init]
  revoked := by simp [Session.init]
  kept := by simp [Session.init, LoggedOut]

theorem eq_of_jti (hs : s.Consistent env h) {x y : IssuedToken} (hx : x ∈ s.issued)
    (hy : y ∈ s.issued) (hjti : x.jti = y.jti) : x = y :=
  List.inj_on_of_nodup_map hs.ids hx hy hjti

/-- A text is that of one token. -/
theorem eq_of_isText (hs : s.Consistent env h) {x y : IssuedToken} {raw : String}
    (hx : x ∈ s.issued) (hy : y ∈ s.issued) (hxraw : x.IsText env h raw)
    (hyraw : y.IsText env h raw) : y = x :=
  hs.eq_of_jti hy hx (hxraw.jti_eq hyraw)

theorem tick (hs : s.Consistent env h) {now : Time} (hnow : s.clock ≤ now) :
    Consistent env h { s with clock := now } where
  signed := hs.signed
  ids := hs.ids
  known := hs.known
  out := hs.out
  revoked := hs.revoked
  kept := fun x hx hraw => (hs.kept x hx hraw).imp_right fun h => Int.lt_of_lt_of_le h hnow

/-- The blacklist forgets an entry only when its token has expired. -/
theorem ask (hs : s.Consistent env h) {now : Time} (jti : String) (hnow : s.clock ≤ now) :
    Consistent env h
      { s with clock := now, blacklist := (s.blacklist.isRevoked now jti).1 } where
  signed := hs.signed
  ids := hs.ids
  known := fun j exp he => hs.known j exp (MemoryBlacklist.entries_of_isRevoked he)
  out := hs.out
  revoked := fun x hx hkind exp he =>
    hs.revoked x hx hkind exp (MemoryBlacklist.entries_of_isRevoked he)
  kept := by
    intro x hx hraw
    rcases hs.kept x hx hraw with he | hlt
    · by_cases hlt : x.expiresAt < now
      · exact .inr hlt
      · exact .inl (MemoryBlacklist.entries_isRevoked_of_live he (Int.not_lt.mp hlt))
    · exact .inr (Int.lt_of_lt_of_le hlt hnow)

theorem issue (hs : s.Consistent env h) {x : IssuedToken} (hx : x.Signed env h)
    (hnew : ∀ y ∈ s.issued, y.jti ≠ x.jti) :
    Consistent env h { s with issued := s.issued ++ [x] } := by
  have hmem : ∀ {y}, y ∈ s.issued ++ [x] → y ∈ s.issued ∨ y = x := by simp
  have hold : ∀ {p : IssuedToken → Prop}, (∃ y ∈ s.issued, p y) → ∃ y ∈ s.issued ++ [x], p y :=
    fun ⟨y, hy, hp⟩ => ⟨y, List.mem_append_left _ hy, hp⟩
  refine ⟨?_, ?_, fun jti exp he => hold (hs.known jti exp he),
    fun raw hraw => hold (hs.out raw hraw), ?_, ?_⟩
  · intro y hy
    rcases hmem hy with hy | rfl
    · exact hs.signed y hy
    · exact hx
  · rw [List.map_append, List.map_singleton, ← List.concat_eq_append, List.nodup_concat]
    refine ⟨fun hmem => ?_, hs.ids⟩
    obtain ⟨y, hy, hjti⟩ := List.mem_map.mp hmem
    exact hnew y hy hjti
  · intro y hy hkind exp he
    rcases hmem hy with hy | rfl
    · exact hs.revoked y hy hkind exp he
    · obtain ⟨z, hz, hjti⟩ := hs.known _ exp he
      exact absurd hjti (hnew z hz)
  · intro y hy hout
    rcases hmem hy with hy | rfl
    · exact hs.kept y hy hout
    · obtain ⟨raw, hraw, hyraw⟩ := hout
      obtain ⟨z, hz, hzraw⟩ := hs.out raw hraw
      exact absurd (hyraw.jti_eq hzraw) (hnew z hz)

/-- Revoking a token leaves the entries of the others. -/
theorem entries_revoke (hs : s.Consistent env h) {x y : IssuedToken} (hx : x ∈ s.issued)
    (hy : y ∈ s.issued) (hne : y ≠ x) (exp : Time) :
    (s.blacklist.revoke x.jti exp).entries y.jti = s.blacklist.entries y.jti :=
  MemoryBlacklist.entries_revoke_of_ne _ (fun hj => hne (hs.eq_of_jti hy hx hj)) exp

theorem known_revoke (hs : s.Consistent env h) {x : IssuedToken} (hx : x ∈ s.issued)
    {jti : String} {exp : Time}
    (he : (s.blacklist.revoke x.jti x.expiresAt).entries jti = some exp) :
    ∃ y ∈ s.issued, y.jti = jti := by
  by_cases hj : jti = x.jti
  · exact ⟨x, hx, hj.symm⟩
  · rw [MemoryBlacklist.entries_revoke_of_ne _ hj] at he
    exact hs.known jti exp he

theorem logOut (hs : s.Consistent env h) {x : IssuedToken} (hx : x ∈ s.issued) {raw : String}
    (hxraw : x.IsText env h raw) :
    Consistent env h { s with
      blacklist := s.blacklist.revoke x.jti x.expiresAt
      loggedOut := s.loggedOut ++ [raw] } := by
  have hself := MemoryBlacklist.entries_revoke_self s.blacklist (hs.signed x hx).jti_ne x.expiresAt
  refine ⟨hs.signed, hs.ids, fun jti exp he => hs.known_revoke hx he, ?_, ?_, ?_⟩
  · intro raw' hraw'
    rcases List.mem_append.mp hraw' with hraw' | hraw'
    · exact hs.out raw' hraw'
    · rw [List.mem_singleton.mp hraw']
      exact ⟨x, hx, hxraw⟩
  · intro y hy hkind exp he
    by_cases hyx : y = x
    · subst hyx
      exact ⟨Option.some.inj (he.symm.trans hself),
        raw, List.mem_append_right _ (List.mem_singleton_self _), hxraw⟩
    · obtain ⟨hexp, raw', hraw', hyraw⟩ :=
        hs.revoked y hy hkind exp (by rw [← he, hs.entries_revoke hx hy hyx])
      exact ⟨hexp, raw', List.mem_append_left _ hraw', hyraw⟩
  · rintro y hy ⟨raw', hraw', hyraw⟩
    by_cases hyx : y = x
    · subst hyx
      exact .inl hself
    · have hout : s.LoggedOut env h y := by
        rcases List.mem_append.mp hraw' with hraw' | hraw'
        · exact ⟨raw', hraw', hyraw⟩
        · rw [List.mem_singleton.mp hraw'] at hyraw
          exact absurd (hs.eq_of_isText hx hy hxraw hyraw) hyx
      rw [hs.entries_revoke hx hy hyx]
      exact hs.kept y hy hout

theorem rotate (hs : s.Consistent env h) {x : IssuedToken} (hx : x ∈ s.issued)
    (hkind : x.kind = .refresh) :
    Consistent env h { s with blacklist := s.blacklist.revoke x.jti x.expiresAt } := by
  have hself := MemoryBlacklist.entries_revoke_self s.blacklist (hs.signed x hx).jti_ne x.expiresAt
  refine ⟨hs.signed, hs.ids, fun jti exp he => hs.known_revoke hx he, hs.out, ?_, ?_⟩
  · intro y hy hykind exp he
    have hyx : y ≠ x := by
      rintro rfl
      rw [hkind] at hykind
      cases hykind
    exact hs.revoked y hy hykind exp (by rw [← he, hs.entries_revoke hx hy hyx])
  · intro y hy hraw
    by_cases hyx : y = x
    · subst hyx
      exact .inl hself
    · rw [hs.entries_revoke hx hy hyx]
      exact hs.kept y hy hraw

/-- **Every move keeps the invariant.** -/
theorem move (hs : s.Consistent env h) {s' : Session} (hm : Move env h s s') :
    s'.Consistent env h := by
  cases hm with
  | store store => exact ⟨hs.signed, hs.ids, hs.known, hs.out, hs.revoked, hs.kept⟩
  | tick hnow => exact hs.tick hnow
  | ask jti hnow => exact hs.ask jti hnow
  | issue hx hnew => exact hs.issue hx hnew
  | logOut hx _ hraw => exact hs.logOut hx hraw
  | rotate hx hkind => exact hs.rotate hx hkind

theorem moves (hs : s.Consistent env h) {s' : Session} (hm : Moves env h s s') :
    s'.Consistent env h := by
  induction hm with
  | refl => exact hs
  | tail _ hm ih => exact ih.move hm

end Consistent

/-! ## Requests are moves -/

/-- What an issuer signs. -/
theorem signed_of_issue (hjwt : env.jwt.Correct) {i : TokenIssuer}
    (hsecret : i.secret = h.issuer.secret) {now : Time} {jti token : String} {u : Int64}
    {exp : Time} (hjti : jti ≠ "") (hissue : i.issue env.jwt now jti u = some (token, exp)) :
    IssuedToken.Signed env h ⟨token, i.kind, u, i.claims now jti u⟩ := by
  obtain ⟨raw, hraw, heq⟩ := Option.map_eq_some_iff.mp hissue
  cases heq
  refine ⟨?_, hjwt.signed_ne_empty _ _ _ hraw, rfl, rfl, hjti, ⟨_, rfl⟩⟩
  rw [IssuedToken.IsText, ← hsecret]
  exact hjwt.verify_signed _ _ _ hraw

/-- `issueTokens` issues none, one or two tokens, under new IDs. -/
theorem moves_issueTokens (hjwt : env.jwt.Correct) (hw : Wired h) {s : Session} {st : Stamps}
    (hfresh : s.Fresh st) (u : Int64) :
    Moves env h s { s with issued := s.issued ++ (h.issueTokens env st u).1 } := by
  obtain ⟨hjti, hrjti, hne, hnew⟩ := hfresh
  unfold AuthHandler.issueTokens
  split
  · rw [List.append_nil]
  · rename_i token exp hissue
    have hsigned := signed_of_issue (h := h) hjwt rfl hjti hissue
    rw [hw.access] at hsigned
    have haccess : Move env h s _ :=
      .issue hsigned (fun y hy => IssuedToken.jti_ne_of_claims hjti (hnew y hy).1)
    split
    · exact .single haccess
    · rename_i refresh rexp hrissue
      have hrsigned := signed_of_issue hjwt hw.secret hrjti hrissue
      rw [hw.refresh] at hrsigned
      have hrnew : ∀ y ∈ s.issued ++ [⟨token, .access, u, h.issuer.claims st.now st.jti u⟩],
          y.jti ≠ st.refreshJTI := by
        intro y hy
        rcases List.mem_append.mp hy with hy | hy
        · exact IssuedToken.jti_ne_of_claims hrjti (hnew y hy).2
        · rw [List.mem_singleton.mp hy]
          exact hne
      have hrefresh := Move.issue (s := { s with issued := _ }) hrsigned hrnew
      rw [List.append_assoc] at hrefresh
      exact .tail (.single haccess) hrefresh

/-- The issued tokens of a request are those of an `issueTokens`, if any. -/
theorem moves_of_issued (hjwt : env.jwt.Correct) (hw : Wired h) {s : Session} {st : Stamps}
    (hfresh : s.Fresh st) {issued : List IssuedToken}
    (hissued : issued = [] ∨ ∃ u, issued = (h.issueTokens env st u).1) :
    Moves env h s { s with issued := s.issued ++ issued } := by
  rcases hissued with rfl | ⟨u, rfl⟩
  · rw [List.append_nil]
  · exact moves_issueTokens hjwt hw hfresh u

theorem register_issued (store : MemoryUserStore) (st : Stamps) (now : Time)
    (r : Request CreateUserRequest) :
    (h.register env store st now r).2.1 = [] ∨
      ∃ u, (h.register env store st now r).2.1 = (h.issueTokens env st u).1 := by
  rcases heq : h.register env store st now r with ⟨store', issued, reply⟩
  rcases register_cases heq with ⟨_, hissued, _⟩ | ⟨_, user, _, _, hissued, _⟩
  · exact .inl hissued
  · exact .inr ⟨Int64.ofInt user.id, hissued⟩

theorem login_issued (store : MemoryUserStore) (st : Stamps) (now : Time)
    (r : Request AuthHandler.LoginRequest) :
    (h.login env store st now r).1 = [] ∨
      ∃ u, (h.login env store st now r).1 = (h.issueTokens env st u).1 := by
  unfold AuthHandler.login
  split
  · exact .inl rfl
  · dsimp only
    split
    · exact .inl rfl
    · split
      · exact .inl rfl
      · exact .inl rfl
      · split
        · exact .inl rfl
        · rename_i user _ _
          refine .inr ⟨Int64.ofInt user.id, ?_⟩
          split <;> simp_all

/-- A text that `RawClaims` accepts is that of a token that was issued. -/
theorem Consistent.issued_of_rawClaims {s : Session} (hs : s.Consistent env h) {i : TokenIssuer}
    (hsecret : i.secret = h.issuer.secret) {now : Time} {raw jti : String} {c : MapClaims}
    (hforge : s.Unforged env h raw) (hraw : i.rawClaims env.jwt now raw = .ok (c, jti)) :
    ∃ x ∈ s.issued, x.IsText env h raw ∧ x.kind = i.kind ∧ x.claims = c ∧ x.jti = jti ∧
      now < x.expiresAt := by
  have hv := (TokenIssuer.rawClaims_eq_ok_iff.mp hraw).1
  rw [hsecret] at hv
  obtain ⟨x, hx, rfl⟩ := hforge c hv
  obtain ⟨hexp, hkind, hc, hjti⟩ := ((hs.signed x hx).rawClaims_iff hsecret hv).mp hraw
  exact ⟨x, hx, hv, hkind, hc, hjti, hexp⟩

/-- The check of the header gets to `IsRevoked(jti)`, with a token of `u`. -/
def Reaches (env : Env) (i : TokenIssuer) (t : CheckTimes) (header : String) (u : Int64)
    (jti : String) : Prop :=
  ∃ raw claims c, bearerToken header = .ok raw ∧ i.parse env.jwt t.parse raw = .ok claims ∧
    i.rawClaims env.jwt t.rawClaims raw = .ok (c, jti) ∧ claims.subject = u

theorem Reaches.requireAuth_eq {i : TokenIssuer} {t : CheckTimes} {header jti : String} {u : Int64}
    (hr : Reaches env i t header u jti) (b : MemoryBlacklist) :
    requireAuth env i b t header =
      ((b.isRevoked t.isRevoked jti).1,
        if (b.isRevoked t.isRevoked jti).2 then
          .error (.unauthorized "missing or invalid bearer token")
        else .ok u) := by
  obtain ⟨raw, claims, c, htoken, hparse, hraw, rfl⟩ := hr
  simp only [requireAuth, htoken, hparse, hraw]
  rcases b.isRevoked t.isRevoked jti with ⟨b', revoked⟩
  cases revoked <;> rfl

/-- What does not get so far is answered with 401. -/
theorem requireAuth_of_not_reaches {i : TokenIssuer} {t : CheckTimes} {header : String}
    (hno : ∀ u jti, ¬ Reaches env i t header u jti) (b : MemoryBlacklist) :
    ∃ reply, requireAuth env i b t header = (b, .error reply) ∧ reply.status = 401 := by
  unfold requireAuth
  split
  · rename_i reply htoken
    refine ⟨reply, rfl, ?_⟩
    unfold bearerToken at htoken
    split at htoken
    · cases htoken
      rfl
    · split at htoken
      · split at htoken <;> cases htoken
        rfl
      · cases htoken
        rfl
  · rename_i raw htoken
    split
    · exact ⟨_, rfl, rfl⟩
    · rename_i claims hparse
      split
      · exact ⟨_, rfl, rfl⟩
      · rename_i c jti hraw
        exact absurd ⟨raw, claims, c, htoken, hparse, hraw, rfl⟩ (hno claims.subject jti)

/-- `RequireAuth` asks the blacklist, or does not get so far. -/
theorem requireAuth_cases (env : Env) (i : TokenIssuer) (b : MemoryBlacklist) (t : CheckTimes)
    (header : String) :
    (∃ reply, requireAuth env i b t header = (b, .error reply) ∧ reply.status = 401) ∨
      ∃ u jti, Reaches env i t header u jti := by
  by_cases hr : ∃ u jti, Reaches env i t header u jti
  · exact .inr hr
  · exact .inl (requireAuth_of_not_reaches (fun u jti h => hr ⟨u, jti, h⟩) b)

theorem requireAuth_eq_ok_iff {i : TokenIssuer} {b : MemoryBlacklist} {t : CheckTimes}
    {header : String} {u : Int64} :
    (requireAuth env i b t header).2 = .ok u ↔
      ∃ jti, Reaches env i t header u jti ∧ (b.isRevoked t.isRevoked jti).2 = false := by
  constructor
  · intro hok
    rcases requireAuth_cases env i b t header with ⟨reply, heq, -⟩ | ⟨u', jti, hr⟩
    · rw [heq] at hok
      cases hok
    · rw [hr.requireAuth_eq] at hok
      dsimp only at hok
      split at hok
      · cases hok
      · rename_i hfree
        cases hok
        exact ⟨jti, hr, Bool.not_eq_true _ ▸ hfree⟩
  · rintro ⟨jti, hr, hfree⟩
    simp [hr.requireAuth_eq, hfree]

theorem requireAuth_fst (i : TokenIssuer) (b : MemoryBlacklist) (t : CheckTimes)
    (header : String) :
    (requireAuth env i b t header).1 = b ∨
      ∃ jti, (requireAuth env i b t header).1 = (b.isRevoked t.isRevoked jti).1 := by
  rcases requireAuth_cases env i b t header with ⟨reply, heq, -⟩ | ⟨u, jti, hr⟩
  · exact .inl (by rw [heq])
  · exact .inr ⟨jti, by rw [hr.requireAuth_eq]⟩

theorem moves_requireAuth {s : Session} {t : CheckTimes} (hclock : s.clock ≤ t.isRevoked)
    (i : TokenIssuer) (header : String) :
    Moves env h s { s with
      clock := t.isRevoked, blacklist := (requireAuth env i s.blacklist t header).1 } := by
  rcases requireAuth_fst i s.blacklist t header with hb | ⟨jti, hb⟩
  · rw [hb]
    exact .single (.tick hclock)
  · rw [hb]
    exact .single (.ask jti hclock)

/-- A logout that answers 204 has revoked the token. -/
theorem logout_cases (b : MemoryBlacklist) (now : Time) (method token : String) :
    ((h.logout env b now method token).1 = b ∧ (h.logout env b now method token).2.status ≠ 204) ∨
      ∃ c jti exp, h.issuer.rawClaims env.jwt now token = .ok (c, jti) ∧ c.exp = some exp ∧
        h.logout env b now method token = (b.revoke jti (Time.ofUnix exp), .noContent) := by
  simp only [AuthHandler.logout, AuthHandler.logoutClaims]
  by_cases hmethod : method ≠ "POST"
  · rw [if_pos hmethod]
    exact .inl ⟨rfl, by simp [Reply.methodNotAllowed]⟩
  · rw [if_neg hmethod]
    cases hraw : h.issuer.rawClaims env.jwt now token with
    | error err => exact .inl ⟨rfl, by simp [Reply.unauthorized]⟩
    | ok identified =>
      obtain ⟨c, jti⟩ := identified
      cases hexp : c.exp with
      | none => exact .inl ⟨by simp only [hexp], by simp [hexp, Reply.unauthorized]⟩
      | some exp => exact .inr ⟨c, jti, exp, rfl, hexp, by simp only [hexp]⟩

/-- A request that `RequireAuth` rejects is answered with 401. -/
theorem requireAuth_status {i : TokenIssuer} {b : MemoryBlacklist} {t : CheckTimes}
    {header : String} {reply : Reply} (hr : (requireAuth env i b t header).2 = .error reply) :
    reply.status = 401 := by
  rcases requireAuth_cases env i b t header with ⟨reply', heq, hstatus⟩ | ⟨u, jti, hreaches⟩
  · rw [heq] at hr
    cases hr
    exact hstatus
  · rw [hreaches.requireAuth_eq] at hr
    dsimp only at hr
    split at hr <;> cases hr
    rfl

theorem logoutRoute_cases (b : MemoryBlacklist) (t : CheckTimes) (now : Time)
    (method header : String) :
    ((logoutRoute env h b t now method header).1 = (requireAuth env h.issuer b t header).1 ∧
      (logoutRoute env h b t now method header).2.status ≠ 204) ∨
    ∃ token c jti exp, bearer header = some token ∧
      h.issuer.rawClaims env.jwt now token = .ok (c, jti) ∧ c.exp = some exp ∧
      logoutRoute env h b t now method header =
        ((requireAuth env h.issuer b t header).1.revoke jti (Time.ofUnix exp), .noContent) := by
  unfold logoutRoute
  split
  · rename_i b' reply hauth
    refine .inl ⟨by rw [hauth], ?_⟩
    rw [requireAuth_status (by rw [hauth])]
    decide
  · rename_i b' u hauth
    rw [hauth]
    split
    · exact .inl ⟨rfl, by simp [Reply.unauthorized]⟩
    · rename_i token hbearer
      rcases logout_cases b' now method token with hrej | ⟨c, jti, exp, hraw, hexp, hout⟩
      · exact .inl hrej
      · exact .inr ⟨token, c, jti, exp, hbearer, hraw, hexp, hout⟩

theorem body_of_refreshInput {r : Request String} {raw : String}
    (hinput : AuthHandler.refreshInput env r = .ok raw) : r.body = .ok raw := by
  unfold AuthHandler.refreshInput at hinput
  split at hinput
  · cases hinput
  · rename_i token hdecode
    split at hinput <;> cases hinput
    exact decodeRequest_ok hdecode

/-- `Refresh` leaves the blacklist, asks it, or asks it and revokes the token;
and it issues tokens in the last case only. -/
theorem refresh_cases (store : MemoryUserStore) (b : MemoryBlacklist) (t : CheckTimes)
    (st : Stamps) (now : Time) (r : Request String) :
    ((h.refresh env store b t st now r).1 = b ∧ (h.refresh env store b t st now r).2.1 = []) ∨
    ∃ raw c jti, r.body = .ok raw ∧
      h.refreshIssuer.rawClaims env.jwt t.rawClaims raw = .ok (c, jti) ∧
      (((h.refresh env store b t st now r).1 = (b.isRevoked t.isRevoked jti).1 ∧
          (h.refresh env store b t st now r).2.1 = []) ∨
        ((h.refresh env store b t st now r).1 =
            (b.isRevoked t.isRevoked jti).1.revoke jti (Time.ofUnix (c.exp.getD 0)) ∧
          ∃ u, (h.refresh env store b t st now r).2.1 = (h.issueTokens env st u).1)) := by
  unfold AuthHandler.refresh AuthHandler.refreshWith
  split
  · exact .inl ⟨rfl, rfl⟩
  · rename_i raw hinput
    split
    · exact .inl ⟨rfl, rfl⟩
    · rename_i claims hparse
      split
      · exact .inl ⟨rfl, rfl⟩
      · rename_i jti exp hid
        obtain ⟨c, hraw, hexp⟩ : ∃ c,
            h.refreshIssuer.rawClaims env.jwt t.rawClaims raw = .ok (c, jti) ∧
              exp = Time.ofUnix (c.exp.getD 0) := by
          unfold AuthHandler.refreshIdentify at hid
          split at hid
          · cases hid
          · rename_i c jti' hraw
            cases hid
            exact ⟨c, hraw, rfl⟩
        refine .inr ⟨raw, c, jti, body_of_refreshInput hinput, hraw, ?_⟩
        split
        · rename_i b' hb
          exact .inl ⟨by rw [hb], rfl⟩
        · rename_i b' hb
          refine .inr ⟨?_, claims.subject, ?_⟩
          · rw [hb, hexp]
            dsimp only
            split <;> rfl
          · dsimp only
            split <;> simp_all

section Step

variable {s : Session}

theorem moves_register (hjwt : env.jwt.Correct) (hw : Wired h) {st : Stamps} {now : Time}
    (hclock : s.clock ≤ now) (hfresh : s.Fresh st) (r : Request CreateUserRequest) :
    Moves env h s { s with
      clock := now
      store := (h.register env s.store st now r).1
      issued := s.issued ++ (h.register env s.store st now r).2.1 } := by
  refine .trans (.tail (.single (.tick hclock)) (.store (h.register env s.store st now r).1)) ?_
  refine moves_of_issued hjwt hw ?_ (register_issued s.store st now r)
  exact hfresh

theorem moves_login (hjwt : env.jwt.Correct) (hw : Wired h) {st : Stamps} {now : Time}
    (hclock : s.clock ≤ now) (hfresh : s.Fresh st) (r : Request AuthHandler.LoginRequest) :
    Moves env h s { s with
      clock := now
      issued := s.issued ++ (h.login env s.store st now r).1 } := by
  refine .head (.tick hclock) ?_
  refine moves_of_issued hjwt hw ?_ (login_issued s.store st now r)
  exact hfresh

theorem moves_refresh (hjwt : env.jwt.Correct) (hw : Wired h) (hs : s.Consistent env h)
    {t : CheckTimes} {st : Stamps} {now : Time} {r : Request String}
    (hclock : s.clock ≤ t.isRevoked) (hlater : t.isRevoked ≤ now) (hfresh : s.Fresh st)
    (hforge : ∀ raw, r.body = .ok raw → s.Unforged env h raw) :
    Moves env h s { s with
      clock := now
      blacklist := (h.refresh env s.store s.blacklist t st now r).1
      issued := s.issued ++ (h.refresh env s.store s.blacklist t st now r).2.1 } := by
  rcases refresh_cases s.store s.blacklist t st now r with
    ⟨hb, hissued⟩ | ⟨raw, c, jti, hbody, hraw, ⟨hb, hissued⟩ | ⟨hb, hissued⟩⟩
  · rw [hb, hissued, List.append_nil]
    exact .single (.tick (Int.le_trans hclock hlater))
  · rw [hb, hissued, List.append_nil]
    exact .tail (.single (.ask jti hclock)) (.tick hlater)
  · obtain ⟨x, hx, _, hkind, hc, hjti, _⟩ :=
      hs.issued_of_rawClaims hw.secret (hforge raw hbody) hraw
    subst hc hjti
    rw [hb]
    let asked : Session := { s with
      clock := t.isRevoked, blacklist := (s.blacklist.isRevoked t.isRevoked x.jti).1 }
    have hask : Move env h s asked := .ask x.jti hclock
    have hrotate : Move env h asked _ := .rotate hx (hkind.trans hw.refresh)
    refine .trans (.tail (.tail (.single hask) hrotate) (.tick hlater)) ?_
    refine moves_of_issued hjwt hw ?_ (.inr hissued)
    exact hfresh

/-- `RequireAuth`, and then the token is logged out or nothing more happens. -/
theorem moves_logout (hw : Wired h) (hs : s.Consistent env h) {t : CheckTimes} {now : Time}
    {method header : String} (hclock : s.clock ≤ t.isRevoked) (hlater : t.isRevoked ≤ now)
    (hforge : ∀ raw ∈ bearer header, s.Unforged env h raw) :
    Moves env h s { s with
      clock := now
      blacklist := (logoutRoute env h s.blacklist t now method header).1
      loggedOut :=
        if (logoutRoute env h s.blacklist t now method header).2.status = 204 then
          s.loggedOut ++ (bearer header).toList
        else s.loggedOut } := by
  have hauth : Moves env h s { s with
      clock := t.isRevoked, blacklist := (requireAuth env h.issuer s.blacklist t header).1 } :=
    moves_requireAuth hclock h.issuer header
  rcases logoutRoute_cases s.blacklist t now method header with
    ⟨hb, hstatus⟩ | ⟨token, c, jti, exp, hbearer, hraw, hexp, hout⟩
  · rw [hb, if_neg hstatus]
    exact .tail hauth (.tick hlater)
  · obtain ⟨x, hx, hxraw, hkind, hc, hjti, _⟩ :=
      hs.issued_of_rawClaims rfl (hforge token hbearer) hraw
    have hexpires : x.expiresAt = Time.ofUnix exp := by
      simp [IssuedToken.expiresAt, hc, hexp]
    have h204 : Reply.noContent.status = 204 := rfl
    simp only [hout, h204, ↓reduceIte, hbearer, ← hjti, ← hexpires]
    exact .tail (.tail hauth (.tick hlater)) (.logOut hx (hkind.trans hw.access) hxraw)

/-- **A request is a sequence of moves.** -/
theorem moves_of_step (hjwt : env.jwt.Correct) (hw : Wired h) (hs : s.Consistent env h)
    {a : SessionAct} {s' : Session} (ha : s.Sane env h a) (hstep : s.step env h a = some s') :
    Moves env h s s' := by
  have hclock := ha.clock
  cases a with
  | register st now r =>
    cases hstep
    exact moves_register hjwt hw (by simp_all [SessionAct.times]) (ha.fresh st rfl) r
  | login st now r =>
    cases hstep
    exact moves_login hjwt hw (by simp_all [SessionAct.times]) (ha.fresh st rfl) r
  | refresh t st now r =>
    cases hstep
    refine moves_refresh hjwt hw hs ?_ ?_ (ha.fresh st rfl) (fun raw hbody => ?_)
    · simp_all [SessionAct.times]
    · simp_all [SessionAct.times]
    · exact ha.unforged raw (by simp [SessionAct.presented, hbody, Except.toOption])
  | logout t now method header =>
    cases hstep
    exact moves_logout hw hs (by simp_all [SessionAct.times]) (by simp_all [SessionAct.times])
      ha.unforged
  | behindAuth t header =>
    cases hstep
    exact moves_requireAuth (by simp_all [SessionAct.times]) h.issuer header

theorem consistent_of_run (hjwt : env.jwt.Correct) (hw : Wired h) {store : MemoryUserStore}
    {clock : Time} {as : List SessionAct} (hrun : run (step env h) (init store clock) as = some s)
    (hsane : Along (step env h) (Sane env h) (init store clock) as) : s.Consistent env h :=
  hsane.invariant (fun _ _ _ hs ha hstep => hs.moves (moves_of_step hjwt hw hs ha hstep))
    (.init store clock) hrun

end Step

/-! ## Who is let through -/

theorem splitN2_bearer (raw : String) : Strings.splitN2 ("Bearer " ++ raw) = ["Bearer", raw] := by
  have hword : "Bearer " = "Bearer" ++ " " := by decide
  rw [hword]
  exact Strings.splitN2_append (by simp)

theorem bearer_bearer (raw : String) :
    bearer ("Bearer " ++ raw) = some (Strings.trimSpace raw) := by
  simp only [bearer, splitN2_bearer]

theorem bearerToken_bearer_iff {raw token : String} :
    bearerToken ("Bearer " ++ raw) = .ok token ↔
      Strings.trimSpace raw ≠ "" ∧ token = Strings.trimSpace raw := by
  have hne : "Bearer " ++ raw ≠ "" := by
    intro h
    have := congrArg String.toList h
    simp at this
  have hfold : Strings.equalFold "Bearer" "Bearer" = true := by decide
  simp only [bearerToken, hne, splitN2_bearer, hfold, not_true_eq_false, false_or, ↓reduceIte]
  by_cases htrim : Strings.trimSpace raw = ""
  · simp [htrim]
  · simp [htrim, eq_comm]

/-- **Who is let through.** After any requests, in any order, on a clock that
does not go backwards, a request with header `Bearer raw` gets past
`RequireAuth` with subject `u` if and only if `raw`, without the blanks around
it, is a text of a token that the access issuer has issued for `u`, its `exp`
is after the clock reading of `RawClaims`, and no logout with it has been
completed, unless its `exp` is before the clock reading of `IsRevoked`. -/
theorem reaches_iff (hjwt : env.jwt.Correct) (hw : Wired h) {store : MemoryUserStore}
    {clock : Time} {as : List SessionAct} {s : Session}
    (hrun : run (step env h) (init store clock) as = some s)
    (hsane : Along (step env h) (Sane env h) (init store clock) as) {raw : String} {t : CheckTimes}
    (hnow : s.Sane env h (.behindAuth t ("Bearer " ++ raw))) (u : Int64) :
    (requireAuth env h.issuer s.blacklist t ("Bearer " ++ raw)).2 = .ok u ↔
      Strings.trimSpace raw ≠ "" ∧
      ∃ x ∈ s.issued, x.IsText env h (Strings.trimSpace raw) ∧ x.kind = .access ∧ x.subject = u ∧
        t.rawClaims < x.expiresAt ∧ (¬ s.LoggedOut env h x ∨ x.expiresAt < t.isRevoked) := by
  have hs : s.Consistent env h := consistent_of_run hjwt hw hrun hsane
  have hforge := hnow.unforged _ (bearer_bearer raw)
  have htimes := hnow.clock
  simp only [SessionAct.times, List.pairwise_cons, List.mem_cons, List.not_mem_nil, or_false,
    forall_eq_or_imp, forall_eq] at htimes
  obtain ⟨⟨_, _, hclock⟩, ⟨hparse, _⟩, _⟩ := htimes
  rw [requireAuth_eq_ok_iff]
  constructor
  · rintro ⟨jti, ⟨token, claims, c, htoken, hp, hr, rfl⟩, hrevoked⟩
    obtain ⟨hne, rfl⟩ := bearerToken_bearer_iff.mp htoken
    obtain ⟨x, hx, hraw, hkind, _, rfl, hexp⟩ := hs.issued_of_rawClaims rfl hforge hr
    obtain ⟨_, _, rfl⟩ := ((hs.signed x hx).parse_iff rfl hraw).mp hp
    refine ⟨hne, x, hx, hraw, hkind.trans hw.access, rfl, hexp, ?_⟩
    -- a logged-out token that is not reported has been forgotten, or is now
    by_cases hout : s.LoggedOut env h x
    · right
      rcases hs.kept x hx hout with he | hlt
      · exact (MemoryBlacklist.isRevoked_eq_false_iff (hs.signed x hx).jti_ne).mp hrevoked _ he
      · exact Int.lt_of_lt_of_le hlt hclock
    · exact .inl hout
  · rintro ⟨hne, x, hx, hraw, hkind, rfl, hexp, hout⟩
    have hsigned := hs.signed x hx
    refine ⟨x.jti, ⟨_, _, x.claims, bearerToken_bearer_iff.mpr ⟨hne, rfl⟩,
      (hsigned.parse_iff rfl hraw).mpr
        ⟨Int.lt_of_le_of_lt hparse hexp, hkind.trans hw.access.symm, rfl⟩,
      (hsigned.rawClaims_iff rfl hraw).mpr ⟨hexp, hkind.trans hw.access.symm, rfl, rfl⟩, rfl⟩, ?_⟩
    rw [MemoryBlacklist.isRevoked_eq_false_iff hsigned.jti_ne]
    intro exp he
    obtain ⟨rfl, hin⟩ := hs.revoked x hx hkind exp he
    exact hout.resolve_left (fun hnot => hnot hin)

/-- A library that accepts no text but the tokens that were signed. -/
def Exact (env : Env) (h : AuthHandler) (s : Session) : Prop :=
  ∀ x ∈ s.issued, ∀ raw, x.IsText env h raw → raw = x.raw

theorem Consistent.isText_iff {s : Session} (hs : s.Consistent env h) (hexact : s.Exact env h)
    {x : IssuedToken} (hx : x ∈ s.issued) {raw : String} : x.IsText env h raw ↔ x.raw = raw := by
  constructor
  · exact fun htext => (hexact x hx raw htext).symm
  · rintro rfl
    exact (hs.signed x hx).verify

theorem Consistent.loggedOut_iff {s : Session} (hs : s.Consistent env h) (hexact : s.Exact env h)
    {x : IssuedToken} (hx : x ∈ s.issued) : s.LoggedOut env h x ↔ x.raw ∈ s.loggedOut := by
  simp [LoggedOut, hs.isText_iff hexact hx]

/-- **The session gate.** Let the library accept exactly the tokens that were
signed, and let `raw` have no blanks around it. After any requests, in any
order, on a clock that does not go backwards: that a request with header
`Bearer raw` gets past `RequireAuth` with subject `u` if and only if `raw` was
issued by the access issuer for `u`, has not expired and has not been logged
out, is true exactly if `raw` is not a token that was logged out and expires
between the clock readings of `RawClaims` and of `IsRevoked`. -/
theorem session_gate_iff (hjwt : env.jwt.Correct) (hw : Wired h) {store : MemoryUserStore}
    {clock : Time} {as : List SessionAct} {s : Session}
    (hrun : run (step env h) (init store clock) as = some s)
    (hsane : Along (step env h) (Sane env h) (init store clock) as) (hexact : s.Exact env h)
    {raw : String} {t : CheckTimes} (hnow : s.Sane env h (.behindAuth t ("Bearer " ++ raw)))
    (htrim : Strings.trimSpace raw = raw) :
    (∀ u, (requireAuth env h.issuer s.blacklist t ("Bearer " ++ raw)).2 = .ok u ↔
      ∃ x ∈ s.issued, x.raw = raw ∧ x.kind = .access ∧ x.subject = u ∧
        t.rawClaims < x.expiresAt ∧ raw ∉ s.loggedOut) ↔
    ∀ x ∈ s.issued, x.raw = raw → x.kind = .access → raw ∈ s.loggedOut →
      ¬ (t.rawClaims < x.expiresAt ∧ x.expiresAt < t.isRevoked) := by
  have hs : s.Consistent env h := consistent_of_run hjwt hw hrun hsane
  have hreach : ∀ u, (requireAuth env h.issuer s.blacklist t ("Bearer " ++ raw)).2 = .ok u ↔
      ∃ x ∈ s.issued, x.raw = raw ∧ x.kind = .access ∧ x.subject = u ∧
        t.rawClaims < x.expiresAt ∧ (raw ∉ s.loggedOut ∨ x.expiresAt < t.isRevoked) := by
    intro u
    rw [reaches_iff hjwt hw hrun hsane hnow, htrim]
    constructor
    · rintro ⟨-, x, hx, htext, hkind, hu, hexp, hout⟩
      rw [hs.loggedOut_iff hexact hx] at hout
      obtain rfl := (hs.isText_iff hexact hx).mp htext
      exact ⟨x, hx, rfl, hkind, hu, hexp, hout⟩
    · rintro ⟨x, hx, rfl, hkind, hu, hexp, hout⟩
      rw [← hs.loggedOut_iff hexact hx] at hout
      exact ⟨(hs.signed x hx).raw_ne, x, hx, (hs.signed x hx).verify, hkind, hu, hexp, hout⟩
  simp only [hreach]
  constructor
  · rintro hgate x hx rfl hkind hout ⟨hexp, hlate⟩
    obtain ⟨_, _, _, _, _, _, hin⟩ :=
      (hgate x.subject).mp ⟨x, hx, rfl, hkind, rfl, hexp, .inr hlate⟩
    exact hin hout
  · intro hwindow u
    constructor
    · rintro ⟨x, hx, rfl, hkind, hu, hexp, hout⟩
      refine ⟨x, hx, rfl, hkind, hu, hexp, fun hin => ?_⟩
      exact hwindow x hx rfl hkind hin ⟨hexp, hout.resolve_left (fun hnot => hnot hin)⟩
    · rintro ⟨x, hx, hraw, hkind, hu, hexp, hout⟩
      exact ⟨x, hx, hraw, hkind, hu, hexp, .inl hout⟩

/-! A user who registers, logs in and logs out of the first of the two
sessions, all in the first second. -/

section OneUser

def oneUserTokens : List (MapClaims × String) := Sample.tokens 0 "1" ++ Sample.tokens 0 "2"

def oneUserEnv : Env := Sample.env oneUserTokens

def registration : SessionAct :=
  .register (Sample.stamps 0 "1") 0
    ⟨"POST", "application/json", .ok ⟨"Ada", "ada@example.com", "correct horse"⟩⟩

def secondLogin : SessionAct :=
  .login (Sample.stamps 0 "2") 0
    ⟨"POST", "application/json", .ok ⟨"ada@example.com", "correct horse"⟩⟩

def firstLogout : SessionAct := .logout ⟨0, 0, 0⟩ 0 "POST" "Bearer access-1"

theorem oneUserEnv_correct : oneUserEnv.jwt.Correct :=
  JwtLib.correct_ofTable (by decide +kernel) (by decide +kernel)

theorem sample_wired : Wired Sample.handler := ⟨rfl, rfl, rfl⟩

theorem oneUserEnv_exact {s : Session} (hs : ∀ x ∈ s.issued, (x.claims, x.raw) ∈ oneUserTokens) :
    s.Exact oneUserEnv Sample.handler := by
  have hclaims : (oneUserTokens.map Prod.fst).Nodup := by decide +kernel
  intro x hx raw htext
  exact congrArg Prod.snd
    (List.inj_on_of_nodup_map hclaims (JwtLib.mem_of_verify_ofTable htext) (hs x hx) rfl)

/-- After the logout the second session reaches the handlers and the first
does not. -/
theorem first_logged_out_second_reaches :
    let as := [registration, secondLogin, firstLogout]
    ∃ s, run (step oneUserEnv Sample.handler) (init newMemoryUserStore 0) as = some s ∧
      (requireAuth oneUserEnv Sample.handler.issuer s.blacklist ⟨0, 0, 0⟩
        ("Bearer " ++ "access-2")).2 = .ok 1 ∧
      ∀ u, (requireAuth oneUserEnv Sample.handler.issuer s.blacklist ⟨0, 0, 0⟩
        ("Bearer " ++ "access-1")).2 ≠ .ok u := by
  intro as
  have hends : ∃ s, run (step oneUserEnv Sample.handler) (init newMemoryUserStore 0) as = some s ∧
      s.Sane oneUserEnv Sample.handler (.behindAuth ⟨0, 0, 0⟩ ("Bearer " ++ "access-2")) ∧
      s.Sane oneUserEnv Sample.handler (.behindAuth ⟨0, 0, 0⟩ ("Bearer " ++ "access-1")) ∧
      (∀ x ∈ s.issued, (x.claims, x.raw) ∈ oneUserTokens) ∧
      (∃ x ∈ s.issued, x.raw = "access-2" ∧ x.kind = .access ∧ x.subject = 1 ∧
        0 < x.expiresAt ∧ "access-2" ∉ s.loggedOut) ∧
      (∀ x ∈ s.issued, ¬ x.expiresAt < 0) ∧ "access-1" ∈ s.loggedOut :=
    exists_run_of_any (by decide +kernel)
  obtain ⟨s, hrun, hnow₂, hnow₁, htable, hsecond, hlate, hfirst⟩ := hends
  have hsane : Along (step oneUserEnv Sample.handler) (Sane oneUserEnv Sample.handler)
      (init newMemoryUserStore 0) as := by decide +kernel
  have hexact := oneUserEnv_exact htable
  refine ⟨s, hrun, ?_, fun u hu => ?_⟩
  · exact ((session_gate_iff oneUserEnv_correct sample_wired hrun hsane hexact hnow₂
      (by decide)).mpr (fun x hx _ _ _ hwindow => hlate x hx hwindow.2) 1).mpr hsecond
  · obtain ⟨x, _, _, _, _, _, hout⟩ := ((session_gate_iff oneUserEnv_correct sample_wired hrun hsane
      hexact hnow₁ (by decide)).mpr (fun x hx _ _ _ hwindow => hlate x hx hwindow.2) u).mp hu
    exact hout hfirst

/-- Blanks around a token do not matter, so a text that was never issued
reaches the handlers. And a token that was logged out reaches them again if it
expires between the clock readings of `RawClaims` and of `IsRevoked`. -/
theorem unissued_and_logged_out_reach :
    (∃ s, run (step oneUserEnv Sample.handler) (init newMemoryUserStore 0) [registration] = some s ∧
      (∀ x ∈ s.issued, x.raw ≠ " access-1") ∧
      (requireAuth oneUserEnv Sample.handler.issuer s.blacklist ⟨0, 0, 0⟩
        ("Bearer " ++ " access-1")).2 = .ok 1) ∧
    ∃ s, run (step oneUserEnv Sample.handler) (init newMemoryUserStore 0)
        [registration, firstLogout] = some s ∧
      "access-1" ∈ s.loggedOut ∧
      (requireAuth oneUserEnv Sample.handler.issuer s.blacklist
        ⟨900 * Time.second - 2, 900 * Time.second - 1, 900 * Time.second + 1⟩
        ("Bearer " ++ "access-1")).2 = .ok 1 :=
  ⟨exists_run_of_any (by decide +kernel), exists_run_of_any (by decide +kernel)⟩

end OneUser

end Session

end GoRestApi.Server
