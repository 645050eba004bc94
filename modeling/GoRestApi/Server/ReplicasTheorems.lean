/-
GoRestApi.Server.ReplicasTheorems — a token that was revoked on one replica is
turned away by all of them, and the blacklist holds nothing else.

`logged_out_stays_out` is for every interleaving of any number of requests on
replicas with different clocks: once Redis has carried out the `SET` of a
logout or a refresh, a request with the same token that asks later gets past
the blacklist only if its `EXISTS` fails, or if the token has run out on the
clock of a replica that revoked it. The clock of Redis itself does not matter,
but for its milliseconds: a time to live and the clock of a replica may be cut
at different places, so the key can be gone a moment early. With clocks that
agree to full milliseconds, it cannot.

`blacklist_keys_accounted` is the other direction: a key is there only for a
token that somebody presented to be revoked, and not for long after the token
has run out.

Both follow from one invariant (`Kept`), which ties the keys in Redis to the
history of revocations. A second `SET` for a token overwrites the first, so
the key of a token is the one of some revocation of it, not of each.
-/
import GoRestApi.Server.Replicas

namespace GoRestApi.Server

open Go Auth Handler RedisServer Lts

/-! ## Tokens -/

/-- The token that the request presents has these claims. -/
def Presents (env : Env) (h : AuthHandler) (a : ReplicaCall) (c : MapClaims) : Prop :=
  ∃ raw, a.call.token env = .ok raw ∧ env.jwt.verify h.issuer.secret raw = some c

/-- `Revoke` is called with the ID and the expiry of the token that the
request presents. -/
def Names (env : Env) (h : AuthHandler) (a : ReplicaCall) (jti : String) (exp : Time) : Prop :=
  ∃ c, Presents env h a c ∧ jti = c.jti.getD "" ∧ exp = Time.ofUnix (c.exp.getD 0)

/-- Tokens with one ID are one token. -/
def DistinctIDs {ι : Type} (env : Env) (h : AuthHandler) (req : ι → ReplicaCall) : Prop :=
  ∀ i j c c', Presents env h (req i) c → Presents env h (req j) c' →
    c.jti.getD "" = c'.jti.getD "" → c = c'

section Tokens

variable {env : Env} {h : AuthHandler} {a : ReplicaCall} {c c' : MapClaims} {jti : String}

theorem Presents.unique (hc : Presents env h a c) {b : ReplicaCall} (hc' : Presents env h b c')
    (hsame : b.call.token env = a.call.token env) : c = c' := by
  obtain ⟨raw, htoken, hverify⟩ := hc
  obtain ⟨raw', htoken', hverify'⟩ := hc'
  rw [hsame, htoken] at htoken'
  cases htoken'
  rw [hverify] at hverify'
  exact Option.some.inj hverify'

theorem Call.issuer_secret (hsecret : h.refreshIssuer.secret = h.issuer.secret) (call : Call) :
    (call.issuer h).secret = h.issuer.secret := by
  cases call with
  | behindAuth header => rfl
  | logout method header => rfl
  | refresh r => exact hsecret

theorem presents_of_rawClaims (hsecret : h.refreshIssuer.secret = h.issuer.secret) {now : Time}
    (hraw : a.call.rawClaims env h now = .ok (c, jti)) :
    Presents env h a c ∧ jti = c.jti.getD "" := by
  unfold Call.rawClaims at hraw
  split at hraw
  · cases hraw
  · rename_i token htoken
    split at hraw
    · cases hraw
    · rename_i identified hidentified
      cases hraw
      obtain ⟨hverify, _, _, hjti⟩ := TokenIssuer.rawClaims_eq_ok_iff.mp hidentified
      rw [Call.issuer_secret hsecret] at hverify
      exact ⟨⟨token, htoken, hverify⟩, hjti.symm⟩

/-- The handlers revoke the token that was presented. -/
theorem names_of_revoked {now exp : Time} {jti' : String} (hc : Presents env h a c)
    (hjti : jti = c.jti.getD "")
    (hrevoked : a.call.revoked env h now c jti = some (.ok (jti', exp))) :
    Names env h a jti' exp := by
  unfold Call.revoked at hrevoked
  split at hrevoked
  · cases hrevoked
  · rename_i method header hcall
    obtain ⟨raw, htoken, hverify⟩ := hc
    have hbearer : bearer header = some raw := by
      rw [hcall] at htoken
      exact bearer_of_bearerToken htoken
    rw [hbearer] at hrevoked
    simp only [AuthHandler.logoutClaims, Option.some.injEq] at hrevoked
    split at hrevoked
    · cases hrevoked
    · split at hrevoked
      · cases hrevoked
      · rename_i c₁ jti₁ hraw
        obtain ⟨hverify₁, _, _, hjti₁⟩ := TokenIssuer.rawClaims_eq_ok_iff.mp hraw
        rw [hverify] at hverify₁
        cases hverify₁
        split at hrevoked
        · cases hrevoked
        · rename_i e hexp
          cases hrevoked
          exact ⟨c, ⟨raw, htoken, hverify⟩, hjti₁.symm, by rw [hexp]; rfl⟩
  · cases hrevoked
    exact ⟨c, hc, hjti, rfl⟩

end Tokens

namespace Replicas

variable {ι : Type} [DecidableEq ι] {env : Env} {h : AuthHandler} {req : ι → ReplicaCall}
  {s s' : Replicas ι} {a : ReplicasAct ι}

/-! ## Steps -/

/-- What a step does. -/
inductive Steps (env : Env) (h : AuthHandler) (req : ι → ReplicaCall) (s : Replicas ι) :
    ReplicasAct ι → Replicas ι → Prop
  | wait {now : Time} (hle : s.now ≤ now) : Steps env h req s (.wait now) { s with now := now }
  | reclaim (name : String) :
      Steps env h req s (.reclaim name) { s with redis := s.redis.reclaim s.now name }
  | answered (a : ReplicasAct ι) (i : ι) (reply : Reply) :
      Steps env h req s a (s.setPc i (.answered reply))
  | parsed (i : ι) (claims : Claims) : Steps env h req s (.parse i) (s.setPc i (.parsed claims))
  | identified {i : ι} {claims : Claims} {c : MapClaims} {jti : String}
      (hraw : (req i).call.rawClaims env h (s.clock req i) = .ok (c, jti)) :
      Steps env h req s (.rawClaims i) (s.setPc i (.identified claims c jti))
  | unrevoked {i : ι} {e : CommandEnd} {claims : Claims} {c : MapClaims} {jti : String}
      (hpc : s.pc i = .identified claims c jti)
      (hanswer : RedisBlacklist.isRevoked s.redis s.now jti e = false) :
      Steps env h req s (.isRevoked i e) (s.setPc i (.unrevoked claims c jti))
  | revoking {i : ι} {claims : Claims} {c : MapClaims} {jti jti' : String} {exp : Time}
      (hpc : s.pc i = .unrevoked claims c jti)
      (hrevoked : (req i).call.revoked env h (s.clock req i) c jti = some (.ok (jti', exp))) :
      Steps env h req s (.handle i) (s.setPc i (.revoking claims jti' exp))
  | setting {i : ι} {claims : Claims} {jti : String} {exp : Time} {ttl : Duration}
      (hpc : s.pc i = .revoking claims jti exp)
      (hleft : RedisBlacklist.timeLeft jti exp (s.clock req i) = some ttl) :
      Steps env h req s (.timeLeft i) (s.setPc i (.setting claims jti exp ttl s.now))
  | revoked {a : ReplicasAct ι} {i : ι} {claims : Claims} (hpc : (s.pc i).Passed) :
      Steps env h req s a (s.setPc i (.revoked claims))
  | set {i : ι} {e : CommandEnd} {claims : Claims} {jti : String} {exp readAt : Time}
      {ttl : Duration} (hpc : s.pc i = .setting claims jti exp ttl readAt) :
      Steps env h req s (.set i e) { s.setPc i (.revoked claims) with
        redis := s.redis.set s.now (RedisBlacklist.keyFor jti) "1" (ttlMillis ttl)
        revocations := s.revocations ++ [⟨i, jti, exp, ttl, readAt, s.now⟩] }

theorem steps_of_step (hstep : s.step env h req a = some s') : Steps env h req s a s' := by
  cases a with
  | wait now =>
    simp only [step] at hstep
    split at hstep
    · cases hstep
      exact .wait ‹_›
    · cases hstep
  | reclaim name =>
    cases hstep
    exact .reclaim name
  | parse i =>
    simp only [step] at hstep
    split at hstep
    · split at hstep
      · cases hstep
        exact .answered _ i _
      · cases hstep
        exact .parsed i _
    · cases hstep
  | rawClaims i =>
    simp only [step] at hstep
    split at hstep
    · split at hstep
      · cases hstep
        exact .answered _ i _
      · cases hstep
        exact .identified ‹_›
    · cases hstep
  | isRevoked i e =>
    simp only [step] at hstep
    split at hstep
    · rename_i hpc
      split at hstep
      · cases hstep
        exact .answered _ i _
      · rename_i hanswer
        cases hstep
        exact .unrevoked hpc (Bool.eq_false_iff.mpr hanswer)
    · cases hstep
  | handle i =>
    simp only [step] at hstep
    split at hstep
    · rename_i hpc
      split at hstep
      · cases hstep
      · cases hstep
        exact .answered _ i _
      · cases hstep
        exact .revoking hpc ‹_›
    · cases hstep
  | timeLeft i =>
    simp only [step] at hstep
    split at hstep
    · rename_i hpc
      split at hstep
      · cases hstep
        exact .revoked (by rw [hpc]; trivial)
      · cases hstep
        exact .setting hpc ‹_›
    · cases hstep
  | set i e =>
    simp only [step] at hstep
    split at hstep
    · rename_i hpc
      cases hstep
      cases e with
      | refused => exact .revoked (by rw [hpc]; trivial)
      | answered => exact .set hpc
      | lost => exact .set hpc
    · cases hstep

/-- Time goes on, and what Redis has carried out stays so. -/
theorem mono_of_step (hstep : s.step env h req a = some s') :
    s.now ≤ s'.now ∧ ∀ r ∈ s.revocations, r ∈ s'.revocations := by
  cases steps_of_step hstep with
  | wait hle => exact ⟨hle, fun r hr => hr⟩
  | set hpc => exact ⟨Int.le_refl _, fun r hr => List.mem_append_left _ hr⟩
  | _ => exact ⟨Int.le_refl _, fun r hr => hr⟩

theorem mono_of_run {as : List (ReplicasAct ι)} (hrun : run (step env h req) s as = some s') :
    s.now ≤ s'.now ∧ ∀ r ∈ s.revocations, r ∈ s'.revocations := by
  refine run_invariant (I := fun t => s.now ≤ t.now ∧ ∀ r ∈ s.revocations, r ∈ t.revocations) ?_
    ⟨Int.le_refl _, fun r hr => hr⟩ hrun
  intro t b t' ⟨hle, hsub⟩ hstep
  obtain ⟨hle', hsub'⟩ := mono_of_step hstep
  exact ⟨Int.le_trans hle hle', fun r hr => hsub' r (hsub r hr)⟩

/-- The only way past the blacklist is to ask. -/
theorem passed_of_step (hstep : s.step env h req a = some s') {i : ι} (hs : ¬ (s.pc i).Passed)
    (hs' : (s'.pc i).Passed) :
    ∃ e claims c jti, a = .isRevoked i e ∧ s.pc i = .identified claims c jti ∧
      RedisBlacklist.isRevoked s.redis s.now jti e = false := by
  have hmoved {j : ι} {p : CallPc} (hpassed : (Function.update s.pc j p i).Passed)
      (hp : p.Passed → (s.pc j).Passed) : False := by
    rcases moved_cases (f := s.pc) (i := j) (p := p) rfl i with ⟨rfl, heq⟩ | ⟨_, heq⟩
    · rw [heq] at hpassed
      exact hs (hp hpassed)
    · rw [heq] at hpassed
      exact hs hpassed
  cases steps_of_step hstep with
  | wait hle => exact absurd hs' hs
  | reclaim name => exact absurd hs' hs
  | answered _ j reply => exact (hmoved hs' False.elim).elim
  | parsed j claims => exact (hmoved hs' False.elim).elim
  | identified hraw => exact (hmoved hs' False.elim).elim
  | @unrevoked j e claims c jti hpc hanswer =>
    rcases moved_cases (f := s.pc) (i := j) (p := .unrevoked claims c jti) rfl i with
      ⟨rfl, _⟩ | ⟨_, heq⟩
    · exact ⟨e, claims, c, jti, rfl, hpc, hanswer⟩
    · exact absurd (show (s.pc i).Passed from heq ▸ hs') hs
  | revoking hpc hrevoked => exact (hmoved hs' fun _ => by rw [hpc]; trivial).elim
  | setting hpc hleft => exact (hmoved hs' fun _ => by rw [hpc]; trivial).elim
  | revoked hpc => exact (hmoved hs' fun _ => hpc).elim
  | set hpc => exact (hmoved hs' fun _ => by rw [hpc]; trivial).elim

/-! ## The invariant -/

/-- The last millisecond of the key that the `SET` has written. -/
def lastMilli (r : Revocation ι) : Int := mstime r.setAt + ttlMillis r.ttl

/-- The TTL is what the token has left when the clock is read for it. -/
structure Timed (a : ReplicaCall) (jti : String) (exp : Time) (ttl : Duration) (readAt : Time) :
    Prop where
  named : jti ≠ ""
  pos : 0 < ttl
  exp_eq : exp = readAt + a.skew + ttl

/-- What is known of a request. -/
def Good (env : Env) (h : AuthHandler) (a : ReplicaCall) (now : Time) : CallPc → Prop
  | .identified _ c jti | .unrevoked _ c jti => Presents env h a c ∧ jti = c.jti.getD ""
  | .revoking _ jti exp => Names env h a jti exp
  | .setting _ jti exp ttl readAt =>
    Names env h a jti exp ∧ Timed a jti exp ttl readAt ∧ readAt ≤ now
  | .start | .parsed _ | .revoked _ | .answered _ => True

/-- What is known of a `SET` that was carried out. -/
structure Done (env : Env) (h : AuthHandler) (req : ι → ReplicaCall) (now : Time)
    (r : Revocation ι) : Prop where
  names : Names env h (req r.request) r.jti r.exp
  timed : Timed (req r.request) r.jti r.exp r.ttl r.readAt
  read_le : r.readAt ≤ r.setAt
  set_le : r.setAt ≤ now

structure Kept (env : Env) (h : AuthHandler) (req : ι → ReplicaCall) (s : Replicas ι) : Prop where
  pcs : ∀ i, Good env h (req i) s.now (s.pc i)
  done : ∀ r ∈ s.revocations, Done env h req s.now r
  /-- every key was written by a revocation -/
  keys : ∀ name k, s.redis.keys name = some k →
    ∃ r ∈ s.revocations, name = RedisBlacklist.keyFor r.jti ∧ k.expireAt = lastMilli r
  /-- a revoked token has the key of one of its revocations, while that lasts -/
  live : ∀ r ∈ s.revocations, ∃ r' ∈ s.revocations, r'.jti = r.jti ∧
    (mstime s.now ≤ lastMilli r' →
      ∃ k, s.redis.keys (RedisBlacklist.keyFor r.jti) = some k ∧ k.expireAt = lastMilli r')

/-- The expiry that a request is about to compute a TTL from. -/
def expiry : CallPc → Option Time
  | .revoking _ _ exp => some exp
  | _ => none

/-- A duration does not overflow where the code computes the time that a token
has left. -/
def InSpan (req : ι → ReplicaCall) (s : Replicas ι) : ReplicasAct ι → Prop
  | .timeLeft i => ∀ exp ∈ expiry (s.pc i), exp ≤ s.now + (req i).skew + 9223372036854775807
  | _ => True

instance (req : ι → ReplicaCall) (s : Replicas ι) : DecidablePred (s.InSpan req)
  | .timeLeft i => inferInstanceAs (Decidable (∀ exp ∈ expiry (s.pc i), _))
  | .wait _ | .reclaim _ | .parse _ | .rawClaims _ | .isRevoked _ _ | .handle _ | .set _ _ =>
    isTrue trivial

theorem Good.mono {b : ReplicaCall} {now now' : Time} (hle : now ≤ now') {p : CallPc}
    (hp : Good env h b now p) : Good env h b now' p := by
  cases p with
  | setting claims jti exp ttl readAt =>
    obtain ⟨hnames, htimed, hread⟩ := hp
    exact ⟨hnames, htimed, Int.le_trans hread hle⟩
  | _ => exact hp

/-- Moving a request to a place it may be at keeps the invariant. -/
theorem Kept.setPc (hs : s.Kept env h req) {i : ι} {p : CallPc}
    (hp : Good env h (req i) s.now p) : (s.setPc i p).Kept env h req := by
  refine ⟨fun j => ?_, hs.done, hs.keys, hs.live⟩
  show Good env h (req j) s.now (Function.update s.pc i p j)
  rcases moved_cases (f := s.pc) (i := i) (p := p) rfl j with ⟨rfl, heq⟩ | ⟨_, heq⟩
  · rw [heq]
    exact hp
  · rw [heq]
    exact hs.pcs j

theorem timed_of_timeLeft {b : ReplicaCall} {jti : String} {exp now : Time} {ttl : Duration}
    (hleft : RedisBlacklist.timeLeft jti exp (now + b.skew) = some ttl)
    (hspan : exp ≤ now + b.skew + 9223372036854775807) : Timed b jti exp ttl now := by
  obtain ⟨hjti, hpos, httl⟩ := RedisBlacklist.timeLeft_eq_some hleft
  refine ⟨hjti, hpos, ?_⟩
  simp only [Time.sub] at httl
  dsimp only [Time, Duration] at *
  omega

omit [DecidableEq ι] in
theorem Kept.wait (hs : s.Kept env h req) {now : Time} (hle : s.now ≤ now) :
    Kept env h req { s with now := now } := by
  refine ⟨fun i => (hs.pcs i).mono hle, fun r hr => ?_, hs.keys, fun r hr => ?_⟩
  · obtain ⟨hnames, htimed, hread, hset⟩ := hs.done r hr
    exact ⟨hnames, htimed, hread, Int.le_trans hset hle⟩
  · obtain ⟨r', hr', hjti, hlive⟩ := hs.live r hr
    refine ⟨r', hr', hjti, fun halive => hlive ?_⟩
    exact Int.le_trans (Int.ediv_le_ediv (by decide) hle) halive

omit [DecidableEq ι] in
theorem Kept.reclaim (hs : s.Kept env h req) (name : String) :
    Kept env h req { s with redis := s.redis.reclaim s.now name } := by
  refine ⟨hs.pcs, hs.done, fun other k hk => ?_, fun r hr => ?_⟩
  · rcases s.redis.keys_reclaim_cases s.now name other with heq | ⟨heq, _⟩
    · exact hs.keys other k (heq.symm.trans hk)
    · cases heq.symm.trans hk
  · obtain ⟨r', hr', hjti, hlive⟩ := hs.live r hr
    refine ⟨r', hr', hjti, fun halive => ?_⟩
    obtain ⟨k, hk, hexpire⟩ := hlive halive
    rcases s.redis.keys_reclaim_cases s.now name (RedisBlacklist.keyFor r.jti) with
      heq | ⟨_, hgone⟩
    · exact ⟨k, heq.trans hk, hexpire⟩
    · -- a key that lasts is not reclaimed
      have hthere : s.redis.lookup s.now (RedisBlacklist.keyFor r.jti) = some k :=
        Keyspace.lookup_eq_some_iff.mpr ⟨hk, hexpire ▸ halive⟩
      cases hgone.symm.trans hthere

/-- A `SET` puts its own key in the place of any earlier one for the token. -/
theorem Kept.set (hs : s.Kept env h req) {i : ι} {claims : Claims} {jti : String}
    {exp readAt : Time} {ttl : Duration} (hpc : s.pc i = .setting claims jti exp ttl readAt) :
    Kept env h req { s.setPc i (.revoked claims) with
      redis := s.redis.set s.now (RedisBlacklist.keyFor jti) "1" (ttlMillis ttl)
      revocations := s.revocations ++ [⟨i, jti, exp, ttl, readAt, s.now⟩] } := by
  have hgood := hs.pcs i
  rw [hpc] at hgood
  obtain ⟨hnames, htimed, hread⟩ := hgood
  refine ⟨(hs.setPc (p := .revoked claims) trivial).pcs, fun r hr => ?_, fun name k hk => ?_,
    fun r hr => ?_⟩
  · rcases List.mem_append.mp hr with hr | hr
    · exact hs.done r hr
    · rw [List.mem_singleton.mp hr]
      exact ⟨hnames, htimed, hread, Int.le_refl _⟩
  · by_cases hname : name = RedisBlacklist.keyFor jti
    · subst hname
      have hk' : (s.redis.set s.now (RedisBlacklist.keyFor jti) "1" (ttlMillis ttl)).keys
        (RedisBlacklist.keyFor jti) = some k := hk
      rw [Keyspace.keys_set_self] at hk'
      cases hk'
      exact ⟨_, List.mem_append_right _ (List.mem_singleton_self _), rfl, rfl⟩
    · have hk' : (s.redis.set s.now (RedisBlacklist.keyFor jti) "1" (ttlMillis ttl)).keys name =
        some k := hk
      rw [Keyspace.keys_set_of_ne hname] at hk'
      obtain ⟨r, hr, hkey, hexpire⟩ := hs.keys name k hk'
      exact ⟨r, List.mem_append_left _ hr, hkey, hexpire⟩
  · by_cases hjti : r.jti = jti
    · refine ⟨_, List.mem_append_right _ (List.mem_singleton_self _), hjti.symm, fun _ => ?_⟩
      dsimp only
      rw [hjti]
      exact ⟨_, Keyspace.keys_set_self _, rfl⟩
    · have hold : r ∈ s.revocations := by
        rcases List.mem_append.mp hr with hr | hr
        · exact hr
        · exact absurd (congrArg Revocation.jti (List.mem_singleton.mp hr)) hjti
      obtain ⟨r', hr', hsame, hlive⟩ := hs.live r hold
      refine ⟨r', List.mem_append_left _ hr', hsame, fun halive => ?_⟩
      have hne : RedisBlacklist.keyFor r.jti ≠ RedisBlacklist.keyFor jti :=
        fun heq => hjti (RedisBlacklist.keyFor_inj.mp heq)
      dsimp only
      rw [Keyspace.keys_set_of_ne hne]
      exact hlive halive

theorem Kept.step (hsecret : h.refreshIssuer.secret = h.issuer.secret) (hs : s.Kept env h req)
    (hspan : s.InSpan req a) (hstep : s.step env h req a = some s') : s'.Kept env h req := by
  cases steps_of_step hstep with
  | wait hle => exact hs.wait hle
  | reclaim name => exact hs.reclaim name
  | answered _ i reply => exact hs.setPc trivial
  | parsed i claims => exact hs.setPc trivial
  | identified hraw => exact hs.setPc (presents_of_rawClaims hsecret hraw)
  | @unrevoked i e claims c jti hpc hanswer =>
    have hgood := hs.pcs i
    rw [hpc] at hgood
    exact hs.setPc hgood
  | @revoking i claims c jti jti' exp hpc hrevoked =>
    have hgood := hs.pcs i
    rw [hpc] at hgood
    exact hs.setPc (names_of_revoked hgood.1 hgood.2 hrevoked)
  | @setting i claims jti exp ttl hpc hleft =>
    have hgood := hs.pcs i
    rw [hpc] at hgood
    have hspan' : exp ≤ s.now + (req i).skew + 9223372036854775807 :=
      hspan exp (by rw [hpc]; rfl)
    exact hs.setPc ⟨hgood, timed_of_timeLeft hleft hspan', Int.le_refl _⟩
  | revoked hpc => exact hs.setPc trivial
  | set hpc => exact hs.set hpc

theorem kept_of_run (hsecret : h.refreshIssuer.secret = h.issuer.secret) {now : Time}
    {as : List (ReplicasAct ι)} (hrun : run (step env h req) (init now) as = some s)
    (hspan : Along (step env h req) (InSpan req) (init now) as) : s.Kept env h req := by
  refine hspan.invariant (I := Kept env h req) (fun t b t' ht hb hstep => ht.step hsecret hb hstep)
    ?_ hrun
  refine ⟨fun i => trivial, ?_, ?_, ?_⟩
  · simp [init]
  · simp [init, Keys.empty]
  · simp [init]

/-! ## What a request is told -/

omit [DecidableEq ι] in
/-- **When the key of a revoked token is not there**, the token has run out on
the clock of a replica that has revoked it. -/
theorem Kept.expired_of_absent (hs : s.Kept env h req) (hids : DistinctIDs env h req)
    {r : Revocation ι} (hr : r ∈ s.revocations)
    (habsent : s.redis.exist s.now (RedisBlacklist.keyFor r.jti) = false) :
    ∃ r' ∈ s.revocations, r'.jti = r.jti ∧
      r.exp < s.now + (req r'.request).skew + Time.millisecond ∧
      (Time.millisecond ∣ (req r'.request).skew → r.exp ≤ s.now + (req r'.request).skew) := by
  obtain ⟨r', hr', hjti, hlive⟩ := hs.live r hr
  have hdead : ¬ mstime s.now ≤ lastMilli r' := by
    intro halive
    obtain ⟨k, hk, hexpire⟩ := hlive halive
    have hthere : s.redis.exist s.now (RedisBlacklist.keyFor r.jti) = true :=
      Keyspace.exist_iff.mpr ⟨k, Keyspace.lookup_eq_some_iff.mpr ⟨hk, hexpire ▸ halive⟩⟩
    rw [hthere] at habsent
    cases habsent
  have hdone := hs.done r' hr'
  -- both revocations are of one token
  obtain ⟨c, hc, hcjti, hcexp⟩ := (hs.done r hr).names
  obtain ⟨c', hc', hcjti', hcexp'⟩ := hdone.names
  obtain rfl : c = c' := hids _ _ c c' hc hc' (by rw [← hcjti, ← hcjti', hjti])
  have hexp : r.exp = r'.readAt + (req r'.request).skew + r'.ttl := by
    rw [hcexp, ← hcexp', hdone.timed.exp_eq]
  refine ⟨r', hr', hjti, ?_, fun hdvd => ?_⟩
  · by_contra hlate
    refine hdead (alive_of_le hdone.timed.pos ?_)
    have := hdone.read_le
    dsimp only [Time, Duration] at *
    omega
  · by_contra hlate
    refine hdead (alive_of_dvd hdone.timed.pos hdone.read_le ?_ ?_)
    · have hmilli : Time.millisecond ∣ Time.second := ⟨1000, rfl⟩
      have hsecond : Time.millisecond ∣ Time.ofUnix (c.exp.getD 0) := hmilli.mul_left _
      rw [← hcexp, hexp] at hsecond
      have hsum : r'.readAt + r'.ttl =
          r'.readAt + (req r'.request).skew + r'.ttl - (req r'.request).skew := by
        dsimp only [Time, Duration]
        omega
      rw [hsum]
      exact Int.dvd_sub hsecond hdvd
    · dsimp only [Time, Duration] at *
      omega

/-- **A revoked token is turned away everywhere.** Let Redis have carried out
the `SET` of a logout or a refresh. A request with the same token that has not
asked Redis by then gets past the blacklist only if its `EXISTS` fails, or if
the token has run out on the clock of a replica that has revoked it — but for
less than a millisecond, and exactly so if that clock is off by full
milliseconds only. -/
theorem logged_out_stays_out (hsecret : h.refreshIssuer.secret = h.issuer.secret)
    (hids : DistinctIDs env h req) {now : Time} {as₁ as₂ : List (ReplicasAct ι)}
    {s₁ s₂ : Replicas ι} (hrun₁ : run (step env h req) (init now) as₁ = some s₁)
    (hrun₂ : run (step env h req) s₁ as₂ = some s₂)
    (hspan : Along (step env h req) (InSpan req) (init now) (as₁ ++ as₂))
    {r : Revocation ι} (hr : r ∈ s₁.revocations) {i : ι}
    (htoken : (req i).call.token env = (req r.request).call.token env)
    (hasks : (s₁.pc i).Unchecked) (hpassed : (s₂.pc i).Passed) :
    (∃ e, e ≠ .answered ∧ .isRevoked i e ∈ as₂) ∨
      ∃ r' ∈ s₂.revocations, r'.jti = r.jti ∧
        r.exp < s₂.now + (req r'.request).skew + Time.millisecond ∧
        (Time.millisecond ∣ (req r'.request).skew → r.exp ≤ s₂.now + (req r'.request).skew) := by
  have hnot : ¬ (s₁.pc i).Passed := by
    cases hpc : s₁.pc i <;> simp_all [CallPc.Unchecked, CallPc.Passed]
  obtain ⟨bs, b, cs, u, u', rfl, hbs, hstep, hu, hu'⟩ :=
    exists_step_of_run (P := fun t => (t.pc i).Passed) hrun₂ hnot hpassed
  obtain ⟨e, claims, c, jti, rfl, hpc, hanswer⟩ := passed_of_step hstep hu hu'
  by_cases he : e = .answered
  swap
  · exact .inl ⟨e, he, by simp⟩
  subst he
  refine .inr ?_
  have hkept : u.Kept env h req := by
    refine kept_of_run hsecret (run_append_eq_some.mpr ⟨s₁, hrun₁, hbs⟩) ?_
    rw [← List.append_assoc] at hspan
    exact hspan.append.1
  have hru : r ∈ u.revocations := (mono_of_run hbs).2 r hr
  -- the ID that the request asks for is the one that was revoked
  have hgood := hkept.pcs i
  rw [hpc] at hgood
  obtain ⟨hc, rfl⟩ := hgood
  obtain ⟨c', hc', hjti', _⟩ := (hkept.done r hru).names
  obtain rfl : c = c' := hc.unique hc' htoken.symm
  have habsent : u.redis.exist u.now (RedisBlacklist.keyFor r.jti) = false := by
    rw [hjti']
    simpa [RedisBlacklist.isRevoked, hjti' ▸ (hkept.done r hru).timed.named] using hanswer
  obtain ⟨r', hr', hsame, hlate, hexact⟩ := hkept.expired_of_absent hids hru habsent
  have hrest : run (step env h req) u (.isRevoked i .answered :: cs) = some s₂ := by
    obtain ⟨v, hv, hrest⟩ := run_append_eq_some.mp hrun₂
    rw [hbs] at hv
    cases hv
    exact hrest
  obtain ⟨hle, hsub⟩ := mono_of_run hrest
  refine ⟨r', hsub r' hr', hsame, ?_, fun hdvd => ?_⟩
  · dsimp only [Time, Duration] at *
    omega
  · have := hexact hdvd
    dsimp only [Time, Duration] at *
    omega

section OneToken

/-- A logout on one replica, and a request on another one that is ten seconds
behind. -/
def sampleCall : Bool → ReplicaCall
  | false => ⟨0, .logout "POST" "Bearer access-1"⟩
  | true => ⟨-10 * Time.second, .behindAuth "Bearer access-1"⟩

def sampleEnv : Env := Sample.env (Sample.tokens 0 "1")

/-- The logout, after a minute. -/
def loggedOut : List (ReplicasAct Bool) :=
  [.wait Time.minute, .parse false, .rawClaims false, .isRevoked false .answered, .handle false,
    .timeLeft false, .set false .answered]

/-- The other request, when the key is gone and the token is still good on the
clock of its replica. -/
def presentedAgain : List (ReplicasAct Bool) :=
  [.wait (15 * Time.minute + 5 * Time.second), .parse true, .rawClaims true,
    .isRevoked true .answered]

theorem sampleCall_distinctIDs : DistinctIDs sampleEnv Sample.handler sampleCall := by
  intro i j c c' hc hc' _
  exact hc.unique hc' (by cases i <;> cases j <;> decide +kernel)

/-- The second case is met: the clocks differ, and the token gets through
between the two ends of its life. -/
theorem logged_out_stays_out_skewed :
    ∃ s₁ s₂, run (step sampleEnv Sample.handler sampleCall) (init 0) loggedOut = some s₁ ∧
      run (step sampleEnv Sample.handler sampleCall) s₁ presentedAgain = some s₂ ∧
      (s₂.pc true).Passed ∧
      ∃ r ∈ s₁.revocations, r.exp = 15 * Time.minute ∧
        ((∃ e, e ≠ .answered ∧ .isRevoked true e ∈ presentedAgain) ∨
          ∃ r' ∈ s₂.revocations, r'.jti = r.jti ∧
            r.exp < s₂.now + (sampleCall r'.request).skew + Time.millisecond) := by
  have hends : ∃ s₁, run (step sampleEnv Sample.handler sampleCall) (init 0) loggedOut =
      some s₁ ∧
      (∃ r ∈ s₁.revocations, r.exp = 15 * Time.minute ∧ r.request = false) ∧
      s₁.pc true = .start ∧
      (run (step sampleEnv Sample.handler sampleCall) s₁ presentedAgain).any
        (fun s₂ => decide ((s₂.pc true).Passed)) = true :=
    exists_run_of_any (by decide +kernel)
  obtain ⟨s₁, hrun₁, ⟨r, hr, hexp, hfrom⟩, hpc, hany⟩ := hends
  obtain ⟨s₂, hrun₂, hpassed⟩ := exists_run_of_any hany
  have htoken : (sampleCall true).call.token sampleEnv =
      (sampleCall r.request).call.token sampleEnv := by
    rw [hfrom]
    decide +kernel
  refine ⟨s₁, s₂, hrun₁, hrun₂, hpassed, r, hr, hexp, ?_⟩
  rcases logged_out_stays_out rfl sampleCall_distinctIDs hrun₁ hrun₂ (by decide +kernel) hr
    htoken (by rw [hpc]; trivial) hpassed with hfailed | ⟨r', hr', hjti, hlate, _⟩
  · exact .inl hfailed
  · exact .inr ⟨r', hr', hjti, hlate⟩

end OneToken

/-- **The blacklist holds revoked tokens, and not for long.** Every key that
exists was written for a token that a request has presented to be revoked. It
is gone two milliseconds after the token has run out on the clock of that
request's replica, or as much later as the `SET` was under way. -/
theorem blacklist_keys_accounted (hsecret : h.refreshIssuer.secret = h.issuer.secret)
    {now : Time} {as : List (ReplicasAct ι)} (hrun : run (step env h req) (init now) as = some s)
    (hspan : Along (step env h req) (InSpan req) (init now) as) {name : String}
    (hexist : s.redis.exist s.now name = true) :
    ∃ r ∈ s.revocations, name = RedisBlacklist.keyFor r.jti ∧
      Names env h (req r.request) r.jti r.exp ∧ r.readAt ≤ r.setAt ∧
      s.now + (req r.request).skew < r.exp + (r.setAt - r.readAt) + 2 * Time.millisecond := by
  have hkept := kept_of_run hsecret hrun hspan
  obtain ⟨k, hk⟩ := Keyspace.exist_iff.mp hexist
  obtain ⟨hkey, halive⟩ := Keyspace.lookup_eq_some_iff.mp hk
  obtain ⟨r, hr, hname, hexpire⟩ := hkept.keys name k hkey
  have hdone := hkept.done r hr
  refine ⟨r, hr, hname, hdone.names, hdone.read_le, ?_⟩
  rw [hexpire] at halive
  have hlt := lt_of_alive hdone.timed.pos halive
  have hexp := hdone.timed.exp_eq
  dsimp only [Time, Duration] at *
  omega

theorem blacklist_keys_accounted_logout :
    ∃ s, run (step sampleEnv Sample.handler sampleCall) (init 0) loggedOut = some s ∧
      s.redis.exist s.now "auth:blacklist:a1" = true ∧
      ∃ r ∈ s.revocations, "auth:blacklist:a1" = RedisBlacklist.keyFor r.jti := by
  have hends : ∃ s, run (step sampleEnv Sample.handler sampleCall) (init 0) loggedOut =
      some s ∧ s.redis.exist s.now "auth:blacklist:a1" = true :=
    exists_run_of_any (by decide +kernel)
  obtain ⟨s, hrun, hexist⟩ := hends
  obtain ⟨r, hr, hname, _⟩ := blacklist_keys_accounted rfl hrun (by decide +kernel) hexist
  exact ⟨s, hrun, hexist, r, hr, hname⟩

end Replicas

end GoRestApi.Server
