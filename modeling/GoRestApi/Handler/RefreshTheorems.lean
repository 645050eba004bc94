/-
GoRestApi.Handler.RefreshTheorems — a refresh token is single-use, and when.

`Refresh` asks `IsRevoked` and then calls `Revoke`, each under the lock of
the blacklist and nothing over both. Two requests with one token both get a
new pair if the second asks before the first has revoked. They also do if the
second asks after the token has expired, having been parsed before: a revoked
token is forgotten as soon as its time has passed. `refresh_once_iff_orderly`
says that nothing else goes wrong, and that these do.

The argument is that of `Lts.Gate`: the requests with the token are the
parties, and its entry on the blacklist is the shut gate.
-/
import GoRestApi.Handler.Refresh
import GoRestApi.Lts.Gate

namespace GoRestApi.Handler

open Go Auth Store Lts

namespace RefreshSystem

variable {ι : Type} [DecidableEq ι]

/-! ## What a step can do -/

/-- The request has been answered with a new pair. -/
def Answered200 (s : RefreshSystem ι) (i : ι) : Prop := (s.pc i).status = some 200

instance (s : RefreshSystem ι) (i : ι) : Decidable (s.Answered200 i) :=
  inferInstanceAs (Decidable (_ = _))

/-- The ID of the token that the request presents, as `RawClaims` reads it. -/
def tokenJTI (env : Env) (h : AuthHandler) (req : ι → Request String) (i : ι) : Option String :=
  match token env req i with
  | .error _ => none
  | .ok raw => (env.jwt.verify h.refreshIssuer.secret raw).map fun c => c.jti.getD ""

/-- The cases of a step, one per branch of the code, with what the branch has
tested. -/
inductive Steps (env : Env) (h : AuthHandler) (req : ι → Request String) (s : RefreshSystem ι) :
    RefreshAct ι → RefreshSystem ι → Prop where
  | rejected {i now reply} : s.pc i = .start → reply.status ≠ 200 →
      Steps env h req s (.parse i now) (s.setPc i (.answered reply))
  | parsed {i now claims} : s.pc i = .start →
      Steps env h req s (.parse i now) (s.setPc i (.parsed claims))
  | unidentified {i now claims reply} : s.pc i = .parsed claims → reply.status ≠ 200 →
      Steps env h req s (.rawClaims i now) (s.setPc i (.answered reply))
  | identified {i now claims jti exp} : s.pc i = .parsed claims →
      tokenJTI env h req i = some jti →
      Steps env h req s (.rawClaims i now) (s.setPc i (.identified claims jti exp))
  | foundRevoked {i now claims jti exp} : s.pc i = .identified claims jti exp →
      (s.blacklist.isRevoked now jti).2 = true →
      Steps env h req s (.isRevoked i now)
        { s.setPc i (.answered (.unauthorized "invalid refresh token")) with
          blacklist := (s.blacklist.isRevoked now jti).1 }
  | foundUnrevoked {i now claims jti exp} : s.pc i = .identified claims jti exp →
      (s.blacklist.isRevoked now jti).2 = false →
      Steps env h req s (.isRevoked i now)
        { s.setPc i (.unrevoked claims jti exp) with
          blacklist := (s.blacklist.isRevoked now jti).1 }
  | revoked {i claims jti exp} : s.pc i = .unrevoked claims jti exp →
      Steps env h req s (.revoke i)
        { s.setPc i (.revoked claims) with
          blacklist := s.blacklist.revoke jti exp
          rotated := s.rotated ++ [i] }
  | unissued {i stamps claims} : s.pc i = .revoked claims →
      Steps env h req s (.issue i stamps) (s.setPc i (.answered .internalError))
  | issued {i stamps claims pair} : s.pc i = .revoked claims →
      Steps env h req s (.issue i stamps) (s.setPc i (.issued claims pair))
  | answered {i now user claims pair} : s.pc i = .issued claims pair →
      Steps env h req s (.getUser i now user)
        (s.setPc i (.answered (AuthHandler.refreshReply pair now user)))

/-! The replies of the first two calls are no successes. -/

theorem decodeRequest_status {α : Type} {env : Env} {r : Request α} {reply : Reply}
    (h : decodeRequest env r = .error reply) : reply.status ≠ 200 := by
  unfold decodeRequest at h
  split at h
  · cases h; decide
  · split at h
    · cases h; decide
    · split at h <;> cases h
      simp [Reply.badRequest]

theorem refreshInput_status {env : Env} {r : Request String} {reply : Reply}
    (h : AuthHandler.refreshInput env r = .error reply) : reply.status ≠ 200 := by
  unfold AuthHandler.refreshInput at h
  split at h
  · cases h
    exact decodeRequest_status ‹_›
  · split at h <;> cases h
    simp [Reply.validationFailed]

theorem refreshParse_status {env : Env} {h : AuthHandler} {now : Time} {raw : String}
    {reply : Reply} (hp : h.refreshParse env now raw = .error reply) : reply.status ≠ 200 := by
  unfold AuthHandler.refreshParse at hp
  split at hp <;> cases hp
  simp [Reply.unauthorized]

theorem refreshIdentify_status {env : Env} {h : AuthHandler} {now : Time} {raw : String}
    {reply : Reply} (hp : h.refreshIdentify env now raw = .error reply) : reply.status ≠ 200 := by
  unfold AuthHandler.refreshIdentify at hp
  split at hp <;> cases hp
  simp [Reply.unauthorized]

/-- `RawClaims` reads the ID off the claims of the token. -/
theorem refreshIdentify_ok {env : Env} {h : AuthHandler} {now : Time} {raw jti : String}
    {exp : Time} (hp : h.refreshIdentify env now raw = .ok (jti, exp)) :
    (env.jwt.verify h.refreshIssuer.secret raw).map (fun c => c.jti.getD "") = some jti := by
  unfold AuthHandler.refreshIdentify at hp
  split at hp
  · cases hp
  · rename_i c jti' hraw
    obtain ⟨hv, _, _, hjti⟩ := TokenIssuer.rawClaims_eq_ok_iff.mp hraw
    cases hp
    simp [hv, hjti]

/-- **Inversion.** A step is one of the cases. -/
theorem steps_of_step {env : Env} {h : AuthHandler} {req : ι → Request String}
    {s s' : RefreshSystem ι} {a : RefreshAct ι} (hstep : s.step env h req a = some s') :
    Steps env h req s a s' := by
  cases a with
  | parse i now =>
    simp only [step] at hstep
    split at hstep
    · rename_i hpc
      split at hstep <;> cases hstep
      · rename_i reply hreply
        refine .rejected hpc ?_
        cases ht : token env req i with
        | error reply' =>
          rw [ht] at hreply
          cases hreply
          exact refreshInput_status ht
        | ok raw =>
          rw [ht] at hreply
          exact refreshParse_status hreply
      · exact .parsed hpc
    · cases hstep
  | rawClaims i now =>
    simp only [step] at hstep
    split at hstep
    · rename_i claims hpc
      split at hstep <;> cases hstep
      · rename_i reply hreply
        refine .unidentified hpc ?_
        cases ht : token env req i with
        | error reply' =>
          rw [ht] at hreply
          cases hreply
          exact refreshInput_status ht
        | ok raw =>
          rw [ht] at hreply
          exact refreshIdentify_status hreply
      · rename_i jti exp hid
        refine .identified hpc ?_
        unfold tokenJTI
        cases ht : token env req i with
        | error reply' =>
          rw [ht] at hid
          cases hid
        | ok raw =>
          rw [ht] at hid
          exact refreshIdentify_ok hid
    · cases hstep
  | isRevoked i now =>
    simp only [step] at hstep
    split at hstep
    · rename_i claims jti exp hpc
      split at hstep <;> rename_i b hb <;> cases hstep
      · have hs : Steps env h req s (.isRevoked i now) _ := .foundRevoked hpc (by rw [hb])
        rwa [hb] at hs
      · have hs : Steps env h req s (.isRevoked i now) _ := .foundUnrevoked hpc (by rw [hb])
        rwa [hb] at hs
    · cases hstep
  | revoke i =>
    simp only [step] at hstep
    split at hstep
    · cases hstep
      exact .revoked ‹_›
    · cases hstep
  | issue i stamps =>
    simp only [step] at hstep
    split at hstep
    · split at hstep <;> cases hstep
      · exact .unissued ‹_›
      · exact .issued ‹_›
    · cases hstep
  | getUser i now user =>
    simp only [step] at hstep
    split at hstep
    · cases hstep
      exact .answered ‹_›
    · cases hstep

/-! ## A request alone -/

/-- From here on, with steps of the request `i` only, it is answered with
`reply` and leaves the blacklist `b`. -/
inductive Alone (env : Env) (h : AuthHandler) (req : ι → Request String) (i : ι) :
    RefreshSystem ι → MemoryBlacklist → Reply → Prop where
  | answered {s b reply} : s.pc i = .answered reply → s.blacklist = b →
      Alone env h req i s b reply
  | step {s s' b reply} (a : RefreshAct ι) : a.request = i → s.step env h req a = some s' →
      Alone env h req i s' b reply → Alone env h req i s b reply

section Alone

variable {env : Env} {h : AuthHandler} {req : ι → Request String} {s : RefreshSystem ι} {i : ι}

theorem Alone.of_step_answered {a : RefreshAct ι} {reply : Reply} (ha : a.request = i)
    (hstep : s.step env h req a = some (s.setPc i (.answered reply))) :
    Alone env h req i s s.blacklist reply :=
  .step a ha hstep (.answered (Function.update_self ..) rfl)

/-- The end of the handler, once the pair was issued or was not. -/
theorem alone_of_revoked {claims : Claims} (hpc : s.pc i = .revoked claims) {st : Stamps}
    {issued : List IssuedToken × Option TokenPair}
    (hissue : h.issueTokens env st claims.subject = issued) (user : Except StoreError User)
    (now : Time) :
    Alone env h req i s s.blacklist
      (issued.2.elim .internalError fun pair => AuthHandler.refreshReply pair now user) := by
  match issued with
  | (_, none) =>
    exact .of_step_answered (a := .issue i st) rfl (by simp only [step, hpc, hissue]; rfl)
  | (_, some pair) =>
    refine .step (.issue i st) rfl (by simp only [step, hpc, hissue]; rfl) ?_
    exact .of_step_answered (a := .getUser i now user) rfl
      (by simp only [step, setPc_pc, Function.update_self]; rfl)

/-- **The steps are those of `Refresh`.** What the handler does as a whole is
what its steps do when no other request comes in between. -/
theorem alone_refresh (hpc : s.pc i = .start) (store : MemoryUserStore) (t : CheckTimes)
    (st : Stamps) (now : Time) :
    Alone env h req i s (h.refresh env store s.blacklist t st now (req i)).1
      (h.refresh env store s.blacklist t st now (req i)).2.2 := by
  unfold AuthHandler.refresh AuthHandler.refreshWith
  split
  · rename_i reply hinput
    exact .of_step_answered (a := .parse i t.parse) rfl
      (by simp only [step, hpc, token, hinput]; rfl)
  rename_i raw hinput
  split
  · rename_i reply hparse
    exact .of_step_answered (a := .parse i t.parse) rfl
      (by simp only [step, hpc, token, hinput, Except.bind, hparse])
  rename_i claims hparse
  refine .step (.parse i t.parse) rfl
    (by simp only [step, hpc, token, hinput, Except.bind, hparse]; rfl) ?_
  split
  · rename_i reply hid
    exact .of_step_answered (a := .rawClaims i t.rawClaims) rfl
      (by simp only [step, setPc_pc, Function.update_self, token, hinput, Except.bind, hid])
  rename_i jti exp hid
  refine .step (.rawClaims i t.rawClaims) rfl
    (by simp only [step, setPc_pc, Function.update_self, token, hinput, Except.bind, hid]; rfl) ?_
  have hblack : ∀ (s : RefreshSystem ι) p, (s.setPc i p).blacklist = s.blacklist :=
    fun _ _ => rfl
  split
  · rename_i b hrev
    refine .step (.isRevoked i t.isRevoked) rfl
      (by simp only [step, setPc_pc, Function.update_self, hblack, hrev]; rfl) (.answered ?_ rfl)
    exact Function.update_self ..
  · rename_i b hrev
    refine .step (.isRevoked i t.isRevoked) rfl
      (by simp only [step, setPc_pc, Function.update_self, hblack, hrev]; rfl) ?_
    refine .step (.revoke i) rfl (by simp only [step, setPc_pc, Function.update_self]; rfl) ?_
    cases hissue : h.issueTokens env st claims.subject with
    | mk issued pair =>
      have hrest : ∀ s : RefreshSystem ι, s.pc i = .revoked claims →
          Alone env h req i s s.blacklist _ :=
        fun s hs => alone_of_revoked hs hissue (store.getByID claims.subject.toInt) now
      cases pair with
      | none => exact hrest _ (Function.update_self ..)
      | some pair => exact hrest _ (Function.update_self ..)

end Alone

/-! ## The condition -/

/-- A request with the token `jti` asks `IsRevoked` when no other request with
it is between `IsRevoked` and `Revoke`, and before a revocation of the token
has run out. -/
def Orderly (jti : String) (s : RefreshSystem ι) : RefreshAct ι → Prop
  | .isRevoked i now => ∀ claims exp, s.pc i = .identified claims jti exp →
      (∀ e, s.blacklist.entries jti = some e → now ≤ e) ∧
      ∀ j, j ≠ i → ∀ claims' exp', s.pc j ≠ .unrevoked claims' jti exp'
  | _ => True

/-! ## Where requests are, and their tokens -/

/-- `Revoke` has been called by the request. -/
def HasRevoked : RefreshPc → Prop
  | .revoked _ | .issued _ _ => True
  | _ => False

/-- What is known of the requests: those that are named with an ID present a
token with it, the history of rotations agrees with where they are, and an
answer with a new pair comes after a rotation. -/
structure Tracked (env : Env) (h : AuthHandler) (req : ι → Request String)
    (s : RefreshSystem ι) : Prop where
  identified : ∀ i claims jti exp, s.pc i = .identified claims jti exp →
    tokenJTI env h req i = some jti
  unrevoked : ∀ i claims jti exp, s.pc i = .unrevoked claims jti exp →
    tokenJTI env h req i = some jti
  rotated : ∀ i ∈ s.rotated, HasRevoked (s.pc i) ∨ ∃ reply, s.pc i = .answered reply
  mem_rotated : ∀ i, HasRevoked (s.pc i) ∨ s.Answered200 i → i ∈ s.rotated

omit [DecidableEq ι] in
theorem tracked_init (env : Env) (h : AuthHandler) (req : ι → Request String)
    (b : MemoryBlacklist) : Tracked env h req (init b) where
  identified := by simp [init]
  unrevoked := by simp [init]
  rotated := by simp [init]
  mem_rotated := by simp [init, HasRevoked, Answered200, RefreshPc.status]

/-- Moving a request, which may rotate. -/
theorem Tracked.setPc {env : Env} {h : AuthHandler} {req : ι → Request String}
    {s t : RefreshSystem ι} (hs : Tracked env h req s) (i : ι) (p : RefreshPc)
    (hpc : t.pc = (s.setPc i p).pc) (hrot : ∀ j, j ≠ i → (j ∈ t.rotated ↔ j ∈ s.rotated))
    (hid : ∀ claims jti exp, p = .identified claims jti exp ∨ p = .unrevoked claims jti exp →
      tokenJTI env h req i = some jti)
    (hmem : i ∈ t.rotated → HasRevoked p ∨ ∃ reply, p = .answered reply)
    (hmem' : HasRevoked p ∨ p.status = some 200 → i ∈ t.rotated) :
    Tracked env h req t := by
  refine ⟨?_, ?_, ?_, ?_⟩
  · intro j claims jti exp hj
    rcases moved_cases hpc j with ⟨rfl, hp⟩ | ⟨_, hp⟩
    · exact hid claims jti exp (.inl (hp.symm.trans hj))
    · exact hs.identified j claims jti exp (hp.symm.trans hj)
  · intro j claims jti exp hj
    rcases moved_cases hpc j with ⟨rfl, hp⟩ | ⟨_, hp⟩
    · exact hid claims jti exp (.inr (hp.symm.trans hj))
    · exact hs.unrevoked j claims jti exp (hp.symm.trans hj)
  · intro j hj
    rcases moved_cases hpc j with ⟨rfl, hp⟩ | ⟨hne, hp⟩
    · rw [hp]
      exact hmem hj
    · rw [hp]
      exact hs.rotated j ((hrot j hne).mp hj)
  · intro j hj
    unfold Answered200 at hj
    rcases moved_cases hpc j with ⟨rfl, hp⟩ | ⟨hne, hp⟩
    · rw [hp] at hj
      exact hmem' hj
    · rw [hp] at hj
      exact (hrot j hne).mpr (hs.mem_rotated j hj)

omit [DecidableEq ι] in
/-- A request that is before `Revoke` has not rotated. -/
theorem Tracked.not_mem_rotated {env : Env} {h : AuthHandler} {req : ι → Request String}
    {s : RefreshSystem ι} (hs : Tracked env h req s) {i : ι} {p : RefreshPc} (hpc : s.pc i = p)
    (hp : ¬ HasRevoked p) (hans : ∀ reply, p ≠ .answered reply) : i ∉ s.rotated := by
  intro hi
  rcases hs.rotated i hi with hr | ⟨reply, hr⟩
  · exact hp (hpc ▸ hr)
  · exact hans reply (hpc.symm.trans hr)

theorem step_tracked {env : Env} {h : AuthHandler} {req : ι → Request String}
    (s : RefreshSystem ι) (a : RefreshAct ι) (s' : RefreshSystem ι) (hs : Tracked env h req s)
    (hstep : s.step env h req a = some s') : Tracked env h req s' := by
  cases steps_of_step hstep with
  | rejected hpc hreply | unidentified hpc hreply =>
    exact hs.setPc _ _ (by rfl) (fun _ _ => Iff.rfl) (by simp)
      (fun hi => absurd hi (hs.not_mem_rotated hpc (by simp [HasRevoked]) (by simp)))
      (by simp [HasRevoked, RefreshPc.status, hreply])
  | parsed hpc =>
    exact hs.setPc _ _ (by rfl) (fun _ _ => Iff.rfl) (by simp)
      (fun hi => absurd hi (hs.not_mem_rotated hpc (by simp [HasRevoked]) (by simp)))
      (by simp [HasRevoked, RefreshPc.status])
  | identified hpc hid =>
    exact hs.setPc _ _ (by rfl) (fun _ _ => Iff.rfl) (by simpa using hid)
      (fun hi => absurd hi (hs.not_mem_rotated hpc (by simp [HasRevoked]) (by simp)))
      (by simp [HasRevoked, RefreshPc.status])
  | foundRevoked hpc _ =>
    exact hs.setPc _ _ (by rfl) (fun _ _ => Iff.rfl) (by simp)
      (fun hi => absurd hi (hs.not_mem_rotated hpc (by simp [HasRevoked]) (by simp)))
      (by simp [HasRevoked, RefreshPc.status, Reply.unauthorized])
  | foundUnrevoked hpc _ =>
    exact hs.setPc _ _ (by rfl) (fun _ _ => Iff.rfl)
      (by simpa using hs.identified _ _ _ _ hpc)
      (fun hi => absurd hi (hs.not_mem_rotated hpc (by simp [HasRevoked]) (by simp)))
      (by simp [HasRevoked, RefreshPc.status])
  | unissued hpc =>
    exact hs.setPc _ _ (by rfl) (fun _ _ => Iff.rfl) (by simp) (fun _ => .inr ⟨_, rfl⟩)
      (fun _ => hs.mem_rotated _ (.inl (by rw [hpc]; trivial)))
  | issued hpc =>
    exact hs.setPc _ _ (by rfl) (fun _ _ => Iff.rfl) (by simp) (fun _ => .inl (by trivial))
      (fun _ => hs.mem_rotated _ (.inl (by rw [hpc]; trivial)))
  | answered hpc =>
    exact hs.setPc _ _ (by rfl) (fun _ _ => Iff.rfl) (by simp) (fun _ => .inr ⟨_, rfl⟩)
      (fun _ => hs.mem_rotated _ (.inl (by rw [hpc]; trivial)))
  | @revoked i claims jti exp hpc =>
    refine hs.setPc i _ (by rfl) (fun j hj => ?_) (by simp) (fun _ => .inl (by trivial))
      (fun _ => ?_)
    · simp [hj]
    · simp

/-! ## The gate -/

/-- The place of a request with the token at its gate. -/
def phase (s : RefreshSystem ι) (i : ι) : Phase :=
  if i ∈ s.rotated then .passed
  else
    match s.pc i with
    | .unrevoked _ _ _ => .inside
    | _ => .outside

/-- The requests with the token `jti`, and its revocation. -/
def gate (env : Env) (h : AuthHandler) (req : ι → Request String) (jti : String)
    (s : RefreshSystem ι) : Gate ι where
  phase := fun i => if tokenJTI env h req i = some jti then s.phase i else .outside
  shut := s.blacklist.entries jti ≠ none

section Gate

variable {env : Env} {h : AuthHandler} {req : ι → Request String} {jti : String}
  {s t : RefreshSystem ι} {i : ι} {p : RefreshPc}

/-- Only the request that moves changes its phase. -/
theorem phase_of_ne (hpc : t.pc = (s.setPc i p).pc)
    (hrot : ∀ j, j ≠ i → (j ∈ t.rotated ↔ j ∈ s.rotated)) {j : ι} (hj : j ≠ i) :
    t.phase j = s.phase j := by
  simp only [phase, hrot j hj, hpc, setPc_pc, Function.update_of_ne hj]

theorem gate_phase_setPc (hi : tokenJTI env h req i = some jti) (hpc : t.pc = (s.setPc i p).pc)
    (hrot : ∀ j, j ≠ i → (j ∈ t.rotated ↔ j ∈ s.rotated)) :
    (gate env h req jti t).phase =
      Function.update (gate env h req jti s).phase i (t.phase i) := by
  funext j
  simp only [gate]
  by_cases hj : j = i
  · subst hj
    simp [hi]
  · rw [Function.update_of_ne hj, phase_of_ne hpc hrot hj]

/-- A step after which the request is in the phase it was in, or one of a
request with another token. -/
theorem gate_eq (hpc : t.pc = (s.setPc i p).pc)
    (hrot : ∀ j, j ≠ i → (j ∈ t.rotated ↔ j ∈ s.rotated))
    (hphase : tokenJTI env h req i = some jti → t.phase i = s.phase i)
    (hentry : t.blacklist.entries jti = s.blacklist.entries jti) :
    gate env h req jti t = gate env h req jti s := by
  have hfun : (gate env h req jti t).phase = (gate env h req jti s).phase := by
    funext j
    simp only [gate]
    by_cases hj : j = i
    · subst hj
      split
      · exact hphase ‹_›
      · rfl
    · rw [phase_of_ne hpc hrot hj]
  simp only [gate] at hfun ⊢
  rw [hfun, hentry]

end Gate

/-- **`Refresh` is a gate.** A step of orderly requests leaves the gate of the
token as it is or is a step of it. -/
theorem step_gate {env : Env} {h : AuthHandler} {req : ι → Request String} {jti : String}
    (hjti : jti ≠ "") {s s' : RefreshSystem ι} {a : RefreshAct ι} (hs : Tracked env h req s)
    (hord : Orderly jti s a) (hstep : s.step env h req a = some s') :
    gate env h req jti s' = gate env h req jti s ∨
      Gate.Step (gate env h req jti s) (gate env h req jti s') := by
  have hsame : ∀ j i : ι, j ≠ i → (j ∈ s.rotated ↔ j ∈ s.rotated) := fun _ _ _ => Iff.rfl
  cases steps_of_step hstep with
  | @rejected i _ _ hpc | @parsed i _ _ hpc | @unidentified i _ _ _ hpc | @identified i _ _ _ _ hpc
  | @unissued i _ _ hpc | @issued i _ _ _ hpc | @answered i _ _ _ _ hpc =>
    refine .inl (gate_eq (i := i) rfl (fun j => hsame j i) (fun _ => ?_) rfl)
    simp only [phase, hpc, setPc_pc, Function.update_self]
    rfl
  | @foundRevoked i now claims jti' exp hpc hrev =>
    refine .inl (gate_eq (i := i) rfl (fun j => hsame j i) (fun _ => ?_) ?_)
    · show (s.setPc i _).phase i = _
      simp only [phase, hpc, setPc_pc, Function.update_self]
      rfl
    · rw [MemoryBlacklist.isRevoked_fst_of_true hrev]
  | @foundUnrevoked i now claims jti' exp hpc hrev =>
    have hid := hs.identified i claims jti' exp hpc
    by_cases hj : jti' = jti
    · subst hj
      obtain ⟨hlive, hclear⟩ := hord claims exp hpc
      -- a revocation would still be reported, so there is none
      have hnone : s.blacklist.entries jti' = none := by
        by_contra hsome
        obtain ⟨e, he⟩ := Option.ne_none_iff_exists'.mp hsome
        have hlt := (MemoryBlacklist.isRevoked_eq_false_iff hjti).mp hrev e he
        exact absurd (hlive e he) (Int.not_le.mpr hlt)
      have hnot := hs.not_mem_rotated hpc (by simp [HasRevoked]) (by simp)
      rw [MemoryBlacklist.isRevoked_of_none hnone]
      refine .inr (.enter i ?_ (by simp [gate, hnone]) ?_ ?_ Iff.rfl)
      · simp [gate, hid, phase, hnot, hpc]
      · intro j hne hunsettled
        simp only [gate] at hunsettled
        split at hunsettled
        · rename_i hjtok
          unfold phase at hunsettled
          split at hunsettled
          · cases hunsettled
          · split at hunsettled
            · rename_i claims' jti'' exp' hpcj
              have := hs.unrevoked j claims' jti'' exp' hpcj
              rw [hjtok] at this
              cases this
              exact hclear j hne claims' exp' hpcj
            · cases hunsettled
        · cases hunsettled
      · refine .trans (gate_phase_setPc hid (by rfl) (fun j => hsame j i)) ?_
        congr 1
        simp [phase, hnot, setPc]
    · refine .inl (gate_eq (i := i) rfl (fun j => hsame j i) (fun hi => ?_)
        (MemoryBlacklist.entries_isRevoked_of_ne _ (Ne.symm hj) now))
      exact absurd (Option.some.inj (hid.symm.trans hi)) hj
  | @revoked i claims jti' exp hpc =>
    have hid := hs.unrevoked i claims jti' exp hpc
    have hrot : ∀ j, j ≠ i → (j ∈ s.rotated ++ [i] ↔ j ∈ s.rotated) := by
      intro j hj
      simp [hj]
    by_cases hj : jti' = jti
    · subst hj
      have hnot := hs.not_mem_rotated hpc (by simp [HasRevoked]) (by simp)
      refine .inr (.shut i ?_ ?_ ?_)
      · simp [gate, hid, phase, hnot, hpc]
      · refine .trans (gate_phase_setPc hid (by rfl) hrot) ?_
        congr 1
        simp [phase]
      · simp [gate, MemoryBlacklist.entries_revoke_self _ hjti]
    · refine .inl (gate_eq (i := i) rfl hrot (fun hi => ?_)
        (MemoryBlacklist.entries_revoke_of_ne _ (Ne.symm hj) exp))
      exact absurd (Option.some.inj (hid.symm.trans hi)) hj

/-! ## At most one new pair -/

/-- At most one request with the token has been answered with a new pair. -/
def AnsweredOnce (env : Env) (h : AuthHandler) (req : ι → Request String) (jti : String)
    (s : RefreshSystem ι) : Prop :=
  ∀ i j, tokenJTI env h req i = some jti → tokenJTI env h req j = some jti →
    s.Answered200 i → s.Answered200 j → i = j

instance {n : Nat} (env : Env) (h : AuthHandler) (req : Fin n → Request String) (jti : String)
    (s : RefreshSystem (Fin n)) : Decidable (s.AnsweredOnce env h req jti) :=
  inferInstanceAs (Decidable (∀ i j, tokenJTI env h req i = some jti →
    tokenJTI env h req j = some jti → s.Answered200 i → s.Answered200 j → i = j))

theorem answeredOnce_of_sound {env : Env} {h : AuthHandler} {req : ι → Request String}
    {jti : String} {s : RefreshSystem ι} (hs : Tracked env h req s)
    (hsound : (gate env h req jti s).Sound) : s.AnsweredOnce env h req jti := by
  have hentered : ∀ i, tokenJTI env h req i = some jti → s.Answered200 i →
      ((gate env h req jti s).phase i).Entered := by
    intro i hi h200
    simp [gate, hi, phase, hs.mem_rotated i (.inr h200), Phase.Entered]
  exact fun i j hi hj h200i h200j =>
    hsound.unique i j (hentered i hi h200i) (hentered j hj h200j)

/-- The request has been told that its token is not revoked. -/
def FoundUnrevoked (s : RefreshSystem ι) (i : ι) : Prop :=
  (s.pc i).IsUnrevoked ∨ i ∈ s.rotated

instance (s : RefreshSystem ι) (i : ι) : Decidable (s.FoundUnrevoked i) :=
  inferInstanceAs (Decidable (_ ∨ _))

omit [DecidableEq ι] in
theorem foundUnrevoked_of_pc {s : RefreshSystem ι} {i : ι} {claims : Claims} {jti : String}
    {exp : Time} (h : s.pc i = .unrevoked claims jti exp) : s.FoundUnrevoked i := by
  refine .inl ?_
  rw [h]
  trivial

theorem step_foundUnrevoked {env : Env} {h : AuthHandler} {req : ι → Request String} {i : ι}
    (s : RefreshSystem ι) (a : RefreshAct ι) (s' : RefreshSystem ι) (hs : s.FoundUnrevoked i)
    (hstep : s.step env h req a = some s') : s'.FoundUnrevoked i := by
  have hkeep : ∀ {j p}, s'.pc = (s.setPc j p).pc → s'.rotated = s.rotated →
      ¬ (s.pc j).IsUnrevoked → s'.FoundUnrevoked i := by
    intro j p hpc hrot hj
    rcases hs with hs | hs
    · have hne : i ≠ j := fun he => hj (he ▸ hs)
      refine .inl ?_
      rw [hpc, setPc_pc, Function.update_of_ne hne]
      exact hs
    · exact .inr (hrot ▸ hs)
  cases steps_of_step hstep with
  | @revoked j claims jti exp hpc =>
    rcases hs with hs | hs
    · by_cases he : i = j
      · subst he
        exact .inr (List.mem_append_right _ (List.mem_singleton_self _))
      · refine .inl ?_
        show ((s.setPc j _).pc i).IsUnrevoked
        rw [setPc_pc, Function.update_of_ne he]
        exact hs
    · exact .inr (List.mem_append_left _ hs)
  | rejected hpc | parsed hpc | unidentified hpc | identified hpc | foundRevoked hpc
  | foundUnrevoked hpc | unissued hpc | issued hpc | answered hpc =>
    exact hkeep (by rfl) rfl (by simp [hpc, RefreshPc.IsUnrevoked])

/-- A revocation of the token is the work of a request with it. -/
def RevokedByRequest (env : Env) (h : AuthHandler) (req : ι → Request String) (jti : String)
    (s : RefreshSystem ι) : Prop :=
  s.blacklist.entries jti ≠ none → ∃ i ∈ s.rotated, tokenJTI env h req i = some jti

theorem step_revokedByRequest {env : Env} {h : AuthHandler} {req : ι → Request String}
    {jti : String} (s : RefreshSystem ι) (a : RefreshAct ι) (s' : RefreshSystem ι)
    (ht : Tracked env h req s) (hs : s.RevokedByRequest env h req jti)
    (hstep : s.step env h req a = some s') : s'.RevokedByRequest env h req jti := by
  cases steps_of_step hstep with
  | @revoked i claims jti' exp hpc =>
    intro hne
    by_cases hj : jti' = jti
    · subst hj
      exact ⟨i, List.mem_append_right _ (List.mem_singleton_self _), ht.unrevoked i _ _ _ hpc⟩
    · rw [MemoryBlacklist.entries_revoke_of_ne _ (Ne.symm hj)] at hne
      obtain ⟨j, hjr, hjt⟩ := hs hne
      exact ⟨j, List.mem_append_left _ hjr, hjt⟩
  | foundRevoked hpc _ | foundUnrevoked hpc _ =>
    intro hne
    obtain ⟨exp, he⟩ := Option.ne_none_iff_exists'.mp hne
    exact hs (by simp [MemoryBlacklist.entries_of_isRevoked he])
  | _ => exact hs

/-- A step after which all requests with the token that were told it is not
revoked are one request is an orderly step. -/
theorem orderly_of_foundOnce {env : Env} {h : AuthHandler} {req : ι → Request String}
    {jti : String} (hjti : jti ≠ "") {a : RefreshAct ι} {s₀ s₁ : RefreshSystem ι}
    (ht : Tracked env h req s₀) (hrev : s₀.RevokedByRequest env h req jti)
    (hs₁ : s₀.step env h req a = some s₁)
    (heq : ∀ {i j}, tokenJTI env h req i = some jti → tokenJTI env h req j = some jti →
      s₁.FoundUnrevoked i → s₁.FoundUnrevoked j → i = j) : Orderly jti s₀ a := by
  have hold : ∀ {j}, s₀.FoundUnrevoked j → s₁.FoundUnrevoked j :=
    fun hj => step_foundUnrevoked _ _ _ hj hs₁
  cases a with
  | isRevoked i now =>
    intro claims exp hpc
    have hi := ht.identified i claims jti exp hpc
    have hnot := ht.not_mem_rotated hpc (by simp [HasRevoked]) (by simp)
    -- whoever has rotated is another request, and so `i` was not let through
    have hlive : ∀ e, s₀.blacklist.entries jti = some e → now ≤ e := by
      intro e he
      by_contra hlate
      obtain ⟨j, hjr, hj⟩ := hrev (by simp [he])
      have hfi : s₁.FoundUnrevoked i := by
        have hfalse : (s₀.blacklist.isRevoked now jti).2 = false := by
          rw [MemoryBlacklist.isRevoked_eq_false_iff hjti]
          intro e' he'
          rw [he] at he'
          cases he'
          exact Int.not_le.mp hlate
        cases steps_of_step hs₁ with
        | foundRevoked hpc' htrue =>
          rw [hpc] at hpc'
          cases hpc'
          simp [hfalse] at htrue
        | foundUnrevoked hpc' _ => exact foundUnrevoked_of_pc (Function.update_self ..)
      obtain rfl := heq hi hj hfi (hold (.inr hjr))
      exact hnot hjr
    refine ⟨hlive, fun j hne claims' exp' hpcj => ?_⟩
    have hj := ht.unrevoked j claims' jti exp' hpcj
    have hfj : s₁.FoundUnrevoked j := hold (foundUnrevoked_of_pc hpcj)
    cases steps_of_step hs₁ with
    | foundUnrevoked hpc' _ =>
      exact hne (heq hj hi hfj (foundUnrevoked_of_pc (Function.update_self ..)))
    | foundRevoked hpc' htrue =>
      rw [hpc] at hpc'
      cases hpc'
      -- then a third request has rotated, besides `j`
      have hsome : s₀.blacklist.entries jti ≠ none := by
        intro hnone
        rw [MemoryBlacklist.isRevoked_of_none hnone] at htrue
        cases htrue
      obtain ⟨k, hkr, hk⟩ := hrev hsome
      obtain rfl := heq hj hk hfj (hold (.inr hkr))
      exact ht.not_mem_rotated hpcj (by simp [HasRevoked]) (by simp) hkr
  | _ => trivial

/-- One new pair at the end means that the requests came in order. -/
theorem orderly_of_answeredOnce {env : Env} {h : AuthHandler} {req : ι → Request String}
    {jti : String} (hjti : jti ≠ "") {as : List (RefreshAct ι)} {s₀ s : RefreshSystem ι}
    (ht : Tracked env h req s₀) (hrev : s₀.RevokedByRequest env h req jti)
    (hrun : run (step env h req) s₀ as = some s)
    (hdone : ∀ i, tokenJTI env h req i = some jti → s.FoundUnrevoked i → s.Answered200 i)
    (honce : s.AnsweredOnce env h req jti) : Along (step env h req) (Orderly jti) s₀ as := by
  induction as generalizing s₀ with
  | nil => trivial
  | cons a as ih =>
    obtain ⟨s₁, hs₁, hrun₁⟩ := run_cons_eq_some.mp hrun
    refine ⟨orderly_of_foundOnce hjti ht hrev hs₁ ?_, fun s' hs' => ?_⟩
    · -- both are answered 200 by the end of the run
      intro i j hi hj hfi hfj
      exact honce i j hi hj (hdone i hi (run_invariant step_foundUnrevoked hfi hrun₁))
        (hdone j hj (run_invariant step_foundUnrevoked hfj hrun₁))
    · rw [hs₁] at hs'
      cases hs'
      exact ih (step_tracked _ _ _ ht hs₁) (step_revokedByRequest _ _ _ ht hrev hs₁) hrun₁

/-- **A refresh token is single-use, and when.** For any requests and any
interleaving of `Parse`, `RawClaims`, `IsRevoked`, `Revoke`, `issueTokens`
and the look-up of the user, with any clock readings, from a blacklist
without the token `jti`: if each request with the token asks `IsRevoked` when
no other request with it is between `IsRevoked` and `Revoke`, and not after a
revocation of the token has run out, at most one of them is answered with a
new pair. Conversely, when every request that was told that the token is not
revoked has been answered with a new pair, one such answer means that the
requests came so. -/
theorem refresh_once_iff_orderly {env : Env} {h : AuthHandler} {req : ι → Request String}
    {jti : String} (hjti : jti ≠ "") {b : MemoryBlacklist} (hvalid : b.entries jti = none)
    {as : List (RefreshAct ι)} {s : RefreshSystem ι}
    (hrun : run (step env h req) (init b) as = some s) :
    (Along (step env h req) (Orderly jti) (init b) as → s.AnsweredOnce env h req jti) ∧
    ((∀ i, tokenJTI env h req i = some jti → s.FoundUnrevoked i → s.Answered200 i) →
      s.AnsweredOnce env h req jti → Along (step env h req) (Orderly jti) (init b) as) := by
  refine ⟨fun hord => ?_, fun hdone honce => ?_⟩
  · have hinv : Tracked env h req s ∧ (gate env h req jti s).Sound := by
      refine hord.invariant (I := fun s => Tracked env h req s ∧ (gate env h req jti s).Sound)
        ?_ ?_ hrun
      · intro s a s' ⟨ht, hsound⟩ ha hstep
        refine ⟨step_tracked s a s' ht hstep, ?_⟩
        exact invariant_of_refines (fun _ _ hsound hgate => hsound.step hgate)
          (step_gate hjti ht ha hstep) hsound
      · refine ⟨tracked_init env h req b, Gate.sound_of_outside (fun i => ?_) ?_⟩
        · simp [gate, init, phase]
        · simp [gate, init, hvalid]
    exact answeredOnce_of_sound hinv.1 hinv.2
  · exact orderly_of_answeredOnce hjti (tracked_init env h req b)
      (fun hne => absurd hvalid hne) hrun hdone honce

/-! Two requests with one token, in turn and overlapping. -/

section TwoRequests

/-- A pair of the first second, and two pairs of the next. -/
def twoEnv : Env :=
  Sample.env (Sample.tokens 0 "1" ++ Sample.tokens Time.second "2" ++ Sample.tokens Time.second "3")

def twoReq : Fin 2 → Request String := fun _ => ⟨"POST", "application/json", .ok "refresh-1"⟩

/-- The calls of a request up to `IsRevoked`. -/
def checks (i : Fin 2) : List (RefreshAct (Fin 2)) :=
  [.parse i Time.second, .rawClaims i Time.second, .isRevoked i Time.second]

/-- Its calls from `Revoke` on. -/
def rotation (i : Fin 2) (n : String) : List (RefreshAct (Fin 2)) :=
  [.revoke i, .issue i (Sample.stamps Time.second n),
    .getUser i Time.second (.ok ⟨1, "Ada", "ada@example.com", "hash of secret"⟩)]

/-- In turn, the first request is answered with a new pair and the second is
refused. -/
theorem refresh_in_turn_orderly :
    ∃ s, run (step twoEnv Sample.handler twoReq) (init .new)
        (checks 0 ++ rotation 0 "2" ++ checks 1) = some s ∧
      s.Answered200 0 ∧ (s.pc 1).status = some 401 ∧
      Along (step twoEnv Sample.handler twoReq) (Orderly "r1") (init .new)
        (checks 0 ++ rotation 0 "2" ++ checks 1) ∧
      s.AnsweredOnce twoEnv Sample.handler twoReq "r1" := by
  have hends : ∃ s, run (step twoEnv Sample.handler twoReq) (init .new)
        (checks 0 ++ rotation 0 "2" ++ checks 1) = some s ∧
      s.Answered200 0 ∧ (s.pc 1).status = some 401 ∧
      (∀ i, tokenJTI twoEnv Sample.handler twoReq i = some "r1" →
        s.FoundUnrevoked i → s.Answered200 i) ∧
      s.AnsweredOnce twoEnv Sample.handler twoReq "r1" :=
    exists_run_of_any (by decide +kernel)
  obtain ⟨s, hrun, h200, h401, hdone, honce⟩ := hends
  have h := refresh_once_iff_orderly (by decide : "r1" ≠ "") rfl hrun
  have hord := h.2 hdone honce
  exact ⟨s, hrun, h200, h401, hord, h.1 hord⟩

/-- Both requests ask before either revokes, and both are answered with a new
pair for the one token. -/
theorem refresh_overlapping_twice :
    ∃ s, run (step twoEnv Sample.handler twoReq) (init .new)
        (checks 0 ++ checks 1 ++ rotation 0 "2" ++ rotation 1 "3") = some s ∧
      tokenJTI twoEnv Sample.handler twoReq 0 = some "r1" ∧
      tokenJTI twoEnv Sample.handler twoReq 1 = some "r1" ∧
      s.Answered200 0 ∧ s.Answered200 1 :=
  exists_run_of_any (by decide +kernel)

end TwoRequests

end RefreshSystem

end GoRestApi.Handler
