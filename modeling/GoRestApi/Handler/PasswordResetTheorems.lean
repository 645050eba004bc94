/-
GoRestApi.Handler.PasswordResetTheorems — a password-reset token is used at
most once.

What is needed of a token store is in `TokenStore.Lawful`: seen as a map from
tokens to entries, `Issue` adds an entry, `Consume` takes one out, and what it
returns is the user of the entry that it has taken, before its expiry. Both
stores are such maps; for the Redis store this is the round trip of its
payload.

The argument is about the place a token is in (`Place`): in the store, taken
out by one request, or spent. A token is in ONE place, and `Follows` says that
the state of the system goes with the places; so no two requests have taken
the same token. That every random token is new is the condition `Fresh` on
the steps of a run.
-/
import GoRestApi.Handler.PasswordReset
import GoRestApi.Handler.UserTheorems

namespace GoRestApi.Handler

open Go Store MemoryUserStore Lts

variable {ι σ τ π : Type} [DecidableEq ι]

/-! ## Token stores -/

/-- The store is a map from tokens to entries: `holds` gives the entries of a
store, and `reads` the entry that `Consume` has taken out. -/
structure TokenStore.Lawful (ts : TokenStore σ τ) (holds : σ → String → Option ResetToken)
    (reads : τ → Option ResetToken) : Prop where
  issue : ∀ s token now userID ttl s' token' expiresAt,
    ts.issue s token now userID ttl = (s', token', expiresAt) →
      token' = token ∧ holds s' = Function.update (holds s) token (some ⟨userID, expiresAt⟩) ∨
        token' = "" ∧ holds s' = holds s
  take_none : ∀ s token s', ts.take s token = (s', none) → holds s' = holds s
  take_some : ∀ s token s' taken, ts.take s token = (s', some taken) →
    reads taken = holds s token ∧ holds s' = Function.update (holds s) token none
  check : ∀ taken now userID, ts.check taken now = some userID →
    ∃ t, reads taken = some t ∧ t.userID = userID ∧ now ≤ t.expiresAt
  evict : ∀ s key token t, holds (ts.evict s key) token = some t → holds s token = some t

theorem ResetToken.check_eq_some {t : ResetToken} {now : Time} {userID : Int64}
    (h : t.check now = some userID) : t.userID = userID ∧ now ≤ t.expiresAt := by
  unfold ResetToken.check at h
  split at h
  · cases h
  · rename_i hlive
    exact ⟨Option.some.inj h, Int.not_lt.mp hlive⟩

theorem ResetTokenStore.lawful_tokenStore :
    ResetTokenStore.tokenStore.Lawful ResetTokenStore.tokens some where
  issue := by
    rintro s token now userID ttl s' token' expiresAt ⟨⟩
    exact .inl ⟨rfl, rfl⟩
  take_none := by
    intro s token s' h
    simp only [tokenStore, take] at h
    split at h <;> cases h
    rfl
  take_some := by
    intro s token s' taken h
    simp only [tokenStore, take] at h
    split at h
    · cases h
    · rename_i entry hentry
      cases h
      exact ⟨hentry.symm, rfl⟩
  check := fun taken now userID h => ⟨taken, rfl, ResetToken.check_eq_some h⟩
  evict := fun _ _ _ _ h => h

namespace RedisResetTokenStore

theorem keyFor_inj {token token' : String} : keyFor token = keyFor token' ↔ token = token' := by
  simp [keyFor]

/-- The entry that a payload is read as. -/
def entry (c : TokenCodec π) (payload : π) : Option ResetToken := (c.unmarshal payload).toOption

def entries (c : TokenCodec π) (s : RedisResetTokenStore π) (token : String) : Option ResetToken :=
  (s.keys (keyFor token)).bind fun k => entry c k.value

theorem entries_update (c : TokenCodec π) (s : RedisResetTokenStore π) (token : String)
    (k : Option (RedisServer.StringKey π)) :
    entries c ⟨Function.update s.keys (keyFor token) k⟩ =
      Function.update (entries c s) token (k.bind fun k => entry c k.value) := by
  funext token'
  by_cases h : token' = token
  · subst h
    simp [entries]
  · simp [entries, keyFor_inj, h]

theorem lawful_tokenStore {c : TokenCodec π} (hc : c.RoundTrips) :
    (tokenStore c).Lawful (entries c) (entry c) where
  issue := by
    intro s token now userID ttl s' token' expiresAt h
    simp only [tokenStore, issue] at h
    split at h
    · cases h
      exact .inr ⟨rfl, rfl⟩
    · rename_i payload hmarshal
      cases h
      refine .inl ⟨rfl, ?_⟩
      refine (entries_update ..).trans ?_
      simp [entry, hc.unmarshal_marshal _ _ hmarshal, Except.toOption]
  take_none := by
    intro s token s' h
    simp only [tokenStore, take] at h
    split at h
    · cases h
      rfl
    · split at h <;> cases h
      rfl
  take_some := by
    intro s token s' payload h
    simp only [tokenStore, take] at h
    split at h
    · cases h
    · split at h
      · cases h
      · rename_i k hkey
        cases h
        exact ⟨by simp [entries, hkey], entries_update c s token none⟩
  check := by
    intro payload now userID h
    simp only [tokenStore, check] at h
    split at h
    · cases h
    · rename_i t ht
      exact ⟨t, by simp [entry, ht, Except.toOption], ResetToken.check_eq_some h⟩
  evict := by
    intro s key token t h
    simp only [tokenStore, evict, entries] at h ⊢
    by_cases hkey : keyFor token = key
    · subst hkey
      simp at h
    · rwa [RedisServer.Keys.keys_del_of_ne hkey] at h

end RedisResetTokenStore

namespace PasswordReset

/-! ## What a step can do -/

/-- Neither on its way from `Consume` to `UpdatePassword` nor answered. -/
def Pc.Idle : Pc τ → Prop
  | .checking _ _ | .updating _ _ | .resetDone _ => False
  | _ => True

namespace State

variable {env : Env} {auth : AuthHandler} {ttl : Duration} {ts : TokenStore σ τ} {reqs : ι → Req}
  {s s' : State ι σ τ} {a : Act ι}

/-- The cases of a step. In the first, a request moves that has taken nothing
out of the store. -/
inductive Steps (env : Env) (auth : AuthHandler) (ttl : Duration) (ts : TokenStore σ τ)
    (s : State ι σ τ) : Act ι → State ι σ τ → Prop where
  | moved {a i p} : (s.pc i).Idle → (p.Idle ∨ ∃ reply, p = .resetDone reply) →
      Steps env auth ttl ts s a (s.setPc i p)
  | issued {i user token now tokens' token' expiresAt answer} : s.pc i = .issuing user →
      ts.issue s.tokens token now (Int64.ofInt user.id) ttl = (tokens', token', expiresAt) →
      Steps env auth ttl ts s (.issue i token now)
        { s.setPc i (.forgotDone answer) with
          tokens := tokens'
          issued := s.issued ++ [⟨token', Int64.ofInt user.id, expiresAt⟩] }
  | missed {i input tokens' reply} : s.pc i = .consuming input →
      ts.take s.tokens input.token = (tokens', none) →
      Steps env auth ttl ts s (.take i) { s.setPc i (.resetDone reply) with tokens := tokens' }
  | taken {i input tokens' taken} : s.pc i = .consuming input →
      ts.take s.tokens input.token = (tokens', some taken) →
      Steps env auth ttl ts s (.take i)
        { s.setPc i (.checking input taken) with tokens := tokens' }
  | expired {i input taken now reply} : s.pc i = .checking input taken →
      ts.check taken now = none →
      Steps env auth ttl ts s (.check i now) (s.setPc i (.resetDone reply))
  | consumed {i input taken now userID} : s.pc i = .checking input taken →
      ts.check taken now = some userID →
      Steps env auth ttl ts s (.check i now)
        { s.setPc i (.updating input userID) with
          consumed := s.consumed ++ [⟨i, input.token, userID, now⟩] }
  | failed {i input userID reply} : s.pc i = .updating input userID →
      Steps env auth ttl ts s (.update i) (s.setPc i (.resetDone reply))
  | changed {i input userID hash users' reply} : s.pc i = .updating input userID →
      s.users.updatePassword userID.toInt hash = (users', .ok ()) →
      Steps env auth ttl ts s (.update i)
        { s.setPc i (.resetDone reply) with
          users := users'
          changed := s.changed ++ [⟨i, input.token, userID⟩] }
  | evicted {key} : Steps env auth ttl ts s (.evict key)
      { s with tokens := ts.evict s.tokens key }

/-- **Inversion.** A step is one of the cases. -/
theorem steps_of_step (h : s.step env auth ttl ts reqs a = some s') :
    Steps env auth ttl ts s a s' := by
  cases a with
  | begin i =>
    simp only [step] at h
    split at h
    · rename_i hpc
      have hidle : (s.pc i).Idle := by rw [hpc]; trivial
      split at h
      · split at h <;> cases h <;> exact .moved hidle (.inl trivial)
      · split at h <;> cases h
        · exact .moved hidle (.inr ⟨_, rfl⟩)
        · exact .moved hidle (.inl trivial)
    · cases h
  | getByEmail i =>
    simp only [step] at h
    split at h
    · rename_i email hpc
      have hidle : (s.pc i).Idle := by rw [hpc]; trivial
      split at h <;> cases h <;> exact .moved hidle (.inl trivial)
    · cases h
  | issue i token now =>
    simp only [step] at h
    split at h
    · cases h
      exact .issued ‹_› rfl
    · cases h
  | take i =>
    simp only [step] at h
    split at h
    · split at h <;> cases h
      · exact .missed ‹_› ‹_›
      · exact .taken ‹_› ‹_›
    · cases h
  | check i now =>
    simp only [step] at h
    split at h
    · split at h <;> cases h
      · exact .expired ‹_› ‹_›
      · exact .consumed ‹_› ‹_›
    · cases h
  | update i =>
    simp only [step] at h
    split at h
    · rename_i input userID hpc
      rcases heq : auth.resetConsumed env s.users input (some userID) with ⟨users', reply⟩
      rw [heq] at h
      cases h
      rcases resetConsumed_cases heq with ⟨rfl, hstatus⟩ | ⟨id, hash, hid, -, hupdate, rfl⟩
      · simpa only [hstatus, ↓reduceIte, List.append_nil] using .failed hpc
      · cases hid
        exact .changed hpc hupdate
    · cases h
  | evict key =>
    cases h
    exact .evicted

/-! ## The place of a token -/

/-- The random token of the step is not empty and was not issued before. -/
def Fresh (s : State ι σ τ) : Act ι → Prop
  | .issue _ token _ => token ≠ "" ∧ ∀ g ∈ s.issued, g.token ≠ token
  | _ => True

instance (s : State ι σ τ) : (a : Act ι) → Decidable (s.Fresh a)
  | .issue _ token _ => inferInstanceAs (Decidable (token ≠ "" ∧ ∀ g ∈ s.issued, g.token ≠ token))
  | .begin _ | .getByEmail _ | .take _ | .check _ _ | .update _ | .evict _ => isTrue trivial

end State

inductive Place (ι : Type) where
  | unissued
  | stored (t : ResetToken)
  | taken (i : ι) (t : ResetToken)
  | spent

/-- The entry of a token that is not spent. -/
def Place.entry : Place ι → Option ResetToken
  | .stored t | .taken _ t => some t
  | _ => none

/-- The state goes with the places of the tokens. -/
structure Follows (holds : σ → String → Option ResetToken) (reads : τ → Option ResetToken)
    (s : State ι σ τ) (place : String → Place ι) : Prop where
  stored : ∀ token t, holds s.tokens token = some t → place token = .stored t
  checking : ∀ i input taken t, s.pc i = .checking input taken → reads taken = some t →
    place input.token = .taken i t
  consumed : ∀ c ∈ s.consumed, place c.token = .spent
  issued : ∀ token t, (place token).entry = some t → token ≠ "" ∧ ⟨token, t⟩ ∈ s.issued
  known : ∀ token, place token ≠ .unissued → ∃ g ∈ s.issued, g.token = token

section Follows

variable {env : Env} {auth : AuthHandler} {ttl : Duration} {ts : TokenStore σ τ} {reqs : ι → Req}
  {holds : σ → String → Option ResetToken} {reads : τ → Option ResetToken}
  {s s' : State ι σ τ} {a : Act ι} {place : String → Place ι}

/-- A request moves, and no token does. -/
theorem Follows.move (h : Follows holds reads s place) (i : ι) (p : Pc τ)
    (hpc : s'.pc = (s.setPc i p).pc)
    (hp : ∀ input taken t, p = .checking input taken → reads taken = some t →
      place input.token = .taken i t)
    (htokens : ∀ token t, holds s'.tokens token = some t → holds s.tokens token = some t)
    (hconsumed : s'.consumed = s.consumed) (hissued : ∀ g ∈ s.issued, g ∈ s'.issued) :
    Follows holds reads s' place where
  stored token t ht := h.stored token t (htokens token t ht)
  checking j input taken t hj := by
    rcases moved_cases hpc j with ⟨rfl, hpj⟩ | ⟨-, hpj⟩
    · exact hp input taken t (hpj.symm.trans hj)
    · exact h.checking j input taken t (hpj.symm.trans hj)
  consumed := by
    rw [hconsumed]
    exact h.consumed
  issued token t ht := (h.issued token t ht).imp id (hissued _)
  known token htoken := by
    obtain ⟨g, hg, hgt⟩ := h.known token htoken
    exact ⟨g, hissued g hg, hgt⟩

omit [DecidableEq ι] in
/-- A new token is put into the store. -/
theorem Follows.issue (h : Follows holds reads s place) {token : String} {t : ResetToken}
    (hne : token ≠ "") (hnew : ∀ g ∈ s.issued, g.token ≠ token) (hpc : ∀ j input taken,
      s'.pc j = .checking input taken → s.pc j = .checking input taken)
    (htokens : holds s'.tokens = Function.update (holds s.tokens) token (some t))
    (hconsumed : s'.consumed = s.consumed) (hissued : s'.issued = s.issued ++ [⟨token, t⟩]) :
    Follows holds reads s' (Function.update place token (.stored t)) := by
  have hplace : place token = .unissued := by
    by_contra hknown
    obtain ⟨g, hg, hgt⟩ := h.known token hknown
    exact hnew g hg hgt
  constructor
  · intro token' t' ht'
    rw [htokens] at ht'
    by_cases heq : token' = token
    · subst heq
      simpa using ht'
    · rw [Function.update_of_ne heq] at ht' ⊢
      exact h.stored token' t' ht'
  · intro j input taken t' hj ht'
    have htaken := h.checking j input taken t' (hpc j input taken hj) ht'
    rwa [Function.update_of_ne]
    rintro heq
    rw [heq, hplace] at htaken
    cases htaken
  · intro c hc
    rw [hconsumed] at hc
    have hspent := h.consumed c hc
    rwa [Function.update_of_ne]
    rintro heq
    rw [heq, hplace] at hspent
    cases hspent
  · intro token' t' ht'
    rw [hissued]
    by_cases heq : token' = token
    · subst heq
      rw [Function.update_self] at ht'
      cases ht'
      exact ⟨hne, by simp⟩
    · rw [Function.update_of_ne heq] at ht'
      exact (h.issued token' t' ht').imp id (List.mem_append_left _)
  · intro token' htoken'
    rw [hissued]
    by_cases heq : token' = token
    · exact ⟨⟨token, t⟩, by simp, heq.symm⟩
    · rw [Function.update_of_ne heq] at htoken'
      obtain ⟨g, hg, hgt⟩ := h.known token' htoken'
      exact ⟨g, List.mem_append_left _ hg, hgt⟩

/-- A token moves from the place it is in to another, with the request that
moves it. -/
theorem Follows.relocate (h : Follows holds reads s place) (token : String) (i : ι)
    (p : Place ι) (hplace : (place token).entry ≠ none) (hothers : ∀ j, j ≠ i → s'.pc j = s.pc j)
    (hself : ∀ input taken t, s'.pc i = .checking input taken → reads taken = some t →
      input.token = token ∧ p = .taken i t)
    (hheld : ∀ j t, place token = .taken j t → j = i)
    (htokens : ∀ token' t, holds s'.tokens token' = some t →
      token' ≠ token ∧ holds s.tokens token' = some t)
    (hconsumed : ∀ c ∈ s'.consumed, c ∈ s.consumed ∨ c.token = token ∧ p = .spent)
    (hissued : s'.issued = s.issued)
    (hentry : ∀ t, p.entry = some t → (place token).entry = some t) :
    Follows holds reads s' (Function.update place token p) := by
  constructor
  · intro token' t' ht'
    obtain ⟨hne, hold⟩ := htokens token' t' ht'
    rw [Function.update_of_ne hne]
    exact h.stored token' t' hold
  · intro j input taken t' hj ht'
    by_cases hji : j = i
    · subst hji
      obtain ⟨heq, hp⟩ := hself input taken t' hj ht'
      rw [heq, Function.update_self, hp]
    · rw [hothers j hji] at hj
      have htaken := h.checking j input taken t' hj ht'
      rwa [Function.update_of_ne]
      rintro heq
      rw [heq] at htaken
      exact hji (hheld j t' htaken)
  · intro c hc
    rcases hconsumed c hc with hold | ⟨heq, hp⟩
    · have hspent := h.consumed c hold
      rwa [Function.update_of_ne]
      rintro heq
      rw [← heq, hspent] at hplace
      exact hplace rfl
    · rw [heq, Function.update_self, hp]
  · intro token' t' ht'
    rw [hissued]
    by_cases heq : token' = token
    · subst heq
      rw [Function.update_self] at ht'
      exact h.issued token' t' (hentry t' ht')
    · rw [Function.update_of_ne heq] at ht'
      exact h.issued token' t' ht'
  · intro token' htoken'
    rw [hissued]
    by_cases heq : token' = token
    · subst heq
      refine h.known token' fun hun => hplace ?_
      rw [hun]
      rfl
    · rw [Function.update_of_ne heq] at htoken'
      exact h.known token' htoken'

/-- `Consume` takes a token out of the store. -/
theorem Follows.take (h : Follows holds reads s place) (hts : ts.Lawful holds reads) (i : ι)
    {input : ResetPasswordRequest} {tokens' : σ} {taken : τ}
    (htake : ts.take s.tokens input.token = (tokens', some taken)) :
    ∃ place, Follows holds reads
      { s.setPc i (.checking input taken) with tokens := tokens' } place := by
  obtain ⟨hreads, htokens⟩ := hts.take_some _ _ _ _ htake
  have hleft : ∀ token t, holds tokens' token = some t →
      token ≠ input.token ∧ holds s.tokens token = some t := by
    intro token t ht
    rw [htokens] at ht
    by_cases heq : token = input.token
    · subst heq
      simp at ht
    · rw [Function.update_of_ne heq] at ht
      exact ⟨heq, ht⟩
  cases ht : reads taken with
  | none =>
    -- a payload that is no entry is taken out and comes to nothing
    refine ⟨place, h.move i _ rfl ?_ (fun _ _ h => (hleft _ _ h).2) rfl fun _ h => h⟩
    rintro input' taken' t ⟨⟩ ht'
    rw [ht] at ht'
    cases ht'
  | some t =>
    have hstored : place input.token = .stored t := h.stored _ t (hreads.symm.trans ht)
    refine ⟨_, h.relocate input.token i (.taken i t) (by simp [hstored, Place.entry])
      (fun j hj => Function.update_of_ne hj ..) ?_ (by simp [hstored]) hleft
      (fun c hc => .inl hc) rfl (by simp [hstored, Place.entry])⟩
    intro input' taken' t' hpc' ht'
    have hself := (Function.update_self ..).symm.trans hpc'
    cases hself
    rw [ht] at ht'
    cases ht'
    exact ⟨rfl, rfl⟩

/-- `Consume` returns ok, and the token is spent. -/
theorem Follows.consume (h : Follows holds reads s place) {i : ι} {input : ResetPasswordRequest}
    {taken : τ} {t : ResetToken} (hpc : s.pc i = .checking input taken)
    (ht : reads taken = some t) (userID : Int64) (now : Time) :
    ∃ place, Follows holds reads
      { s.setPc i (.updating input userID) with
        consumed := s.consumed ++ [⟨i, input.token, userID, now⟩] } place := by
  have htaken : place input.token = .taken i t := h.checking i input taken t hpc ht
  refine ⟨_, h.relocate input.token i .spent (by simp [htaken, Place.entry])
    (fun j hj => Function.update_of_ne hj ..) ?_ (by simp [htaken, eq_comm]) ?_ ?_ rfl
    (by simp [Place.entry])⟩
  · intro input' taken' t' hpc'
    exact absurd ((Function.update_self ..).symm.trans hpc') (by simp)
  · -- a token that is held is in the store, and this one is not
    intro token' t' ht'
    refine ⟨?_, ht'⟩
    rintro rfl
    have hstored := h.stored _ t' ht'
    rw [htaken] at hstored
    cases hstored
  · intro c hc
    rcases List.mem_append.mp hc with hold | hnew
    · exact .inl hold
    · cases List.mem_singleton.mp hnew
      exact .inr ⟨rfl, rfl⟩

/-- **Every step keeps the state with the places.** -/
theorem step_follows (hts : ts.Lawful holds reads) (hs : ∃ place, Follows holds reads s place)
    (hfresh : s.Fresh a) (hstep : s.step env auth ttl ts reqs a = some s') :
    ∃ place, Follows holds reads s' place := by
  obtain ⟨place, hs⟩ := hs
  cases State.steps_of_step hstep with
  | @moved a i p _ hp =>
    refine ⟨place, hs.move i p rfl ?_ (fun _ _ h => h) rfl (fun _ h => h)⟩
    rintro input taken t rfl
    rcases hp with hp | ⟨reply, ⟨⟩⟩
    exact hp.elim
  | @issued i user token now tokens' token' expiresAt answer hpc hissue =>
    rcases hts.issue _ _ _ _ _ _ _ _ hissue with ⟨rfl, htokens⟩ | ⟨rfl, htokens⟩
    · refine ⟨_, hs.issue hfresh.1 hfresh.2 (fun j input taken hj => ?_) htokens rfl rfl⟩
      by_cases hji : j = i
      · subst hji
        exact absurd ((Function.update_self ..).symm.trans hj) (by simp)
      · rwa [State.setPc_pc, Function.update_of_ne hji] at hj
    · exact ⟨place, hs.move i _ rfl (by simp) (fun _ _ h => by rwa [← htokens]) rfl
        fun g hg => List.mem_append_left _ hg⟩
  | @missed i input tokens' reply hpc htake =>
    exact ⟨place, hs.move i _ rfl (by simp)
      (fun _ _ h => by rwa [← hts.take_none _ _ _ htake]) rfl fun _ h => h⟩
  | @taken i input tokens' taken hpc htake => exact hs.take hts i htake
  | @expired i input taken now reply hpc hcheck =>
    exact ⟨place, hs.move i _ rfl (by simp) (fun _ _ h => h) rfl fun _ h => h⟩
  | @consumed i input taken now userID hpc hcheck =>
    obtain ⟨t, ht, -⟩ := hts.check _ _ _ hcheck
    exact hs.consume hpc ht userID now
  | @failed i input userID reply hpc =>
    exact ⟨place, hs.move i _ rfl (by simp) (fun _ _ h => h) rfl fun _ h => h⟩
  | @changed i input userID hash users' reply hpc hupdate =>
    exact ⟨place, hs.move i _ rfl (by simp) (fun _ _ h => h) rfl fun _ h => h⟩
  | @evicted key =>
    exact ⟨place, fun token t ht => hs.stored token t (hts.evict _ _ _ _ ht), hs.checking,
      hs.consumed, hs.issued, hs.known⟩

end Follows

/-! ## The histories -/

/-- What was consumed was issued, and was not expired; what was changed was
consumed by the same request; and each happens once. -/
structure Kept (users : MemoryUserStore) (s : State ι σ τ) : Prop where
  issued_once : ∀ g ∈ s.issued, ∀ g' ∈ s.issued, g.token = g'.token → g.token ≠ "" → g = g'
  consumed : ∀ c ∈ s.consumed, c.token ≠ "" ∧ ∃ t, ⟨c.token, t⟩ ∈ s.issued ∧
    t.userID = c.userID ∧ c.now ≤ t.expiresAt
  consumed_once : (s.consumed.map Consumed.token).Nodup
  updating : ∀ i input userID, s.pc i = .updating input userID →
    ∃ now, ⟨i, input.token, userID, now⟩ ∈ s.consumed
  changed : ∀ d ∈ s.changed, (∃ now, ⟨d.request, d.token, d.userID, now⟩ ∈ s.consumed) ∧
    ∃ reply, s.pc d.request = .resetDone reply
  changed_once : (s.changed.map Changed.token).Nodup
  users : ∀ id, (∀ d ∈ s.changed, d.userID.toInt ≠ id) → s.users.getByID id = users.getByID id

section Kept

variable {env : Env} {auth : AuthHandler} {ttl : Duration} {ts : TokenStore σ τ} {reqs : ι → Req}
  {holds : σ → String → Option ResetToken} {reads : τ → Option ResetToken}
  {users : MemoryUserStore} {s s' : State ι σ τ} {a : Act ι}

/-- A request moves, and nothing is consumed or changed. -/
theorem Kept.move (h : Kept users s) (i : ι) (p : Pc τ) (hpc : s'.pc = (s.setPc i p).pc)
    (hi : ∀ reply, s.pc i ≠ .resetDone reply) (hp : ∀ input userID, p ≠ .updating input userID)
    (hissued : s'.issued = s.issued) (hconsumed : s'.consumed = s.consumed)
    (hchanged : s'.changed = s.changed) (husers : s'.users = s.users) : Kept users s' where
  issued_once := by rw [hissued]; exact h.issued_once
  consumed := by rw [hissued, hconsumed]; exact h.consumed
  consumed_once := by rw [hconsumed]; exact h.consumed_once
  updating j input userID hj := by
    rw [hconsumed]
    rcases moved_cases hpc j with ⟨-, hpj⟩ | ⟨-, hpj⟩
    · exact absurd (hpj.symm.trans hj) (hp input userID)
    · exact h.updating j input userID (hpj.symm.trans hj)
  changed d hd := by
    rw [hchanged] at hd
    rw [hconsumed, hpc]
    obtain ⟨hconsumed, reply, hreply⟩ := h.changed d hd
    have hne : d.request ≠ i := by
      rintro hdi
      exact hi reply (hdi ▸ hreply)
    exact ⟨hconsumed, reply, (Function.update_of_ne hne ..).trans hreply⟩
  changed_once := by rw [hchanged]; exact h.changed_once
  users := by rw [hchanged, husers]; exact h.users

omit [DecidableEq ι] in
theorem Kept.issue (h : Kept users s) {g : Issued} (tokens' : σ)
    (hg : g.token = "" ∨ ∀ g' ∈ s.issued, g'.token ≠ g.token) :
    Kept users { s with tokens := tokens', issued := s.issued ++ [g] } := by
  have hnew : ∀ g' ∈ s.issued, g'.token = g.token → g'.token = "" := by
    intro g' hg' heq
    rcases hg with hempty | hfresh
    · rw [heq, hempty]
    · exact absurd heq (hfresh g' hg')
  refine { h with issued_once := ?_, consumed := ?_ }
  · intro g₁ hg₁ g₂ hg₂ heq hne
    simp only [List.mem_append, List.mem_singleton] at hg₁ hg₂
    rcases hg₁ with hg₁ | rfl <;> rcases hg₂ with hg₂ | rfl
    · exact h.issued_once g₁ hg₁ g₂ hg₂ heq hne
    · exact absurd (hnew g₁ hg₁ heq) hne
    · exact absurd (heq.trans (hnew g₂ hg₂ heq.symm)) hne
    · rfl
  · intro c hc
    obtain ⟨hne, t, ht, huser⟩ := h.consumed c hc
    exact ⟨hne, t, List.mem_append_left _ ht, huser⟩

/-- `Consume` returns ok for a token that was not consumed before. -/
theorem Kept.consume (h : Kept users s) {i : ι} {input : ResetPasswordRequest} {userID : Int64}
    {now : Time} {t : ResetToken} (hi : ∀ reply, s.pc i ≠ .resetDone reply)
    (hne : input.token ≠ "") (hissued : ⟨input.token, t⟩ ∈ s.issued) (huser : t.userID = userID)
    (hnow : now ≤ t.expiresAt) (hnew : ∀ c ∈ s.consumed, c.token ≠ input.token) :
    Kept users
      { s.setPc i (.updating input userID) with
        consumed := s.consumed ++ [⟨i, input.token, userID, now⟩] } := by
  refine { h with consumed := ?_, consumed_once := ?_, updating := ?_, changed := ?_ }
  · intro c hc
    rcases List.mem_append.mp hc with hold | hnew
    · exact h.consumed c hold
    · cases List.mem_singleton.mp hnew
      exact ⟨hne, t, hissued, huser, hnow⟩
  · rw [List.map_append, List.nodup_append]
    refine ⟨h.consumed_once, by simp, ?_⟩
    intro token htoken token' htoken'
    obtain ⟨c, hc, rfl⟩ := List.mem_map.mp htoken
    simp only [List.map_cons, List.map_nil, List.mem_singleton] at htoken'
    rw [htoken']
    exact hnew c hc
  · intro j input' userID' hj
    by_cases hji : j = i
    · subst hji
      cases (Function.update_self ..).symm.trans hj
      exact ⟨now, by simp⟩
    · obtain ⟨now', hc⟩ :=
        h.updating j input' userID' ((Function.update_of_ne hji ..).symm.trans hj)
      exact ⟨now', List.mem_append_left _ hc⟩
  · intro d hd
    obtain ⟨⟨now', hc⟩, reply, hreply⟩ := h.changed d hd
    refine ⟨⟨now', List.mem_append_left _ hc⟩, reply, ?_⟩
    rw [← hreply]
    refine Function.update_of_ne ?_ ..
    rintro hdi
    exact hi reply (hdi ▸ hreply)

/-- `UpdatePassword` changes the user of a token that was consumed by the same
request, for the first time. -/
theorem Kept.change (h : Kept users s) {i : ι} {input : ResetPasswordRequest} {userID : Int64}
    {hash : String} {users' : MemoryUserStore} {reply : Reply}
    (hpc : s.pc i = .updating input userID)
    (hupdate : s.users.updatePassword userID.toInt hash = (users', .ok ())) :
    Kept users
      { s.setPc i (.resetDone reply) with
        users := users'
        changed := s.changed ++ [⟨i, input.token, userID⟩] } := by
  obtain ⟨now, hc⟩ := h.updating i input userID hpc
  have hmoved : Kept users (s.setPc i (.resetDone reply)) :=
    h.move i _ rfl (by simp [hpc]) (by simp) rfl rfl rfl rfl
  refine { hmoved with changed := ?_, changed_once := ?_, users := ?_ }
  · intro d hd
    rcases List.mem_append.mp hd with hold | hnew
    · exact hmoved.changed d hold
    · cases List.mem_singleton.mp hnew
      exact ⟨⟨now, hc⟩, reply, Function.update_self ..⟩
  · rw [List.map_append, List.nodup_append]
    refine ⟨h.changed_once, by simp, ?_⟩
    intro token htoken token' htoken' heq
    obtain ⟨d, hd, rfl⟩ := List.mem_map.mp htoken
    simp only [List.map_cons, List.map_nil, List.mem_singleton] at htoken'
    -- one request has consumed the token, and it has not changed anything yet
    obtain ⟨⟨now', hc'⟩, reply', hreply'⟩ := h.changed d hd
    have hsame := List.inj_on_of_nodup_map h.consumed_once hc hc' (htoken'.symm.trans heq.symm)
    have hreq : i = d.request := congrArg Consumed.request hsame
    rw [← hreq, hpc] at hreply'
    cases hreply'
  · intro id hid
    simp only [List.mem_append, List.mem_singleton] at hid
    have hne : id ≠ userID.toInt := (hid _ (.inr rfl)).symm
    have hsame := @getByID_updatePassword s.users userID.toInt id hash hne
    rw [hupdate] at hsame
    exact hsame.trans (h.users id fun d hd => hid d (.inl hd))

theorem step_kept (hts : ts.Lawful holds reads) (hfollows : ∃ place, Follows holds reads s place)
    (hs : Kept users s) (hfresh : s.Fresh a) (hstep : s.step env auth ttl ts reqs a = some s') :
    Kept users s' := by
  obtain ⟨place, hplace⟩ := hfollows
  cases State.steps_of_step hstep with
  | @moved a i p hidle hp =>
    refine hs.move i p rfl ?_ ?_ rfl rfl rfl rfl
    · intro reply hreply
      rw [hreply] at hidle
      exact hidle
    · rintro input userID rfl
      rcases hp with hp | ⟨reply, ⟨⟩⟩
      exact hp
  | @issued i user token now tokens' token' expiresAt answer hpc hissue =>
    have hmoved : Kept users (s.setPc i (.forgotDone answer)) :=
      hs.move i _ rfl (by simp [hpc]) (by simp) rfl rfl rfl rfl
    refine hmoved.issue tokens' ?_
    rcases hts.issue _ _ _ _ _ _ _ _ hissue with ⟨rfl, -⟩ | ⟨rfl, -⟩
    · exact .inr hfresh.2
    · exact .inl rfl
  | @missed i input tokens' reply hpc htake =>
    exact hs.move i _ rfl (by simp [hpc]) (by simp) rfl rfl rfl rfl
  | @taken i input tokens' taken hpc htake =>
    exact hs.move i _ rfl (by simp [hpc]) (by simp) rfl rfl rfl rfl
  | @expired i input taken now reply hpc hcheck =>
    exact hs.move i _ rfl (by simp [hpc]) (by simp) rfl rfl rfl rfl
  | @consumed i input taken now userID hpc hcheck =>
    obtain ⟨t, ht, huser, hnow⟩ := hts.check _ _ _ hcheck
    have htaken : place input.token = .taken i t := hplace.checking i input taken t hpc ht
    obtain ⟨hne, hissued⟩ := hplace.issued input.token t (by rw [htaken]; rfl)
    refine hs.consume (by simp [hpc]) hne hissued huser hnow fun c hc heq => ?_
    have hspent := hplace.consumed c hc
    rw [heq, htaken] at hspent
    cases hspent
  | @failed i input userID reply hpc =>
    exact hs.move i _ rfl (by simp [hpc]) (by simp) rfl rfl rfl rfl
  | @changed i input userID hash users' reply hpc hupdate => exact hs.change hpc hupdate
  | @evicted key => exact { hs with }

end Kept

/-! ## Single use -/

/-- What becomes of the tokens that were issued. Each is consumed by at most
one request, for the user it was issued for and not after the expiry it was
announced with, and changes at most one password, of that user; and the
passwords of all other users are what they were. -/
structure SingleUse (users : MemoryUserStore) (s : State ι σ τ) : Prop where
  consumed_once : ∀ g ∈ s.issued, (s.consumed.filter fun c => c.token = g.token).length ≤ 1
  consumed_for : ∀ g ∈ s.issued, ∀ c ∈ s.consumed, c.token = g.token →
    c.userID = g.entry.userID ∧ c.now ≤ g.entry.expiresAt
  consumed_issued : ∀ c ∈ s.consumed, ∃ g ∈ s.issued, g.token = c.token
  changed_once : ∀ g ∈ s.issued, (s.changed.filter fun d => d.token = g.token).length ≤ 1
  changed_for : ∀ g ∈ s.issued, ∀ d ∈ s.changed, d.token = g.token → d.userID = g.entry.userID
  changed_consumed : ∀ d ∈ s.changed, ∃ c ∈ s.consumed,
    c.request = d.request ∧ c.token = d.token ∧ c.userID = d.userID
  users : ∀ id, (∀ d ∈ s.changed, d.userID.toInt ≠ id) → s.users.getByID id = users.getByID id

theorem length_filter_le_one {α : Type} {f : α → String} {l : List α} (h : (l.map f).Nodup)
    (y : String) : (l.filter fun x => f x = y).length ≤ 1 := by
  have hcount : (l.filter fun x => f x = y).length = (l.map f).count y := by
    rw [← List.countP_eq_length_filter, List.count, List.countP_map]
    exact List.countP_congr fun x _ => by simp
  rw [hcount]
  exact List.nodup_iff_count_le_one.mp h y

omit [DecidableEq ι] in
theorem Kept.singleUse {users : MemoryUserStore} {s : State ι σ τ} (h : Kept users s) :
    SingleUse users s := by
  have hfor : ∀ g ∈ s.issued, ∀ c ∈ s.consumed, c.token = g.token →
      c.userID = g.entry.userID ∧ c.now ≤ g.entry.expiresAt := by
    intro g hg c hc heq
    obtain ⟨hne, t, ht, huser, hnow⟩ := h.consumed c hc
    cases h.issued_once _ ht g hg heq hne
    exact ⟨huser.symm, hnow⟩
  constructor
  · exact fun g _ => length_filter_le_one h.consumed_once g.token
  · exact hfor
  · intro c hc
    obtain ⟨-, t, ht, -⟩ := h.consumed c hc
    exact ⟨_, ht, rfl⟩
  · exact fun g _ => length_filter_le_one h.changed_once g.token
  · intro g hg d hd heq
    obtain ⟨⟨now, hc⟩, -⟩ := h.changed d hd
    exact (hfor g hg _ hc heq).1
  · intro d hd
    obtain ⟨⟨now, hc⟩, -⟩ := h.changed d hd
    exact ⟨_, hc, rfl, rfl, rfl⟩
  · exact h.users

section Runs

variable {env : Env} {auth : AuthHandler} {ttl : Duration} {ts : TokenStore σ τ} {reqs : ι → Req}
  {holds : σ → String → Option ResetToken} {reads : τ → Option ResetToken}
  {users : MemoryUserStore} {tokens : σ} {s : State ι σ τ} {as : List (Act ι)}

/-- Over any lawful store that starts empty. -/
theorem singleUse_of_lawful (hts : ts.Lawful holds reads)
    (hempty : ∀ token, holds tokens token = none)
    (hfresh : Along (State.step env auth ttl ts reqs) State.Fresh (.init users tokens) as)
    (hrun : run (State.step env auth ttl ts reqs) (.init users tokens) as = some s) :
    SingleUse users s := by
  have hinv : (∃ place, Follows holds reads s place) ∧ Kept users s := by
    refine hfresh.invariant
      (I := fun s => (∃ place, Follows holds reads s place) ∧ Kept users s) ?_ ?_ hrun
    · rintro s a s' ⟨hfollows, hkept⟩ hfresh hstep
      exact ⟨step_follows hts hfollows hfresh hstep, step_kept hts hfollows hkept hfresh hstep⟩
    · refine ⟨⟨fun _ => .unissued, ?_⟩, ?_⟩
      · constructor <;> simp [State.init, hempty, Place.entry]
      · constructor <;> simp [State.init]
  exact hinv.2.singleUse

end Runs

/-- **Reset tokens are single-use.** For all requests, all user stores and all
interleavings, with random tokens that are not empty and were not issued
before, over the in-memory token store and over the Redis store. -/
theorem reset_tokens_single_use (env : Env) (auth : AuthHandler) (ttl : Duration)
    (reqs : ι → Req) (users : MemoryUserStore) (as : List (Act ι)) :
    (∀ s, run (State.step env auth ttl ResetTokenStore.tokenStore reqs) (.init users .new) as =
        some s →
      Along (State.step env auth ttl ResetTokenStore.tokenStore reqs) State.Fresh
        (.init users .new) as →
      SingleUse users s) ∧
    ∀ (c : TokenCodec π), c.RoundTrips →
      ∀ s, run (State.step env auth ttl (RedisResetTokenStore.tokenStore c) reqs)
          (.init users ⟨fun _ => none⟩) as = some s →
        Along (State.step env auth ttl (RedisResetTokenStore.tokenStore c) reqs) State.Fresh
          (.init users ⟨fun _ => none⟩) as →
        SingleUse users s := by
  constructor
  · intro s hrun hfresh
    exact singleUse_of_lawful ResetTokenStore.lawful_tokenStore (fun _ => rfl) hfresh hrun
  · intro c hc s hrun hfresh
    exact singleUse_of_lawful (RedisResetTokenStore.lawful_tokenStore hc) (fun _ => rfl) hfresh
      hrun

/-- Two requests with one token: the one that is first at the store changes the
password, the other is refused. -/
theorem reset_tokens_single_use_raced :
    (∃ s, run (State.step (Sample.env []) Sample.handler 60 ResetTokenStore.tokenStore sampleReqs)
        (.init sampleUsers .new) sampleRun = some s ∧
      (s.pc 2).status = some 204 ∧ (s.pc 1).status = some 401 ∧
      s.users.getByID 1 = .ok ⟨1, "Ada", "ada@example.com", "hash of three"⟩ ∧
      SingleUse sampleUsers s) ∧
    ∃ s, run (State.step (Sample.env []) Sample.handler 60
          (RedisResetTokenStore.tokenStore TokenCodec.json) sampleReqs)
        (.init sampleUsers ⟨fun _ => none⟩) sampleRun = some s ∧
      (s.pc 2).status = some 204 ∧ (s.pc 1).status = some 401 ∧
      SingleUse sampleUsers s := by
  obtain ⟨hmemory, hredis⟩ := @reset_tokens_single_use Nat Encoding.Document _
    (Sample.env []) Sample.handler 60 sampleReqs sampleUsers sampleRun
  constructor
  · have hends : ∃ s, run (State.step (Sample.env []) Sample.handler 60 ResetTokenStore.tokenStore
          sampleReqs) (.init sampleUsers .new) sampleRun = some s ∧
        (s.pc 2).status = some 204 ∧ (s.pc 1).status = some 401 ∧
        s.users.users = [⟨1, "Ada", "ada@example.com", "hash of three"⟩] :=
      exists_run_of_any (by decide +kernel)
    obtain ⟨s, hrun, hfirst, hsecond, husers⟩ := hends
    refine ⟨s, hrun, hfirst, hsecond, ?_, hmemory s hrun (by decide +kernel)⟩
    rw [getByID, husers]
    rfl
  · have hends : ∃ s, run (State.step (Sample.env []) Sample.handler 60
          (RedisResetTokenStore.tokenStore TokenCodec.json) sampleReqs)
          (.init sampleUsers ⟨fun _ => none⟩) sampleRun = some s ∧
        (s.pc 2).status = some 204 ∧ (s.pc 1).status = some 401 :=
      exists_run_of_any (by decide +kernel)
    obtain ⟨s, hrun, hfirst, hsecond⟩ := hends
    exact ⟨s, hrun, hfirst, hsecond,
      hredis TokenCodec.json TokenCodec.roundTrips_json s hrun (by decide +kernel)⟩

end PasswordReset

end GoRestApi.Handler
