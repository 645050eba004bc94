/-
GoRestApi.Auth.Blacklist — the token blacklists of
`internal/auth/blacklist.go`, in memory and in Redis.

`IsRevoked` of the first forgets an entry whose time has passed, so it is a
function to the new blacklist as well.

`Revoke` of the second is cut in two, at its command: it reads the clock for
the time that the token has left, and then sends `SET`. How a command ends is
an argument. The error of `SET` is not looked at, and an error of `EXISTS`
counts as a token that is not revoked.
-/
import GoRestApi.Redis.Keyspace

namespace GoRestApi.Auth

open Go

structure MemoryBlacklist where
  entries : String → Option Time

namespace MemoryBlacklist

def new : MemoryBlacklist := ⟨fun _ => none⟩

def revoke (b : MemoryBlacklist) (jti : String) (expiresAt : Time) : MemoryBlacklist :=
  if jti = "" then b else ⟨Function.update b.entries jti (some expiresAt)⟩

def isRevoked (b : MemoryBlacklist) (now : Time) (jti : String) : MemoryBlacklist × Bool :=
  if jti = "" then (b, false)
  else
    match b.entries jti with
    | none => (b, false)
    | some exp =>
      if now > exp then (⟨Function.update b.entries jti none⟩, false) else (b, true)

theorem entries_revoke_self (b : MemoryBlacklist) {jti : String} (hjti : jti ≠ "") (exp : Time) :
    (b.revoke jti exp).entries jti = some exp := by
  simp [revoke, hjti]

theorem entries_revoke_of_ne (b : MemoryBlacklist) {jti jti' : String} (h : jti' ≠ jti)
    (exp : Time) : (b.revoke jti exp).entries jti' = b.entries jti' := by
  unfold revoke
  split
  · rfl
  · exact Function.update_of_ne h ..

/-- **What asking does.** The blacklist stays as it is, or it forgets the
entry that was asked about, whose time has passed. -/
theorem isRevoked_cases (b : MemoryBlacklist) (now : Time) (jti : String) :
    (b.isRevoked now jti).1 = b ∨
      ∃ exp, b.entries jti = some exp ∧ exp < now ∧
        (b.isRevoked now jti).1 = ⟨Function.update b.entries jti none⟩ := by
  unfold isRevoked
  split
  · exact .inl rfl
  · split
    · exact .inl rfl
    · rename_i exp he
      split
      · exact .inr ⟨exp, he, ‹_›, rfl⟩
      · exact .inl rfl

/-- Asking about one token leaves what is known of the others. -/
theorem entries_isRevoked_of_ne (b : MemoryBlacklist) {jti jti' : String} (h : jti' ≠ jti)
    (now : Time) : (b.isRevoked now jti).1.entries jti' = b.entries jti' := by
  rcases b.isRevoked_cases now jti with hb | ⟨_, _, _, hb⟩
  · rw [hb]
  · rw [hb]
    exact Function.update_of_ne h ..

/-- Asking adds no entry. -/
theorem entries_of_isRevoked {b : MemoryBlacklist} {now exp : Time} {jti jti' : String}
    (h : (b.isRevoked now jti).1.entries jti' = some exp) : b.entries jti' = some exp := by
  rcases b.isRevoked_cases now jti with hb | ⟨_, _, _, hb⟩
  · rwa [hb] at h
  · rw [hb] at h
    by_cases hj : jti' = jti
    · subst hj
      simp at h
    · simpa [Function.update_of_ne hj] using h

theorem entries_isRevoked_eq_none {b : MemoryBlacklist} {jti' : String}
    (h : b.entries jti' = none) (now : Time) (jti : String) :
    (b.isRevoked now jti).1.entries jti' = none := by
  by_contra hne
  obtain ⟨exp, hexp⟩ := Option.ne_none_iff_exists'.1 hne
  rw [entries_of_isRevoked hexp] at h
  cases h

/-- An entry that is gone after asking had run out. -/
theorem entries_isRevoked_of_live {b : MemoryBlacklist} {now exp : Time} {jti jti' : String}
    (h : b.entries jti' = some exp) (hlive : now ≤ exp) :
    (b.isRevoked now jti).1.entries jti' = some exp := by
  rcases b.isRevoked_cases now jti with hb | ⟨exp', he, hlt, hb⟩
  · rwa [hb]
  · have hj : jti' ≠ jti := by
      rintro rfl
      rw [h] at he
      cases he
      exact absurd hlive (Int.not_le.mpr hlt)
    rw [entries_isRevoked_of_ne b hj, h]

theorem isRevoked_of_none {b : MemoryBlacklist} {jti : String} (he : b.entries jti = none)
    (now : Time) : b.isRevoked now jti = (b, false) := by
  unfold isRevoked
  split
  · rfl
  · rw [he]

/-- A positive answer changes nothing. -/
theorem isRevoked_fst_of_true {b : MemoryBlacklist} {jti : String} {now : Time}
    (h : (b.isRevoked now jti).2 = true) : (b.isRevoked now jti).1 = b := by
  unfold isRevoked at h ⊢
  split
  · rfl
  · split
    · rfl
    · split
      · simp_all
      · rfl

/-- What a negative answer means for the entry of a token. -/
theorem isRevoked_eq_false_iff {b : MemoryBlacklist} {jti : String} (hjti : jti ≠ "")
    {now : Time} :
    (b.isRevoked now jti).2 = false ↔ ∀ exp, b.entries jti = some exp → exp < now := by
  unfold isRevoked
  rw [if_neg hjti]
  cases he : b.entries jti with
  | none => simp
  | some exp =>
    by_cases hlate : now > exp
    · refine iff_of_true (by simp [hlate]) ?_
      intro exp' he'
      cases he'
      exact hlate
    · exact iff_of_false (by simp [hlate]) (fun h => hlate (h exp rfl))

end MemoryBlacklist

/-! ## In Redis -/

namespace RedisBlacklist

open RedisServer

def keyFor (jti : String) : String := "auth:blacklist:" ++ jti

/-- `Revoke` up to its command: the TTL, if there is something to set. -/
def timeLeft (jti : String) (expiresAt now : Time) : Option Duration :=
  if jti = "" then none
  else
    -- `time.Until`
    let ttl := Time.sub expiresAt now
    if ttl ≤ 0 then none else some ttl

/-- The command of `Revoke`. -/
def revoke (r : Keyspace String) (now : Time) (jti : String) (ttl : Duration) (e : CommandEnd) :
    Keyspace String :=
  match e with
  | .refused => r
  | .answered | .lost => r.set now (keyFor jti) "1" (ttlMillis ttl)

def isRevoked (r : Keyspace String) (now : Time) (jti : String) (e : CommandEnd) : Bool :=
  if jti = "" then false
  else
    match e with
    | .answered => r.exist now (keyFor jti)
    | .refused | .lost => false

theorem keyFor_inj {jti jti' : String} : keyFor jti = keyFor jti' ↔ jti = jti' :=
  String.append_right_inj _

theorem timeLeft_eq_some {jti : String} {expiresAt now : Time} {ttl : Duration}
    (h : timeLeft jti expiresAt now = some ttl) :
    jti ≠ "" ∧ 0 < ttl ∧ ttl = Time.sub expiresAt now := by
  unfold timeLeft at h
  split at h
  · cases h
  · dsimp only at h
    split at h
    · cases h
    · rename_i hjti httl
      cases h
      exact ⟨hjti, Int.not_le.mp httl, rfl⟩

end RedisBlacklist

end GoRestApi.Auth
