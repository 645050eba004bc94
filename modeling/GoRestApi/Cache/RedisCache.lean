/-
GoRestApi.Cache.RedisCache — the cache of `internal/cache/redis.go`, and how
its answers compare with those of `MemoryCache`.

`main` takes the one or the other behind one interface, with one TTL for all
entries. An entry of `MemoryCache` is over at the instant its TTL ends. Redis
counts milliseconds: the client rounds the TTL down, the server rounds the
instant of the `SET` down and keeps the key through its last millisecond. So the
key may be gone up to a millisecond early, and stay for less than two
milliseconds.

`redis_cache_between` says that nothing else is different. Over any sequence of
commands, Redis answers at least what a `MemoryCache` would whose TTL is one
millisecond shorter, and at most what one would whose TTL is two milliseconds
longer; and the value is the same.

The three are run at the same instants, and no command fails.
-/
import GoRestApi.Cache.UserCache
import GoRestApi.Lts.Run
import GoRestApi.Redis.Keyspace

namespace GoRestApi.Cache

open Go Lts RedisServer

/-! ## `RedisCache` -/

/-- The errors of `Get`: `ErrMiss`, and any other of the client. -/
inductive CacheError where
  | miss
  | redisGet (msg : String)
  deriving DecidableEq, Repr

def CacheError.message : CacheError → String
  | .miss => "cache miss"
  | .redisGet msg => "redis get: " ++ msg

namespace RedisCache

variable {π : Type}

/-- `Get`; `failure` is an error of the client other than `redis.Nil`. -/
def get (r : Keyspace π) (now : Time) (failure : Option String) (key : String) :
    Except CacheError π :=
  match failure with
  | some msg => .error (.redisGet msg)
  | none =>
    match r.get now key with
    | none => .error .miss
    | some val => .ok val

/-- `Set`, with the end of its command. -/
def set (r : Keyspace π) (now : Time) (key : String) (value : π) (ttl : Duration)
    (ended : CommandEnd) : Keyspace π :=
  if ttl ≤ 0 then r
  else
    match ended with
    | .refused => r
    | .answered | .lost => r.set now key value (ttlMillis ttl)

def delete (r : Keyspace π) (key : String) (ended : CommandEnd) : Keyspace π :=
  match ended with
  | .refused => r
  | .answered | .lost => r.del key

theorem get_ok_iff {r : Keyspace π} {now : Time} {key : String} {v : π} :
    get r now none key = .ok v ↔
      ∃ k, r.keys key = some k ∧ mstime now ≤ k.expireAt ∧ k.value = v := by
  simp only [get, Keyspace.get]
  cases hlookup : r.lookup now key with
  | none =>
    refine iff_of_false (by simp) ?_
    rintro ⟨k, hk, hlive, -⟩
    rw [Keyspace.lookup_eq_some_iff.mpr ⟨hk, hlive⟩] at hlookup
    cases hlookup
  | some k =>
    obtain ⟨hk, hlive⟩ := Keyspace.lookup_eq_some_iff.mp hlookup
    simp [hk, hlive]

end RedisCache

/-! ## Between two in-memory caches -/

structure Tandem (π : Type) where
  now : Time
  redis : Keyspace π
  /-- with a TTL that is a millisecond shorter -/
  short : MemoryCache π
  /-- with a TTL that is two milliseconds longer -/
  long : MemoryCache π

inductive TandemAct (π : Type) where
  | get (key : String)
  | set (key : String) (value : π)
  | delete (key : String)
  /-- The server gives back the memory of a key that is gone. -/
  | reclaim (name : String)
  | tick (d : Duration)
  deriving DecidableEq, Repr

namespace Tandem

variable {π : Type}

def init (now : Time) : Tandem π := ⟨now, .empty, .new, .new⟩

def step (ttl : Duration) (s : Tandem π) : TandemAct π → Option (Tandem π)
  | .get key =>
    some { s with short := (s.short.get s.now key).1, long := (s.long.get s.now key).1 }
  | .set key value =>
    some { s with
      redis := RedisCache.set s.redis s.now key value ttl .answered
      short := s.short.set s.now key value (ttl - Time.millisecond)
      long := s.long.set s.now key value (ttl + 2 * Time.millisecond) }
  | .delete key =>
    some { s with
      redis := RedisCache.delete s.redis key .answered
      short := s.short.delete key
      long := s.long.delete key }
  | .reclaim name => some { s with redis := s.redis.reclaim s.now name }
  | .tick d => if 0 ≤ d then some { s with now := s.now + d } else none

/-- An entry of the in-memory cache that is not over by `now` is a key, with
its value and at least its time. -/
def Covers (now : Time) (m : MemoryCache π) (r : Keyspace π) : Prop :=
  ∀ key e, m.entries key = some e → now < e.expiresAt →
    ∃ k, r.keys key = some k ∧ k.value = e.value ∧ ∀ t, t < e.expiresAt → mstime t ≤ k.expireAt

/-- A key that exists at `now` is an entry of the in-memory cache, with its
value and at least its time. -/
def Covered (now : Time) (r : Keyspace π) (m : MemoryCache π) : Prop :=
  ∀ key k, r.keys key = some k → mstime now ≤ k.expireAt →
    ∃ e, m.entries key = some e ∧ e.value = k.value ∧ ∀ t, mstime t ≤ k.expireAt → t < e.expiresAt

/-- What is between the caches. A cache whose TTL is not positive holds
nothing. -/
structure Between (ttl : Duration) (s : Tandem π) : Prop where
  covers : Covers s.now s.short s.redis
  covered : Covered s.now s.redis s.long
  shortEmpty : ttl ≤ Time.millisecond → ∀ key, s.short.entries key = none
  redisEmpty : ttl ≤ 0 → ∀ key, s.redis.keys key = none

variable {ttl : Duration} {s : Tandem π}

theorem between_init (now : Time) : Between ttl (init now : Tandem π) where
  covers := by
    intro key e he
    cases he
  covered := by
    intro key k hk
    cases hk
  shortEmpty := fun _ _ => rfl
  redisEmpty := fun _ _ => rfl

/-- `Get` of an in-memory cache takes away an entry that is over, if any. -/
theorem entries_get_of_live {m : MemoryCache π} {now : Time} {key other : String} {e : Entry π}
    (he : m.entries other = some e) (hlive : now < e.expiresAt) :
    (m.get now key).1.entries other = some e := by
  unfold MemoryCache.get
  split
  · exact he
  · rename_i e' he'
    split
    · rename_i hover
      have hne : other ≠ key := by
        intro heq
        rw [heq, he'] at he
        exact hover (Option.some.inj he ▸ hlive)
      exact (Function.update_of_ne hne ..).trans he
    · exact he

theorem Between.get (h : Between ttl s) (key : String) :
    Between ttl { s with
      short := (s.short.get s.now key).1, long := (s.long.get s.now key).1 } where
  covers := fun other e he => h.covers other e (MemoryCache.entries_of_get rfl he)
  covered := by
    intro other k hk hexists
    obtain ⟨e, he, hvalue, htime⟩ := h.covered other k hk hexists
    exact ⟨e, entries_get_of_live he (htime s.now hexists), hvalue, htime⟩
  shortEmpty := by
    intro httl other
    cases he : (s.short.get s.now key).1.entries other with
    | none => rfl
    | some e =>
      have hold := MemoryCache.entries_of_get rfl he
      rw [h.shortEmpty httl other] at hold
      cases hold
  redisEmpty := h.redisEmpty

/-- The new key lasts at least as long as the new entry of the shorter cache. -/
theorem Covers.set {now : Time} {m : MemoryCache π} {r : Keyspace π} (h : Covers now m r)
    (hpos : 0 < ttl) (hempty : ttl ≤ Time.millisecond → ∀ key, m.entries key = none)
    (key : String) (value : π) :
    Covers now (m.set now key value (ttl - Time.millisecond))
      (r.set now key value (ttlMillis ttl)) := by
  intro other e he hlive
  by_cases hskip : ttl - Time.millisecond ≤ 0
  · have hsame : m.set now key value (ttl - Time.millisecond) = m := if_pos hskip
    rw [hsame, hempty (Int.le_of_sub_nonpos hskip) other] at he
    cases he
  · by_cases hother : other = key
    · subst hother
      simp only [MemoryCache.set, if_neg hskip, Function.update_self, Option.some.injEq] at he
      subst he
      refine ⟨_, Keyspace.keys_set_self _, rfl, fun t ht => alive_of_le hpos ?_⟩
      dsimp only [Time, Duration, Time.millisecond] at ht ⊢
      omega
    · rcases MemoryCache.entries_of_set he with ⟨heq, -⟩ | hold
      · exact absurd heq hother
      · rw [Keyspace.keys_set_of_ne hother]
        exact h other e hold hlive

/-- The new entry of the longer cache lasts longer than the new key. -/
theorem Covered.set {now : Time} {m : MemoryCache π} {r : Keyspace π} (h : Covered now r m)
    (hpos : 0 < ttl) (key : String) (value : π) :
    Covered now (r.set now key value (ttlMillis ttl))
      (m.set now key value (ttl + 2 * Time.millisecond)) := by
  have hlong : ¬ ttl + 2 * Time.millisecond ≤ 0 := by
    dsimp only [Duration, Time.millisecond] at hpos ⊢
    omega
  intro other k hk hexists
  by_cases hother : other = key
  · subst hother
    rw [Keyspace.keys_set_self] at hk
    cases hk
    refine ⟨⟨value, now + (ttl + 2 * Time.millisecond)⟩, ?_, rfl, fun t ht => ?_⟩
    · simp [MemoryCache.set, hlong]
    · have hlt := lt_of_alive hpos ht
      dsimp only [Time, Duration, Time.millisecond] at hlt ⊢
      omega
  · rw [Keyspace.keys_set_of_ne hother] at hk
    obtain ⟨e, he, hrest⟩ := h other k hk hexists
    refine ⟨e, ?_, hrest⟩
    simpa [MemoryCache.set, hlong, Function.update_of_ne hother] using he

theorem Between.set (h : Between ttl s) (key : String) (value : π) :
    Between ttl { s with
      redis := RedisCache.set s.redis s.now key value ttl .answered
      short := s.short.set s.now key value (ttl - Time.millisecond)
      long := s.long.set s.now key value (ttl + 2 * Time.millisecond) } := by
  have hskip : ttl ≤ Time.millisecond →
      s.short.set s.now key value (ttl - Time.millisecond) = s.short :=
    fun hle => if_pos (Int.sub_nonpos_of_le hle)
  by_cases httl : ttl ≤ 0
  · -- nothing is set, in Redis and in the shorter one
    have hmillis : ttl ≤ Time.millisecond := Int.le_trans httl (by decide)
    have hredis : RedisCache.set s.redis s.now key value ttl .answered = s.redis := if_pos httl
    rw [hredis, hskip hmillis]
    refine ⟨h.covers, fun other k hk => ?_, h.shortEmpty, h.redisEmpty⟩
    rw [h.redisEmpty httl other] at hk
    cases hk
  · have hpos : 0 < ttl := Int.not_le.mp httl
    have hredis : RedisCache.set s.redis s.now key value ttl .answered =
        s.redis.set s.now key value (ttlMillis ttl) := if_neg httl
    rw [hredis]
    refine ⟨h.covers.set hpos h.shortEmpty key value, h.covered.set hpos key value,
      fun hmillis => ?_, fun hle => absurd hle httl⟩
    rw [hskip hmillis]
    exact h.shortEmpty hmillis

theorem Between.delete (h : Between ttl s) (key : String) :
    Between ttl { s with
      redis := s.redis.del key, short := s.short.delete key, long := s.long.delete key } where
  covers := by
    intro other e he hlive
    obtain ⟨hne, hold⟩ := MemoryCache.entries_of_delete he
    simpa [Keys.del, Function.update_of_ne hne] using h.covers other e hold hlive
  covered := by
    intro other k hk hexists
    by_cases hother : other = key
    · simp [Keys.del, hother] at hk
    · have hold : s.redis.keys other = some k := by
        simpa [Keys.del, Function.update_of_ne hother] using hk
      obtain ⟨e, he, hrest⟩ := h.covered other k hold hexists
      exact ⟨e, by simpa [MemoryCache.delete, Function.update_of_ne hother] using he, hrest⟩
  shortEmpty := by
    intro httl other
    by_cases hother : other = key
    · simp [MemoryCache.delete, hother]
    · simpa [MemoryCache.delete, Function.update_of_ne hother] using h.shortEmpty httl other
  redisEmpty := by
    intro httl other
    by_cases hother : other = key
    · simp [Keys.del, hother]
    · simpa [Keys.del, Function.update_of_ne hother] using h.redisEmpty httl other

theorem Between.reclaim (h : Between ttl s) (name : String) :
    Between ttl { s with redis := s.redis.reclaim s.now name } where
  covers := by
    intro other e he hlive
    obtain ⟨k, hk, hvalue, htime⟩ := h.covers other e he hlive
    rcases s.redis.keys_reclaim_cases s.now name other with hsame | ⟨-, hgone⟩
    · exact ⟨k, hsame.trans hk, hvalue, htime⟩
    · rw [Keyspace.lookup_eq_some_iff.mpr ⟨hk, htime s.now hlive⟩] at hgone
      cases hgone
  covered := by
    intro other k hk hexists
    rcases s.redis.keys_reclaim_cases s.now name other with hsame | ⟨hnone, -⟩
    · exact h.covered other k (hsame ▸ hk) hexists
    · rw [hnone] at hk
      cases hk
  shortEmpty := h.shortEmpty
  redisEmpty := by
    intro httl other
    rcases s.redis.keys_reclaim_cases s.now name other with hsame | ⟨hnone, -⟩
    · exact hsame.trans (h.redisEmpty httl other)
    · exact hnone

theorem Between.tick (h : Between ttl s) {d : Duration} (hd : 0 ≤ d) :
    Between ttl { s with now := s.now + d } := by
  have hle : s.now ≤ s.now + d := Int.le_add_of_nonneg_right hd
  refine ⟨fun key e he hlive => h.covers key e he (Int.lt_of_le_of_lt hle hlive), ?_,
    h.shortEmpty, h.redisEmpty⟩
  intro key k hk hexists
  have hlookup := Keyspace.lookup_of_le hle (Keyspace.lookup_eq_some_iff.mpr ⟨hk, hexists⟩)
  exact h.covered key k hk (Keyspace.lookup_eq_some_iff.mp hlookup).2

theorem step_between (s : Tandem π) (a : TandemAct π) (s' : Tandem π) (hs : Between ttl s)
    (h : s.step ttl a = some s') : Between ttl s' := by
  cases a with
  | get key => cases h; exact hs.get key
  | set key value => cases h; exact hs.set key value
  | delete key => cases h; exact hs.delete key
  | reclaim name => cases h; exact hs.reclaim name
  | tick d =>
    simp only [step] at h
    split at h
    · rename_i hd
      cases h
      exact hs.tick hd
    · cases h

/-- **The Redis cache is between two in-memory ones.** After any commands, at
the same instants, a `Get` that hits in an in-memory cache whose TTL is a
millisecond shorter hits in Redis, with the same value; and one that hits in
Redis hits in an in-memory cache whose TTL is two milliseconds longer, with
the same value. -/
theorem redis_cache_between {now : Time} {as : List (TandemAct π)} {s : Tandem π}
    (hrun : run (step ttl) (init now) as = some s) (key : String) (v : π) :
    ((s.short.get s.now key).2 = some v → RedisCache.get s.redis s.now none key = .ok v) ∧
      (RedisCache.get s.redis s.now none key = .ok v → (s.long.get s.now key).2 = some v) := by
  have hs : Between ttl s := run_invariant step_between (between_init now) hrun
  rw [RedisCache.get_ok_iff]
  constructor
  · intro hhit
    obtain ⟨-, e, he, rfl, hlive⟩ := MemoryCache.get_eq_some (Prod.ext rfl hhit)
    obtain ⟨k, hk, hvalue, htime⟩ := hs.covers key e he hlive
    exact ⟨k, hk, htime s.now hlive, hvalue⟩
  · rintro ⟨k, hk, hexists, rfl⟩
    obtain ⟨e, he, hvalue, htime⟩ := hs.covered key k hk hexists
    simp [MemoryCache.get, he, htime s.now hexists, hvalue]

/-- Just before its TTL of three milliseconds is over an entry is a hit in
Redis, and so it is in the longer cache, but not in the shorter one. -/
theorem redis_cache_between_last :
    ∃ s, run (step (3 * Time.millisecond)) (init 0)
        [.set "user:1" "ada", .tick (5 * Time.millisecond / 2), .get "user:1"] = some s ∧
      (s.short.get s.now "user:1").2 = none ∧
      RedisCache.get s.redis s.now none "user:1" = .ok "ada" ∧
      (s.long.get s.now "user:1").2 = some "ada" := by
  obtain ⟨s, hrun, hshort, hredis⟩ : ∃ s, run (step (3 * Time.millisecond)) (init 0)
        [.set "user:1" "ada", .tick (5 * Time.millisecond / 2), .get "user:1"] = some s ∧
      (s.short.get s.now "user:1").2 = none ∧
      RedisCache.get s.redis s.now none "user:1" = .ok "ada" :=
    exists_run_of_any (by decide +kernel)
  exact ⟨s, hrun, hshort, hredis, (redis_cache_between hrun "user:1" "ada").2 hredis⟩

end Tandem

end GoRestApi.Cache
