/-
GoRestApi.Idempotency.RedisExpiry — which keys of the Redis store expire.

`Save` writes an entry with `HSET` and its TTL with a second command,
`EXPIRE NX`, whose failure it does not report. A key that `HSET` has created
has no TTL until some call for that key gets its `EXPIRE NX` through; if none
does, the key stays for good. `ttl_bounded_iff` says that this is all that can
go wrong once the TTL is a second or more: all keys expire within the TTL
exactly if each `HSET` that created a key was followed by an `EXPIRE NX` for
it that succeeded.

That a key has no TTL is a latch (`Lts.latched_iff`): `HSET` sets it where the
key does not exist, and a successful `EXPIRE NX` clears it. Below one second
the client rounds up, and the TTL that is set is longer than the configured
one (`not_ttlBounded_of_subsecond`).
-/
import GoRestApi.Idempotency.RedisRefinement

namespace GoRestApi.Idempotency

open Go Lts RedisServer

/-! ## What the commands do to a TTL -/

namespace Redis

variable {π : Type} {r : Redis π} {now : Time} {name name' : String} {k : HashKey π}

/-- The key exists, and will not expire. -/
def Bare (r : Redis π) (name : String) : Prop := ∃ data, r.keys name = some ⟨data, none⟩

theorem Bare.get (h : r.Bare name) (now : Time) : ∃ data, r.get now name = some ⟨data, none⟩ :=
  h.imp fun _ hk => get_eq_some.mpr ⟨hk, rfl⟩

theorem bare_of_get {data : π} (h : r.get now name = some ⟨data, none⟩) : r.Bare name :=
  ⟨data, (get_eq_some.mp h).1⟩

@[simp] theorem bare_put_self : Bare (r.put name k) name ↔ k.expireAt = none := by
  obtain ⟨data, t⟩ := k
  simp [Bare]

theorem bare_put_of_ne (h : name' ≠ name) : Bare (r.put name k) name' ↔ r.Bare name' := by
  simp only [Bare, Keys.keys_put_of_ne h]

/-- A key has no TTL after `HSET` if it was created, or had none. -/
theorem bare_hset {data : π} :
    (r.hset now name data).Bare name' ↔
      name = name' ∧ r.get now name' = none ∨ r.Bare name' := by
  by_cases h : name' = name
  · subst h
    rw [hset, bare_put_self]
    rcases hget : r.get now name' with _ | ⟨data', _ | t⟩
    · simp
    · simp [bare_of_get hget]
    · have hnot : ¬ r.Bare name' := fun hb => by
        obtain ⟨d, hd⟩ := hb.get now
        simp [hget] at hd
      simp [hnot]
  · rw [hset, bare_put_of_ne h]
    simp [Ne.symm h]

/-- `EXPIRE NX` gives every key a TTL that it is for. -/
theorem bare_expireNX {seconds : Int} :
    (r.expireNX now name seconds).Bare name' ↔ r.Bare name' ∧ name ≠ name' := by
  by_cases h : name' = name
  · subst h
    simp only [ne_eq, not_true_eq_false, and_false, iff_false, expireNX]
    split
    next data hget => simp
    next hget =>
      intro hb
      obtain ⟨data, hd⟩ := hb.get now
      exact hget data hd
  · have hsame : (r.expireNX now name seconds).Bare name' ↔ r.Bare name' := by
      unfold expireNX
      split
      · exact bare_put_of_ne h
      · rfl
    simp [hsame, Ne.symm h]

/-- The instants at which keys expire are all at most `t`. -/
def ExpireBy (r : Redis π) (t : Time) : Prop :=
  ∀ name k t', r.keys name = some k → k.expireAt = some t' → t' ≤ t

theorem ExpireBy.mono {t t' : Time} (h : r.ExpireBy t) (hle : t ≤ t') : r.ExpireBy t' :=
  fun name k u hk hu => Int.le_trans (h name k u hk hu) hle

theorem ExpireBy.put {t : Time} (h : r.ExpireBy t) (hk : ∀ t', k.expireAt = some t' → t' ≤ t) :
    ExpireBy (r.put name k) t := by
  intro name' k' t' hk' ht'
  by_cases hname : name' = name
  · subst hname
    rw [Keys.keys_put_self] at hk'
    cases hk'
    exact hk t' ht'
  · rw [Keys.keys_put_of_ne hname] at hk'
    exact h name' k' t' hk' ht'

theorem ExpireBy.hset {t : Time} {data : π} (h : r.ExpireBy t) :
    (r.hset now name data).ExpireBy t := by
  refine h.put fun t' ht' => ?_
  obtain ⟨k, hk, hkt⟩ := Option.bind_eq_some_iff.mp ht'
  exact h name k t' (get_eq_some.mp hk).1 hkt

theorem ExpireBy.expireNX {t : Time} {seconds : Int} (h : r.ExpireBy t)
    (hle : now + seconds * Time.second ≤ t) : (r.expireNX now name seconds).ExpireBy t := by
  unfold Redis.expireNX
  split
  · refine h.put fun t' ht' => ?_
    cases ht'
    exact hle
  · exact h

end Redis

/-! ## What a step can do -/

namespace SaveSystem

variable {ι π : Type} [DecidableEq ι] {c : EntryCodec π} {st : RedisStore} {calls : SaveCalls ι}

/-- The cases of a step by what they do on the server. -/
inductive Steps (st : RedisStore) (calls : SaveCalls ι) (s : SaveSystem ι π) :
    SaveAct ι → SaveSystem ι π → Prop where
  | moved {a s'} : s'.redis = s.redis → s'.clock = s.clock →
      (∀ i, a ≠ .hset i none) → (∀ i, a ≠ .expire i none) → Steps st calls s a s'
  | hset {i data s'} : s'.redis = s.redis.hset s.clock (keyOf calls i) data →
      s'.clock = s.clock → Steps st calls s (.hset i none) s'
  | expire {i s'} : s'.redis = s.redis.expireNX s.clock (keyOf calls i) (formatSec st.ttl) →
      s'.clock = s.clock → Steps st calls s (.expire i none) s'
  | tick {now s'} : s.clock ≤ now → s'.redis = s.redis → s'.clock = now →
      Steps st calls s (.tick now) s'

/-- **Inversion.** A step is one of the cases. -/
theorem steps_of_step {s s' : SaveSystem ι π} {a : SaveAct ι}
    (h : s.step c st calls a = some s') : Steps st calls s a s' := by
  cases a with
  | begin i storedAt =>
    have hsame : s'.redis = s.redis ∧ s'.clock = s.clock := by
      simp only [step] at h
      split at h
      · split at h
        · cases h; exact ⟨rfl, rfl⟩
        · split at h <;> cases h <;> exact ⟨rfl, rfl⟩
      · cases h
    exact .moved hsame.1 hsame.2 (by simp) (by simp)
  | hset i redis =>
    simp only [step] at h
    split at h
    · cases redis with
      | some msg => cases h; exact .moved rfl rfl (by simp) (by simp)
      | none => cases h; exact .hset rfl rfl
    · cases h
  | expire i redis =>
    simp only [step] at h
    split at h
    · cases redis with
      | some msg => cases h; exact .moved rfl rfl (by simp) (by simp)
      | none => cases h; exact .expire rfl rfl
    · cases h
  | tick now =>
    simp only [step] at h
    split at h
    next hle => cases h; exact .tick hle rfl rfl
    next => cases h

/-- The steps of the call `i` with what the clock and Redis give it in `env`, up
to its return. -/
def stepsOf (c : EntryCodec π) (calls : SaveCalls ι) (i : ι) (env : SaveEnv) : List (SaveAct ι) :=
  if calls.key i = "" then [.begin i env.storedAt]
  else
    match c.marshal ⟨calls.response i, calls.requestHash i, env.storedAt⟩, env.hset with
    | .error _, _ => [.begin i env.storedAt]
    | .ok _, some _ => [.begin i env.storedAt, .tick env.hsetAt, .hset i env.hset]
    | .ok _, none =>
      [.begin i env.storedAt, .tick env.hsetAt, .hset i env.hset, .tick env.savedAt,
        .expire i env.expire]

/-- **The steps are those of `Save`.** The whole call leaves the server as its
steps do when no other call comes in between, and returns the same error. -/
theorem alone_save {s : SaveSystem ι π} {i : ι} {env : SaveEnv} (hpc : s.pc i = .start)
    (hhset : s.clock ≤ env.hsetAt) (hsaved : env.hsetAt ≤ env.savedAt) :
    ∃ s', run (step c st calls) s (stepsOf c calls i env) = some s' ∧
      (s'.redis, s'.pc i) =
        (st.save c s.redis env (calls.key i) (calls.requestHash i) (calls.response i)).map id
          SavePc.returned := by
  unfold stepsOf RedisStore.save
  by_cases hkey : calls.key i = ""
  · simp [hkey, run_cons, step, hpc, setPc]
  cases hdata : c.marshal ⟨calls.response i, calls.requestHash i, env.storedAt⟩ with
  | error msg => simp [hkey, hdata, run_cons, step, hpc, setPc]
  | ok data =>
    cases hh : env.hset with
    | some msg => simp [hkey, hdata, run_cons, step, hpc, setPc, hhset]
    | none =>
      cases env.expire <;>
        simp [hkey, hdata, run_cons, step, hpc, setPc, hhset, hsaved, keyOf]

/-! ## Invariants -/

/-- The step creates the key. -/
def Creates (calls : SaveCalls ι) (name : String) (s : SaveSystem ι π) (a : SaveAct ι) : Prop :=
  ∃ i, a = .hset i none ∧ keyOf calls i = name ∧ s.redis.get s.clock name = none

/-- The step is an `EXPIRE NX` for the key that succeeds. -/
def Expires (calls : SaveCalls ι) (name : String) (a : SaveAct ι) : Prop :=
  ∃ i, a = .expire i none ∧ keyOf calls i = name

/-- A key has no TTL after a step that created it, or if it had none and the
step has not given it one. -/
theorem bare_step {s s' : SaveSystem ι π} {a : SaveAct ι} (name : String)
    (h : s.step c st calls a = some s') :
    s'.redis.Bare name ↔ Creates calls name s a ∨ s.redis.Bare name ∧ ¬ Expires calls name a := by
  cases steps_of_step h with
  | moved hredis _ hnoHset hnoExpire =>
    have hcreates : ¬ Creates calls name s a := fun ⟨i, ha, _⟩ => hnoHset i ha
    have hexpires : ¬ Expires calls name a := fun ⟨i, ha, _⟩ => hnoExpire i ha
    simp [hredis, hcreates, hexpires]
  | hset hredis _ => simp [hredis, Redis.bare_hset, Creates, Expires]
  | expire hredis _ => simp [hredis, Redis.bare_expireNX, Creates, Expires]
  | tick _ hredis _ => simp [hredis, Creates, Expires]

/-- All TTLs are at most what is sent to `EXPIRE`. -/
def Within (st : RedisStore) (s : SaveSystem ι π) : Prop :=
  s.redis.ExpireBy (s.clock + formatSec st.ttl * Time.second)

theorem within_step {s s' : SaveSystem ι π} {a : SaveAct ι} (hin : Within st s)
    (h : s.step c st calls a = some s') : Within st s' := by
  unfold Within at hin ⊢
  cases steps_of_step h with
  | moved hredis hclock _ _ => rwa [hredis, hclock]
  | hset hredis hclock => rw [hredis, hclock]; exact hin.hset
  | expire hredis hclock => rw [hredis, hclock]; exact hin.expireNX (Int.le_refl _)
  | tick hle hredis hclock =>
    rw [hredis, hclock]
    exact hin.mono (Int.add_le_add_right hle _)

theorem within_run {now : Time} {as : List (SaveAct ι)} {s : SaveSystem ι π}
    (hrun : run (step c st calls) (init now) as = some s) : Within st s := by
  refine run_invariant (fun s a s' hin h => within_step hin h) ?_ hrun
  intro name k t hk
  cases hk

/-! ## Entries that expire -/

/-- Every key of the store that exists has a TTL, of at most the configured
one. -/
def TtlBounded (st : RedisStore) (s : SaveSystem ι π) : Prop :=
  ∀ key k, s.redis.get s.clock (RedisStore.keyFor key) = some k →
    ∃ t, k.expireAt = some t ∧ t - s.clock ≤ st.ttl

/-- Whole seconds are no more than the duration they are taken from, if that
is a second at least. -/
theorem formatSec_le {ttl : Duration} (h : Time.second ≤ ttl) :
    formatSec ttl * Time.second ≤ ttl := by
  have hnot : ¬ (0 < ttl ∧ ttl < Time.second) := fun hlt => Int.not_lt.mpr h hlt.2
  have hpos : 0 ≤ ttl := Int.le_trans (by decide) h
  rw [formatSec, if_neg hnot, Int.tdiv_eq_ediv_of_nonneg hpos]
  exact Int.ediv_mul_le _ (by decide)

omit [DecidableEq ι] in
/-- With a TTL of a second or more it is only keys without one that do not
expire in time. -/
theorem ttlBounded_iff_not_bare {s : SaveSystem ι π} (httl : Time.second ≤ st.ttl)
    (hin : Within st s) :
    TtlBounded st s ↔ ∀ key, ¬ s.redis.Bare (RedisStore.keyFor key) := by
  constructor
  · intro h key hbare
    obtain ⟨data, hget⟩ := hbare.get s.clock
    obtain ⟨t, ht, -⟩ := h key _ hget
    cases ht
  · rintro h key ⟨data, _ | t⟩ hget
    · exact absurd (Redis.bare_of_get hget) (h key)
    · have hle := hin _ _ t (Redis.get_eq_some.mp hget).1 rfl
      have hsec := formatSec_le httl
      refine ⟨t, rfl, ?_⟩
      dsimp only [Time, Duration] at *
      omega

/-- **When every entry expires.** In a state that concurrent calls of `Save`
have reached, with commands that failed and callers that stopped, every key
has a TTL of at most the configured one exactly if each `HSET` that created a
key was followed by an `EXPIRE NX` for that key that succeeded. -/
theorem ttl_bounded_iff {now : Time} {as : List (SaveAct ι)} {s : SaveSystem ι π}
    (httl : Time.second ≤ st.ttl)
    (hrun : run (step c st calls) (init now) as = some s) :
    TtlBounded st s ↔
      ∀ as₁ i as₂ u, as = as₁ ++ .hset i none :: as₂ →
        run (step c st calls) (init now) as₁ = some u →
        u.redis.get u.clock (keyOf calls i) = none →
        ∃ j, .expire j none ∈ as₂ ∧ keyOf calls j = keyOf calls i := by
  have hlatch : ∀ name, s.redis.Bare name ↔ _ := fun name =>
    latched_iff (B := fun s => s.redis.Bare name) (fun _ _ _ => bare_step name)
      (by simp [init, Redis.Bare, Keys.empty]) hrun
  rw [ttlBounded_iff_not_bare httl (within_run hrun)]
  constructor
  · intro h as₁ i as₂ u heq hu hget
    by_contra hno
    refine h (calls.key i) ((hlatch _).mpr ⟨as₁, _, as₂, u, heq, hu, ⟨i, rfl, rfl, hget⟩, ?_⟩)
    rintro b hb ⟨j, rfl, hj⟩
    exact hno ⟨j, hb, hj⟩
  · intro h key hbare
    obtain ⟨as₁, a, as₂, u, heq, hu, ⟨i, rfl, hkey, hget⟩, hnone⟩ := (hlatch _).mp hbare
    obtain ⟨j, hj, hjkey⟩ := h as₁ i as₂ u heq hu (by rw [hkey]; exact hget)
    exact hnone _ hj ⟨j, rfl, hjkey.trans hkey⟩

/-- Two calls of `Save` for one key. -/
def sampleSaves : SaveCalls (Fin 2) where
  key _ := "key-1"
  requestHash _ := "h"
  response _ := ⟨201, [7], "application/json"⟩

/-- The `EXPIRE NX` of the call that created the key fails, and that of the
other one, which has overwritten the entry, succeeds: the key has its TTL. -/
theorem ttl_bounded_by_second_save :
    ∃ s, run (step EntryCodec.json (.new Time.minute) sampleSaves) (init 0)
        [.begin 0 0, .begin 1 0, .hset 0 none, .hset 1 none, .expire 0 (some "timeout"),
          .expire 1 none] = some s ∧
      (∃ k, s.redis.get s.clock "idempotency:key-1" = some k) ∧
      TtlBounded (.new Time.minute) s := by
  obtain ⟨s, hrun, hget⟩ : ∃ s, run (step EntryCodec.json (.new Time.minute) sampleSaves) (init 0)
        [.begin 0 0, .begin 1 0, .hset 0 none, .hset 1 none, .expire 0 (some "timeout"),
          .expire 1 none] = some s ∧
      (s.redis.get s.clock "idempotency:key-1").isSome = true :=
    exists_run_of_any (by decide +kernel)
  refine ⟨s, hrun, Option.isSome_iff_exists.mp hget, (ttl_bounded_iff (by decide) hrun).mpr ?_⟩
  intro as₁ i as₂ u heq _ _
  refine ⟨1, ?_, rfl⟩
  -- the last action comes after every `HSET`
  have hlast : (as₁ ++ SaveAct.hset i none :: as₂).getLast? = some (.expire 1 none) := by
    rw [← heq]
    rfl
  rw [List.getLast?_append_cons, List.getLast?_cons] at hlast
  rcases List.eq_nil_or_concat as₂ with rfl | ⟨as₂, x, rfl⟩
  · simp at hlast
  · simp only [List.concat_eq_append, List.getLast?_append, List.getLast?_singleton,
      Option.some_or, Option.getD_some, Option.some.injEq] at hlast
    simp [hlast]

/-- A call of `Save` creates the key, and its `EXPIRE NX` fails: the call
reports no error, and a thousand years later the key is still there, without a
TTL. -/
theorem entry_never_expires :
    ∃ s : SaveSystem (Fin 2) _,
      run (step EntryCodec.json (.new Time.minute) sampleSaves) (init 0)
        [.begin 0 0, .hset 0 none, .expire 0 (some "timeout"),
          .tick (1000 * 365 * 24 * 60 * Time.minute)] = some s ∧
      s.pc 0 = .returned none ∧
      (∃ k, s.redis.get s.clock "idempotency:key-1" = some k ∧ k.expireAt = none) ∧
      ¬ TtlBounded (.new Time.minute) s := by
  obtain ⟨s, hrun, hpc, hget⟩ : ∃ s : SaveSystem (Fin 2) _,
      run (step EntryCodec.json (.new Time.minute) sampleSaves) (init 0)
        [.begin 0 0, .hset 0 none, .expire 0 (some "timeout"),
          .tick (1000 * 365 * 24 * 60 * Time.minute)] = some s ∧
      s.pc 0 = .returned none ∧
      ∃ k, k ∈ s.redis.get s.clock "idempotency:key-1" ∧ k.expireAt = none :=
    exists_run_of_any (by decide +kernel)
  obtain ⟨k, hk, hbare⟩ := hget
  refine ⟨s, hrun, hpc, ⟨k, hk, hbare⟩, fun h => ?_⟩
  obtain ⟨t, ht, -⟩ := h "key-1" k hk
  rw [hbare] at ht
  cases ht

/-- With a TTL below a second even an `EXPIRE NX` that succeeds gives the key a
longer one: the client sends a whole second. -/
theorem not_ttlBounded_of_subsecond {s s' : SaveSystem ι π} {i : ι} (hpos : 0 < st.ttl)
    (httl : st.ttl < Time.second) (hbare : s.redis.Bare (keyOf calls i))
    (h : s.step c st calls (.expire i none) = some s') : ¬ TtlBounded st s' := by
  obtain ⟨data, hget⟩ := hbare.get s.clock
  cases steps_of_step h with
  | moved _ _ _ hno => exact absurd rfl (hno i)
  | expire hredis hclock =>
    have hsec : formatSec st.ttl * Time.second = Time.second := by
      rw [formatSec, if_pos ⟨hpos, httl⟩, Int.one_mul]
    have hnew : s'.redis.get s'.clock (keyOf calls i) =
        some ⟨data, some (s.clock + Time.second)⟩ := by
      rw [hredis, hclock, Redis.expireNX, hget, hsec]
      refine Redis.get_eq_some.mpr ⟨Keys.keys_put_self .., ?_⟩
      rw [← Bool.not_eq_true, Redis.expired_some]
      exact Int.not_le.mpr (Int.lt_add_of_pos_right _ (by decide))
    intro hbounded
    obtain ⟨t, ht, hle⟩ := hbounded _ _ hnew
    cases ht
    rw [hclock] at hle
    dsimp only [Time, Duration] at *
    omega

end SaveSystem

end GoRestApi.Idempotency
