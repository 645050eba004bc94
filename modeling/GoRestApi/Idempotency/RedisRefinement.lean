/-
GoRestApi.Idempotency.RedisRefinement — in sequential use the Redis store
answers as the in-memory one does.

The two stores keep their deadlines in different ways: the in-memory store
sets one with every `Save` and deletes an entry when a `Lookup` finds it
expired, the Redis store sets one only on a key that has none and leaves the
deletion to the server. They never come apart because `Run` saves only after
a miss: then `HSET` makes a new key, and `EXPIRE NX` gives it its first TTL.

`Agree` is the relation between the two stores at an instant, key by key:
neither has something for the key, or both have the same entry with the same
deadline. It lasts as time passes (`Agree.mono`) and over a call
(`Agree.run`), and related stores return the same from it.
-/
import GoRestApi.Idempotency.Redis

namespace GoRestApi.Idempotency

open Go RedisServer

/-! ## Keys that expire -/

namespace Redis

variable {π : Type} {r : Redis π} {now now' : Time} {name name' : String} {k : HashKey π}

@[simp] theorem expired_none (now : Time) : expired none now = false := rfl

theorem expired_some {t now : Time} : expired (some t) now = true ↔ t ≤ now := decide_eq_true_iff

/-- A key that is gone stays gone. -/
theorem expired_mono {t : Option Time} (h : expired t now = true) (hle : now ≤ now') :
    expired t now' = true := by
  cases t with
  | none => simp at h
  | some t => exact expired_some.mpr (Int.le_trans (expired_some.mp h) hle)

theorem get_eq_some :
    r.get now name = some k ↔ r.keys name = some k ∧ expired k.expireAt now = false := by
  rw [get, Keys.live_eq_some_iff, Bool.not_eq_true']

theorem get_eq_none :
    r.get now name = none ↔ ∀ k, r.keys name = some k → expired k.expireAt now = true := by
  simp only [get, Keys.live_eq_none_iff, Bool.not_eq_false']

theorem get_eq_none_mono (h : r.get now name = none) (hle : now ≤ now') :
    r.get now' name = none :=
  get_eq_none.mpr fun k hk => expired_mono (get_eq_none.mp h k hk) hle

theorem get_put_of_ne (h : name' ≠ name) : get (r.put name k) now name' = r.get now name' :=
  Keys.live_put_of_ne h

/-- `HSET` and then `EXPIRE NX` on a key that does not exist. -/
theorem expireNX_hset_of_none (data : π) (seconds : Int) (h : r.get now name = none) :
    (r.hset now name data).expireNX now' name seconds =
      r.put name ⟨data, some (now' + seconds * Time.second)⟩ := by
  have hset : r.hset now name data = r.put name ⟨data, none⟩ := by rw [hset, h]; rfl
  have hget : get (r.put name ⟨data, none⟩) now' name = some ⟨data, none⟩ :=
    get_eq_some.mpr ⟨Keys.keys_put_self .., rfl⟩
  simp [hset, expireNX, hget]

end Redis

/-! ## The cases of a call -/

/-- What the Redis store returns where the in-memory one returns `o`. -/
def Outcome.onRedis (o : Outcome) : RedisOutcome :=
  ⟨o.entry, o.replayed, o.err.map .run, o.executed⟩

/-- No command of the call fails. -/
def RedisInvocation.NoFailure (i : RedisInvocation) : Prop :=
  i.hgetErr = none ∧ i.hsetErr = none ∧ i.expireErr = none

namespace RedisStore

variable {π : Type} {c : EntryCodec π} {hash : List UInt8 → String} {s : RedisStore}
  {r : Redis π} {i : RedisInvocation}

theorem keyFor_injective : Function.Injective keyFor := fun _ _ h => by
  simpa [keyFor, String.ext_iff] using h

theorem run_of_noKey (hkey : i.key = "") :
    s.run hash c r i = (r, (MemoryStore.executedOutcome hash i.toInvocation).onRedis) := by
  unfold run MemoryStore.executedOutcome
  simp only [hkey, ne_eq, not_true_eq_false, ↓reduceIte]
  cases i.result <;> rfl

/-- A call that finds an entry. -/
theorem run_of_found {k : HashKey π} {e : Entry} (hkey : i.key ≠ "") (hok : i.hgetErr = none)
    (hget : r.get i.lookupAt (keyFor i.key) = some k) (he : c.unmarshal k.value = .ok e) :
    s.run hash c r i =
      (r, if e.requestHash = hash i.request then ⟨e, true, none, false⟩
        else ⟨Entry.zero, false, some (.run .conflict), false⟩) := by
  have hlookup : lookup c r i.lookupAt i.hgetErr i.key (hash i.request) =
      if e.requestHash ≠ hash i.request then .error .conflict else .ok e := by
    simp [lookup, hkey, hok, Redis.hget, hget, he]
  unfold run
  simp only [hkey, ne_eq, not_false_eq_true, ↓reduceIte, hlookup]
  by_cases hhash : e.requestHash = hash i.request <;> simp [hhash]

/-- A call that finds nothing. -/
theorem run_of_none (hkey : i.key ≠ "") (hok : i.hgetErr = none)
    (hget : r.get i.lookupAt (keyFor i.key) = none) :
    s.run hash c r i =
      (match i.result with
        | .error _ => r
        | .ok resp => (s.save c r i.saveEnv i.key (hash i.request) resp).1,
        (MemoryStore.executedOutcome hash i.toInvocation).onRedis) := by
  have hlookup : lookup c r i.lookupAt i.hgetErr i.key (hash i.request) = .error .notFound := by
    simp [lookup, hkey, hok, Redis.hget, hget]
  unfold run MemoryStore.executedOutcome
  simp only [hkey, ne_eq, not_false_eq_true, ↓reduceIte, hlookup]
  cases i.result <;> rfl

/-- What `Save` leaves after a miss. -/
theorem save_of_none {resp : Response} {data : π} (hkey : i.key ≠ "") (hok : i.NoFailure)
    (hdata : c.marshal ⟨resp, hash i.request, i.storedAt⟩ = .ok data)
    (hget : r.get i.hsetAt (keyFor i.key) = none) :
    (s.save c r i.saveEnv i.key (hash i.request) resp).1 =
      r.put (keyFor i.key) ⟨data, some (i.savedAt + formatSec s.ttl * Time.second)⟩ := by
  obtain ⟨-, hhset, hexpire⟩ := hok
  simp only [save, hkey, ↓reduceIte, RedisInvocation.saveEnv, hdata, hhset, hexpire]
  exact Redis.expireNX_hset_of_none data _ hget

end RedisStore

/-! ## The two stores side by side -/

/-- At the instant `now` the two stores have the same under every key. -/
def Agree {π : Type} (c : EntryCodec π) (now : Time) (m : MemoryStore) (r : Redis π) : Prop :=
  ∀ key, key ≠ "" →
    m.Misses now key ∧ r.get now (RedisStore.keyFor key) = none ∨
    ∃ e data, m.entries key = some e ∧ now < e.validUntil ∧
      r.keys (RedisStore.keyFor key) = some ⟨data, some e.validUntil⟩ ∧
      c.unmarshal data = .ok e.entry

/-- The readings of the clock by a call, and the instants of its commands, in
order. -/
def RedisInvocation.readings (i : RedisInvocation) : List Time :=
  [i.lookupAt, i.storedAt, i.hsetAt, i.savedAt, i.returnedAt]

namespace Agree

variable {π : Type} {c : EntryCodec π} {now now' : Time} {m : MemoryStore} {r : Redis π}

theorem empty (c : EntryCodec π) (now : Time) (ttl : Duration) :
    Agree c now (.new ttl) .empty := by
  intro key _
  exact .inl ⟨by simp [MemoryStore.Misses, MemoryStore.new], rfl⟩

theorem mono (h : Agree c now m r) (hle : now ≤ now') : Agree c now' m r := by
  intro key hkey
  obtain ⟨hmiss, hget⟩ | ⟨e, data, he, hlive, hk, hdata⟩ := h key hkey
  · refine .inl ⟨fun e he => Int.le_trans (hmiss e he) hle, ?_⟩
    exact Redis.get_eq_none_mono hget hle
  · by_cases hlive' : now' < e.validUntil
    · exact .inr ⟨e, data, he, hlive', hk, hdata⟩
    · -- both deadlines are the same, so both entries expire
      have hle' : e.validUntil ≤ now' := Int.not_lt.mp hlive'
      refine .inl ⟨fun e' he' => ?_, Redis.get_eq_none.mpr fun k hk' => ?_⟩
      · cases he.symm.trans he'
        exact hle'
      · cases hk.symm.trans hk'
        exact Redis.expired_some.mpr hle'

variable {hash : List UInt8 → String} {s : RedisStore} {i : RedisInvocation}

/-- A call that finds nothing, in both stores. -/
theorem run_of_misses (h : Agree c i.lookupAt m r) (hkey : i.key ≠ "") (hok : i.NoFailure)
    (httl : formatSec s.ttl * Time.second = m.ttl) (hpos : 0 < m.ttl)
    (hhset : i.lookupAt ≤ i.hsetAt) (hsaved : i.lookupAt ≤ i.savedAt)
    (hjson : ∀ resp, i.result = .ok resp → c.RoundTrips ⟨resp, hash i.request, i.storedAt⟩)
    (hmiss : m.Misses i.lookupAt i.key) (hget : r.get i.lookupAt (RedisStore.keyFor i.key) = none) :
    (s.run hash c r i).2 = (m.run hash i.toInvocation).2.onRedis ∧
      Agree c i.savedAt (m.run hash i.toInvocation).1 (s.run hash c r i).1 := by
  rw [RedisStore.run_of_none hkey hok.1 hget, MemoryStore.run_of_misses hkey hmiss]
  refine ⟨rfl, ?_⟩
  cases hres : i.result with
  | error msg =>
    -- the in-memory store may have deleted an expired entry
    intro key hk
    by_cases heq : key = i.key
    · subst heq
      refine .inl ⟨?_, Redis.get_eq_none_mono hget hsaved⟩
      simp [MemoryStore.Misses, Except.toOption]
    · simpa [MemoryStore.Misses, Function.update_of_ne heq] using h.mono hsaved key hk
  | ok resp =>
    obtain ⟨data, hdata, hback⟩ := hjson resp hres
    have hsave := RedisStore.save_of_none (s := s) hkey hok hdata
      (Redis.get_eq_none_mono hget hhset)
    rw [httl] at hsave
    simp only [hsave]
    intro key hk
    by_cases heq : key = i.key
    · subst heq
      refine .inr ⟨MemoryStore.saved hash m.ttl i.toInvocation resp, data, ?_, ?_, ?_, hback⟩
      · simp [Except.toOption]
      · exact Int.lt_add_of_pos_right _ hpos
      · exact Keys.keys_put_self ..
    · have hne : RedisStore.keyFor key ≠ RedisStore.keyFor i.key :=
        RedisStore.keyFor_injective.ne heq
      simpa [MemoryStore.Misses, Function.update_of_ne heq, Redis.get_put_of_ne hne,
        Keys.keys_put_of_ne hne] using h.mono hsaved key hk

/-- **Simulation.** Stores that agree return the same from a call, and agree
after it. -/
theorem run (h : Agree c i.lookupAt m r) (hok : i.NoFailure)
    (httl : formatSec s.ttl * Time.second = m.ttl) (hpos : 0 < m.ttl)
    (hhset : i.lookupAt ≤ i.hsetAt) (hsaved : i.lookupAt ≤ i.savedAt)
    (hjson : ∀ resp, i.result = .ok resp → c.RoundTrips ⟨resp, hash i.request, i.storedAt⟩) :
    (s.run hash c r i).2 = (m.run hash i.toInvocation).2.onRedis ∧
      Agree c i.savedAt (m.run hash i.toInvocation).1 (s.run hash c r i).1 := by
  by_cases hkey : i.key = ""
  · rw [RedisStore.run_of_noKey hkey, MemoryStore.run_of_noKey hkey]
    exact ⟨rfl, h.mono hsaved⟩
  obtain ⟨hmiss, hget⟩ | ⟨e, data, he, hlive, hk, hdata⟩ := h i.key hkey
  · exact h.run_of_misses hkey hok httl hpos hhset hsaved hjson hmiss hget
  · have hget : r.get i.lookupAt (RedisStore.keyFor i.key) = some ⟨data, some e.validUntil⟩ := by
      refine Redis.get_eq_some.mpr ⟨hk, ?_⟩
      rw [← Bool.not_eq_true, Redis.expired_some]
      exact Int.not_le.mpr hlive
    rw [RedisStore.run_of_found hkey hok.1 hget hdata]
    by_cases hhash : e.entry.requestHash = hash i.request
    · rw [MemoryStore.run_of_same hkey he hlive hhash, if_pos hhash]
      exact ⟨rfl, h.mono hsaved⟩
    · rw [MemoryStore.run_of_other hkey he hlive hhash, if_neg hhash]
      exact ⟨rfl, h.mono hsaved⟩

end Agree

/-! ## Histories -/

@[simp] theorem MemoryStore.outcomes_cons (hash : List UInt8 → String) (m : MemoryStore)
    (c : Invocation) (cs : List Invocation) :
    m.outcomes hash (c :: cs) = (m.run hash c).2 :: (m.run hash c).1.outcomes hash cs := rfl

@[simp] theorem RedisStore.outcomes_cons {π : Type} (hash : List UInt8 → String)
    (c : EntryCodec π) (s : RedisStore) (r : Redis π) (i : RedisInvocation)
    (is : List RedisInvocation) :
    s.outcomes hash c r (i :: is) =
      (s.run hash c r i).2 :: s.outcomes hash c (s.run hash c r i).1 is := rfl

theorem formatSec_seconds {n : Int} (h : 0 < n) :
    formatSec (n * Time.second) * Time.second = n * Time.second := by
  have hge : ¬ n * Time.second < Time.second := by
    simp only [Time.second]
    omega
  rw [formatSec, if_neg (fun hlt => hge hlt.2), Int.mul_tdiv_cancel _ (by decide)]

/-- What a clock that does not go back says about the first call. -/
theorem clock_cons {now : Time} {i : RedisInvocation} {is : List RedisInvocation}
    (h : (now :: (i :: is).flatMap RedisInvocation.readings).Pairwise (· ≤ ·)) :
    now ≤ i.lookupAt ∧ i.lookupAt ≤ i.hsetAt ∧ i.lookupAt ≤ i.savedAt ∧
      (i.savedAt :: is.flatMap RedisInvocation.readings).Pairwise (· ≤ ·) := by
  have hreadings : now :: (i :: is).flatMap RedisInvocation.readings =
      [now, i.lookupAt, i.storedAt, i.hsetAt] ++
        (i.savedAt :: i.returnedAt :: is.flatMap RedisInvocation.readings) := rfl
  rw [hreadings, List.pairwise_append] at h
  obtain ⟨hfirst, hlast, hcross⟩ := h
  simp only [List.pairwise_cons, List.mem_cons, List.not_mem_nil, or_false, forall_eq_or_imp,
    forall_eq] at hfirst
  refine ⟨hfirst.1.1, hfirst.2.1.2, hcross _ (by simp) _ (by simp), ?_⟩
  exact hlast.sublist (.cons_cons _ (List.sublist_cons_self ..))

/-- Stores that agree return the same over a history. -/
theorem Agree.outcomes {π : Type} {c : EntryCodec π} {hash : List UInt8 → String}
    {s : RedisStore} {now : Time} {m : MemoryStore} {r : Redis π} {is : List RedisInvocation}
    (h : Agree c now m r) (httl : formatSec s.ttl * Time.second = m.ttl) (hpos : 0 < m.ttl)
    (hclock : (now :: is.flatMap RedisInvocation.readings).Pairwise (· ≤ ·))
    (hredis : ∀ i ∈ is, i.NoFailure)
    (hjson : ∀ i ∈ is, ∀ resp, i.result = .ok resp →
      c.RoundTrips ⟨resp, hash i.request, i.storedAt⟩) :
    s.outcomes hash c r is =
      (m.outcomes hash (is.map RedisInvocation.toInvocation)).map Outcome.onRedis := by
  induction is generalizing now m r with
  | nil => rfl
  | cons i is ih =>
    obtain ⟨hnow, hhset, hsaved, hlater⟩ := clock_cons hclock
    obtain ⟨hout, hagree⟩ := (h.mono hnow).run (s := s)
      (hredis i List.mem_cons_self) httl hpos hhset hsaved (hjson i List.mem_cons_self)
    rw [RedisStore.outcomes_cons, List.map_cons, MemoryStore.outcomes_cons, List.map_cons, hout]
    congr 1
    refine ih hagree (by simpa using httl) (by simpa using hpos) hlater
      (fun j hj => hredis j (List.mem_cons_of_mem i hj))
      (fun j hj => hjson j (List.mem_cons_of_mem i hj))

/-- **The Redis store refines the in-memory one.** Over every history of calls
of `Run` that do not overlap, on a clock that does not go back, with a TTL of
whole seconds and no command failing, both stores execute `do` on the same
calls and return the same. -/
theorem redis_run_refines_memory_run {π : Type} {c : EntryCodec π} {hash : List UInt8 → String}
    {seconds : Int} {is : List RedisInvocation} (hseconds : 0 < seconds)
    (hclock : (is.flatMap RedisInvocation.readings).Pairwise (· ≤ ·))
    (hredis : ∀ i ∈ is, i.NoFailure)
    (hjson : ∀ i ∈ is, ∀ resp, i.result = .ok resp →
      c.RoundTrips ⟨resp, hash i.request, i.storedAt⟩) :
    (RedisStore.new (seconds * Time.second)).outcomes hash c .empty is =
      ((MemoryStore.new (seconds * Time.second)).outcomes hash
        (is.map RedisInvocation.toInvocation)).map Outcome.onRedis := by
  have hpos : 0 < seconds * Time.second := Int.mul_pos hseconds (by decide)
  have hnew : RedisStore.new (seconds * Time.second) = ⟨seconds * Time.second⟩ := by
    rw [RedisStore.new, if_neg (Int.not_le.mpr hpos)]
  rw [hnew]
  cases is with
  | nil => rfl
  | cons i is =>
    refine (Agree.empty c i.lookupAt _).outcomes (formatSec_seconds hseconds) hpos ?_ hredis hjson
    refine List.pairwise_cons.mpr ⟨?_, hclock⟩
    intro t ht
    -- the first reading is the one the history starts with
    rcases List.mem_cons.mp ht with rfl | ht
    · exact Int.le_refl _
    · exact List.rel_of_pairwise_cons hclock ht

/-- A call of `Run` that takes no time, with no command failing. -/
def callAt (now : Time) (request : List UInt8) (result : Except String Response) :
    RedisInvocation where
  key := "key-1"
  request := request
  result := result
  lookupAt := now
  storedAt := now
  hsetAt := now
  savedAt := now
  returnedAt := now
  hgetErr := none
  hsetErr := none
  expireErr := none

/-- `do` fails, is executed, is replayed a nanosecond before the minute is
over, and is executed again when it is. -/
def sampleHistory : List RedisInvocation :=
  [callAt 0 [104, 105] (.error "timeout"), callAt 0 [104, 105] (.ok (RunSystem.created 1)),
    callAt (Time.minute - 1) [104, 105] (.ok (RunSystem.created 2)),
    callAt Time.minute [104, 105] (.ok (RunSystem.created 3))]

theorem redis_run_refines_memory_run_minute :
    (RedisStore.new (60 * Time.second)).outcomes sampleHash EntryCodec.json .empty
        sampleHistory =
      ((MemoryStore.new (60 * Time.second)).outcomes sampleHash
        (sampleHistory.map RedisInvocation.toInvocation)).map Outcome.onRedis ∧
    ((MemoryStore.new (60 * Time.second)).outcomes sampleHash
        (sampleHistory.map RedisInvocation.toInvocation)).map Outcome.replayed =
      [false, false, true, false] := by
  refine ⟨redis_run_refines_memory_run (by decide) (by decide) ?_ ?_, by decide +kernel⟩
  · simp [sampleHistory, callAt, RedisInvocation.NoFailure]
  · have hyear : ∀ i ∈ sampleHistory, Time.HasYear i.storedAt := by decide
    exact fun i hi resp _ => EntryCodec.roundTrips_json (hyear i hi)

end GoRestApi.Idempotency
