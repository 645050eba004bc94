/-
GoRestApi.Server.SharedLimit — the two limiters of `cmd/api/main.go` on several
replicas over one Redis.

The script gets the time from the replica that calls it, and the key expires by
the clock of the server. So there are as many clocks as there are replicas, and
one more. The model has the readings of both with a request: `now` is
`time.Now()` of the replica, `served` the time of the server when it runs the
script; `ended` is how the command ends for the replica, which lets the request
pass when it gets no answer.

`shared_limit` bounds what a client gets through all replicas and both groups of
routes together. It needs that the clock of the server does not go back and that
those of the replicas are off by `ε` at most; then `2 * ε` is what the skew can
add to a window. A replica whose clock is behind takes nothing back: the script
keeps the latest reading it was given. The other condition is that a bucket is
full again when its key expires, at the higher of the two rates; otherwise a
client gets a full bucket by staying away. A burst below one token counts as
one, because a new bucket always grants the first request; the script then
leaves it below zero, so what a bucket can still pay is its `credit`.

The numbers of the script are rationals, as in `RateLimit.Limiter`.
-/
import GoRestApi.Redis.Keyspace
import GoRestApi.Server.RateLimitTheorems

namespace GoRestApi.Server

open Go Limit RateLimit RedisLimiter RedisServer

/-! ## The replicas -/

/-- The script at the server. It ends with `PEXPIRE` on every path. -/
def eval (l : RedisLimiter) (r : Keyspace Bucket) (now served : Time) (name : String) :
    Keyspace Bucket × Bool :=
  let (b, answer) := l.script now (r.get served (keyFor name))
  (r.set served (keyFor name) b 60000, answer)

/-- A request to a replica. -/
structure SharedArrival where
  group : Group
  origin : Origin
  now : Time
  served : Time
  ended : CommandEnd
  deriving DecidableEq, Repr

section Traffic

variable (cfg : RateConfig) (splitHostPort : String → Option String)

/-- `RateLimit`, with `Allow` of the limiter of the route: whether the request
goes on to the handler. -/
def limitShared (r : Keyspace Bucket) (a : SharedArrival) : Keyspace Bucket × Bool :=
  let name := clientIPKey splitHostPort a.origin
  match a.ended with
  | .answered => eval (cfg.limiter a.group) r a.now a.served name
  | .refused => (r, true)
  | .lost => ((eval (cfg.limiter a.group) r a.now a.served name).1, true)

def serverAfter (r : Keyspace Bucket) (as : List SharedArrival) : Keyspace Bucket :=
  as.foldl (fun r a => (limitShared cfg splitHostPort r a).1) r

/-- Whether it is a request of the client `k` that goes on to a handler, as a
number. -/
def passes (k : String) (r : Keyspace Bucket) (a : SharedArrival) : Nat :=
  if clientIPKey splitHostPort a.origin = k ∧ (limitShared cfg splitHostPort r a).2 then 1 else 0

/-- Whether it would go on whatever the bucket holds. -/
def excused (k : String) (a : SharedArrival) : Nat :=
  if clientIPKey splitHostPort a.origin = k ∧ a.ended ≠ .answered then 1 else 0

/-- The requests of the client that go on to a handler. -/
def admitted (k : String) : Keyspace Bucket → List SharedArrival → Nat
  | _, [] => 0
  | r, a :: as =>
    passes cfg splitHostPort k r a + admitted k (limitShared cfg splitHostPort r a).1 as

def unanswered (k : String) (as : List SharedArrival) : Nat :=
  (as.map (excused splitHostPort k)).sum

@[simp]
theorem unanswered_nil (k : String) : unanswered splitHostPort k [] = 0 := rfl

@[simp]
theorem unanswered_cons (k : String) (a : SharedArrival) (as : List SharedArrival) :
    unanswered splitHostPort k (a :: as) =
      excused splitHostPort k a + unanswered splitHostPort k as := rfl

end Traffic

/-! ## One run of the script -/

theorem eval_eq (l : RedisLimiter) (r : Keyspace Bucket) (now served : Time) (name : String) :
    eval l r now served name =
      (r.set served (keyFor name) ((steady l).allow (r.get served (keyFor name)) now).1 60000,
        ((steady l).allow (r.get served (keyFor name)) now).2) := by
  rw [← script_eq_steady]
  rfl

section Charge

variable {l : RedisLimiter} {R B : ℚ}

/-- The tokens that a bucket can still give. -/
def credit (b : Bucket) : ℚ := max 0 b.tokens

theorem credit_nonneg (b : Bucket) : 0 ≤ credit b := le_max_left ..

theorem tokens_le_credit (b : Bucket) : b.tokens ≤ credit b := le_max_right ..

theorem credit_take (b : Bucket) :
    Meter.granted (Meter.take b).2 + credit (Meter.take b).1 = credit b := by
  unfold Meter.take credit
  split
  · simp [Meter.granted]
  · rename_i hone
    have hone' : 1 ≤ b.tokens := not_lt.mp hone
    simp only [Meter.granted, ↓reduceIte]
    rw [max_eq_right (sub_nonneg.mpr hone'), max_eq_right (zero_le_one.trans hone')]
    ring

/-- **The charge of a call.** A bucket that is still there pays for what it
grants, at any rate that is not lower than the limiter's. -/
theorem charge_some (hrate : 0 ≤ l.rate) (hR : l.rate ≤ R) (b : Bucket) (now : Time) :
    Meter.granted ((steady l).allow (some b) now).2 + credit ((steady l).allow (some b) now).1 ≤
      credit b + R * seconds (((steady l).allow (some b) now).1.last - b.last) := by
  have hpotential : ((steady l).fill b now).tokens -
      l.rate * seconds ((steady l).fill b now).last ≤ b.tokens - l.rate * seconds b.last :=
    Meter.potential_fill_le (steady_lawful hrate) b now
  have hlast : b.last ≤ ((steady l).allow (some b) now).1.last := by
    rw [last_allow_some]
    exact le_max_left ..
  have hmore : l.rate * seconds (((steady l).allow (some b) now).1.last - b.last) ≤
      R * seconds (((steady l).allow (some b) now).1.last - b.last) :=
    mul_le_mul_of_nonneg_right hR (seconds_nonneg (Int.sub_nonneg_of_le hlast))
  have hgain : 0 ≤ l.rate * seconds (((steady l).allow (some b) now).1.last - b.last) :=
    mul_nonneg hrate (seconds_nonneg (Int.sub_nonneg_of_le hlast))
  refine le_trans ?_ (add_le_add_right hmore _)
  rw [steady_allow_some, (Meter.take_tokens _).2, seconds_sub, mul_sub] at hgain ⊢
  rw [credit_take]
  have hcredit := credit_nonneg b
  have htokens := tokens_le_credit b
  exact max_le (by linarith) (by linarith)

/-- What a call grants and leaves is not more than the higher burst, or one. -/
theorem credit_allow (hone : 1 ≤ B) (hB : l.burst ≤ B) {b : Option Bucket}
    (hb : ∀ x ∈ b, x.tokens ≤ B) (now : Time) :
    Meter.granted ((steady l).allow b now).2 + credit ((steady l).allow b now).1 ≤ B := by
  cases b with
  | none =>
    have hfresh : (steady l).allow none now = (⟨l.burst - 1, now⟩, true) := rfl
    simp only [hfresh, Meter.granted, ↓reduceIte, credit]
    rcases max_choice 0 (l.burst - 1) with hmax | hmax <;> rw [hmax] <;> linarith
  | some b =>
    have hfill : ((steady l).fill b now).tokens ≤ B := by
      unfold Meter.fill
      split
      · exact (min_le_left ..).trans hB
      · exact hb b rfl
    rw [steady_allow_some, credit_take]
    exact max_le (zero_le_one.trans hone) hfill

end Charge

/-! ## One request -/

/-- The limiters of the configuration have rates up to `R` and bursts up to `B`,
which is one token at least. -/
structure RateConfig.Within (cfg : RateConfig) (R B : ℚ) : Prop where
  rate_nonneg : ∀ g, 0 ≤ (cfg.limiter g).rate
  rate_le : ∀ g, (cfg.limiter g).rate ≤ R
  one_le : 1 ≤ B
  burst_le : ∀ g, (cfg.limiter g).burst ≤ B

/-- The clocks of the replica and of the server. -/
structure Near (ε : Duration) (a : SharedArrival) : Prop where
  ahead : a.now ≤ a.served + ε
  behind : a.served ≤ a.now + ε

instance (ε : Duration) (a : SharedArrival) : Decidable (Near ε a) :=
  decidable_of_iff (a.now ≤ a.served + ε ∧ a.served ≤ a.now + ε)
    ⟨fun h => ⟨h.1, h.2⟩, fun h => ⟨h.ahead, h.behind⟩⟩

/-- A key as the last run of the script has left it, at `t` or before. -/
structure Held (B : ℚ) (ε : Duration) (t : Time) (k : StringKey Bucket) : Prop where
  cap : k.value.tokens ≤ B
  refreshed : ∃ t₀ ≤ t, k.expireAt = mstime t₀ + 60000 ∧ k.value.last ≤ t₀ + ε

theorem Held.mono {B : ℚ} {ε : Duration} {t t' : Time} {k : StringKey Bucket}
    (h : Held B ε t k) (ht : t ≤ t') : Held B ε t' k := by
  obtain ⟨t₀, ht₀, hexpire, hlast⟩ := h.refreshed
  exact ⟨h.cap, t₀, le_trans ht₀ ht, hexpire, hlast⟩

/-- A key that has expired was last given a reading a minute before, but for
the skew. -/
theorem Held.expired {B : ℚ} {ε : Duration} {t : Time} {k : StringKey Bucket} (h : Held B ε t k)
    {now served : Time} (hserved : served ≤ now + ε) (hgone : ¬ mstime served ≤ k.expireAt) :
    60000 * Time.millisecond - 2 * ε ≤ now - k.value.last := by
  obtain ⟨t₀, -, hexpire, hlast⟩ := h.refreshed
  rw [hexpire] at hgone
  dsimp only [Time, Duration, mstime, Time.millisecond] at *
  omega

section Requests

variable {cfg : RateConfig} {splitHostPort : String → Option String} {R B : ℚ} {ε : Duration}
  {r : Keyspace Bucket} {t : Time}

theorem granted_nonneg (ok : Bool) : 0 ≤ (Meter.granted ok : ℚ) := by
  cases ok <;> simp [Meter.granted]

theorem RateConfig.Within.R_nonneg (hcfg : cfg.Within R B) : 0 ≤ R :=
  (hcfg.rate_nonneg .global).trans (hcfg.rate_le .global)

/-- The bucket that the script leaves behind is no later than the clocks allow,
and pays for what was granted: by what it held, or because it was full. -/
theorem allow_spec_shared (hcfg : cfg.Within R B)
    (hcover : B ≤ R * seconds (60000 * Time.millisecond - 2 * ε)) (g : Group) {key : String}
    {now served : Time} (ht : t ≤ served) (hheld : ∀ y ∈ r.keys key, Held B ε t y)
    (hahead : now ≤ served + ε) (hbehind : served ≤ now + ε) {b : Bucket} {ok : Bool}
    (hallow : (steady (cfg.limiter g)).allow (r.get served key) now = (b, ok)) :
    Held B ε served ⟨b, mstime served + 60000⟩ ∧ now ≤ b.last ∧ Meter.granted ok + credit b ≤ B ∧
      ∀ y ∈ r.keys key,
        Meter.granted ok + credit b ≤ credit y.value + R * seconds (b.last - y.value.last) := by
  have hgranted := granted_nonneg ok
  have hcredit := tokens_le_credit b
  cases hlookup : r.lookup served key with
  | some k =>
    have hkey : r.keys key = some k := (Keyspace.lookup_eq_some_iff.mp hlookup).1
    have hk : Held B ε t k := hheld k hkey
    have hget : r.get served key = some k.value := by rw [Keyspace.get, hlookup]; rfl
    rw [hget] at hallow
    have hlast := last_allow_some (cfg.limiter g) k.value now
    have hrange : ∀ x ∈ some k.value, x.tokens ≤ B := by
      rintro x ⟨⟩
      exact hk.cap
    have htokens := credit_allow hcfg.one_le (hcfg.burst_le g) hrange now
    have hcharge := charge_some (hcfg.rate_nonneg g) (hcfg.rate_le g) k.value now
    rw [hallow] at hlast htokens hcharge
    obtain ⟨t₀, ht₀, -, hklast⟩ := hk.refreshed
    refine ⟨⟨?_, served, le_rfl, rfl, ?_⟩, ?_, htokens, ?_⟩
    · show b.tokens ≤ B
      linarith
    · show b.last ≤ served + ε
      rw [hlast]
      refine max_le (le_trans hklast ?_) hahead
      exact Int.add_le_add_right (le_trans ht₀ ht) ε
    · rw [hlast]
      exact le_max_right ..
    · intro y hy
      rw [hkey] at hy
      cases hy
      exact hcharge
  | none =>
    have hget : r.get served key = none := by rw [Keyspace.get, hlookup]; rfl
    rw [hget] at hallow
    have htokens := credit_allow hcfg.one_le (hcfg.burst_le g) (b := none) (by rintro x ⟨⟩) now
    rw [hallow] at htokens
    have hlast : b.last = now := by
      cases hallow
      rfl
    refine ⟨⟨?_, served, le_rfl, rfl, ?_⟩, ?_, htokens, ?_⟩
    · show b.tokens ≤ B
      linarith
    · show b.last ≤ served + ε
      rwa [hlast]
    · rw [hlast]
    · intro y hy
      -- the bucket has been filled up since
      have hgone : ¬ mstime served ≤ y.expireAt := by
        intro hle
        have hsome : r.lookup served key = some y := Keyspace.lookup_eq_some_iff.mpr ⟨hy, hle⟩
        rw [hlookup] at hsome
        cases hsome
      have hminute := seconds_le_iff.mpr ((hheld y hy).expired hbehind hgone)
      have hfull := hcover.trans (mul_le_mul_of_nonneg_left hminute hcfg.R_nonneg)
      rw [hlast]
      linarith [credit_nonneg y.value]

/-- A request whose script runs passes if that grants it or the answer is
lost. -/
theorem limitShared_carried {a : SharedArrival} {r' : Keyspace Bucket} {ok : Bool}
    (hended : a.ended ≠ .refused)
    (heval : eval (cfg.limiter a.group) r a.now a.served (clientIPKey splitHostPort a.origin) =
      (r', ok)) :
    (limitShared cfg splitHostPort r a).1 = r' ∧
      (passes cfg splitHostPort (clientIPKey splitHostPort a.origin) r a : ℚ) ≤
        Meter.granted ok + excused splitHostPort (clientIPKey splitHostPort a.origin) a := by
  cases h : a.ended with
  | refused => exact absurd h hended
  | answered =>
    refine ⟨by simp only [limitShared, h, heval], ?_⟩
    cases ok <;> simp [passes, limitShared, excused, h, heval, Meter.granted]
  | lost =>
    refine ⟨by simp only [limitShared, h, heval], ?_⟩
    have hgranted := granted_nonneg ok
    simp [passes, limitShared, excused, h, hgranted]

theorem limitShared_of_ne {k : String} {a : SharedArrival}
    (hk : clientIPKey splitHostPort a.origin ≠ k) :
    (limitShared cfg splitHostPort r a).1.keys (keyFor k) = r.keys (keyFor k) := by
  have hkey : keyFor k ≠ keyFor (clientIPKey splitHostPort a.origin) :=
    fun h => hk (keyFor_injective h).symm
  cases hended : a.ended with
  | refused => simp only [limitShared, hended]
  | answered | lost => simp only [limitShared, hended, eval_eq, Keyspace.keys_set_of_ne hkey]

/-- A request leaves the bucket of the client alone and passes only if there is
no answer, or it leaves a bucket that has paid for it. -/
theorem limitShared_spec (hcfg : cfg.Within R B)
    (hcover : B ≤ R * seconds (60000 * Time.millisecond - 2 * ε)) (k : String) {a : SharedArrival}
    (ht : t ≤ a.served) (hnear : Near ε a) (hheld : ∀ y ∈ r.keys (keyFor k), Held B ε t y) :
    ((limitShared cfg splitHostPort r a).1.keys (keyFor k) = r.keys (keyFor k) ∧
        passes cfg splitHostPort k r a ≤ excused splitHostPort k a) ∨
      ∃ x, (limitShared cfg splitHostPort r a).1.keys (keyFor k) = some x ∧ Held B ε a.served x ∧
        a.now ≤ x.value.last ∧
        passes cfg splitHostPort k r a + credit x.value ≤ B + excused splitHostPort k a ∧
        ∀ y ∈ r.keys (keyFor k), passes cfg splitHostPort k r a + credit x.value ≤
          credit y.value + R * seconds (x.value.last - y.value.last) +
            excused splitHostPort k a := by
  by_cases hk : clientIPKey splitHostPort a.origin = k
  · subst hk
    by_cases hended : a.ended = .refused
    · refine .inl ⟨by simp only [limitShared, hended], ?_⟩
      simp [passes, limitShared, excused, hended]
    · rcases hallow : (steady (cfg.limiter a.group)).allow
        (r.get a.served (keyFor (clientIPKey splitHostPort a.origin))) a.now with ⟨b, ok⟩
      have heval := eval_eq (cfg.limiter a.group) r a.now a.served
        (clientIPKey splitHostPort a.origin)
      rw [hallow] at heval
      obtain ⟨hstate, hpasses⟩ := limitShared_carried hended heval
      obtain ⟨hx, hlast, hcap, hcharge⟩ :=
        allow_spec_shared hcfg hcover a.group ht hheld hnear.ahead hnear.behind hallow
      refine .inr ⟨⟨b, mstime a.served + 60000⟩, ?_, hx, hlast, ?_, ?_⟩
      · rw [hstate, Keyspace.keys_set_self]
      · show _ + credit b ≤ _
        linarith
      · intro y hy
        have hpaid := hcharge y hy
        show _ + credit b ≤ _
        linarith
  · have hpasses : passes cfg splitHostPort k r a = 0 := if_neg fun h => hk h.1
    exact .inl ⟨limitShared_of_ne hk, by rw [hpasses]; exact Nat.zero_le _⟩

/-! ## Any number of requests -/

/-- Requests that the server sees between `t` and `T`, in this order. -/
structure Clocked (ε : Duration) (t T : Time) (as : List SharedArrival) : Prop where
  after : ∀ a ∈ as, t ≤ a.served
  upTo : ∀ a ∈ as, a.served ≤ T
  near : ∀ a ∈ as, Near ε a
  forward : as.Pairwise fun a a' => a.served ≤ a'.served

instance (ε : Duration) (t T : Time) (as : List SharedArrival) : Decidable (Clocked ε t T as) :=
  decidable_of_iff ((∀ a ∈ as, t ≤ a.served) ∧ (∀ a ∈ as, a.served ≤ T) ∧ (∀ a ∈ as, Near ε a) ∧
      as.Pairwise fun a a' => a.served ≤ a'.served)
    ⟨fun h => ⟨h.1, h.2.1, h.2.2.1, h.2.2.2⟩, fun h => ⟨h.after, h.upTo, h.near, h.forward⟩⟩

theorem Clocked.tail {T : Time} {a : SharedArrival} {as : List SharedArrival}
    (h : Clocked ε t T (a :: as)) : Clocked ε a.served T as where
  after := (List.pairwise_cons.mp h.forward).1
  upTo := fun a' ha' => h.upTo a' (List.mem_cons_of_mem a ha')
  near := fun a' ha' => h.near a' (List.mem_cons_of_mem a ha')
  forward := (List.pairwise_cons.mp h.forward).2

/-- The requests before leave the bucket as the script does. -/
theorem held_serverAfter (hcfg : cfg.Within R B)
    (hcover : B ≤ R * seconds (60000 * Time.millisecond - 2 * ε)) (k : String) {T : Time}
    {as : List SharedArrival} (hheld : ∀ y ∈ r.keys (keyFor k), Held B ε t y)
    (htT : t ≤ T) (has : Clocked ε t T as) :
    ∀ y ∈ (serverAfter cfg splitHostPort r as).keys (keyFor k), Held B ε T y := by
  induction as generalizing r t with
  | nil => exact fun y hy => (hheld y hy).mono htT
  | cons a as ih =>
    have ht := has.after a List.mem_cons_self
    refine ih ?_ (has.upTo a List.mem_cons_self) has.tail
    intro y hy
    rcases limitShared_spec hcfg hcover k ht (has.near a List.mem_cons_self) hheld
      with ⟨hsame, -⟩ | ⟨x, hx, hxheld, -⟩
    · rw [hsame] at hy
      exact (hheld y hy).mono ht
    · rw [hx] at hy
      cases hy
      exact hxheld

/-- From a bucket on, a client gets what it holds, and what comes in up to the
latest reading that a replica can have at `T`. -/
theorem admitted_le_of_held (hcfg : cfg.Within R B)
    (hcover : B ≤ R * seconds (60000 * Time.millisecond - 2 * ε)) (k : String) {T : Time}
    {as : List SharedArrival} {x : StringKey Bucket} (hx : r.keys (keyFor k) = some x)
    (hheld : Held B ε t x) (htT : t ≤ T) (has : Clocked ε t T as) :
    (admitted cfg splitHostPort k r as : ℚ) ≤
      credit x.value + R * seconds (T + ε - x.value.last) + unanswered splitHostPort k as := by
  induction as generalizing r t x with
  | nil =>
    obtain ⟨t₀, ht₀, -, hlast⟩ := hheld.refreshed
    have hlast' : x.value.last ≤ T + ε :=
      le_trans hlast (Int.add_le_add_right (le_trans ht₀ htT) ε)
    have hgain : 0 ≤ R * seconds (T + ε - x.value.last) :=
      mul_nonneg hcfg.R_nonneg (seconds_nonneg (Int.sub_nonneg_of_le hlast'))
    simp only [admitted, unanswered_nil, Nat.cast_zero]
    linarith [credit_nonneg x.value]
  | cons a as ih =>
    have ht := has.after a List.mem_cons_self
    have haT := has.upTo a List.mem_cons_self
    have hheld' : ∀ y ∈ r.keys (keyFor k), Held B ε t y := by
      rw [hx]
      rintro y ⟨⟩
      exact hheld
    simp only [admitted, unanswered_cons, Nat.cast_add]
    rcases limitShared_spec hcfg hcover k ht (has.near a List.mem_cons_self) hheld'
      with ⟨hsame, hpasses⟩ | ⟨x', hx', hxheld, -, -, hcharge⟩
    · have hrest := ih (hsame.trans hx) (hheld.mono ht) haT has.tail
      have hpasses' : (passes cfg splitHostPort k r a : ℚ) ≤ excused splitHostPort k a :=
        Nat.cast_le.mpr hpasses
      linarith
    · have hrest := ih hx' hxheld haT has.tail
      have hpaid := hcharge x hx
      have hsplit : R * seconds (T + ε - x.value.last) =
          R * seconds (T + ε - x'.value.last) + R * seconds (x'.value.last - x.value.last) := by
        simp only [seconds_sub]
        ring
      linarith

/-- Whatever the bucket was: the first request that the script sees leaves a
burst at most. -/
theorem admitted_le (hcfg : cfg.Within R B)
    (hcover : B ≤ R * seconds (60000 * Time.millisecond - 2 * ε)) (k : String) {S T : Time}
    {as : List SharedArrival} (hheld : ∀ y ∈ r.keys (keyFor k), Held B ε t y) (hS : S ≤ t)
    (htT : t ≤ T) (hε : 0 ≤ ε) (has : Clocked ε t T as) :
    (admitted cfg splitHostPort k r as : ℚ) ≤
      B + R * seconds (T + ε - (S - ε)) + unanswered splitHostPort k as := by
  induction as generalizing r t with
  | nil =>
    have hspan : (0 : Int) ≤ T + ε - (S - ε) := by
      dsimp only [Time, Duration] at *
      omega
    have hgain : 0 ≤ R * seconds (T + ε - (S - ε)) :=
      mul_nonneg hcfg.R_nonneg (seconds_nonneg hspan)
    have hone := hcfg.one_le
    simp only [admitted, unanswered_nil, Nat.cast_zero]
    linarith
  | cons a as ih =>
    have ht := has.after a List.mem_cons_self
    have haT := has.upTo a List.mem_cons_self
    have hnear := has.near a List.mem_cons_self
    simp only [admitted, unanswered_cons, Nat.cast_add]
    rcases limitShared_spec hcfg hcover k ht hnear hheld
      with ⟨hsame, hpasses⟩ | ⟨x, hx, hxheld, hlast, hcap, -⟩
    · have hrest := ih (by rw [hsame]; exact fun y hy => (hheld y hy).mono ht) (le_trans hS ht) haT
        has.tail
      have hpasses' : (passes cfg splitHostPort k r a : ℚ) ≤ excused splitHostPort k a :=
        Nat.cast_le.mpr hpasses
      linarith
    · have hrest :
          (admitted cfg splitHostPort k (limitShared cfg splitHostPort r a).1 as : ℚ) ≤ _ :=
        admitted_le_of_held hcfg hcover k hx hxheld haT has.tail
      have hfirst : R * seconds (T + ε - x.value.last) ≤ R * seconds (T + ε - (S - ε)) := by
        apply mul_le_mul_of_nonneg_left _ hcfg.R_nonneg
        apply seconds_le_iff.mpr
        have hbehind := hnear.behind
        dsimp only [Time, Duration] at *
        omega
      linarith [credit_nonneg x.value]

end Requests

/-- The limiters that `main` builds, in terms of the configuration. -/
theorem RateConfig.within {cfg : RateConfig} (hrates : 0 < cfg.rate ∧ 0 < cfg.authRate)
    (hbursts : 0 < cfg.burst ∧ 0 < cfg.authBurst) :
    cfg.Within (max cfg.rate cfg.authRate) (max 1 (max cfg.burst cfg.authBurst)) := by
  obtain ⟨hrate, hauthRate⟩ := hrates
  obtain ⟨hburst, hauthBurst⟩ := hbursts
  have hglobal : cfg.limiter .global = ⟨cfg.rate, cfg.burst⟩ := by
    simp [limiter, buildRateLimiter, newRedis, rateOr, burstOr, not_le.mpr hrate,
      not_le.mpr hburst]
  have hauth : cfg.limiter .auth = ⟨cfg.authRate, cfg.authBurst⟩ := by
    simp [limiter, buildRateLimiter, newRedis, rateOr, burstOr, not_le.mpr hauthRate,
      not_le.mpr hauthBurst]
  refine ⟨?_, ?_, le_max_left .., ?_⟩ <;> intro g <;> cases g <;> simp only [hglobal, hauth]
  · exact hrate.le
  · exact hauthRate.le
  · exact le_max_left ..
  · exact le_max_right ..
  · exact (le_max_left ..).trans (le_max_right ..)
  · exact (le_max_right ..).trans (le_max_right ..)

/-- **What a client gets through all replicas.** In a window of length `w` by
the clock of the server, of the requests of a client to any replica and either
group of routes no more than the higher burst, or one, and what comes in at the
higher rate in `w + 2 * ε`, go on to a handler, beside those to which Redis gave
no answer; whatever came before, and whatever the other clients do. -/
theorem shared_limit {cfg : RateConfig} {splitHostPort : String → Option String}
    {ε w : Duration} {start t : Time} {before as : List SharedArrival}
    (hrates : 0 < cfg.rate ∧ 0 < cfg.authRate) (hbursts : 0 < cfg.burst ∧ 0 < cfg.authBurst)
    (hcover : max 1 (max cfg.burst cfg.authBurst) ≤
      max cfg.rate cfg.authRate * seconds (60000 * Time.millisecond - 2 * ε))
    (hε : 0 ≤ ε) (hw : 0 ≤ w) (ht : t ≤ start) (hbefore : Clocked ε t start before)
    (has : Clocked ε start (start + w) as) (k : String) :
    (admitted cfg splitHostPort k (serverAfter cfg splitHostPort .empty before) as : ℚ) ≤
      max 1 (max cfg.burst cfg.authBurst) + max cfg.rate cfg.authRate * seconds (w + 2 * ε) +
        unanswered splitHostPort k as := by
  have hcfg := RateConfig.within hrates hbursts
  have hheld : ∀ y ∈ (serverAfter cfg splitHostPort .empty before).keys (keyFor k),
      Held (max 1 (max cfg.burst cfg.authBurst)) ε start y :=
    held_serverAfter hcfg hcover k (by rintro y ⟨⟩) ht hbefore
  have hle : (admitted cfg splitHostPort k (serverAfter cfg splitHostPort .empty before) as : ℚ) ≤
      _ := admitted_le hcfg hcover k hheld le_rfl (Int.le_add_of_nonneg_right hw) hε has
  have hspan : start + w + ε - (start - ε) = w + 2 * ε := by
    dsimp only [Time, Duration] at *
    omega
  rwa [hspan] at hle

/-- One replica is a second behind and another a second ahead. A client that
asks them one after the other, at one instant, gets eight requests through where
a single clock would allow four: the bound, which the skew has raised. -/
theorem shared_limit_skewed :
    let cfg : RateConfig := ⟨2, 4, 1, 2⟩
    let arrival : Time → SharedArrival :=
      fun now => ⟨.global, ⟨"", "client", ""⟩, now, 0, .answered⟩
    let as := List.replicate 4 (arrival (-Time.second)) ++ List.replicate 5 (arrival Time.second)
    let n := admitted cfg (fun _ => none) "client" (serverAfter cfg (fun _ => none) .empty []) as
    n = 8 ∧ (n : ℚ) ≤ max 1 (max 4 2) + max 2 1 * seconds (0 + 2 * Time.second) +
      unanswered (fun _ => none) "client" as := by
  intro cfg arrival as n
  refine ⟨by decide +kernel, ?_⟩
  exact @shared_limit cfg (fun _ => none) Time.second 0 0 0 [] as (by decide +kernel)
    (by decide +kernel) (by decide +kernel) (by decide) le_rfl le_rfl (by decide) (by decide)
    "client"

end GoRestApi.Server
