/-
GoRestApi.Limit.TokenBucket — token buckets, over any ordered ring.

A bucket has a number of tokens and the instant it was last filled. A `Meter`
is what a limiter knows: how fast a bucket fills and how full it gets, how
much time is between two instants, and when a bucket is forgotten. Instants
are the elements of any type; `gauge` places them on a time line, and
`elapsed` is the time the limiter computes, which may be shorter.

`grants_le` is the bound: among calls whose instants are at most `g`, the
first of them at `t`, no more than `max 1 burst + rate * (g - gauge t)` are
granted. The instants need not be in order. The proof is one potential, the
tokens less what the time line has brought since: a grant lowers it by one and
nothing raises it (`allow_charge`).

`Forgetful.agree_iff` compares a meter with one that forgets buckets: the two
agree exactly as long as every bucket that is forgotten would have been full.
-/
import Mathlib.Algebra.Order.Ring.Defs
import Mathlib.Data.List.Infix
import Mathlib.Tactic.Linarith
import Mathlib.Tactic.Ring

namespace GoRestApi.Limit

structure Bucket (𝕜 τ : Type) where
  tokens : 𝕜
  last : τ
  deriving DecidableEq, Repr

structure Meter (𝕜 τ : Type) where
  rate : 𝕜
  burst : 𝕜
  gauge : τ → 𝕜
  /-- the time from one instant to another, as the limiter computes it -/
  elapsed : τ → τ → 𝕜
  /-- a bucket last filled at the first instant is forgotten at the second -/
  gone : τ → τ → Bool

namespace Meter

variable {𝕜 τ : Type} [CommRing 𝕜] [LinearOrder 𝕜]

/-! ## Calls -/

def fill (m : Meter 𝕜 τ) (b : Bucket 𝕜 τ) (now : τ) : Bucket 𝕜 τ :=
  if 0 < m.elapsed b.last now then
    ⟨min m.burst (b.tokens + m.elapsed b.last now * m.rate), now⟩
  else b

def take (b : Bucket 𝕜 τ) : Bucket 𝕜 τ × Bool :=
  if b.tokens < 1 then (b, false) else ({ b with tokens := b.tokens - 1 }, true)

/-- The bucket of a first call, which is granted. -/
def fresh (m : Meter 𝕜 τ) (now : τ) : Bucket 𝕜 τ := ⟨m.burst - 1, now⟩

def allow (m : Meter 𝕜 τ) (b : Option (Bucket 𝕜 τ)) (now : τ) : Bucket 𝕜 τ × Bool :=
  match b with
  | none => (m.fresh now, true)
  | some b => if m.gone b.last now then (m.fresh now, true) else take (m.fill b now)

/-- The bucket after calls at the given instants. -/
def after (m : Meter 𝕜 τ) (b : Option (Bucket 𝕜 τ)) (ts : List τ) : Option (Bucket 𝕜 τ) :=
  ts.foldl (fun b t => some (m.allow b t).1) b

def answers (m : Meter 𝕜 τ) : Option (Bucket 𝕜 τ) → List τ → List Bool
  | _, [] => []
  | b, t :: ts => (m.allow b t).2 :: answers m (some (m.allow b t).1) ts

def grants (m : Meter 𝕜 τ) (b : Option (Bucket 𝕜 τ)) (ts : List τ) : Nat :=
  (m.answers b ts).count true

@[simp] theorem after_nil (m : Meter 𝕜 τ) (b : Option (Bucket 𝕜 τ)) : m.after b [] = b := rfl

theorem after_cons (m : Meter 𝕜 τ) (b : Option (Bucket 𝕜 τ)) (t : τ) (ts : List τ) :
    m.after b (t :: ts) = m.after (some (m.allow b t).1) ts := rfl

@[simp] theorem answers_nil (m : Meter 𝕜 τ) (b : Option (Bucket 𝕜 τ)) : m.answers b [] = [] := rfl

theorem answers_cons (m : Meter 𝕜 τ) (b : Option (Bucket 𝕜 τ)) (t : τ) (ts : List τ) :
    m.answers b (t :: ts) = (m.allow b t).2 :: m.answers (some (m.allow b t).1) ts := rfl

theorem answers_append (m : Meter 𝕜 τ) (b : Option (Bucket 𝕜 τ)) (ts us : List τ) :
    m.answers b (ts ++ us) = m.answers b ts ++ m.answers (m.after b ts) us := by
  induction ts generalizing b with
  | nil => rfl
  | cons t ts ih => simp [answers_cons, after_cons, ih]

/-- Whether the call is granted, as a number. -/
def granted (ok : Bool) : 𝕜 := if ok then 1 else 0

theorem grants_cons (m : Meter 𝕜 τ) (b : Option (Bucket 𝕜 τ)) (t : τ) (ts : List τ) :
    (m.grants b (t :: ts) : 𝕜) =
      granted (m.allow b t).2 + m.grants (some (m.allow b t).1) ts := by
  unfold grants
  rw [answers_cons]
  cases (m.allow b t).2 with
  | false => simp [granted]
  | true => simp [granted, add_comm]

/-! ## Laws -/

/-- What the limiter takes for the time between two instants is some of it,
and none only if there is none. -/
structure Lawful (m : Meter 𝕜 τ) : Prop where
  rate_nonneg : 0 ≤ m.rate
  elapsed_le : ∀ s t, 0 < m.elapsed s t → m.elapsed s t ≤ m.gauge t - m.gauge s
  gauge_le : ∀ s t, ¬ 0 < m.elapsed s t → m.gauge t ≤ m.gauge s

/-- A bucket is forgotten only when it would have been filled up. -/
def Covered (m : Meter 𝕜 τ) : Prop :=
  ∀ s t, m.gone s t = true → max 1 m.burst ≤ m.rate * (m.gauge t - m.gauge s)

/-- How full a bucket can be. A first call is granted also when `burst` is
less than one token, and then leaves a debt. -/
structure Within (m : Meter 𝕜 τ) (b : Bucket 𝕜 τ) : Prop where
  floor : min 0 (m.burst - 1) ≤ b.tokens
  cap : b.tokens ≤ m.burst

/-! ## How full a bucket is -/

section Bound

variable [IsStrictOrderedRing 𝕜] {m : Meter 𝕜 τ} {b : Bucket 𝕜 τ} {now : τ}

theorem within_fresh (m : Meter 𝕜 τ) (now : τ) : m.Within (m.fresh now) where
  floor := min_le_right ..
  cap := by
    simp only [fresh]
    linarith

theorem Within.fill (hm : m.Lawful) (h : m.Within b) (now : τ) : m.Within (m.fill b now) := by
  unfold Meter.fill
  split
  · rename_i hpos
    have hgain : 0 ≤ m.elapsed b.last now * m.rate := mul_nonneg hpos.le hm.rate_nonneg
    have hfloor : min 0 (m.burst - 1) ≤ m.burst := by
      have hle : min 0 (m.burst - 1) ≤ m.burst - 1 := min_le_right ..
      linarith
    constructor
    case floor => exact le_min hfloor (by linarith [h.floor])
    case cap => exact min_le_left ..
  · exact h

theorem Within.take (h : m.Within b) : m.Within (take b).1 := by
  unfold Meter.take
  split
  · exact h
  · rename_i hone
    have hone : 1 ≤ b.tokens := not_lt.mp hone
    constructor
    case floor =>
      have hle : min 0 (m.burst - 1) ≤ 0 := min_le_left ..
      simp only
      linarith
    case cap =>
      simp only
      linarith [h.cap]

theorem Within.allow (hm : m.Lawful) {b : Option (Bucket 𝕜 τ)} (h : ∀ x ∈ b, m.Within x)
    (now : τ) : m.Within (m.allow b now).1 := by
  cases b with
  | none => exact within_fresh m now
  | some b =>
    simp only [Meter.allow]
    split
    · exact within_fresh m now
    · exact ((h b rfl).fill hm now).take

/-- Every bucket that comes about in a run is within its bounds. -/
theorem within_after (hm : m.Lawful) {b : Option (Bucket 𝕜 τ)} (h : ∀ x ∈ b, m.Within x)
    (ts : List τ) : ∀ x ∈ m.after b ts, m.Within x := by
  induction ts generalizing b with
  | nil => exact h
  | cons t ts ih =>
    rw [after_cons]
    apply ih
    intro x hx
    cases hx
    exact Within.allow hm h t

/-! ## The bound -/

/-- The tokens of a bucket, less those that the time line has brought up to
the instant it was last filled. -/
def potential (m : Meter 𝕜 τ) (b : Bucket 𝕜 τ) : 𝕜 := b.tokens - m.rate * m.gauge b.last

theorem potential_fill_le (hm : m.Lawful) (b : Bucket 𝕜 τ) (now : τ) :
    m.potential (m.fill b now) ≤ m.potential b := by
  unfold fill potential
  split
  · rename_i hpos
    have hle : min m.burst (b.tokens + m.elapsed b.last now * m.rate) ≤
        b.tokens + m.elapsed b.last now * m.rate := min_le_right ..
    have hmul := mul_le_mul_of_nonneg_right (hm.elapsed_le b.last now hpos) hm.rate_nonneg
    simp only
    linarith
  · exact le_rfl

omit [IsStrictOrderedRing 𝕜] in
theorem take_tokens (b : Bucket 𝕜 τ) :
    granted (take b).2 + (take b).1.tokens = b.tokens ∧ (take b).1.last = b.last := by
  unfold take
  split <;> simp [granted]

/-- `burst` is what a bucket at its lowest lacks to be full. -/
theorem burst_sub_floor (m : Meter 𝕜 τ) : m.burst - min 0 (m.burst - 1) = max 1 m.burst := by
  rcases le_total 1 m.burst with h | h
  · rw [min_eq_left (by linarith), max_eq_right h, sub_zero]
  · rw [min_eq_right (by linarith), max_eq_left h, sub_sub_cancel]

/-- **One call.** A grant lowers the potential by one, and nothing raises
it. -/
theorem allow_charge (hm : m.Lawful) (hgone : m.Covered) (h : m.Within b) (now : τ) :
    granted (m.allow (some b) now).2 + m.potential (m.allow (some b) now).1 ≤ m.potential b := by
  simp only [allow]
  split
  · rename_i hnow
    have hfull := hgone b.last now hnow
    have hfloor := h.floor
    rw [← burst_sub_floor m] at hfull
    simp only [granted, ↓reduceIte, potential, fresh]
    linarith
  · obtain ⟨htokens, hlast⟩ := take_tokens (m.fill b now)
    have hfill := potential_fill_le hm b now
    unfold potential at hfill ⊢
    rw [hlast]
    linarith

/-- The first call of a sequence, whatever the bucket was. -/
theorem allow_first (hm : m.Lawful) {b : Option (Bucket 𝕜 τ)} (h : ∀ x ∈ b, m.Within x)
    (now : τ) :
    granted (m.allow b now).2 + (m.allow b now).1.tokens ≤ m.burst ∧
      m.gauge now ≤ m.gauge (m.allow b now).1.last := by
  have hfresh : granted true + (m.fresh now).tokens ≤ m.burst ∧
      m.gauge now ≤ m.gauge (m.fresh now).last := by
    simp [granted, fresh]
  cases b with
  | none => exact hfresh
  | some b =>
    simp only [allow]
    split
    · exact hfresh
    · obtain ⟨htokens, hlast⟩ := take_tokens (m.fill b now)
      rw [htokens, hlast]
      refine ⟨((h b rfl).fill hm now).cap, ?_⟩
      unfold fill
      split
      · exact le_rfl
      · exact hm.gauge_le b.last now ‹_›

omit [IsStrictOrderedRing 𝕜] in
theorem gauge_allow_le (m : Meter 𝕜 τ) (b : Bucket 𝕜 τ) (now : τ) {g : 𝕜} (hb : m.gauge b.last ≤ g)
    (hnow : m.gauge now ≤ g) : m.gauge (m.allow (some b) now).1.last ≤ g := by
  simp only [allow]
  split
  · exact hnow
  · rw [(take_tokens _).2]
    unfold fill
    split
    · exact hnow
    · exact hb

omit [IsStrictOrderedRing 𝕜] in
/-- A bucket was last filled at one of the calls. -/
theorem gauge_after_le (m : Meter 𝕜 τ) {b : Option (Bucket 𝕜 τ)} {ts : List τ} {g : 𝕜}
    (hb : ∀ x ∈ b, m.gauge x.last ≤ g) (hts : ∀ t ∈ ts, m.gauge t ≤ g) :
    ∀ x ∈ m.after b ts, m.gauge x.last ≤ g := by
  induction ts generalizing b with
  | nil => exact hb
  | cons t ts ih =>
    rw [after_cons]
    refine ih ?_ fun u hu => hts u (List.mem_cons_of_mem t hu)
    rintro x ⟨⟩
    have ht := hts t List.mem_cons_self
    cases b with
    | none => exact ht
    | some b => exact gauge_allow_le m b t (hb b rfl) ht

/-- From a bucket on, no more is granted than it has, and gets up to `g`. -/
theorem grants_some_le (hm : m.Lawful) (hgone : m.Covered) {b : Bucket 𝕜 τ} (h : m.Within b)
    {ts : List τ} {g : 𝕜} (hb : m.gauge b.last ≤ g) (hts : ∀ t ∈ ts, m.gauge t ≤ g) :
    (m.grants (some b) ts : 𝕜) ≤
      b.tokens - min 0 (m.burst - 1) + m.rate * (g - m.gauge b.last) := by
  induction ts generalizing b with
  | nil =>
    have hgain : 0 ≤ m.rate * (g - m.gauge b.last) :=
      mul_nonneg hm.rate_nonneg (sub_nonneg.mpr hb)
    simp only [grants, answers_nil, List.count_nil, Nat.cast_zero]
    linarith [h.floor]
  | cons t ts ih =>
    rw [grants_cons]
    have hrest := ih (Within.allow hm (by rintro x ⟨⟩; exact h) t)
      (gauge_allow_le m b t hb (hts t List.mem_cons_self))
      (fun u hu => hts u (List.mem_cons_of_mem t hu))
    have hcharge := allow_charge hm hgone h t
    unfold potential at hcharge
    linarith

/-- **The bound.** Whatever the bucket was before. -/
theorem grants_le (hm : m.Lawful) (hgone : m.Covered) {b : Option (Bucket 𝕜 τ)}
    (h : ∀ x ∈ b, m.Within x) {t : τ} {ts : List τ} {g : 𝕜} (ht : m.gauge t ≤ g)
    (hts : ∀ u ∈ ts, m.gauge u ≤ g) :
    (m.grants b (t :: ts) : 𝕜) ≤ max 1 m.burst + m.rate * (g - m.gauge t) := by
  rw [grants_cons]
  obtain ⟨hfirst, hlast⟩ := allow_first hm h t
  -- the bucket may have been filled later than any of these instants
  have hrest := grants_some_le hm hgone (Within.allow hm h t)
    (le_max_right g (m.gauge (m.allow b t).1.last))
    (fun u hu => (hts u hu).trans (le_max_left ..))
  have hgain : m.rate * (max g (m.gauge (m.allow b t).1.last) - m.gauge (m.allow b t).1.last) ≤
      m.rate * (g - m.gauge t) := by
    apply mul_le_mul_of_nonneg_left _ hm.rate_nonneg
    rcases le_total g (m.gauge (m.allow b t).1.last) with hg | hg
    · rw [max_eq_right hg]
      linarith
    · rw [max_eq_left hg]
      linarith
  have hfloor := burst_sub_floor m
  linarith

end Bound

/-! ## Forgetting buckets -/

/-- The meter `m'` is `m`, which forgets no bucket, but for forgetting
buckets. -/
structure Forgetful (m m' : Meter 𝕜 τ) : Prop where
  keeps : ∀ s t, m.gone s t = false
  burst : m'.burst = m.burst
  fill : ∀ b t, m'.gone b.last t = false → m'.fill b t = m.fill b t

section Forgetful

variable {m m' : Meter 𝕜 τ}

/-- **One call.** A forgotten bucket makes no difference exactly if it is
full. -/
theorem Forgetful.allow_eq_iff (h : Forgetful m m') (b : Option (Bucket 𝕜 τ)) (t : τ) :
    m'.allow b t = m.allow b t ↔
      ∀ x ∈ b, m'.gone x.last t = true → 1 ≤ m.burst ∧ m.fill x t = ⟨m.burst, t⟩ := by
  cases b with
  | none => simp [allow, fresh, h.burst]
  | some x =>
    simp only [allow, h.keeps, Option.mem_some_iff, forall_eq', Bool.false_eq_true, ↓reduceIte]
    cases hgone : m'.gone x.last t with
    | false => simp [h.fill x t hgone]
    | true =>
      simp only [↓reduceIte, fresh, h.burst, forall_const]
      constructor
      · intro heq
        unfold take at heq
        split at heq
        · simp at heq
        · rename_i hone
          simp only [Prod.mk.injEq, Bucket.mk.injEq, sub_left_inj, and_true] at heq
          have hfull : m.fill x t = ⟨m.burst, t⟩ := by
            cases hfill : m.fill x t
            rw [hfill] at heq
            simp [heq]
          rw [hfull] at hone
          exact ⟨not_lt.mp hone, hfull⟩
      · rintro ⟨hone, hfull⟩
        simp [hfull, take, not_lt.mpr hone]

/-- **Runs.** The two agree, in their answers and in what is left in the
bucket, after every call of a sequence, exactly if every bucket that the one
has forgotten when a call comes is full in the other. -/
theorem Forgetful.agree_iff (h : Forgetful m m') (b : Option (Bucket 𝕜 τ)) (ts : List τ) :
    (∀ us, us <+: ts → m'.answers b us = m.answers b us ∧ m'.after b us = m.after b us) ↔
      ∀ us t, us ++ [t] <+: ts → ∀ x ∈ m.after b us, m'.gone x.last t = true →
        1 ≤ m.burst ∧ m.fill x t = ⟨m.burst, t⟩ := by
  induction ts generalizing b with
  | nil => simp
  | cons t ts ih =>
    have hstep := h.allow_eq_iff b t
    have hrest := ih (some (m.allow b t).1)
    constructor
    · intro hagree
      have hfirst : m'.allow b t = m.allow b t := by
        obtain ⟨hanswer, hafter⟩ := hagree [t] (by simp)
        simp only [answers_cons, answers_nil, List.cons.injEq, and_true] at hanswer
        simp only [after_cons, after_nil, Option.some.injEq] at hafter
        exact Prod.ext hafter hanswer
      have hlater := hrest.mp (by
        intro us hus
        obtain ⟨hanswer, hafter⟩ := hagree (t :: us) ((List.cons_prefix_cons).mpr ⟨rfl, hus⟩)
        simp only [answers_cons, hfirst, List.cons.injEq, true_and] at hanswer
        simp only [after_cons, hfirst] at hafter
        exact ⟨hanswer, hafter⟩)
      intro us u hus
      cases us with
      | nil =>
        obtain rfl : u = t := (List.cons_prefix_cons.mp hus).1
        exact hstep.mp hfirst
      | cons v us =>
        obtain ⟨rfl, hlast⟩ := List.cons_prefix_cons.mp hus
        exact hlater us u hlast
    · intro hfull
      have hfirst : m'.allow b t = m.allow b t := hstep.mpr (hfull [] t (by simp))
      have hlater := hrest.mpr fun us u hus =>
        hfull (t :: us) u (List.cons_prefix_cons.mpr ⟨rfl, hus⟩)
      intro us hus
      cases us with
      | nil => exact ⟨rfl, rfl⟩
      | cons v us =>
        obtain ⟨rfl, htail⟩ := List.cons_prefix_cons.mp hus
        obtain ⟨hanswer, hafter⟩ := hlater us htail
        rw [answers_cons, answers_cons, after_cons, after_cons, hfirst]
        exact ⟨by rw [hanswer], hafter⟩

end Forgetful

end Meter

end GoRestApi.Limit
