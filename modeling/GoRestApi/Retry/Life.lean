/-
GoRestApi.Retry.Life — the life of one item of a work queue with retries, by
the number of times it is worked on.

The queue counts attempts in the item and compares the count with a budget.
`extra` is how often a failed attempt is counted beyond the one time it
should be: with `extra = 0` the counter is the number of attempts. An item
whose counter is over its budget when an attempt fails is put aside as dead;
one that goes over it by the extra counts alone is forgotten.

What the attempts lead to is given by `plan`: attempt number `k` succeeds
exactly if `plan k`. A system is connected to the life of an item by showing
that each of its steps is a `Move` or leaves the life as it is. `Lawful` is
the invariant, and `Lawful.completed_at` and `Lawful.never_completed` say how
a life ends: there are `budget / (extra + 1) + 1` attempts at most, and the
item that has used them all is dead if `extra + 1` divides the budget, and
otherwise nowhere.
-/
import GoRestApi.Retry.Ledger

namespace GoRestApi.Retry

/-- What an item carries through its attempts; `kind` is what no attempt
changes. -/
structure Count (κ : Type) where
  kind : κ
  attempts : Int
  budget : Int

variable {κ : Type}

/-- The counter as the next attempt advances it. -/
def Count.next (c : Count κ) : Count κ := { c with attempts := c.attempts + 1 }

/-- What becomes of an item whose attempt has failed. -/
inductive Fate (κ : Type) where
  | again (c : Count κ)
  | bury
  | forget

def fate (extra : Nat) (c : Count κ) : Fate κ :=
  if c.budget < c.attempts then .bury
  else if c.budget < c.attempts + extra then .forget
  else .again { c with attempts := c.attempts + extra }

/-- One item: its copies, with the stage each is in, and how many attempts
have been made. -/
structure Life (κ : Type) where
  copies : Multiset (Stage × Count κ)
  invoked : Nat

/-! ## How a life goes on -/

/-- What happens to a copy after `k` attempts, and the number of attempts
then. -/
inductive Turn (extra : Nat) (plan : Nat → Bool) :
    Nat → Stage × Count κ → Nat → Multiset (Stage × Count κ) → Prop
  | take {k c} : Turn extra plan k (.queued, c) k {(.taken, c)}
  | start {k c} : Turn extra plan k (.taken, c) (k + 1) {(.running, c.next)}
  | succeed {k c} : plan k = true → Turn extra plan k (.running, c) k {(.completed, c)}
  | fail {k c} : plan k = false → Turn extra plan k (.running, c) k {(.failing, c)}
  | retry {k c c'} : fate extra c = .again c' →
      Turn extra plan k (.failing, c) k {(.queued, c')}
  | bury {k c} : fate extra c = .bury → Turn extra plan k (.failing, c) k {(.dead, c)}
  | forget {k c} : fate extra c = .forget → Turn extra plan k (.failing, c) k 0

/-- One copy takes a turn. -/
def Move (extra : Nat) (plan : Nat → Bool) (L L' : Life κ) : Prop :=
  ∃ x y rest, L.copies = {x} + rest ∧ L'.copies = y + rest ∧
    Turn extra plan L.invoked x L'.invoked y

/-- The first `k` attempts fail. -/
def Failed (plan : Nat → Bool) (k : Nat) : Prop := ∀ i, 1 ≤ i → i ≤ k → plan i = false

/-- Attempt `k` is the first that succeeds. -/
def First (plan : Nat → Bool) (k : Nat) : Prop :=
  1 ≤ k ∧ plan k = true ∧ Failed plan (k - 1)

theorem Failed.succ {plan : Nat → Bool} {k : Nat} (h : Failed plan k)
    (hk : plan (k + 1) = false) : Failed plan (k + 1) := by
  intro i hi hle
  rcases Nat.lt_or_ge i (k + 1) with hlt | hge
  · exact h i hi (Nat.le_of_lt_succ hlt)
  · obtain rfl : i = k + 1 := by omega
    exact hk

/-- There is one first success. -/
theorem First.eq_of_failed {plan : Nat → Bool} {k j : Nat} (h : First plan k)
    (hj : Failed plan j) (hsucc : plan (j + 1) = true) : k = j + 1 := by
  obtain ⟨hpos, hk, hbefore⟩ := h
  rcases Nat.lt_trichotomy k (j + 1) with hlt | rfl | hgt
  · rw [hj k hpos (by omega)] at hk
    cases hk
  · rfl
  · rw [hbefore (j + 1) (by omega) (by omega)] at hsucc
    cases hsucc

theorem First.lt_of_failed {plan : Nat → Bool} {k j : Nat} (h : First plan k)
    (hj : Failed plan j) : j < k := by
  by_contra hle
  have := hj k h.1 (by omega)
  rw [h.2.1] at this
  cases this

/-! ## The invariant -/

section Invariant

variable (extra : Nat) (plan : Nat → Bool) (kind : κ) (budget : Int)

/-- After `k` attempts, all of which failed, the item waits for the next. -/
structure Waits (k : Nat) (c : Count κ) : Prop where
  kind_eq : c.kind = kind
  budget_eq : c.budget = budget
  attempts_eq : c.attempts = ((extra + 1) * k : Nat)
  within : k = 0 ∨ c.attempts ≤ c.budget
  failed : Failed plan k

/-- Attempt number `k` is being made, or has been. -/
def Begun (k : Nat) (c : Count κ) : Prop :=
  ∃ j c', Waits extra plan kind budget j c' ∧ k = j + 1 ∧ c = c'.next

/-- What is so of a copy in each stage, after `k` attempts. -/
def Fits (k : Nat) (c : Count κ) : Stage → Prop
  | .queued | .taken => Waits extra plan kind budget k c
  | .running => Begun extra plan kind budget k c
  | .failing => Begun extra plan kind budget k c ∧ plan k = false
  | .completed => Begun extra plan kind budget k c ∧ plan k = true
  | .dead => Begun extra plan kind budget k c ∧ plan k = false ∧ budget < c.attempts

/-- There is one copy, as its stage says; or none, of an item that was
forgotten. -/
def Lawful (L : Life κ) : Prop :=
  (∃ st c, L.copies = {(st, c)} ∧ Fits extra plan kind budget L.invoked c st) ∨
    (L.copies = 0 ∧ ∃ c, Begun extra plan kind budget L.invoked c ∧ plan L.invoked = false ∧
      c.attempts ≤ budget ∧ budget < c.attempts + extra)

end Invariant

variable {extra : Nat} {plan : Nat → Bool} {kind : κ} {budget : Int}

theorem fate_eq_bury {c : Count κ} : fate extra c = .bury ↔ c.budget < c.attempts := by
  unfold fate
  split
  · simpa
  · split <;> simp <;> omega

theorem fate_eq_forget {c : Count κ} :
    fate extra c = .forget ↔ c.attempts ≤ c.budget ∧ c.budget < c.attempts + extra := by
  unfold fate
  split
  · simp; omega
  · split <;> simp <;> omega

theorem fate_eq_again {c c' : Count κ} :
    fate extra c = .again c' ↔ c.attempts + extra ≤ c.budget ∧
      c' = { c with attempts := c.attempts + extra } := by
  unfold fate
  split
  · simp; omega
  · split
    · simp; omega
    · rename_i hle
      simp [Int.not_lt.mp hle, eq_comm]

/-- An item begins with a counter of zero. -/
theorem lawful_queued : Lawful extra plan kind budget ⟨{(.queued, ⟨kind, 0, budget⟩)}, 0⟩ :=
  .inl ⟨.queued, _, rfl, rfl, rfl, by simp, .inl rfl,
    fun _ hpos hle => absurd (Nat.le_trans hpos hle) (by simp)⟩

theorem Begun.kind_eq {k : Nat} {c : Count κ} (h : Begun extra plan kind budget k c) :
    c.kind = kind := by
  obtain ⟨j, c', hw, _, rfl⟩ := h
  exact hw.kind_eq

theorem Begun.budget_eq {k : Nat} {c : Count κ} (h : Begun extra plan kind budget k c) :
    c.budget = budget := by
  obtain ⟨j, c', hw, _, rfl⟩ := h
  exact hw.budget_eq

/-- An item that waits again has been counted once more and has failed. -/
theorem Begun.waits {k : Nat} {c c' : Count κ} (h : Begun extra plan kind budget k c)
    (hfail : plan k = false) (hagain : fate extra c = .again c') :
    Waits extra plan kind budget k c' := by
  obtain ⟨j, c₀, hw, rfl, rfl⟩ := h
  obtain ⟨hle, rfl⟩ := fate_eq_again.mp hagain
  refine ⟨hw.kind_eq, hw.budget_eq, ?_, .inr hle, hw.failed.succ hfail⟩
  simp only [Count.next, hw.attempts_eq, Nat.mul_succ]
  omega

/-- **Step.** A turn of the one copy keeps the life lawful. -/
theorem Lawful.move {L L' : Life κ} (h : Lawful extra plan kind budget L)
    (hmove : Move extra plan L L') : Lawful extra plan kind budget L' := by
  obtain ⟨x, y, rest, hx, hy, hturn⟩ := hmove
  obtain ⟨copies, k⟩ := L
  obtain ⟨copies', k'⟩ := L'
  simp only at hx hy hturn
  subst hx hy
  rcases h with ⟨st, c, hsingle, hfits⟩ | ⟨hzero, _⟩
  · -- the copy that moves is the only one
    have hcard := congrArg Multiset.card hsingle
    simp only [Multiset.card_add, Multiset.card_singleton, Nat.add_eq_left,
      Multiset.card_eq_zero] at hcard
    subst hcard
    rw [add_zero, Multiset.singleton_inj] at hsingle
    subst hsingle
    rw [add_zero]
    cases hturn with
    | take => exact .inl ⟨_, _, rfl, hfits⟩
    | start => exact .inl ⟨_, _, rfl, k, c, hfits, rfl, rfl⟩
    | succeed hplan => exact .inl ⟨_, _, rfl, hfits, hplan⟩
    | fail hplan => exact .inl ⟨_, _, rfl, hfits, hplan⟩
    | retry hagain => exact .inl ⟨_, _, rfl, hfits.1.waits hfits.2 hagain⟩
    | bury hbury =>
      exact .inl ⟨_, _, rfl, hfits.1, hfits.2, hfits.1.budget_eq ▸ fate_eq_bury.mp hbury⟩
    | forget hforget =>
      obtain ⟨hle, hlt⟩ := fate_eq_forget.mp hforget
      rw [hfits.1.budget_eq] at hle hlt
      exact .inr ⟨rfl, c, hfits.1, hfits.2, hle, hlt⟩
  · simp at hzero

/-- A copy of a lawful life is the only one. -/
theorem Lawful.of_mem {L : Life κ} (h : Lawful extra plan kind budget L) {st : Stage}
    {c : Count κ} (hmem : (st, c) ∈ L.copies) :
    L.copies = {(st, c)} ∧ Fits extra plan kind budget L.invoked c st := by
  rcases h with ⟨st', c', hsingle, hfits⟩ | ⟨hzero, _⟩
  · rw [hsingle, Multiset.mem_singleton] at hmem
    cases hmem
    exact ⟨hsingle, hfits⟩
  · rw [hzero] at hmem
    exact absurd hmem (Multiset.notMem_zero _)

theorem Lawful.card_le_one {L : Life κ} (h : Lawful extra plan kind budget L) :
    L.copies.card ≤ 1 := by
  rcases h with ⟨_, _, hsingle, _⟩ | ⟨hzero, _⟩
  · rw [hsingle, Multiset.card_singleton]
  · rw [hzero]
    exact Nat.zero_le 1

/-- An item waits for at most `budget` attempts. -/
theorem Waits.le_budget {k m : Nat} {c : Count κ} (h : Waits extra plan kind m k c) : k ≤ m := by
  rcases h.within with rfl | hle
  · exact Nat.zero_le m
  · rw [h.attempts_eq, h.budget_eq] at hle
    exact Nat.le_trans (Nat.le_mul_of_pos_left k (Nat.succ_pos extra)) (Int.ofNat_le.mp hle)

/-! ## How a life ends -/

/-- The item is neither waiting nor being worked on. -/
def Life.AtRest (L : Life κ) : Prop := ∀ x ∈ L.copies, x.1 = .completed ∨ x.1 = .dead

/-- How many of the copies are in the stage. -/
def Life.count (L : Life κ) (st : Stage) : Nat := (L.copies.map Prod.fst).count st

/-- The three ends, with what the counter says. `j` is the number of attempts
before the last. -/
theorem Lawful.ends {L : Life κ} {m : Nat} (h : Lawful extra plan kind m L) (hrest : L.AtRest) :
    ∃ j, L.invoked = j + 1 ∧ (extra + 1) * j ≤ m ∧ Failed plan j ∧
      ((plan (j + 1) = true ∧ L.count .completed = 1 ∧ L.count .dead = 0) ∨
        (plan (j + 1) = false ∧ L.count .completed = 0 ∧
          ((L.count .dead = 1 ∧ m = (extra + 1) * j) ∨
            (L.count .dead = 0 ∧ (extra + 1) * j < m ∧ m < (extra + 1) * (j + 1))))) := by
  have hbegun : ∀ {k c}, Begun extra plan kind (m : Int) k c → ∃ j, k = j + 1 ∧
      (extra + 1) * j ≤ m ∧ Failed plan j ∧ c.attempts = ((extra + 1) * j : Nat) + 1 := by
    rintro k c ⟨j, c', hw, rfl, rfl⟩
    have hattempts := hw.attempts_eq
    refine ⟨j, rfl, ?_, hw.failed, by rw [Count.next, hattempts]⟩
    rcases hw.within with rfl | hle
    · simp
    · rw [hattempts, hw.budget_eq] at hle
      exact Int.ofNat_le.mp hle
  obtain ⟨copies, k⟩ := L
  rcases h with ⟨st, c, hsingle, hfits⟩ | ⟨hzero, c, hb, hplan, hle, hlt⟩
  · simp only at hsingle hfits
    subst hsingle
    have hst : st = .completed ∨ st = .dead := hrest _ (Multiset.mem_singleton_self _)
    rcases hst with rfl | rfl
    · obtain ⟨j, rfl, hj, hfailed, _⟩ := hbegun hfits.1
      exact ⟨j, rfl, hj, hfailed, .inl ⟨hfits.2, by simp [Life.count], by simp [Life.count]⟩⟩
    · obtain ⟨j, rfl, hj, hfailed, hattempts⟩ := hbegun hfits.1
      refine ⟨j, rfl, hj, hfailed, .inr ⟨hfits.2.1, by simp [Life.count],
        .inl ⟨by simp [Life.count], ?_⟩⟩⟩
      have := hfits.2.2
      rw [hattempts] at this
      omega
  · simp only at hzero hb hplan
    subst hzero
    obtain ⟨j, rfl, hj, hfailed, hattempts⟩ := hbegun hb
    rw [hattempts] at hle hlt
    refine ⟨j, rfl, hj, hfailed, .inr ⟨hplan, rfl, .inr ⟨rfl, by omega, ?_⟩⟩⟩
    rw [Nat.mul_succ]
    omega

/-- **A success within the budget** ends the life with it. -/
theorem Lawful.completed_at {L : Life κ} {m k : Nat} (h : Lawful extra plan kind m L)
    (hrest : L.AtRest) (hfirst : First plan k) (hk : (extra + 1) * (k - 1) ≤ m) :
    L.invoked = k ∧ L.count .completed = 1 ∧ L.count .dead = 0 := by
  obtain ⟨j, hinvoked, hj, hfailed, hend⟩ := h.ends hrest
  rcases hend with ⟨hplan, hcompleted, hdead⟩ | ⟨hplan, _, hend⟩
  · exact ⟨hinvoked.trans (hfirst.eq_of_failed hfailed hplan).symm, hcompleted, hdead⟩
  · -- attempt `j + 1` failed too, so the success would come after the budget is used up
    have hlt := hfirst.lt_of_failed (hfailed.succ hplan)
    have hmul : (extra + 1) * (j + 1) ≤ (extra + 1) * (k - 1) :=
      Nat.mul_le_mul_left _ (by omega)
    rw [Nat.mul_succ] at hmul
    rcases hend with ⟨_, hm⟩ | ⟨_, _, hm⟩
    · omega
    · rw [Nat.mul_succ] at hm
      omega

/-- **Without a success** the attempts are used up, and the item is dead or
forgotten. -/
theorem Lawful.never_completed {L : Life κ} {m : Nat} (h : Lawful extra plan kind m L)
    (hrest : L.AtRest) (hfails : Failed plan (m / (extra + 1) + 1)) :
    L.invoked = m / (extra + 1) + 1 ∧ L.count .completed = 0 ∧
      L.count .dead = if (extra + 1) ∣ m then 1 else 0 := by
  obtain ⟨j, hinvoked, hj, hfailed, hend⟩ := h.ends hrest
  have hpos : 0 < extra + 1 := Nat.succ_pos extra
  have hjle : j ≤ m / (extra + 1) := (Nat.le_div_iff_mul_le hpos).mpr (by rwa [Nat.mul_comm])
  rcases hend with ⟨hplan, _, _⟩ | ⟨_, hcompleted, hend⟩
  · rw [hfails (j + 1) (by omega) (by omega)] at hplan
    cases hplan
  · rcases hend with ⟨hdead, rfl⟩ | ⟨hdead, hlo, hhi⟩
    · refine ⟨?_, hcompleted, ?_⟩
      · rw [hinvoked, Nat.mul_div_cancel_left j hpos]
      · rw [hdead, if_pos (Nat.dvd_mul_right ..)]
    · refine ⟨?_, hcompleted, ?_⟩
      · rw [hinvoked, Nat.div_eq_of_lt_le (by rwa [Nat.mul_comm]) (by rwa [Nat.mul_comm])]
      · rw [hdead, if_neg]
        exact Nat.not_dvd_of_lt_of_lt_mul_succ hlo hhi

end GoRestApi.Retry
