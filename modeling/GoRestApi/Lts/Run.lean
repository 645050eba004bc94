/-
GoRestApi.Lts.Run — runs of a partial step function.

A transition system is given by `step : σ → α → Option σ`: performing the
action `a` in state `s` gives `step s a`, and `none` means that `a` is not
enabled in `s` (a blocked call, a row another session has locked). All the
nondeterminism of a system — the scheduler, the clock, the answers of other
machines — is in the actions, so a run is a list of actions and everything
that is said of every list is said of every interleaving.

* `run step s as` — the state after the actions `as`, if all are enabled.
* `Along step P s as` — every action of the run meets `P` in the state it is
  performed in. This is how a condition on the steps of a run is stated.
* `Always step I s as` — `I` holds in every state the run passes through.
* `Can step C P s` — a run whose steps meet `C` leads from `s` to `P`; with
  `Can.of_measure` for the arguments that something is brought to its end.

`run_invariant` and `Along.invariant` are the two induction rules; every
safety theorem of the project is an application of one of them to a step
lemma. Where the step lemma says that the step refines an abstract one, the
invariant is the abstract one, by `invariant_of_refines`; where it matches the
step by steps of another system, `run_of_simulates` matches whole runs; and
where it says what a step does not touch, `run_filter` leaves such steps out.
`moved_cases` is for the states that say where each of several parties is.
What is said of the past of a state is said of the actions that led to it, with
`run_history` for the induction, `exists_step_of_run` for the step at which
something happened and `latched_iff` for the step that something still lasts
from; or it is `recorded` as the run goes, with `recorded_invariant`.
-/
import Mathlib.Data.List.Induction
import Mathlib.Logic.Function.Basic

namespace GoRestApi.Lts

variable {σ τ α : Type}

/-! ## Runs -/

/-- The state after performing `as` from `s`; `none` when one of the actions
is not enabled where it is performed. -/
def run (step : σ → α → Option σ) : σ → List α → Option σ
  | s, [] => some s
  | s, a :: as => (step s a).bind fun s' => run step s' as

@[simp] theorem run_nil (step : σ → α → Option σ) (s : σ) :
    run step s [] = some s := rfl

theorem run_cons (step : σ → α → Option σ) (s : σ) (a : α) (as : List α) :
    run step s (a :: as) = (step s a).bind fun s' => run step s' as := rfl

theorem run_cons_eq_some {step : σ → α → Option σ} {s t : σ} {a : α} {as : List α} :
    run step s (a :: as) = some t ↔ ∃ s', step s a = some s' ∧ run step s' as = some t := by
  rw [run_cons, Option.bind_eq_some_iff]

/-- A run goes on from where its first step leads. -/
theorem run_cons_of_step {step : σ → α → Option σ} {s s' : σ} {a : α} (h : step s a = some s')
    (as : List α) : run step s (a :: as) = run step s' as := by
  rw [run_cons, h, Option.bind_some]

/-- A run on a fixed input, evaluated. -/
theorem exists_run_of_any {step : σ → α → Option σ} {s : σ} {as : List α} {P : σ → Prop}
    [DecidablePred P] (h : (run step s as).any (fun t => decide (P t)) = true) :
    ∃ t, run step s as = some t ∧ P t := by
  simpa [Option.any_eq_true] using h

/-- **Invariant rule.** What every step preserves, every run preserves. -/
theorem run_invariant {step : σ → α → Option σ} {I : σ → Prop}
    (hstep : ∀ s a s', I s → step s a = some s' → I s')
    {s t : σ} {as : List α} (hs : I s) (hrun : run step s as = some t) : I t := by
  induction as generalizing s with
  | nil => cases hrun; exact hs
  | cons a as ih =>
    obtain ⟨s', hs', hrun⟩ := run_cons_eq_some.mp hrun
    exact ih (hstep s a s' hs hs') hrun

/-! ## The past of a state -/

theorem run_append (step : σ → α → Option σ) (s : σ) (as bs : List α) :
    run step s (as ++ bs) = (run step s as).bind fun t => run step t bs := by
  induction as generalizing s with
  | nil => rfl
  | cons a as ih =>
    rw [List.cons_append, run_cons, run_cons]
    cases step s a with
    | none => rfl
    | some s' => exact ih s'

theorem run_append_eq_some {step : σ → α → Option σ} {s t : σ} {as bs : List α} :
    run step s (as ++ bs) = some t ↔
      ∃ u, run step s as = some u ∧ run step u bs = some t := by
  rw [run_append, Option.bind_eq_some_iff]

theorem run_singleton (step : σ → α → Option σ) (s : σ) (a : α) :
    run step s [a] = step s a := by
  rw [run_cons]
  cases step s a <;> rfl

/-- **Invariant rule with history.** As `run_invariant`, for what is said of a
state and the actions that led to it. -/
theorem run_history {step : σ → α → Option σ} {I : List α → σ → Prop} {s t : σ} {as : List α}
    (hinit : I [] s)
    (hstep : ∀ as u a u', run step s as = some u → I as u → step u a = some u' →
      I (as ++ [a]) u')
    (hrun : run step s as = some t) : I as t := by
  induction as using List.reverseRecOn generalizing t with
  | nil => cases hrun; exact hinit
  | append_singleton as a ih =>
    obtain ⟨u, hu, ha⟩ := run_append_eq_some.mp hrun
    rw [run_singleton] at ha
    exact hstep as u a t hu (ih hu) ha

/-- What `out` gives for each step of the run, in their order. -/
def recorded {β : Type} (step : σ → α → Option σ) (out : σ → α → σ → List β) :
    σ → List α → List β
  | _, [] => []
  | s, a :: as =>
    match step s a with
    | none => []
    | some s' => out s a s' ++ recorded step out s' as

/-- **Invariant rule with a record.** As `run_invariant`, for what is said of a
state and the record of the steps that led to it. -/
theorem recorded_invariant {β : Type} {step : σ → α → Option σ} {out : σ → α → σ → List β}
    {I : List β → σ → Prop}
    (hstep : ∀ l s a s', I l s → step s a = some s' → I (l ++ out s a s') s')
    {s t : σ} {as : List α} {l : List β} (hs : I l s) (hrun : run step s as = some t) :
    I (l ++ recorded step out s as) t := by
  induction as generalizing s l with
  | nil =>
    cases hrun
    rwa [recorded, List.append_nil]
  | cons a as ih =>
    obtain ⟨s', hs', hrun⟩ := run_cons_eq_some.mp hrun
    simpa only [recorded, hs', List.append_assoc] using ih (hstep l s a s' hs hs') hrun

/-- What is recorded was recorded at a step. -/
theorem exists_of_mem_recorded {β : Type} {step : σ → α → Option σ} {out : σ → α → σ → List β}
    {s : σ} {as : List α} {b : β} (hb : b ∈ recorded step out s as) :
    ∃ a ∈ as, ∃ u u', step u a = some u' ∧ b ∈ out u a u' := by
  induction as generalizing s with
  | nil => cases hb
  | cons a as ih =>
    rw [recorded] at hb
    split at hb
    · cases hb
    · rename_i s' hs'
      rcases List.mem_append.mp hb with hb | hb
      · exact ⟨a, List.mem_cons_self, s, s', hs', hb⟩
      · obtain ⟨a', ha', u, u', hu, hb⟩ := ih hb
        exact ⟨a', List.mem_cons_of_mem a ha', u, u', hu, hb⟩

/-- What holds at the end of a run and not at its start came about in one of
its steps. -/
theorem exists_step_of_run {step : σ → α → Option σ} {P : σ → Prop} {s t : σ} {as : List α}
    (hrun : run step s as = some t) (hs : ¬ P s) (ht : P t) :
    ∃ as₁ a as₂ u u', as = as₁ ++ a :: as₂ ∧ run step s as₁ = some u ∧ step u a = some u' ∧
      ¬ P u ∧ P u' := by
  induction as generalizing s with
  | nil => cases hrun; exact absurd ht hs
  | cons a as ih =>
    obtain ⟨s', hs', hrun⟩ := run_cons_eq_some.mp hrun
    by_cases hP : P s'
    · exact ⟨[], a, as, s, s', rfl, rfl, hs', hs, hP⟩
    · obtain ⟨as₁, b, as₂, u, u', rfl, hu, hstep, hPu, hPu'⟩ := ih hrun hP
      exact ⟨a :: as₁, b, as₂, u, u', rfl, run_cons_eq_some.mpr ⟨s', hs', hu⟩, hstep, hPu, hPu'⟩

/-- **Latch rule.** If a step sets `B` exactly when it meets `C`, and
otherwise clears it exactly when it meets `E`, then `B` holds at the end of a
run exactly if some step of it meets `C` and none after that meets `E`. -/
theorem latched_iff {step : σ → α → Option σ} {B : σ → Prop} {C : σ → α → Prop} {E : α → Prop}
    (hstep : ∀ s a s', step s a = some s' → (B s' ↔ C s a ∨ B s ∧ ¬ E a))
    {s t : σ} {as : List α} (hs : ¬ B s) (hrun : run step s as = some t) :
    B t ↔ ∃ as₁ a as₂ u, as = as₁ ++ a :: as₂ ∧ run step s as₁ = some u ∧ C u a ∧
      ∀ b ∈ as₂, ¬ E b := by
  refine run_history (I := fun as t => B t ↔ ∃ as₁ a as₂ u, as = as₁ ++ a :: as₂ ∧
    run step s as₁ = some u ∧ C u a ∧ ∀ b ∈ as₂, ¬ E b) ?_ ?_ hrun
  · simp [hs]
  · intro as u b u' hu ih hb
    rw [hstep u b u' hb, ih]
    constructor
    · rintro (hC | ⟨⟨as₁, a, as₂, v, rfl, hv, hC, hE⟩, hb⟩)
      · exact ⟨as, b, [], u, rfl, hu, hC, by simp⟩
      · refine ⟨as₁, a, as₂ ++ [b], v, by simp, hv, hC, fun x hx => ?_⟩
        rcases List.mem_append.mp hx with hx | hx
        · exact hE x hx
        · rw [List.mem_singleton.mp hx]
          exact hb
    · rintro ⟨as₁, a, as₂, v, heq, hv, hC, hE⟩
      -- the step that sets `B` is the last one, or the last one comes after it
      rcases List.eq_nil_or_concat as₂ with rfl | ⟨as₂, x, rfl⟩
      · obtain ⟨rfl, hab⟩ := List.append_inj' heq rfl
        cases hab
        cases hu.symm.trans hv
        exact .inl hC
      · rw [List.concat_eq_append, ← List.cons_append, ← List.append_assoc] at heq
        obtain ⟨rfl, hbx⟩ := List.append_inj' heq rfl
        cases hbx
        refine .inr ⟨⟨as₁, a, as₂, v, rfl, hv, hC, fun y hy => hE y (by simp [hy])⟩, ?_⟩
        exact hE b (by simp)

/-! ## Conditions on the steps of a run -/

/-- Every action of the run meets `P` in the state it is performed in. -/
def Along (step : σ → α → Option σ) (P : σ → α → Prop) : σ → List α → Prop
  | _, [] => True
  | s, a :: as => P s a ∧ ∀ s' ∈ step s a, Along step P s' as

instance Along.decidable (step : σ → α → Option σ) (P : σ → α → Prop)
    [∀ s a, Decidable (P s a)] : ∀ s as, Decidable (Along step P s as)
  | _, [] => isTrue trivial
  | s, a :: as =>
      have : DecidablePred fun s' => Along step P s' as :=
        fun s' => Along.decidable step P s' as
      inferInstanceAs (Decidable (P s a ∧ ∀ s' ∈ step s a, Along step P s' as))

@[simp] theorem Along.nil (step : σ → α → Option σ) (P : σ → α → Prop) (s : σ) :
    Along step P s [] := trivial

theorem Along.cons_iff {step : σ → α → Option σ} {P : σ → α → Prop} {s : σ} {a : α}
    {as : List α} :
    Along step P s (a :: as) ↔ P s a ∧ ∀ s', step s a = some s' → Along step P s' as :=
  Iff.rfl

/-- The condition of the first step and, where that step leads, of the rest. -/
theorem Along.tail {step : σ → α → Option σ} {P : σ → α → Prop} {s s' : σ} {a : α}
    {as : List α} (h : Along step P s (a :: as)) (hs : step s a = some s') :
    Along step P s' as := h.2 s' hs

theorem Along.append {step : σ → α → Option σ} {P : σ → α → Prop} {s : σ} {as bs : List α}
    (h : Along step P s (as ++ bs)) :
    Along step P s as ∧ ∀ t, run step s as = some t → Along step P t bs := by
  induction as generalizing s with
  | nil => exact ⟨trivial, by rintro t ⟨⟩; exact h⟩
  | cons a as ih =>
    refine ⟨⟨h.1, fun s' hs' => (ih (h.2 s' hs')).1⟩, fun t ht => ?_⟩
    obtain ⟨s', hs', ht⟩ := run_cons_eq_some.mp ht
    exact (ih (h.2 s' hs')).2 t ht

theorem Along.of_forall {step : σ → α → Option σ} {P : σ → α → Prop} (hP : ∀ s a, P s a)
    (s : σ) (as : List α) : Along step P s as := by
  induction as generalizing s with
  | nil => trivial
  | cons a as ih => exact ⟨hP s a, fun s' _ => ih s'⟩

theorem Along.of_forall_mem {step : σ → α → Option σ} {P : α → Prop} {as : List α}
    (hP : ∀ a ∈ as, P a) (s : σ) : Along step (fun _ a => P a) s as := by
  induction as generalizing s with
  | nil => trivial
  | cons a as ih =>
    have htail : ∀ b ∈ as, P b := fun b hb => hP b (List.mem_cons_of_mem a hb)
    exact ⟨hP a List.mem_cons_self, fun s' _ => ih htail s'⟩

theorem Along.mono {step : σ → α → Option σ} {P Q : σ → α → Prop} {s : σ} {as : List α}
    (h : Along step P s as) (hPQ : ∀ s a, P s a → Q s a) : Along step Q s as := by
  induction as generalizing s with
  | nil => trivial
  | cons a as ih => exact ⟨hPQ s a h.1, fun s' hs' => ih (h.2 s' hs')⟩

theorem Along.and {step : σ → α → Option σ} {P Q : σ → α → Prop} {s : σ} {as : List α}
    (hP : Along step P s as) (hQ : Along step Q s as) :
    Along step (fun s a => P s a ∧ Q s a) s as := by
  induction as generalizing s with
  | nil => trivial
  | cons a as ih => exact ⟨⟨hP.1, hQ.1⟩, fun s' hs' => ih (hP.2 s' hs') (hQ.2 s' hs')⟩

/-- **Conditional invariant rule.** What the steps that meet `P` preserve, a
run of such steps preserves. -/
theorem Along.invariant {step : σ → α → Option σ} {P : σ → α → Prop} {I : σ → Prop}
    (hstep : ∀ s a s', I s → P s a → step s a = some s' → I s')
    {s t : σ} {as : List α} (hP : Along step P s as) (hs : I s)
    (hrun : run step s as = some t) : I t := by
  induction as generalizing s with
  | nil => cases hrun; exact hs
  | cons a as ih =>
    obtain ⟨s', hs', hrun⟩ := run_cons_eq_some.mp hrun
    exact ih (hP.tail hs') (hstep s a s' hs hP.1 hs') hrun

/-- An invariant of an abstract system `R` holds after a step that, seen
through `f`, is no step or a step of `R`. -/
theorem invariant_of_refines {f : σ → τ} {R : τ → τ → Prop} {I : τ → Prop}
    (hR : ∀ x y, I x → R x y → I y) {s s' : σ} (h : f s' = f s ∨ R (f s) (f s'))
    (hs : I (f s)) : I (f s') := by
  rcases h with hsame | hstep
  · rw [hsame]
    exact hs
  · exact hR _ _ hs hstep

/-- **Simulation rule.** If every step is matched by a run of the other system,
so is every run. -/
theorem run_of_simulates {β : Type} {step : σ → α → Option σ} {step' : τ → β → Option τ}
    {R : σ → τ → Prop}
    (hstep : ∀ s a s' t, R s t → step s a = some s' → ∃ bs t', run step' t bs = some t' ∧ R s' t')
    {s s' : σ} {t : τ} {as : List α} (h : R s t) (hrun : run step s as = some s') :
    ∃ bs t', run step' t bs = some t' ∧ R s' t' := by
  induction as generalizing s t with
  | nil => cases hrun; exact ⟨[], t, rfl, h⟩
  | cons a as ih =>
    obtain ⟨s₁, hs₁, hrun⟩ := run_cons_eq_some.mp hrun
    obtain ⟨bs, t₁, ht₁, h₁⟩ := hstep s a s₁ t h hs₁
    obtain ⟨bs', t', ht', h'⟩ := ih h₁ hrun
    exact ⟨bs ++ bs', t', run_append_eq_some.mpr ⟨t₁, ht₁, ht'⟩, h'⟩

/-- **Unwinding.** If the actions that `keep` picks out are matched in the
other system, and the rest change nothing that `R` sees, then a run is matched
by its actions that are kept. -/
theorem run_filter {step : σ → α → Option σ} {step' : τ → α → Option τ} {R : σ → τ → Prop}
    {keep : α → Bool}
    (hkeep : ∀ s t a s', keep a = true → R s t → step s a = some s' →
      ∃ t', step' t a = some t' ∧ R s' t')
    (hdrop : ∀ s t a s', keep a = false → R s t → step s a = some s' → R s' t)
    {s s' : σ} {t : τ} {as : List α} (h : R s t) (hrun : run step s as = some s') :
    ∃ t', run step' t (as.filter keep) = some t' ∧ R s' t' := by
  induction as generalizing s t with
  | nil => cases hrun; exact ⟨t, rfl, h⟩
  | cons a as ih =>
    obtain ⟨s₁, hs₁, hrun⟩ := run_cons_eq_some.mp hrun
    cases ha : keep a with
    | true =>
      obtain ⟨t₁, ht₁, h₁⟩ := hkeep s t a s₁ ha h hs₁
      obtain ⟨t', ht', h'⟩ := ih h₁ hrun
      rw [List.filter_cons_of_pos ha]
      exact ⟨t', run_cons_eq_some.mpr ⟨t₁, ht₁, ht'⟩, h'⟩
    | false =>
      rw [List.filter_cons_of_neg (by simp [ha])]
      exact ih (hdrop s t a s₁ ha h hs₁) hrun

/-! ## Counting steps -/

/-- The system with a count of the steps that `hit` picks out. -/
def counted (step : σ → α → Option σ) (hit : σ → α → Bool) (x : σ × Nat) (a : α) :
    Option (σ × Nat) :=
  (step x.1 a).map fun s' => (s', if hit x.1 a then x.2 + 1 else x.2)

theorem counted_eq_some {step : σ → α → Option σ} {hit : σ → α → Bool} {x y : σ × Nat} {a : α} :
    counted step hit x a = some y ↔
      step x.1 a = some y.1 ∧ y.2 = if hit x.1 a then x.2 + 1 else x.2 := by
  obtain ⟨t, m⟩ := y
  simp only [counted, Option.map_eq_some_iff, Prod.mk.injEq]
  constructor
  · rintro ⟨s', h, rfl, rfl⟩
    exact ⟨h, rfl⟩
  · rintro ⟨h, rfl⟩
    exact ⟨t, h, rfl, rfl⟩

/-- Counting does not change what the system does. -/
theorem run_of_counted {step : σ → α → Option σ} {hit : σ → α → Bool} {x y : σ × Nat}
    {as : List α} (h : run (counted step hit) x as = some y) : run step x.1 as = some y.1 := by
  induction as generalizing x with
  | nil => cases h; rfl
  | cons a as ih =>
    obtain ⟨x', hx, h⟩ := run_cons_eq_some.mp h
    exact run_cons_eq_some.mpr ⟨x'.1, (counted_eq_some.mp hx).1, ih h⟩

/-- **Bound rule.** If a measure never grows and the steps that `hit` picks out
lower it, a run has no more of them than the measure at its start. -/
theorem length_filter_le {step : σ → α → Option σ} {I : σ → Prop} {hit : α → Bool} (μ : σ → Nat)
    (hkeep : ∀ s a s', I s → step s a = some s' → I s')
    (hle : ∀ s a s', I s → step s a = some s' → μ s' ≤ μ s)
    (hlt : ∀ s a s', I s → step s a = some s' → hit a = true → μ s' < μ s)
    {s t : σ} {as : List α} (hs : I s) (hrun : run step s as = some t) :
    (as.filter hit).length + μ t ≤ μ s := by
  induction as generalizing s with
  | nil => cases hrun; simp
  | cons a as ih =>
    obtain ⟨s', hs', hrun⟩ := run_cons_eq_some.mp hrun
    have hrest := ih (hkeep s a s' hs hs') hrun
    cases ha : hit a with
    | true =>
      have hdrop := hlt s a s' hs hs' ha
      rw [List.filter_cons_of_pos ha, List.length_cons]
      omega
    | false =>
      have hdrop := hle s a s' hs hs'
      rw [List.filter_cons_of_neg (by simp [ha])]
      omega

/-! ## What a system can still do -/

/-- From this state a run whose steps meet `C` leads to a state with `P`. -/
inductive Can (step : σ → α → Option σ) (C : σ → α → Prop) (P : σ → Prop) : σ → Prop
  | here {s} : P s → Can step C P s
  | next {s s'} (a : α) : C s a → step s a = some s' → Can step C P s' → Can step C P s

section Can

variable {step : σ → α → Option σ} {C : σ → α → Prop} {P Q : σ → Prop}

theorem Can.exists_run {s : σ} (h : Can step C P s) :
    ∃ as t, run step s as = some t ∧ Along step C s as ∧ P t := by
  induction h with
  | here hP => exact ⟨[], _, rfl, trivial, hP⟩
  | @next s s' a hC hs _ ih =>
    obtain ⟨as, t, hrun, halong, hP⟩ := ih
    refine ⟨a :: as, t, run_cons_eq_some.mpr ⟨s', hs, hrun⟩, ⟨hC, fun u hu => ?_⟩, hP⟩
    rw [hs] at hu
    cases hu
    exact halong

theorem Can.trans {s : σ} (h : Can step C P s) (hPQ : ∀ t, P t → Can step C Q t) :
    Can step C Q s := by
  induction h with
  | here hP => exact hPQ _ hP
  | next a hC hs _ ih => exact .next a hC hs ih

theorem Can.mono {s : σ} (h : Can step C P s) (hPQ : ∀ t, P t → Q t) : Can step C Q s :=
  h.trans fun t ht => .here (hPQ t ht)

/-- What the steps that meet `C` preserve is there at the end. -/
theorem Can.invariant {I : σ → Prop} (hstep : ∀ s a s', I s → C s a → step s a = some s' → I s')
    {s : σ} (hs : I s) (h : Can step C P s) : Can step C (fun t => P t ∧ I t) s := by
  induction h with
  | here hP => exact .here ⟨hP, hs⟩
  | next a hC hstep' _ ih => exact .next a hC hstep' (ih (hstep _ a _ hs hC hstep'))

/-- **Progress rule.** If every state with `I` can be led to `P`, or to a
state with `I` and a smaller measure, then it can be led to `P`. -/
theorem Can.of_measure {I : σ → Prop} (μ : σ → Nat)
    (h : ∀ s, I s → Can step C (fun t => P t ∨ I t ∧ μ t < μ s) s) {s : σ} (hs : I s) :
    Can step C P s := by
  induction hμ : μ s using Nat.strongRecOn generalizing s with
  | ind m ih =>
    refine (h s hs).trans fun t ht => ?_
    rcases ht with hP | ⟨hI, hlt⟩
    · exact .here hP
    · exact ih (μ t) (hμ ▸ hlt) hI rfl

end Can

/-! ## Properties of every state of a run -/

/-- `I` holds in every state the run passes through, its first and last
included. -/
def Always (step : σ → α → Option σ) (I : σ → Prop) : σ → List α → Prop
  | s, [] => I s
  | s, a :: as => I s ∧ ∀ s' ∈ step s a, Always step I s' as

instance Always.decidable (step : σ → α → Option σ) (I : σ → Prop) [DecidablePred I] :
    ∀ s as, Decidable (Always step I s as)
  | s, [] => inferInstanceAs (Decidable (I s))
  | s, a :: as =>
      have : DecidablePred fun s' => Always step I s' as :=
        fun s' => Always.decidable step I s' as
      inferInstanceAs (Decidable (I s ∧ ∀ s' ∈ step s a, Always step I s' as))

theorem Always.head {step : σ → α → Option σ} {I : σ → Prop} {s : σ} {as : List α}
    (h : Always step I s as) : I s := by
  cases as with
  | nil => exact h
  | cons a as => exact h.1

/-- When, from a state with `J`, a step keeps `I` exactly if it meets `P`,
and `J` is kept by every step that keeps `I`, then `I` holds all along a run
exactly if all its steps meet `P`. -/
theorem always_iff_along {step : σ → α → Option σ} {P : σ → α → Prop} {I J : σ → Prop}
    (hexact : ∀ s a s', J s → I s → step s a = some s' → (I s' ↔ P s a))
    (hkeep : ∀ s a s', J s → step s a = some s' → J s')
    (hidle : ∀ s a, step s a = none → P s a)
    {s : σ} {as : List α} (hJ : J s) (hI : I s) :
    Always step I s as ↔ Along step P s as := by
  induction as generalizing s with
  | nil => exact ⟨fun _ => trivial, fun _ => hI⟩
  | cons a as ih =>
    cases hs : step s a with
    | none => simp [Always, Along, hs, hI, hidle s a hs]
    | some s' =>
      have hJ' := hkeep s a s' hJ hs
      have hex := hexact s a s' hJ hI hs
      constructor
      · rintro ⟨_, hrest⟩
        have hrest := hrest s' hs
        exact ⟨hex.mp hrest.head, fun u hu => by
          rw [hs] at hu; cases hu; exact (ih hJ' hrest.head).mp hrest⟩
      · rintro ⟨hP, hrest⟩
        have hI' := hex.mpr hP
        exact ⟨hI, fun u hu => by
          rw [hs] at hu; cases hu; exact (ih hJ' hI').mpr (hrest s' hs)⟩

/-! ## Traps

A trap is a set of states that no step leaves: a loop that has returned, a
context that has been cancelled. -/

/-- If the steps from outside lead into the trap exactly when they miss `P`,
then a run ends outside exactly if all its steps meet `P`. `C` is a condition
on all steps of the run. -/
theorem not_trapped_iff_along {step : σ → α → Option σ} {C P : σ → α → Prop} {T : σ → Prop}
    (hstay : ∀ s a s', T s → C s a → step s a = some s' → T s')
    (hexact : ∀ s a s', ¬ T s → C s a → step s a = some s' → (¬ T s' ↔ P s a))
    {s t : σ} {as : List α} (hC : Along step C s as) (hs : ¬ T s)
    (hrun : run step s as = some t) : ¬ T t ↔ Along step P s as := by
  induction as generalizing s with
  | nil => cases hrun; exact ⟨fun _ => trivial, fun _ => hs⟩
  | cons a as ih =>
    obtain ⟨s', hs', hrun⟩ := run_cons_eq_some.mp hrun
    have hex := hexact s a s' hs hC.1 hs'
    by_cases htrap : T s'
    · -- trapped here: the run stays so, and this step misses `P`
      have ht : T t := (hC.tail hs').invariant hstay htrap hrun
      exact ⟨fun h => absurd ht h, fun h => absurd (hex.mpr h.1) (fun hn => hn htrap)⟩
    · rw [ih (hC.tail hs') htrap hrun, Along.cons_iff]
      constructor
      · intro h
        refine ⟨hex.mp htrap, fun u hu => ?_⟩
        rw [hs'] at hu; cases hu; exact h
      · intro h
        exact h.2 s' hs'

/-- A run that ends outside a trap was outside all along. -/
theorem along_not_trapped {step : σ → α → Option σ} {C : σ → α → Prop} {T : σ → Prop}
    (hstay : ∀ s a s', T s → C s a → step s a = some s' → T s')
    {s t : σ} {as : List α} (hC : Along step C s as) (hrun : run step s as = some t)
    (ht : ¬ T t) : Along step (fun s _ => ¬ T s) s as := by
  induction as generalizing s with
  | nil => trivial
  | cons a as ih =>
    refine ⟨fun hs => ht (hC.invariant hstay hs hrun), fun s' hs' => ?_⟩
    obtain ⟨u, hu, hrun⟩ := run_cons_eq_some.mp hrun
    have hsu : s' = u := by rw [hu] at hs'; exact (Option.some.inj hs').symm
    subst hsu
    exact ih (hC.tail hs') hrun

/-! ## Parties

Where a state says where each of several parties is, a step of one of them
moves no other. -/

/-- Where a party is after `i` has moved to `p`. -/
theorem moved_cases {ι β : Type} [DecidableEq ι] {f g : ι → β} {i : ι} {p : β}
    (h : g = Function.update f i p) (j : ι) : (j = i ∧ g j = p) ∨ (j ≠ i ∧ g j = f j) := by
  subst h
  by_cases hj : j = i
  · subst hj
    exact .inl ⟨rfl, Function.update_self ..⟩
  · exact .inr ⟨hj, Function.update_of_ne hj ..⟩

end GoRestApi.Lts
