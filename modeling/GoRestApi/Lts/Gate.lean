/-
GoRestApi.Lts.Gate — check-then-act.

Several parties each look whether a gate is open, and one that found it open
goes in, does its work, and shuts the gate behind it. Looking and shutting
are separate steps, so between them others may look and go in as well; and a
party may give its work up and leave the gate open. `Clear` is what keeps
this to one party: whoever finds the gate open finds no other party that has
gone in and not shut it.

`Sound` is the invariant of a gate all of whose entries were clear: at most
one party has entered (`Sound.unique`), the gate is shut exactly by a party
that passed, and a party is turned away only by a shut gate.
-/
import Mathlib.Logic.Function.Basic

namespace GoRestApi.Lts

/-- Where a party stands: it has not looked yet, it is inside, it has given
up, it has shut the gate, or it was turned away. -/
inductive Phase where
  | outside
  | inside
  | gaveUp
  | passed
  | refused
  deriving DecidableEq, Repr

namespace Phase

def Entered : Phase → Prop
  | .inside | .gaveUp | .passed => True
  | _ => False

/-- Entered, and the gate not shut. -/
def Unsettled : Phase → Prop
  | .inside | .gaveUp => True
  | _ => False

theorem Entered.unsettled_or_passed {p : Phase} (h : p.Entered) : p.Unsettled ∨ p = .passed := by
  cases p <;> first | exact .inl trivial | exact .inr rfl | cases h

end Phase

structure Gate (ι : Type) where
  phase : ι → Phase
  shut : Prop

namespace Gate

variable {ι : Type} [DecidableEq ι]

/-- No party but `i` is inside or has given up. -/
def Clear (g : Gate ι) (i : ι) : Prop := ∀ j, j ≠ i → ¬ (g.phase j).Unsettled

inductive Step (g g' : Gate ι) : Prop
  | enter (i : ι) (hphase : g.phase i = .outside) (hopen : ¬ g.shut) (hclear : g.Clear i)
      (hphase' : g'.phase = Function.update g.phase i .inside) (hshut : g'.shut ↔ g.shut)
  | refuse (i : ι) (hphase : g.phase i = .outside) (hshut : g.shut)
      (hphase' : g'.phase = Function.update g.phase i .refused) (hshut' : g'.shut)
  | giveUp (i : ι) (hphase : g.phase i = .inside)
      (hphase' : g'.phase = Function.update g.phase i .gaveUp) (hshut : g'.shut ↔ g.shut)
  | shut (i : ι) (hphase : g.phase i = .inside)
      (hphase' : g'.phase = Function.update g.phase i .passed) (hshut : g'.shut)

structure Sound (g : Gate ι) : Prop where
  unique : ∀ i j, (g.phase i).Entered → (g.phase j).Entered → i = j
  shut_iff : g.shut ↔ ∃ i, g.phase i = .passed
  refused : ∀ i, g.phase i = .refused → g.shut

omit [DecidableEq ι] in
/-- A gate nobody has come to yet. -/
theorem sound_of_outside {g : Gate ι} (hphase : ∀ i, g.phase i = .outside) (hopen : ¬ g.shut) :
    g.Sound where
  unique := by
    intro i j hi
    rw [hphase i] at hi
    cases hi
  shut_iff := by simp [hopen, hphase]
  refused := by simp [hphase]

omit [DecidableEq ι] in
/-- In front of an open gate every party that entered is unsettled. -/
theorem Sound.unsettled_of_open {g : Gate ι} (hg : g.Sound) (hopen : ¬ g.shut) {i : ι}
    (hi : (g.phase i).Entered) : (g.phase i).Unsettled := by
  rcases hi.unsettled_or_passed with h | h
  · exact h
  · exact absurd (hg.shut_iff.mpr ⟨i, h⟩) hopen

/-! ## Steps -/

section Moved

-- party `i` has moved to `p`, and nobody else
variable {g g' : Gate ι} {i j : ι} {p : Phase}

theorem phase_self (h : g'.phase = Function.update g.phase i p) : g'.phase i = p := by
  rw [h, Function.update_self]

theorem phase_other (h : g'.phase = Function.update g.phase i p) (hj : j ≠ i) :
    g'.phase j = g.phase j := by
  rw [h, Function.update_of_ne hj]

/-- If the move did not enter, whoever has entered had done so before. -/
theorem entered_of_moved (h : g'.phase = Function.update g.phase i p)
    (hp : p.Entered → (g.phase i).Entered) (hj : (g'.phase j).Entered) :
    (g.phase j).Entered := by
  by_cases hne : j = i
  · subst hne
    rw [phase_self h] at hj
    exact hp hj
  · rwa [phase_other h hne] at hj

/-- If the move was not a refusal, whoever is refused was so before. -/
theorem refused_of_moved (h : g'.phase = Function.update g.phase i p) (hp : p ≠ .refused)
    (hj : g'.phase j = .refused) : g.phase j = .refused := by
  by_cases hne : j = i
  · subst hne
    exact absurd ((phase_self h).symm.trans hj) hp
  · rwa [phase_other h hne] at hj

theorem Sound.unique_of_moved (hg : g.Sound) (h : g'.phase = Function.update g.phase i p)
    (hp : p.Entered → (g.phase i).Entered) (a b : ι) (ha : (g'.phase a).Entered)
    (hb : (g'.phase b).Entered) : a = b :=
  hg.unique a b (entered_of_moved h hp ha) (entered_of_moved h hp hb)

end Moved

/-- **Every step of a gate keeps it sound.** -/
theorem Sound.step {g g' : Gate ι} (hg : g.Sound) (h : Step g g') : g'.Sound := by
  cases h with
  | enter i hphase hopen hclear hphase' hshut =>
    have honly : ∀ j, (g'.phase j).Entered → j = i := by
      intro j hj
      by_contra hne
      rw [phase_other hphase' hne] at hj
      exact hclear j hne (hg.unsettled_of_open hopen hj)
    have hpassed : ∀ j, g'.phase j ≠ .passed := by
      intro j hj
      obtain rfl : j = i := honly j (by rw [hj]; trivial)
      rw [phase_self hphase'] at hj
      cases hj
    refine ⟨fun a b ha hb => (honly a ha).trans (honly b hb).symm, ?_, fun j hj => ?_⟩
    · rw [hshut]
      exact iff_of_false hopen (fun ⟨j, hj⟩ => hpassed j hj)
    · exact absurd (hg.refused j (refused_of_moved hphase' (by simp) hj)) hopen
  | refuse i hphase hshut hphase' hshut' =>
    refine ⟨hg.unique_of_moved hphase' (fun h => by cases h), ?_, fun _ _ => hshut'⟩
    -- whoever passed is not the one that was refused now
    obtain ⟨j, hj⟩ := hg.shut_iff.mp hshut
    have hne : j ≠ i := by
      rintro rfl
      rw [hphase] at hj
      cases hj
    exact iff_of_true hshut' ⟨j, (phase_other hphase' hne).trans hj⟩
  | giveUp i hphase hphase' hshut =>
    have hentered : (g.phase i).Entered := by rw [hphase]; trivial
    refine ⟨hg.unique_of_moved hphase' (fun _ => hentered), ?_, fun j hj => ?_⟩
    · rw [hshut, hg.shut_iff]
      refine exists_congr fun j => ?_
      by_cases hne : j = i
      · subst hne
        rw [hphase, phase_self hphase']
        simp
      · rw [phase_other hphase' hne]
    · rw [hshut]
      exact hg.refused j (refused_of_moved hphase' (by simp) hj)
  | shut i hphase hphase' hshut =>
    have hentered : (g.phase i).Entered := by rw [hphase]; trivial
    exact ⟨hg.unique_of_moved hphase' (fun _ => hentered),
      iff_of_true hshut ⟨i, phase_self hphase'⟩, fun _ _ => hshut⟩

end Gate

end GoRestApi.Lts
