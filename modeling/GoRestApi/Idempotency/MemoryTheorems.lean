/-
GoRestApi.Idempotency.MemoryTheorems — at most one execution per key.

`Run` is a check (`Lookup`) and an act (`do`, `Save`) with the lock released
in between, so two calls with one key that overlap both find nothing and both
execute `do`; and a `do` that fails saves nothing, so the next call executes
it again. `run_once_iff_serialized` says that this is all that goes wrong:
within one TTL window `do` is executed at most once for a key, and all calls
that succeed return the same response, if every call that finds nothing comes
when no other call with the key is past its `Lookup` without having saved;
and if that is not so, and the calls get as far as `do`, it is executed twice.

The argument is that of `Lts.Gate`: the calls with the key are the parties,
and a saved entry, which outlives the window, is the shut gate.
-/
import GoRestApi.Idempotency.Memory
import GoRestApi.Lts.Gate
import Mathlib.Data.List.Nodup

namespace GoRestApi.Idempotency

open Go Lts

variable {ι : Type} [DecidableEq ι]

/-! ## What a step can do -/

/-- `Lookup` finds nothing for the key. -/
def MemoryStore.Misses (s : MemoryStore) (now : Time) (key : String) : Prop :=
  ∀ e, s.entries key = some e → e.validUntil ≤ now

namespace MemoryStore

variable {s : MemoryStore} {now : Time} {key requestHash : String} {e : EntryWithTTL}

theorem misses_or_live (s : MemoryStore) (now : Time) (key : String) :
    s.Misses now key ∨ ∃ e, s.entries key = some e ∧ now < e.validUntil := by
  by_cases hmiss : s.Misses now key
  · exact .inl hmiss
  · simp only [Misses, not_forall] at hmiss
    obtain ⟨e, he, hlive⟩ := hmiss
    exact .inr ⟨e, he, Int.not_le.mp hlive⟩

theorem lookup_of_misses (hkey : key ≠ "") (hmiss : s.Misses now key) :
    s.lookup now key requestHash =
      ({ s with entries := Function.update s.entries key none }, .error .notFound) := by
  unfold lookup
  rw [if_neg hkey]
  cases he : s.entries key with
  | none =>
    have hsame : Function.update s.entries key none = s.entries :=
      Function.update_eq_self_iff.mpr he.symm
    simp only [hsame]
  | some e => simp only [Int.not_lt.mpr (hmiss e he), not_false_eq_true, ↓reduceIte]

theorem lookup_of_same (hkey : key ≠ "") (he : s.entries key = some e) (hlive : now < e.validUntil)
    (hhash : e.entry.requestHash = requestHash) :
    s.lookup now key requestHash = (s, .ok e.entry) := by
  simp [lookup, hkey, he, hlive, hhash]

theorem lookup_of_other (hkey : key ≠ "") (he : s.entries key = some e) (hlive : now < e.validUntil)
    (hhash : e.entry.requestHash ≠ requestHash) :
    s.lookup now key requestHash = (s, .error .conflict) := by
  simp [lookup, hkey, he, hlive, hhash]

end MemoryStore

namespace RunSystem

/-- The cases of a step, one per branch of the code, with what the branch has
tested. -/
inductive Steps (hash : List UInt8 → String) (c : Calls ι) (s : RunSystem ι) :
    RunAct ι → RunSystem ι → Prop where
  | noKey {i now} : s.pc i = .start → c.key i = "" →
      Steps hash c s (.lookup i now) (s.setPc i .executing)
  | replayed {i now e} : s.pc i = .start → s.store.entries (c.key i) = some e →
      now < e.validUntil → Steps hash c s (.lookup i now) (s.setPc i (.returned e.entry true none))
  | conflicting {i now e} : s.pc i = .start → s.store.entries (c.key i) = some e →
      now < e.validUntil →
      Steps hash c s (.lookup i now) (s.setPc i (.returned Entry.zero false (some .conflict)))
  | missed {i now st} : s.pc i = .start → s.store.Misses now (c.key i) →
      st.ttl = s.store.ttl → st.entries (c.key i) = none →
      (∀ k, k ≠ c.key i → st.entries k = s.store.entries k) →
      Steps hash c s (.lookup i now) { s.setPc i .executing with store := st }
  | doFailed {i msg} : s.pc i = .executing →
      Steps hash c s (.execute i (.error msg))
        { s.setPc i (.returned Entry.zero false (some (.doFailed msg))) with
          executed := s.executed ++ [i] }
  | done {i r} : s.pc i = .executing →
      Steps hash c s (.execute i (.ok r))
        { s.setPc i (.saving r) with executed := s.executed ++ [i] }
  | saved {i now now' r} : s.pc i = .saving r →
      Steps hash c s (.save i now now')
        { s.setPc i (.finishing r) with
          store := s.store.save now now' (c.key i) (hash (c.request i)) r }
  | finished {i now r} : s.pc i = .finishing r →
      Steps hash c s (.finish i now)
        (s.setPc i (.returned ⟨r, hash (c.request i), now⟩ false none))

/-- **Inversion.** A step is one of the cases. -/
theorem steps_of_step {hash : List UInt8 → String} {c : Calls ι} {s s' : RunSystem ι}
    {a : RunAct ι} (h : s.step hash c a = some s') : Steps hash c s a s' := by
  cases a with
  | lookup i now =>
    simp only [step] at h
    split at h
    · rename_i hpc
      by_cases hkey : c.key i = ""
      · simp only [hkey, ↓reduceIte] at h
        cases h
        exact .noKey hpc hkey
      · simp only [hkey, ↓reduceIte] at h
        rcases s.store.misses_or_live now (c.key i) with hmiss | ⟨e, he, hlive⟩
        · rw [MemoryStore.lookup_of_misses hkey hmiss] at h
          cases h
          exact .missed hpc hmiss rfl (Function.update_self ..)
            fun k hk => Function.update_of_ne hk ..
        · by_cases hhash : e.entry.requestHash = hash (c.request i)
          · rw [MemoryStore.lookup_of_same hkey he hlive hhash] at h
            cases h
            exact .replayed hpc he hlive
          · rw [MemoryStore.lookup_of_other hkey he hlive hhash] at h
            cases h
            exact .conflicting hpc he hlive
    · cases h
  | execute i result =>
    simp only [step] at h
    split at h
    · cases result <;> cases h
      · exact .doFailed ‹_›
      · exact .done ‹_›
    · cases h
  | save i now now' =>
    simp only [step] at h
    split at h
    · cases h
      exact .saved ‹_›
    · cases h
  | finish i now =>
    simp only [step] at h
    split at h
    · cases h
      exact .finished ‹_›
    · cases h

end RunSystem

/-! ## The condition and the property -/

/-- Past its `Lookup`, having found nothing, and nothing saved: on its way to
`Save`, or back with the error of `do`. -/
def CallPc.Unsaved : CallPc → Prop
  | .executing | .saving _ | .returned _ false (some (.doFailed _)) => True
  | _ => False

namespace RunSystem

/-- A call with the key `k` that finds nothing comes when no other call with
the key is past its `Lookup` without having saved. -/
def Serialized (c : Calls ι) (k : String) (s : RunSystem ι) : RunAct ι → Prop
  | .lookup i now => c.key i = k → s.store.Misses now k →
      ∀ j, j ≠ i → c.key j = k → ¬ (s.pc j).Unsaved
  | _ => True

/-- Every clock reading of the step is in the window from `t₀` to `t₁`. -/
def InWindow (t₀ t₁ : Time) : RunAct ι → Prop
  | .lookup _ now | .finish _ now => t₀ ≤ now ∧ now < t₁
  | .save _ now now' => (t₀ ≤ now ∧ now < t₁) ∧ t₀ ≤ now' ∧ now' < t₁
  | .execute _ _ => True

instance (t₀ t₁ : Time) : (a : RunAct ι) → Decidable (InWindow t₀ t₁ a)
  | .lookup _ now | .finish _ now => inferInstanceAs (Decidable (t₀ ≤ now ∧ now < t₁))
  | .save _ now now' =>
      inferInstanceAs (Decidable ((t₀ ≤ now ∧ now < t₁) ∧ t₀ ≤ now' ∧ now' < t₁))
  | .execute _ _ => isTrue trivial

/-- `do` has been executed at most once for the key. -/
def ExecutedOnce (c : Calls ι) (k : String) (s : RunSystem ι) : Prop :=
  (s.executed.filter fun i => c.key i = k).length ≤ 1

/-- The calls with the key that returned without error returned the same
status, body and content type. -/
def ResponsesAgree (c : Calls ι) (k : String) (s : RunSystem ι) : Prop :=
  ∀ i j e e' b b', c.key i = k → c.key j = k → s.pc i = .returned e b none →
    s.pc j = .returned e' b' none → e.response = e'.response

/-! ## Executions -/

/-- `do` has been executed by the call. -/
def HasExecuted : CallPc → Prop
  | .saving _ | .finishing _ | .returned _ false none
  | .returned _ false (some (.doFailed _)) => True
  | _ => False

/-- The history of executions agrees with where the calls are. -/
structure ExecutedMatches (s : RunSystem ι) : Prop where
  nodup : s.executed.Nodup
  mem_iff : ∀ i, i ∈ s.executed ↔ HasExecuted (s.pc i)

theorem ExecutedMatches.setPc {s t : RunSystem ι} (hs : s.ExecutedMatches) (i : ι) (p : CallPc)
    (hpc : t.pc = (s.setPc i p).pc) (hexec : t.executed = s.executed)
    (hp : HasExecuted (s.pc i) ↔ HasExecuted p) : t.ExecutedMatches := by
  refine ⟨hexec ▸ hs.nodup, fun j => ?_⟩
  rw [hexec, hs.mem_iff]
  rcases moved_cases hpc j with ⟨rfl, hj⟩ | ⟨-, hj⟩
  · rw [hj]
    exact hp
  · rw [hj]

/-- Executing `do` adds the call to the history. -/
theorem ExecutedMatches.execute {s : RunSystem ι} (hs : s.ExecutedMatches) {i : ι} {p : CallPc}
    (hpc : s.pc i = .executing) (hp : HasExecuted p) :
    ExecutedMatches { s.setPc i p with executed := s.executed ++ [i] } := by
  have hnot : i ∉ s.executed := by
    rw [hs.mem_iff, hpc]
    exact id
  refine ⟨?_, fun j => ?_⟩
  · rw [← List.concat_eq_append, List.nodup_concat]
    exact ⟨hnot, hs.nodup⟩
  · rw [List.mem_append, List.mem_singleton]
    show _ ↔ HasExecuted ((s.setPc i p).pc j)
    rcases moved_cases (g := (s.setPc i p).pc) rfl j with ⟨rfl, hj⟩ | ⟨hji, hj⟩
    · rw [hj]
      exact iff_of_true (.inr rfl) hp
    · rw [hj, hs.mem_iff]
      simp [hji]

theorem step_executedMatches {hash : List UInt8 → String} {c : Calls ι} (s : RunSystem ι)
    (a : RunAct ι) (s' : RunSystem ι) (hs : s.ExecutedMatches) (h : s.step hash c a = some s') :
    s'.ExecutedMatches := by
  cases steps_of_step h with
  | noKey hpc | replayed hpc | conflicting hpc | missed hpc | saved hpc | finished hpc =>
    exact hs.setPc _ _ (by rfl) rfl (by simp [hpc, HasExecuted])
  | doFailed hpc | done hpc => exact hs.execute hpc trivial

/-! ## The gate -/

/-- The place of a call at the gate of its key. -/
def phase : CallPc → Phase
  | .start => .outside
  | .executing | .saving _ => .inside
  | .finishing _ | .returned _ false none => .passed
  | .returned _ false (some (.doFailed _)) => .gaveUp
  | .returned _ true _ | .returned _ false (some .conflict) => .refused

/-- The key has an entry that lasts until `t₁`. -/
def LivesTo (t₁ : Time) (k : String) (s : RunSystem ι) : Prop :=
  ∃ e, s.store.entries k = some e ∧ t₁ ≤ e.validUntil

/-- The calls with the key `k`, and its entry. -/
def gate (c : Calls ι) (t₁ : Time) (k : String) (s : RunSystem ι) : Gate ι where
  phase := fun i => if c.key i = k then phase (s.pc i) else .outside
  shut := s.LivesTo t₁ k

theorem gate_phase_setPc {c : Calls ι} {t₁ : Time} {k : String} {s t : RunSystem ι} {i : ι}
    {p : CallPc} (hi : c.key i = k) (hpc : t.pc = (s.setPc i p).pc) :
    (gate c t₁ k t).phase = Function.update (gate c t₁ k s).phase i (phase p) := by
  funext j
  simp only [gate, hpc]
  by_cases h : j = i
  · subst h
    simp [hi]
  · rw [setPc_pc, Function.update_of_ne h, Function.update_of_ne h]

/-- A call with another key does not move at this gate. -/
theorem gate_phase_other {c : Calls ι} {t₁ : Time} {k : String} {s t : RunSystem ι} {i : ι}
    {p : CallPc} (hi : c.key i ≠ k) (hpc : t.pc = (s.setPc i p).pc) :
    (gate c t₁ k t).phase = (gate c t₁ k s).phase := by
  funext j
  simp only [gate, hpc]
  by_cases h : j = i
  · subst h
    simp [hi]
  · rw [setPc_pc, Function.update_of_ne h]

/-- Nor does a call that stays in its phase. -/
theorem gate_phase_same {c : Calls ι} {t₁ : Time} {k : String} {s t : RunSystem ι} {i : ι}
    {p : CallPc} (hpc : t.pc = (s.setPc i p).pc) (hp : phase p = phase (s.pc i)) :
    (gate c t₁ k t).phase = (gate c t₁ k s).phase := by
  funext j
  simp only [gate]
  rcases moved_cases hpc j with ⟨rfl, hj⟩ | ⟨-, hj⟩
  · rw [hj, hp]
  · rw [hj]

omit [DecidableEq ι] in
theorem gate_eq {c : Calls ι} {t₁ : Time} {k : String} {s t : RunSystem ι}
    (hphase : (gate c t₁ k t).phase = (gate c t₁ k s).phase)
    (hentry : t.store.entries k = s.store.entries k) : gate c t₁ k t = gate c t₁ k s := by
  have hshut : (gate c t₁ k t).shut = (gate c t₁ k s).shut := by
    simp only [gate, LivesTo, hentry]
  cases hg : gate c t₁ k t
  cases hg' : gate c t₁ k s
  rw [hg, hg'] at hphase hshut
  simp only at hphase hshut
  rw [hphase, hshut]

/-- What the store says of the key during the window: an entry from before
has expired, one from the window outlives it. -/
structure StoreKept (t₀ : Time) (ttl : Duration) (k : String) (s : RunSystem ι) : Prop where
  ttl_eq : s.store.ttl = ttl
  entry : ∀ e, s.store.entries k = some e → e.validUntil ≤ t₀ ∨ t₀ + ttl ≤ e.validUntil

theorem entries_save_self {st : MemoryStore} {now now' : Time} {k h : String} {r : Response}
    (hk : k ≠ "") :
    (st.save now now' k h r).entries k = some ⟨⟨r, h, now⟩, now' + st.ttl⟩ := by
  simp [MemoryStore.save, hk]

theorem entries_save_of_ne {st : MemoryStore} {now now' : Time} {k k' h : String} {r : Response}
    (hk : k' ≠ k) : (st.save now now' k h r).entries k' = st.entries k' := by
  unfold MemoryStore.save
  split
  · rfl
  · exact Function.update_of_ne hk ..

@[simp] theorem ttl_save {st : MemoryStore} {now now' : Time} {k h : String} {r : Response} :
    (st.save now now' k h r).ttl = st.ttl := by
  unfold MemoryStore.save
  split <;> rfl

theorem step_storeKept {hash : List UInt8 → String} {c : Calls ι} {k : String} (hk : k ≠ "")
    {t₀ : Time} {ttl : Duration} (s : RunSystem ι) (a : RunAct ι) (s' : RunSystem ι)
    (hs : s.StoreKept t₀ ttl k) (hwin : InWindow t₀ (t₀ + ttl) a)
    (h : s.step hash c a = some s') : s'.StoreKept t₀ ttl k := by
  cases steps_of_step h with
  | noKey | replayed | conflicting | doFailed | done | finished => exact ⟨hs.ttl_eq, hs.entry⟩
  | @missed i now st hpc hmiss httl hnone hother =>
    refine ⟨httl.trans hs.ttl_eq, fun e he => ?_⟩
    by_cases hi : k = c.key i
    · rw [hi] at he
      exact absurd (hnone.symm.trans he) (by simp)
    · exact hs.entry e ((hother k hi).symm.trans he)
  | @saved i now now' r hpc =>
    refine ⟨ttl_save.trans hs.ttl_eq, fun e he => ?_⟩
    by_cases hi : k = c.key i
    · subst hi
      rw [entries_save_self hk] at he
      cases he
      rw [hs.ttl_eq]
      exact .inr (Int.add_le_add_right hwin.2.1 ttl)
    · rw [entries_save_of_ne hi] at he
      exact hs.entry e he

omit [DecidableEq ι] in
/-- An entry that is found in the window outlives it. -/
theorem StoreKept.livesTo {t₀ now : Time} {ttl : Duration} {k : String} {s : RunSystem ι}
    (hs : s.StoreKept t₀ ttl k) (hnow : t₀ ≤ now) {e : EntryWithTTL}
    (he : s.store.entries k = some e) (hlive : now < e.validUntil) : t₀ + ttl ≤ e.validUntil := by
  rcases hs.entry e he with h | h
  · exact absurd (Int.lt_of_lt_of_le hlive h) (Int.not_lt.mpr hnow)
  · exact h

omit [DecidableEq ι] in
theorem not_livesTo_of_misses {t₁ now : Time} {k : String} {s : RunSystem ι} (hnow : now < t₁)
    (hmiss : s.store.Misses now k) : ¬ s.LivesTo t₁ k := by
  rintro ⟨e, he, hlive⟩
  exact absurd (Int.le_trans hlive (hmiss e he)) (Int.not_le.mpr hnow)

theorem unsaved_of_unsettled {p : CallPc} (h : (phase p).Unsettled) : p.Unsaved := by
  unfold phase at h
  split at h <;> trivial

/-- **`Run` is a gate.** In the window, a step of serialized calls leaves the
gate of the key as it is or is a step of it. -/
theorem step_gate {hash : List UInt8 → String} {c : Calls ι} {k : String} (hk : k ≠ "")
    {t₀ : Time} {ttl : Duration} {s s' : RunSystem ι} {a : RunAct ι}
    (hs : s.StoreKept t₀ ttl k) (hwin : InWindow t₀ (t₀ + ttl) a) (hser : Serialized c k s a)
    (h : s.step hash c a = some s') :
    gate c (t₀ + ttl) k s' = gate c (t₀ + ttl) k s ∨
      Gate.Step (gate c (t₀ + ttl) k s) (gate c (t₀ + ttl) k s') := by
  have hat : ∀ {i p}, c.key i = k → s.pc i = p →
      (gate c (t₀ + ttl) k s).phase i = phase p := by
    intro i p hi hpc
    simp [gate, hi, hpc]
  cases steps_of_step h with
  | @noKey i now hpc hempty =>
    have hi : c.key i ≠ k := fun hi => hk (hi.symm.trans hempty)
    exact .inl (gate_eq (gate_phase_other hi rfl) rfl)
  | @replayed i now e hpc he hlive | @conflicting i now e hpc he hlive =>
    by_cases hi : c.key i = k
    · rw [hi] at he
      have hshut : s.LivesTo (t₀ + ttl) k := ⟨e, he, hs.livesTo hwin.1 he hlive⟩
      exact .inr (.refuse i (hat hi hpc) hshut (gate_phase_setPc hi rfl) hshut)
    · exact .inl (gate_eq (gate_phase_other hi rfl) rfl)
  | @missed i now st hpc hmiss httl hnone hother =>
    by_cases hi : c.key i = k
    · rw [hi] at hmiss hnone
      have hopen : ¬ s.LivesTo (t₀ + ttl) k := not_livesTo_of_misses hwin.2 hmiss
      refine .inr (.enter i (hat hi hpc) hopen ?_ (gate_phase_setPc hi rfl)
        (iff_of_false ?_ hopen))
      · intro j hj hunsettled
        simp only [gate] at hunsettled
        split at hunsettled
        · rename_i hkey
          exact hser hi hmiss j hj hkey (unsaved_of_unsettled hunsettled)
        · exact hunsettled
      · rintro ⟨e, he, _⟩
        exact absurd (hnone.symm.trans he) (by simp)
    · exact .inl (gate_eq (gate_phase_other hi rfl) (hother k (Ne.symm hi)))
  | @doFailed i msg hpc =>
    by_cases hi : c.key i = k
    · exact .inr (.giveUp i (hat hi hpc) (gate_phase_setPc hi rfl) Iff.rfl)
    · exact .inl (gate_eq (gate_phase_other hi rfl) rfl)
  | @done i r hpc =>
    exact .inl (gate_eq (gate_phase_same (p := .saving r) rfl (by rw [hpc]; rfl)) rfl)
  | @saved i now now' r hpc =>
    by_cases hi : c.key i = k
    · refine .inr (.shut i (hat hi hpc) (gate_phase_setPc hi rfl) ?_)
      refine ⟨_, (congrArg _ hi.symm).trans (entries_save_self (hi ▸ hk)), ?_⟩
      rw [hs.ttl_eq]
      exact Int.add_le_add_right hwin.2.1 ttl
    · exact .inl (gate_eq (gate_phase_other hi rfl) (entries_save_of_ne (Ne.symm hi)))
  | @finished i now r hpc => exact .inl (gate_eq (gate_phase_same rfl (by rw [hpc]; rfl)) rfl)

/-! ## The response -/

/-- The call has the response `r` to return, or has returned it. -/
def Answers (r : Response) : CallPc → Prop
  | .finishing r' => r' = r
  | .returned e _ none => e.response = r
  | _ => False

/-- Every answer is the one that is stored for the rest of the window. -/
def AnswersStored (c : Calls ι) (t₁ : Time) (k : String) (s : RunSystem ι) : Prop :=
  ∀ i r, c.key i = k → Answers r (s.pc i) →
    ∃ e, s.store.entries k = some e ∧ t₁ ≤ e.validUntil ∧ e.entry.response = r

/-- Moving a call, with the entry of the key unchanged. -/
theorem AnswersStored.setPc {c : Calls ι} {t₁ : Time} {k : String} {s t : RunSystem ι}
    (hs : s.AnswersStored c t₁ k) (i : ι) (p : CallPc) (hpc : t.pc = (s.setPc i p).pc)
    (hentry : t.store.entries k = s.store.entries k)
    (hp : ∀ r, c.key i = k → Answers r p →
      ∃ e, s.store.entries k = some e ∧ t₁ ≤ e.validUntil ∧ e.entry.response = r) :
    t.AnswersStored c t₁ k := by
  intro j r hj hr
  rw [hentry]
  rcases moved_cases hpc j with ⟨rfl, hpj⟩ | ⟨-, hpj⟩
  · rw [hpj] at hr
    exact hp r hj hr
  · rw [hpj] at hr
    exact hs j r hj hr

theorem step_answersStored {hash : List UInt8 → String} {c : Calls ι} {k : String} (hk : k ≠ "")
    {t₀ : Time} {ttl : Duration} {s s' : RunSystem ι} {a : RunAct ι}
    (hs : s.AnswersStored c (t₀ + ttl) k) (hstore : s.StoreKept t₀ ttl k)
    (hsound : (gate c (t₀ + ttl) k s).Sound) (hwin : InWindow t₀ (t₀ + ttl) a)
    (h : s.step hash c a = some s') : s'.AnswersStored c (t₀ + ttl) k := by
  cases steps_of_step h with
  | noKey hpc | conflicting hpc | doFailed hpc | done hpc =>
    exact hs.setPc _ _ (by rfl) rfl (fun r _ hr => by cases hr)
  | @replayed i now e hpc he hlive =>
    refine hs.setPc i _ (by rfl) rfl (fun r hi hr => ?_)
    rw [hi] at he
    exact ⟨e, he, hstore.livesTo hwin.1 he hlive, hr⟩
  | @finished i now r hpc =>
    refine hs.setPc i _ (by rfl) rfl (fun r' hi hr => hs i r' hi ?_)
    rw [hpc]
    exact hr
  | @missed i now st hpc hmiss httl hnone hother =>
    by_cases hi : c.key i = k
    · -- nothing is stored for the key, so nobody has an answer
      rw [hi] at hmiss
      have hopen := not_livesTo_of_misses hwin.2 hmiss
      intro j r hj hr
      have hrj : Answers r ((s.setPc i .executing).pc j) := hr
      rcases moved_cases (g := (s.setPc i .executing).pc) rfl j with ⟨-, hpj⟩ | ⟨-, hpj⟩
      · rw [hpj] at hrj
        cases hrj
      · rw [hpj] at hrj
        obtain ⟨e, he, hlive, _⟩ := hs j r hj hrj
        exact absurd ⟨e, he, hlive⟩ hopen
    · exact hs.setPc i _ (by rfl) (hother k (Ne.symm hi)) (fun r hi' _ => absurd hi' hi)
  | @saved i now now' r hpc =>
    by_cases hi : c.key i = k
    · subst hi
      -- the call that saves is inside, so the gate is open and nobody else has an answer
      have hin : (gate c (t₀ + ttl) (c.key i) s).phase i = .inside := by simp [gate, hpc, phase]
      have hopen : ¬ s.LivesTo (t₀ + ttl) (c.key i) := by
        intro hshut
        obtain ⟨j, hj⟩ := hsound.shut_iff.mp hshut
        obtain rfl : i = j := hsound.unique i j (by rw [hin]; trivial) (by rw [hj]; trivial)
        exact absurd (hin.symm.trans hj) (by simp)
      intro j r' hj hr
      have hrj : Answers r' ((s.setPc i (.finishing r)).pc j) := hr
      rcases moved_cases (g := (s.setPc i (.finishing r)).pc) rfl j with ⟨rfl, hpj⟩ | ⟨-, hpj⟩
      · rw [hpj] at hrj
        refine ⟨_, entries_save_self hk, ?_, hrj⟩
        rw [hstore.ttl_eq]
        exact Int.add_le_add_right hwin.2.1 ttl
      · rw [hpj] at hrj
        obtain ⟨e, he, hlive, _⟩ := hs j r' hj hrj
        exact absurd ⟨e, he, hlive⟩ hopen
    · exact hs.setPc i _ (by rfl) (entries_save_of_ne (Ne.symm hi)) (fun _ hi' _ => absurd hi' hi)

/-! ## At most once -/

theorem entered_of_hasExecuted {p : CallPc} (h : HasExecuted p) : (phase p).Entered := by
  unfold HasExecuted at h
  split at h <;> trivial

omit [DecidableEq ι] in
theorem length_le_one_of_all_eq {l : List ι} (hnodup : l.Nodup) (h : ∀ i ∈ l, ∀ j ∈ l, i = j) :
    l.length ≤ 1 := by
  match l with
  | [] => simp
  | [_] => simp
  | i :: j :: rest =>
    have hij : i = j := h i (by simp) j (by simp)
    simp [hij] at hnodup

/-- A call that found nothing is on its way to `do` or has executed it. -/
def FoundNothing (s : RunSystem ι) (i : ι) : Prop := s.pc i = .executing ∨ i ∈ s.executed

theorem step_foundNothing {hash : List UInt8 → String} {c : Calls ι} {i : ι} (s : RunSystem ι)
    (a : RunAct ι) (s' : RunSystem ι) (hs : s.FoundNothing i) (h : s.step hash c a = some s') :
    s'.FoundNothing i := by
  have hkeep : ∀ {j p}, s'.pc = (s.setPc j p).pc → s'.executed = s.executed →
      s.pc j ≠ .executing → s'.FoundNothing i := by
    intro j p hpc hexec hj
    rcases hs with hs | hs
    · refine .inl ?_
      have hne : i ≠ j := fun he => hj (he ▸ hs)
      rw [hpc, setPc_pc, Function.update_of_ne hne]
      exact hs
    · exact .inr (hexec ▸ hs)
  cases steps_of_step h with
  | noKey hpc | replayed hpc | conflicting hpc | missed hpc | saved hpc | finished hpc =>
    exact hkeep (by rfl) rfl (by simp [hpc])
  | @doFailed j _ hpc | @done j _ hpc =>
    rcases hs with hs | hs
    · by_cases he : i = j
      · subst he
        exact .inr (List.mem_append_right _ (List.mem_singleton_self _))
      · exact .inl ((Function.update_of_ne he ..).trans hs)
    · exact .inr (List.mem_append_left _ hs)

omit [DecidableEq ι] in
theorem foundNothing_of_unsaved {s : RunSystem ι} (hs : s.ExecutedMatches) {i : ι}
    (h : (s.pc i).Unsaved) : s.FoundNothing i := by
  unfold FoundNothing
  rw [hs.mem_iff]
  cases hp : s.pc i with
  | start | finishing => rw [hp] at h; cases h
  | executing => exact .inl rfl
  | saving r => exact .inr trivial
  | returned e b err =>
    rw [hp] at h
    unfold CallPc.Unsaved at h
    split at h
    · cases ‹CallPc.returned _ _ _ = CallPc.executing›
    · cases ‹CallPc.returned _ _ _ = CallPc.saving _›
    · rename_i heq
      cases heq
      exact .inr trivial
    · cases h

omit [DecidableEq ι] in
/-- Two calls with the key that have executed `do` are one too many. -/
theorem ExecutedOnce.eq {c : Calls ι} {k : String} {s : RunSystem ι} (h : s.ExecutedOnce c k)
    {i j : ι} (hi : i ∈ s.executed) (hj : j ∈ s.executed) (hki : c.key i = k)
    (hkj : c.key j = k) : i = j := by
  have hmem : ∀ {x}, x ∈ s.executed → c.key x = k →
      x ∈ s.executed.filter fun i => c.key i = k := by
    intro x hx hkx
    simpa using ⟨hx, hkx⟩
  have hi' := hmem hi hki
  have hj' := hmem hj hkj
  unfold ExecutedOnce at h
  match hl : s.executed.filter (fun i => c.key i = k), h with
  | [], _ => simp [hl] at hi'
  | [x], _ =>
    rw [hl, List.mem_singleton] at hi' hj'
    exact hi'.trans hj'.symm

/-- One execution at the end means that the calls came one after the other. -/
theorem serialized_of_executedOnce {hash : List UInt8 → String} {c : Calls ι} {k : String}
    {as : List (RunAct ι)} {s₀ s : RunSystem ι} (hs₀ : s₀.ExecutedMatches)
    (hrun : run (step hash c) s₀ as = some s) (hdone : ∀ i, c.key i = k → s.pc i ≠ .executing)
    (honce : s.ExecutedOnce c k) : Along (step hash c) (Serialized c k) s₀ as := by
  induction as generalizing s₀ with
  | nil => trivial
  | cons a as ih =>
    obtain ⟨s₁, hs₁, hrun₁⟩ := run_cons_eq_some.mp hrun
    -- whoever has found nothing by now has executed `do` by the end
    have hend : ∀ {i}, c.key i = k → s₁.FoundNothing i → i ∈ s.executed := by
      intro i hi hfound
      rcases run_invariant step_foundNothing hfound hrun₁ with h | h
      · exact absurd h (hdone i hi)
      · exact h
    refine ⟨?_, fun s' hs' => ?_⟩
    · cases a with
      | lookup i now =>
        intro hi hmiss j hne hj hunsaved
        have hfj : s₁.FoundNothing j :=
          step_foundNothing _ _ _ (foundNothing_of_unsaved hs₀ hunsaved) hs₁
        have hfi : s₁.FoundNothing i := by
          subst hi
          cases steps_of_step hs₁ with
          | noKey | missed => exact .inl (Function.update_self ..)
          | replayed _ he hlive | conflicting _ he hlive =>
            exact absurd hlive (Int.not_lt.mpr (hmiss _ he))
        exact hne (honce.eq (hend hj hfj) (hend hi hfi) hj hi)
      | _ => trivial
    · rw [hs₁] at hs'
      cases hs'
      exact ih (step_executedMatches _ _ _ hs₀ hs₁) hrun₁

/-- The invariant of serialized calls in a window. -/
structure Kept (c : Calls ι) (t₀ : Time) (ttl : Duration) (k : String) (s : RunSystem ι) :
    Prop where
  store : s.StoreKept t₀ ttl k
  sound : (gate c (t₀ + ttl) k s).Sound
  answers : s.AnswersStored c (t₀ + ttl) k
  executed : s.ExecutedMatches

theorem step_kept {hash : List UInt8 → String} {c : Calls ι} {k : String} (hk : k ≠ "")
    {t₀ : Time} {ttl : Duration} (s : RunSystem ι) (a : RunAct ι) (s' : RunSystem ι)
    (hs : s.Kept c t₀ ttl k) (ha : InWindow t₀ (t₀ + ttl) a ∧ Serialized c k s a)
    (h : s.step hash c a = some s') : s'.Kept c t₀ ttl k := by
  refine ⟨step_storeKept hk s a s' hs.store ha.1 h, ?_,
    step_answersStored hk hs.answers hs.store hs.sound ha.1 h,
    step_executedMatches s a s' hs.executed h⟩
  exact invariant_of_refines (fun _ _ hsound hgate => hsound.step hgate)
    (step_gate hk hs.store ha.1 ha.2 h) hs.sound

omit [DecidableEq ι] in
theorem kept_init {c : Calls ι} {k : String} {store : MemoryStore} {t₀ : Time}
    (httl : 0 < store.ttl) (hfresh : ∀ e, store.entries k = some e → e.validUntil ≤ t₀) :
    (init store : RunSystem ι).Kept c t₀ store.ttl k where
  store := ⟨rfl, fun e he => .inl (hfresh e he)⟩
  sound := by
    refine Gate.sound_of_outside (fun i => ?_) ?_
    · simp only [gate, init, phase]
      split <;> rfl
    · rintro ⟨e, he, hlive⟩
      have hlt : t₀ < t₀ + store.ttl := Int.lt_add_of_pos_right t₀ httl
      exact absurd (Int.le_trans hlive (hfresh e he)) (Int.not_le.mpr hlt)
  answers := fun i r _ hr => by cases hr
  executed := ⟨by simp [init], by simp [init, HasExecuted]⟩

omit [DecidableEq ι] in
theorem Kept.executedOnce {c : Calls ι} {t₀ : Time} {ttl : Duration} {k : String}
    {s : RunSystem ι} (hs : s.Kept c t₀ ttl k) : s.ExecutedOnce c k := by
  have hentered : ∀ i ∈ s.executed.filter (fun i => c.key i = k),
      ((gate c (t₀ + ttl) k s).phase i).Entered := by
    intro i hi
    rw [List.mem_filter, decide_eq_true_eq] at hi
    simp only [gate, hi.2, ↓reduceIte]
    exact entered_of_hasExecuted ((hs.executed.mem_iff i).mp hi.1)
  exact length_le_one_of_all_eq (hs.executed.nodup.filter _)
    (fun i hi j hj => hs.sound.unique i j (hentered i hi) (hentered j hj))

omit [DecidableEq ι] in
theorem Kept.responsesAgree {c : Calls ι} {t₀ : Time} {ttl : Duration} {k : String}
    {s : RunSystem ι} (hs : s.Kept c t₀ ttl k) : s.ResponsesAgree c k := by
  intro i j e e' b b' hi hj hpc hpc'
  obtain ⟨x, hx, _, hxr⟩ := hs.answers i e.response hi (by rw [hpc]; rfl)
  obtain ⟨y, hy, _, hyr⟩ := hs.answers j e'.response hj (by rw [hpc']; rfl)
  rw [hx] at hy
  cases hy
  exact hxr.symm.trans hyr

/-- The first step of a run is a `Lookup`, so a window in which something
happens is not empty. -/
theorem ttl_pos_of_step {hash : List UInt8 → String} {c : Calls ι} {store : MemoryStore}
    {t₀ : Time} {a : RunAct ι} {s : RunSystem ι} (h : (init store).step hash c a = some s)
    (hwin : InWindow t₀ (t₀ + store.ttl) a) : 0 < store.ttl := by
  have hpos : ∀ {now : Time}, t₀ ≤ now ∧ now < t₀ + store.ttl → 0 < store.ttl := by
    intro now hnow
    have hlt : t₀ + 0 < t₀ + store.ttl := by
      rw [Int.add_zero]
      exact Int.lt_of_le_of_lt hnow.1 hnow.2
    exact Int.lt_of_add_lt_add_left hlt
  cases steps_of_step h with
  | noKey | replayed | conflicting | missed => exact hpos hwin
  | doFailed hpc | done hpc | saved hpc | finished hpc => simp [init] at hpc

/-- **At most one execution of `do` per key, and when.** For any calls, any
interleaving of `Lookup`, `do` and `Save`, and clock readings from one TTL
window that starts with nothing live under the key: if every call with the
key that finds nothing comes when no other is past its `Lookup` without
having saved, `do` is executed at most once for the key and all calls that
return without error return the same status, body and content type.
Conversely, once every call that found nothing has executed `do`, one
execution means that the calls came so. -/
theorem run_once_iff_serialized {hash : List UInt8 → String} {c : Calls ι} {k : String}
    (hk : k ≠ "") {store : MemoryStore} {t₀ : Time}
    (hfresh : ∀ e, store.entries k = some e → e.validUntil ≤ t₀)
    {as : List (RunAct ι)} {s : RunSystem ι} (hrun : run (step hash c) (init store) as = some s)
    (hwin : Along (step hash c) (fun _ => InWindow t₀ (t₀ + store.ttl)) (init store) as) :
    (Along (step hash c) (Serialized c k) (init store) as →
      s.ExecutedOnce c k ∧ s.ResponsesAgree c k) ∧
    ((∀ i, c.key i = k → s.pc i ≠ .executing) → s.ExecutedOnce c k →
      Along (step hash c) (Serialized c k) (init store) as) := by
  refine ⟨fun hser => ?_, fun hdone honce => ?_⟩
  · cases as with
    | nil =>
      cases hrun
      exact ⟨by simp [ExecutedOnce, init], fun i _ _ _ _ _ _ _ h => by cases h⟩
    | cons a as =>
      obtain ⟨s₁, hs₁, _⟩ := run_cons_eq_some.mp hrun
      have hkept : s.Kept c t₀ store.ttl k :=
        (hwin.and hser).invariant (step_kept hk)
          (kept_init (ttl_pos_of_step hs₁ hwin.1) hfresh) hrun
      exact ⟨hkept.executedOnce, hkept.responsesAgree⟩
  · exact serialized_of_executedOnce ⟨by simp [init], by simp [init, HasExecuted]⟩ hrun hdone honce

/-! Two calls with one key and one body, in turn and overlapping. -/

section TwoCalls

def twoCalls : Calls (Fin 2) := ⟨fun _ => "key-1", fun _ => [104, 105]⟩

def created (id : UInt8) : Response := ⟨201, [id], "application/json"⟩

/-- In turn, the second call replays the response of the first. -/
theorem run_in_turn_serialized :
    let as : List (RunAct (Fin 2)) :=
      [.lookup 0 0, .execute 0 (.ok (created 1)), .save 0 0 0, .finish 0 0, .lookup 1 1]
    ∃ s, run (step sampleHash twoCalls) (init (.new Time.minute)) as = some s ∧
      s.pc 1 = .returned ⟨created 1, "hi", 0⟩ true none ∧
      Along (step sampleHash twoCalls) (Serialized twoCalls "key-1") (init (.new Time.minute)) as ∧
      s.ExecutedOnce twoCalls "key-1" ∧ s.ResponsesAgree twoCalls "key-1" := by
  intro as
  have hends : ∃ s, run (step sampleHash twoCalls) (init (.new Time.minute)) as = some s ∧
      s.pc 1 = .returned ⟨created 1, "hi", 0⟩ true none ∧ (∀ i, s.pc i ≠ .executing) ∧
      s.executed = [0] := exists_run_of_any (by decide +kernel)
  obtain ⟨s, hrun, hreplay, hdone, hexec⟩ := hends
  have h := run_once_iff_serialized (by decide : "key-1" ≠ "") (by simp [MemoryStore.new]) hrun
    (by decide +kernel : Along _ (fun _ => InWindow 0 (0 + Time.minute)) _ as)
  have hser := h.2 (fun i _ => hdone i) (by simp [ExecutedOnce, hexec, twoCalls])
  exact ⟨s, hrun, hreplay, hser, h.1 hser⟩

/-- Both calls look up before either saves: `do` is executed twice and the two
calls return two responses, without error. -/
theorem run_overlapping_twice :
    let as : List (RunAct (Fin 2)) :=
      [.lookup 0 0, .lookup 1 0, .execute 0 (.ok (created 1)), .save 0 0 0, .finish 0 0,
        .execute 1 (.ok (created 2)), .save 1 0 0, .finish 1 0]
    Along (step sampleHash twoCalls) (fun _ => InWindow 0 (0 + Time.minute))
      (init (.new Time.minute)) as ∧
    ∃ s, run (step sampleHash twoCalls) (init (.new Time.minute)) as = some s ∧
      s.executed = [0, 1] ∧ s.pc 0 = .returned ⟨created 1, "hi", 0⟩ false none ∧
      s.pc 1 = .returned ⟨created 2, "hi", 0⟩ false none :=
  ⟨by decide +kernel, exists_run_of_any (by decide +kernel)⟩

end TwoCalls

end RunSystem

end GoRestApi.Idempotency
