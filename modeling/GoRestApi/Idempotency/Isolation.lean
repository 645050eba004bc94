/-
GoRestApi.Idempotency.Isolation — what a call of `Run` on the in-memory store
depends on, for any interleaving of any calls.

A call reads and writes its own program counter and the entry of its own key,
and nothing else (`step_sameOn`, `step_sameOn_of_ne`). And an entry has a
maker: a call with the same key that has executed `do`; a replay returns its
response, and a conflict is with its request (`step_traced`).
-/
import GoRestApi.Idempotency.MemoryTheorems

namespace GoRestApi.Idempotency

open Go Lts

variable {ι : Type} [DecidableEq ι]

/-- The call that makes the step. -/
def RunAct.actor : RunAct ι → ι
  | .lookup i _ | .execute i _ | .save i _ _ | .finish i _ => i

/-! ## The calls with one key -/

/-- Two functions that agree where `P` holds still do after the same update. -/
theorem update_agree {α : Type} {P : ι → Prop} {f g : ι → α} (h : ∀ j, P j → g j = f j) (i : ι)
    (a : α) (j : ι) (hj : P j) : Function.update g i a j = Function.update f i a j := by
  by_cases hji : j = i
  · subst hji
    rw [Function.update_self, Function.update_self]
  · rw [Function.update_of_ne hji, Function.update_of_ne hji]
    exact h j hj

namespace MemoryStore

variable {s t : MemoryStore} {now : Time} {key : String} (requestHash : String)

theorem ttl_lookup : (s.lookup now key requestHash).1.ttl = s.ttl := by
  unfold lookup
  repeat' split <;> try rfl

/-- What `Lookup` returns and leaves under the key is decided by what was
there. -/
theorem lookup_congr (h : t.entries key = s.entries key) :
    (t.lookup now key requestHash).2 = (s.lookup now key requestHash).2 ∧
      (t.lookup now key requestHash).1.entries key =
        (s.lookup now key requestHash).1.entries key := by
  unfold lookup
  rw [h]
  split
  · exact ⟨rfl, h⟩
  · cases s.entries key with
    | none => exact ⟨rfl, h⟩
    | some e =>
      dsimp only
      split
      · simp
      · split <;> exact ⟨rfl, h⟩

end MemoryStore

namespace RunSystem

/-- The two states look the same to the calls with the key. -/
structure SameOn (c : Calls ι) (k : String) (s t : RunSystem ι) : Prop where
  pc : ∀ j, c.key j = k → t.pc j = s.pc j
  entry : t.store.entries k = s.store.entries k
  ttl : t.store.ttl = s.store.ttl

theorem SameOn.setPc {c : Calls ι} {k : String} {s t s' t' : RunSystem ι}
    (h : SameOn c k s t) (i : ι) (p : CallPc) (hs : s'.pc = (s.setPc i p).pc)
    (ht : t'.pc = (t.setPc i p).pc) (hentry : t'.store.entries k = s'.store.entries k)
    (httl : t'.store.ttl = s'.store.ttl) : SameOn c k s' t' := by
  refine ⟨fun j hj => ?_, hentry, httl⟩
  rw [hs, ht]
  exact update_agree h.pc i p j hj

variable {hash : List UInt8 → String} {c : Calls ι} {k : String} {s s' t : RunSystem ι}
  {a : RunAct ι}

/-- A step of a call with the key can be made in the other state as well. -/
theorem step_sameOn (h : SameOn c k s t) (hkey : c.key a.actor = k)
    (hstep : s.step hash c a = some s') :
    ∃ t', t.step hash c a = some t' ∧ SameOn c k s' t' := by
  subst hkey
  have hentry := h.entry
  cases a with
  | lookup i now =>
    obtain ⟨hreply, hleft⟩ := @MemoryStore.lookup_congr s.store t.store now (c.key i)
      (hash (c.request i)) hentry
    have httl : (t.store.lookup now (c.key i) (hash (c.request i))).1.ttl =
        (s.store.lookup now (c.key i) (hash (c.request i))).1.ttl := by
      rw [MemoryStore.ttl_lookup, MemoryStore.ttl_lookup, h.ttl]
    simp only [step, h.pc i rfl] at hstep ⊢
    split at hstep
    · split at hstep
      · rename_i hkey
        cases hstep
        exact ⟨_, if_pos hkey, h.setPc i _ rfl rfl h.entry h.ttl⟩
      · rename_i hkey
        rw [if_neg hkey]
        cases hs : s.store.lookup now (c.key i) (hash (c.request i)) with
        | mk st reply =>
        cases ht : t.store.lookup now (c.key i) (hash (c.request i)) with
        | mk st' reply' =>
        rw [hs, ht] at hreply hleft httl
        obtain rfl : reply' = reply := hreply
        rw [hs] at hstep
        rcases reply' with (- | -) | e <;> cases hstep <;>
          exact ⟨_, rfl, h.setPc i _ rfl rfl hleft httl⟩
    · cases hstep
  | execute i result =>
    simp only [step, h.pc i rfl] at hstep ⊢
    split at hstep
    · cases result <;> cases hstep
      · exact ⟨_, rfl, h.setPc i _ rfl rfl h.entry h.ttl⟩
      · exact ⟨_, rfl, h.setPc i _ rfl rfl h.entry h.ttl⟩
    · cases hstep
  | save i now now' =>
    simp only [step, h.pc i rfl] at hstep ⊢
    split at hstep
    · rename_i r hpc
      cases hstep
      refine ⟨_, rfl, h.setPc i (.finishing r) rfl rfl ?_ ?_⟩
      · by_cases hkey : c.key i = ""
        · simpa [MemoryStore.save, RunAct.actor, hkey] using hentry
        · simp [MemoryStore.save, RunAct.actor, hkey, h.ttl]
      · simpa only [ttl_save] using h.ttl
    · cases hstep
  | finish i now =>
    simp only [step, h.pc i rfl] at hstep ⊢
    split at hstep
    · cases hstep
      exact ⟨_, rfl, h.setPc i _ rfl rfl h.entry h.ttl⟩
    · cases hstep

/-- A step moves no other call. -/
theorem step_pc_of_ne {j : ι} (hstep : s.step hash c a = some s') (hj : j ≠ a.actor) :
    s'.pc j = s.pc j := by
  cases steps_of_step hstep <;> exact Function.update_of_ne hj ..

/-- A step of a call with another key is not seen. -/
theorem step_sameOn_of_ne (h : SameOn c k s t) (hkey : c.key a.actor ≠ k)
    (hstep : s.step hash c a = some s') : SameOn c k s' t := by
  have hpc : ∀ j, c.key j = k → t.pc j = s'.pc j := by
    intro j hj
    rw [step_pc_of_ne hstep (by rintro rfl; exact hkey hj)]
    exact h.pc j hj
  cases steps_of_step hstep with
  | noKey | replayed | conflicting | doFailed | done | finished => exact ⟨hpc, h.entry, h.ttl⟩
  | missed _ _ httl _ hother =>
    exact ⟨hpc, h.entry.trans (hother k (Ne.symm hkey)).symm, h.ttl.trans httl.symm⟩
  | saved _ =>
    exact ⟨hpc, h.entry.trans (entries_save_of_ne (Ne.symm hkey)).symm,
      h.ttl.trans (ttl_save ..).symm⟩

/-! ## Where an entry comes from -/

/-- The call has executed `do` and saved its response. -/
def Produced (s : RunSystem ι) (j : ι) (r : Response) : Prop :=
  s.pc j = .finishing r ∨ ∃ e, s.pc j = .returned e false none ∧ e.response = r

/-- What is in the store, and what has been replayed or refused, goes back to
a call with the same key that has executed `do`. -/
structure Traced (hash : List UInt8 → String) (c : Calls ι) (s : RunSystem ι) : Prop where
  entry : ∀ k e, s.store.entries k = some e → ∃ j, c.key j = k ∧
    s.Produced j e.entry.response ∧ e.entry.requestHash = hash (c.request j)
  replayed : ∀ i e err, s.pc i = .returned e true err → ∃ j, c.key j = c.key i ∧
    s.Produced j e.response ∧ hash (c.request j) = hash (c.request i)
  conflict : ∀ i e b, s.pc i = .returned e b (some .conflict) → ∃ j r, c.key j = c.key i ∧
    s.Produced j r ∧ c.request j ≠ c.request i

/-- What a `Lookup` has compared. -/
theorem hash_of_lookup {i : ι} {now : Time} (hstep : s.step hash c (.lookup i now) = some s') :
    (∀ e err, s'.pc i = .returned e true err → ∃ en, s.store.entries (c.key i) = some en ∧
      en.entry = e ∧ e.requestHash = hash (c.request i)) ∧
    (∀ e b, s'.pc i = .returned e b (some .conflict) → ∃ en,
      s.store.entries (c.key i) = some en ∧ en.entry.requestHash ≠ hash (c.request i)) := by
  simp only [step] at hstep
  split at hstep
  · by_cases hkey : c.key i = ""
    · simp only [hkey, ↓reduceIte] at hstep
      cases hstep
      simp
    · simp only [hkey, ↓reduceIte] at hstep
      rcases s.store.misses_or_live now (c.key i) with hmiss | ⟨e, he, hlive⟩
      · rw [MemoryStore.lookup_of_misses hkey hmiss] at hstep
        cases hstep
        simp
      · by_cases hhash : e.entry.requestHash = hash (c.request i)
        · rw [MemoryStore.lookup_of_same hkey he hlive hhash] at hstep
          cases hstep
          simp [he, hhash]
        · rw [MemoryStore.lookup_of_other hkey he hlive hhash] at hstep
          cases hstep
          simp [he, hhash]
  · cases hstep

/-- A call that has saved its response keeps it. -/
theorem step_produced {j : ι} {r : Response} (hs : s.Produced j r)
    (hstep : s.step hash c a = some s') : s'.Produced j r := by
  have hkeep : ∀ {i p}, s'.pc = (s.setPc i p).pc → j ≠ i → s'.Produced j r := by
    intro i p hpc hji
    unfold Produced
    rw [hpc, setPc_pc, Function.update_of_ne hji]
    exact hs
  cases steps_of_step hstep with
  | noKey hpc | replayed hpc | conflicting hpc | missed hpc | doFailed hpc | done hpc
  | saved hpc =>
    refine hkeep rfl ?_
    rintro rfl
    simp [Produced, hpc] at hs
  | @finished i now r' hpc =>
    by_cases hji : j = i
    · subst hji
      have hr : r' = r := by simpa [Produced, hpc] using hs
      exact .inr ⟨_, Function.update_self .., hr⟩
    · exact hkeep rfl hji

/-- An entry was there before the step, or the step has saved it. -/
theorem entry_of_step {e : EntryWithTTL} (hstep : s.step hash c a = some s')
    (he : s'.store.entries k = some e) :
    s.store.entries k = some e ∨ ∃ j, c.key j = k ∧ s'.Produced j e.entry.response ∧
      e.entry.requestHash = hash (c.request j) := by
  cases steps_of_step hstep with
  | noKey | replayed | conflicting | doFailed | done | finished => exact .inl he
  | @missed i now st _ _ _ hnone hother =>
    by_cases hk : k = c.key i
    · subst hk
      exact absurd (hnone.symm.trans he) (by simp)
    · exact .inl ((hother k hk).symm.trans he)
  | @saved i now now' r _ =>
    simp only [MemoryStore.save] at he
    split at he
    · exact .inl he
    · by_cases hk : k = c.key i
      · subst hk
        simp only [Function.update_self, Option.some.injEq] at he
        subst he
        exact .inr ⟨i, rfl, .inl (Function.update_self ..), rfl⟩
      · exact .inl (by simpa only [Function.update_of_ne hk] using he)

/-- A call that is back was back before the step, or is back from its `Lookup`
or from `do`. -/
theorem returned_of_step {i : ι} {e : Entry} {b : Bool} {err : Option RunError}
    (hstep : s.step hash c a = some s') (hpc : s'.pc i = .returned e b err) :
    s.pc i = .returned e b err ∨ (∃ now, a = .lookup i now) ∨
      b = false ∧ err ≠ some .conflict := by
  have hkeep : ∀ {j p}, s'.pc = (s.setPc j p).pc → i ≠ j → s.pc i = .returned e b err := by
    intro j p hpc' hij
    rw [← hpc, hpc', setPc_pc, Function.update_of_ne hij]
  cases steps_of_step hstep with
  | @noKey j | @replayed j | @conflicting j | @missed j =>
    by_cases hij : i = j
    · subst hij
      exact .inr (.inl ⟨_, rfl⟩)
    · exact .inl (hkeep rfl hij)
  | @doFailed j | @done j | @saved j | @finished j =>
    by_cases hij : i = j
    · subst hij
      have hself := hpc.symm.trans (Function.update_self ..)
      cases hself <;> exact .inr (.inr ⟨rfl, by simp⟩)
    · exact .inl (hkeep rfl hij)

/-- Only a `Lookup` brings a call back with a replay. -/
theorem lookup_of_replayed (hstep : s.step hash c a = some s')
    (hpc : s'.pc a.actor = .start ∨ ∃ e err, s'.pc a.actor = .returned e true err) :
    s.pc a.actor = .start ∧ ∃ now, a = .lookup a.actor now := by
  cases steps_of_step hstep with
  | noKey hstart | replayed hstart | conflicting hstart | missed hstart =>
    exact ⟨hstart, _, rfl⟩
  | doFailed | done | saved | finished =>
    exfalso
    simp [RunAct.actor, RunSystem.setPc] at hpc

theorem step_traced (s : RunSystem ι) (a : RunAct ι) (s' : RunSystem ι) (hs : Traced hash c s)
    (hstep : s.step hash c a = some s') : Traced hash c s' where
  entry k e he := by
    rcases entry_of_step hstep he with hold | hsaved
    · obtain ⟨j, hkey, hproduced, hhash⟩ := hs.entry k e hold
      exact ⟨j, hkey, step_produced hproduced hstep, hhash⟩
    · exact hsaved
  replayed i e err hpc := by
    rcases returned_of_step hstep hpc with hold | ⟨now, rfl⟩ | ⟨hfalse, -⟩
    · obtain ⟨j, hkey, hproduced, hhash⟩ := hs.replayed i e err hold
      exact ⟨j, hkey, step_produced hproduced hstep, hhash⟩
    · obtain ⟨en, hen, rfl, hsame⟩ := (hash_of_lookup hstep).1 e err hpc
      obtain ⟨j, hkey, hproduced, hhash⟩ := hs.entry _ en hen
      exact ⟨j, hkey, step_produced hproduced hstep, hhash.symm.trans hsame⟩
    · cases hfalse
  conflict i e b hpc := by
    rcases returned_of_step hstep hpc with hold | ⟨now, rfl⟩ | ⟨-, hne⟩
    · obtain ⟨j, r, hkey, hproduced, hreq⟩ := hs.conflict i e b hold
      exact ⟨j, r, hkey, step_produced hproduced hstep, hreq⟩
    · obtain ⟨en, hen, hother⟩ := (hash_of_lookup hstep).2 e b hpc
      obtain ⟨j, hkey, hproduced, hhash⟩ := hs.entry _ en hen
      refine ⟨j, _, hkey, step_produced hproduced hstep, fun hreq => hother ?_⟩
      rw [hhash, hreq]
    · exact absurd rfl hne

end RunSystem

end GoRestApi.Idempotency
