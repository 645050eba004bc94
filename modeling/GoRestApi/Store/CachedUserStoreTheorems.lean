/-
GoRestApi.Store.CachedUserStoreTheorems — how old an answer of `GetByID` can
be.

Two results. The first is about calls whose cache commands all succeed. A
`GetByID` that has read the inner store may write back to the cache what it
read after a writer has changed the user AND deleted the cache entry, and from
then on the old value is served, up to the TTL; and between the inner write
and the deletion a hit returns the old value. `getByID_held_of_quiet` says
that nothing else can go wrong, and that each of the two does go wrong.

The second, `cached_answer_age`, is the bound that remains whatever fails or
races: a user served from the cache was read from the inner store by a
`GetByID` of the same id, whose `Set` was less than the TTL ago. It needs no
law of the inner store.
-/
import GoRestApi.Store.CachedUserStore
import GoRestApi.Store.UserStoreTheorems
import Mathlib.Data.Fintype.Basic
import Mathlib.Data.List.Infix

namespace GoRestApi.Store

open Go Cache Lts

variable {ι σ ε π : Type} [DecidableEq ι]

namespace Cached

/-! ## What a step can do -/

namespace State

/-- What the inner store holds for `id`: the fields a payload has, or the
error of the read. -/
def view (c : Config σ ε π) (s : State ι σ ε π) (id : Int64) : Except ε Public :=
  (c.inner.getByID s.inner id.toInt).map Public.of

/-- The cases of a step, with what the branch has tested. -/
inductive Steps (c : Config σ ε π) (calls : ι → Call) (s : State ι σ ε π) :
    Act ι → State ι σ ε π → Prop where
  | begun {i} : s.pc i = .start → Steps c calls s (.begin i) (s.setPc i .begun)
  | hit {i now id e u} : s.pc i = .begun → calls i = .getByID id →
      s.cache.entry id = some e → now < e.expiresAt → c.codec.decode e.value = .ok u →
      Steps c calls s (.get i now true) (s.setPc i (.returned (.user (.ok u))))
  | missed {i now ok id cache} : s.pc i = .begun → calls i = .getByID id →
      cache.isSome = s.cache.isSome →
      (∀ id' e, UserCache.entry cache id' = some e → s.cache.entry id' = some e) →
      Steps c calls s (.get i now ok) { s.setPc i .reading with cache := cache }
  | notFound {i id e} : s.pc i = .reading → calls i = .getByID id →
      c.inner.getByID s.inner id.toInt = .error e →
      Steps c calls s (.read i) (s.setPc i (.returned (.user (.error e))))
  | found {i id user} : s.pc i = .reading → calls i = .getByID id →
      c.inner.getByID s.inner id.toInt = .ok user →
      Steps c calls s (.read i) (s.setPc i (.filling user))
  | filled {i now ok id user cache} : s.pc i = .filling user → calls i = .getByID id →
      cache.isSome = s.cache.isSome →
      (∀ id' e, UserCache.entry cache id' = some e → s.cache.entry id' = some e ∨
        ok = true ∧ id' = id ∧ ∃ data, c.codec.encode (.of user) = .ok data ∧
          e = ⟨data, now + c.ttl⟩) →
      Steps c calls s (.set i now ok)
        { s.setPc i (.returned (.user (.ok user))) with cache := cache }
  | wrote {i st answer id} : s.pc i = .begun →
      (calls i).write c.inner s.inner = some (st, answer, some id) →
      Steps c calls s (.write i) { s.setPc i (.invalidating id answer) with inner := st }
  | refused {i st answer} : s.pc i = .begun →
      (calls i).write c.inner s.inner = some (st, answer, none) →
      Steps c calls s (.write i) { s.setPc i (.returned answer) with inner := st }
  | invalidated {i ok id answer cache} : s.pc i = .invalidating id answer →
      cache.isSome = s.cache.isSome →
      (∀ id' e, UserCache.entry cache id' = some e →
        s.cache.entry id' = some e ∧ (ok = true → id' ≠ id)) →
      Steps c calls s (.invalidate i ok) { s.setPc i (.returned answer) with cache := cache }

/-- **Inversion.** A step is one of the cases. -/
theorem steps_of_step {c : Config σ ε π} {calls : ι → Call} {s s' : State ι σ ε π} {a : Act ι}
    (h : s.step c calls a = some s') : Steps c calls s a s' := by
  cases a with
  | begin i =>
    simp only [step] at h
    split at h
    · cases h
      exact .begun ‹_›
    · cases h
  | get i now ok =>
    simp only [step] at h
    split at h
    · rename_i id hpc hcall
      cases ok with
      | false =>
        simp only [Bool.false_eq_true, ↓reduceIte] at h
        cases h
        exact .missed hpc hcall rfl fun _ _ he => he
      | true =>
        simp only [↓reduceIte] at h
        split at h
        · rename_i cache hget
          have hcache : cache = (s.cache.get now id).1 := by rw [hget]
          cases h
          refine .missed hpc hcall (by rw [hcache, UserCache.isSome_get]) fun id' e he => ?_
          rw [hcache] at he
          exact UserCache.entry_of_get he
        · rename_i cache data hget
          have hsome : (s.cache.get now id).2 = some data := by rw [hget]
          obtain ⟨hsame, e, he, hdata, hlive⟩ := UserCache.get_eq_some hsome
          rw [hget] at hsame
          subst hsame hdata
          split at h
          · rename_i u hdecode
            cases h
            exact .hit hpc hcall he hlive hdecode
          · cases h
            exact .missed hpc hcall rfl fun _ _ he => he
    · cases h
  | read i =>
    simp only [step] at h
    split at h
    · split at h
      · cases h
        exact .notFound ‹_› ‹_› ‹_›
      · cases h
        exact .found ‹_› ‹_› ‹_›
    · cases h
  | set i now ok =>
    simp only [step] at h
    split at h
    · rename_i user id hpc hcall
      split at h
      · rename_i data hencode
        cases h
        refine .filled hpc hcall (by cases ok <;> simp) fun id' e he => ?_
        cases ok with
        | false => exact .inl he
        | true =>
          obtain ⟨hid, heq⟩ | hbefore := UserCache.entry_of_setWithTTL he
          · exact .inr ⟨rfl, hid, data, hencode, heq⟩
          · exact .inl hbefore
      · cases h
        exact .filled hpc hcall rfl fun _ _ he => .inl he
    · cases h
  | write i =>
    simp only [step] at h
    split at h
    · cases h
      exact .wrote ‹_› ‹_›
    · cases h
      exact .refused ‹_› ‹_›
    · cases h
  | invalidate i ok =>
    simp only [step] at h
    split at h
    · rename_i id answer hpc
      cases h
      refine .invalidated hpc (by cases ok <;> simp) fun id' e he => ?_
      cases ok with
      | false => exact ⟨he, by simp⟩
      | true =>
        obtain ⟨hne, hbefore⟩ := UserCache.entry_of_delete he
        exact ⟨hbefore, fun _ => hne⟩
    · cases h

end State

/-! ## The inner store -/

/-- A write changes what the store holds for the id it is going to
invalidate, and for no other. -/
def Local (inner : UserStore σ ε) : Prop :=
  ∀ (call : Call) (st st' : σ) (answer : Answer ε) (written : Option Int64) (id : Int64),
    call.write inner st = some (st', answer, written) → written ≠ some id →
    inner.getByID st' id.toInt = inner.getByID st id.toInt

end Cached

namespace MemoryUserStore

/-- A method that leaves the store as it is when it fails, and otherwise
changes what is found for its own id only. -/
theorem getByID_of_written {α : Type} {st : MemoryUserStore}
    {w : MemoryUserStore × Except StoreError α} {id id' : Int64}
    (hfail : ∀ st' e, w = (st', .error e) → st' = st)
    (hother : id.toInt ≠ id'.toInt → w.1.getByID id.toInt = st.getByID id.toInt)
    (hid : w.2.toOption.map (fun _ => id') ≠ some id) :
    w.1.getByID id.toInt = st.getByID id.toInt := by
  obtain ⟨st', e | x⟩ := w
  · rw [hfail st' e rfl]
  · refine hother fun h => hid ?_
    rw [Int64.toInt_inj.mp h]
    rfl

theorem local_userStore : Cached.Local userStore := by
  intro call st st' answer written id hwrite hid
  cases call with
  | getByID id' => simp [Cached.Call.write] at hwrite
  | create input =>
    simp only [Cached.Call.write, Option.some.injEq, Prod.mk.injEq] at hwrite
    obtain ⟨rfl, -, rfl⟩ := hwrite
    by_cases hnext : id.toInt = st.nextID
    · -- the created user would have this id, so `Create` has failed
      simp only [userStore] at hid ⊢
      rcases hcreate : st.create input with ⟨st', e | user⟩
      · rw [create_error hcreate]
      · obtain ⟨rfl, -⟩ := create_ok hcreate
        simp [hcreate, Except.toOption, ← hnext] at hid
    · exact getByID_create hnext
  | update id' input =>
    simp only [Cached.Call.write, Option.some.injEq, Prod.mk.injEq] at hwrite
    obtain ⟨rfl, -, rfl⟩ := hwrite
    exact getByID_of_written (fun _ _ => update_error) getByID_update hid
  | updatePassword id' hash =>
    simp only [Cached.Call.write, Option.some.injEq, Prod.mk.injEq] at hwrite
    obtain ⟨rfl, -, rfl⟩ := hwrite
    exact getByID_of_written (fun _ _ => updatePassword_error) getByID_updatePassword hid
  | delete id' =>
    simp only [Cached.Call.write, Option.some.injEq, Prod.mk.injEq] at hwrite
    obtain ⟨rfl, -, rfl⟩ := hwrite
    exact getByID_of_written (fun _ _ => delete_error) getByID_delete hid

end MemoryUserStore

namespace Cached

/-! ## Calls that do not race -/

/-- The call that performs the step. -/
def Act.call : Act ι → ι
  | .begin i | .get i _ _ | .read i | .set i _ _ | .write i | .invalidate i _ => i

/-- The call has been made and has not returned. -/
def Pc.Active : Pc ε → Prop
  | .start | .returned _ => False
  | _ => True

instance : DecidablePred (Pc.Active : Pc ε → Prop)
  | .start | .returned _ => isFalse id
  | .begun | .reading | .filling _ | .invalidating _ _ => isTrue trivial

/-- What a call of `GetByID` is going to return, once that is decided, in the
fields a payload has. -/
def Pc.decided : Pc ε → Option (Except ε Public)
  | .filling user => some (.ok (.of user))
  | .returned (.user r) => some (r.map Public.of)
  | _ => none

/-- The id that a `GetByID` reads. -/
def Call.reads : Call → Option Int64
  | .getByID id => some id
  | _ => none

/-- The call has read a user and not yet written it back. -/
def Pc.Filling : Pc ε → Prop
  | .filling _ => True
  | _ => False

instance : DecidablePred (Pc.Filling : Pc ε → Prop)
  | .filling _ => isTrue trivial
  | .start | .begun | .reading | .invalidating _ _ | .returned _ => isFalse id

/-- The id that a writer has yet to invalidate. -/
def Pc.invalidates : Pc ε → Option Int64
  | .invalidating id _ => some id
  | _ => none

/-- While the call `i` was under way, the inner store held `r` for `id`. -/
def HeldDuring (c : Config σ ε π) (calls : ι → Call) (s₀ : State ι σ ε π) (as : List (Act ι))
    (i : ι) (id : Int64) (r : Except ε Public) : Prop :=
  ∃ as₁ as₂ u, as = as₁ ++ as₂ ∧ run (State.step c calls) s₀ as₁ = some u ∧
    (u.pc i).Active ∧ u.view c id = r

namespace State

variable {c : Config σ ε π} {calls : ι → Call}

/-- No write of the inner store changes a user that a `GetByID` has read and
is about to write back, no `GetByID` asks the cache for a user between a write
and its invalidation, and the invalidations succeed. -/
def Quiet (c : Config σ ε π) (calls : ι → Call) (s : State ι σ ε π) : Act ι → Prop
  | .write i => ∀ w ∈ (calls i).write c.inner s.inner,
      ∀ j, ∀ id ∈ (calls j).reads, (s.pc j).Filling →
        (c.inner.getByID w.1 id.toInt).map Public.of = s.view c id
  | .get i _ _ => ∀ id ∈ (calls i).reads, ∀ j, (s.pc j).invalidates ≠ some id
  | .invalidate _ ok => ok = true
  | _ => True

instance [Fintype ι] [DecidableEq ε] (s : State ι σ ε π) :
    (a : Act ι) → Decidable (Quiet c calls s a)
  | .begin _ | .read _ | .set _ _ _ => isTrue trivial
  | .write i =>
      -- there is at most one id to look at, not all of `Int64`
      have (w : σ × Answer ε × Option Int64) (j : ι) :
          Decidable (∀ id ∈ (calls j).reads, (s.pc j).Filling →
            (c.inner.getByID w.1 id.toInt).map Public.of = s.view c id) :=
        Option.decidableForallMem _
      inferInstanceAs (Decidable (∀ w ∈ (calls i).write c.inner s.inner,
        ∀ j, ∀ id ∈ (calls j).reads, (s.pc j).Filling →
          (c.inner.getByID w.1 id.toInt).map Public.of = s.view c id))
  | .get i _ _ => Option.decidableForallMem (calls i).reads
  | .invalidate _ ok => inferInstanceAs (Decidable (ok = true))

/-- What holds as long as the calls do not race: an entry of the cache shows
what the inner store holds, or is about to be deleted; and so does what a
`GetByID` is about to write back. -/
structure Coherent (c : Config σ ε π) (calls : ι → Call) (s : State ι σ ε π) : Prop where
  entries : ∀ id e, s.cache.entry id = some e →
    (∃ u, c.codec.decode e.value = .ok u ∧ s.view c id = .ok (.of u)) ∨
    ∃ j answer, s.pc j = .invalidating id answer
  filling : ∀ j id user, calls j = .getByID id → s.pc j = .filling user →
    s.view c id = .ok (.of user)
  writers : ∀ j id answer id', s.pc j = .invalidating id answer → calls j ≠ .getByID id'

omit [DecidableEq ι] in
theorem coherent_init (st : σ) : Coherent c calls (init st (some .new)) where
  entries id e he := by cases he
  filling j id user _ hpc := by cases hpc
  writers j id answer id' hpc := by cases hpc

/-- The steps that neither write the inner store nor invalidate: the call `i`
goes on, and every new entry shows what the inner store holds. -/
theorem Coherent.move {s s' : State ι σ ε π} (h : Coherent c calls s) {i : ι} {p : Pc ε}
    (hpc : s'.pc = Function.update s.pc i p) (hview : ∀ id, s'.view c id = s.view c id)
    (hcache : ∀ id e, s'.cache.entry id = some e → s.cache.entry id = some e ∨
      ∃ u, c.codec.decode e.value = .ok u ∧ s.view c id = .ok (.of u))
    (hi : ∀ id answer, s.pc i ≠ .invalidating id answer)
    (hp : ∀ id answer, p ≠ .invalidating id answer)
    (hfill : ∀ id user, calls i = .getByID id → p = .filling user →
      s.view c id = .ok (.of user)) : Coherent c calls s' := by
  constructor
  case entries =>
    intro id e he
    rw [hview]
    rcases hcache id e he with hbefore | hnew
    · rcases h.entries id e hbefore with hview | ⟨j, answer, hj⟩
      · exact .inl hview
      · have hne : j ≠ i := fun heq => hi id answer (heq ▸ hj)
        exact .inr ⟨j, answer, by rw [hpc, Function.update_of_ne hne, hj]⟩
    · exact .inl hnew
  case filling =>
    intro j id user hcall hj
    rw [hview]
    rcases moved_cases hpc j with ⟨rfl, hpj⟩ | ⟨-, hpj⟩
    · exact hfill id user hcall (hpj.symm.trans hj)
    · exact h.filling j id user hcall (hpj.symm.trans hj)
  case writers =>
    intro j id answer id' hj
    rcases moved_cases hpc j with ⟨-, hpj⟩ | ⟨-, hpj⟩
    · exact absurd (hpj.symm.trans hj) (hp id answer)
    · exact h.writers j id answer id' (hpj.symm.trans hj)

/-- A call writes the inner store, which holds the same for every user that is
about to be written back. -/
theorem Coherent.write {s : State ι σ ε π} (h : Coherent c calls s) (hlocal : Local c.inner)
    {i : ι} {st : σ} {answer : Answer ε} {id : Int64} (hpc : s.pc i = .begun)
    (hwrite : (calls i).write c.inner s.inner = some (st, answer, some id))
    (hquiet : ∀ j, ∀ id' ∈ (calls j).reads, (s.pc j).Filling →
      (c.inner.getByID st id'.toInt).map Public.of = s.view c id') :
    Coherent c calls { s.setPc i (.invalidating id answer) with inner := st } := by
  have hne : ∀ j p, s.pc j = p → p ≠ .begun → j ≠ i := by
    rintro j p hj hp rfl
    exact hp (hj.symm.trans hpc)
  constructor
  case entries =>
    intro id' e he
    by_cases hid : id' = id
    · subst hid
      exact .inr ⟨i, answer, Function.update_self ..⟩
    · rcases h.entries id' e he with ⟨u, hu, hview⟩ | ⟨j, answer', hj⟩
      · refine .inl ⟨u, hu, ?_⟩
        rw [view, hlocal _ _ _ _ _ id' hwrite (by simpa using Ne.symm hid)]
        exact hview
      · exact .inr ⟨j, answer', (Function.update_of_ne (hne j _ hj (by simp)) ..).trans hj⟩
  case filling =>
    intro j id' user hcall hj
    by_cases hji : j = i
    · subst hji
      simp at hj
    · have hj : s.pc j = .filling user := (Function.update_of_ne hji ..).symm.trans hj
      have hreads : id' ∈ (calls j).reads := by rw [hcall]; rfl
      have hfilling : (s.pc j).Filling := by rw [hj]; trivial
      exact (hquiet j id' hreads hfilling).trans (h.filling j id' user hcall hj)
  case writers =>
    intro j id' answer' id'' hj
    by_cases hji : j = i
    · subst hji
      intro hcall
      simp [hcall, Call.write] at hwrite
    · exact h.writers j id' answer' id'' ((Function.update_of_ne hji ..).symm.trans hj)

/-- A writer deletes the entry of its user. -/
theorem Coherent.invalidate {s : State ι σ ε π} (h : Coherent c calls s) {i : ι} {id : Int64}
    {answer : Answer ε} {cache : UserCache π} (hpc : s.pc i = .invalidating id answer)
    (hcache : ∀ id' e, UserCache.entry cache id' = some e →
      s.cache.entry id' = some e ∧ id' ≠ id) :
    Coherent c calls { s.setPc i (.returned answer) with cache := cache } := by
  constructor
  case entries =>
    intro id' e he
    obtain ⟨hbefore, hid⟩ := hcache id' e he
    rcases h.entries id' e hbefore with hview | ⟨j, answer', hj⟩
    · exact .inl hview
    · -- the writer of another user is another call
      have hji : j ≠ i := by
        rintro rfl
        rw [hpc] at hj
        cases hj
        exact hid rfl
      exact .inr ⟨j, answer', (Function.update_of_ne hji ..).trans hj⟩
  case filling =>
    intro j id' user hcall hj
    by_cases hji : j = i
    · subst hji
      simp at hj
    · exact h.filling j id' user hcall ((Function.update_of_ne hji ..).symm.trans hj)
  case writers =>
    intro j id' answer' id'' hj
    by_cases hji : j = i
    · subst hji
      simp at hj
    · exact h.writers j id' answer' id'' ((Function.update_of_ne hji ..).symm.trans hj)

/-- **One step.** -/
theorem coherent_step (hlocal : Local c.inner) (hcodec : c.codec.RoundTrips)
    (s : State ι σ ε π) (a : Act ι) (s' : State ι σ ε π) (h : Coherent c calls s)
    (hquiet : Quiet c calls s a) (hstep : s.step c calls a = some s') :
    Coherent c calls s' := by
  cases steps_of_step hstep with
  | begun hpc =>
    exact h.move rfl (fun _ => rfl) (fun _ _ he => .inl he) (by simp [hpc]) (by simp) (by simp)
  | hit hpc hcall he hlive hdecode =>
    exact h.move rfl (fun _ => rfl) (fun _ _ he => .inl he) (by simp [hpc]) (by simp) (by simp)
  | missed hpc hcall hsome hcache =>
    exact h.move rfl (fun _ => rfl) (fun id e he => .inl (hcache id e he)) (by simp [hpc])
      (by simp) (by simp)
  | notFound hpc hcall herr =>
    exact h.move rfl (fun _ => rfl) (fun _ _ he => .inl he) (by simp [hpc]) (by simp) (by simp)
  | @found i id user hpc hcall hok =>
    refine h.move rfl (fun _ => rfl) (fun _ _ he => .inl he) (by simp [hpc]) (by simp) ?_
    intro id' user' hcall' heq
    rw [hcall] at hcall'
    cases hcall'
    cases heq
    rw [view, hok]
    rfl
  | @filled i now ok id user cache hpc hcall hsome hcache =>
    refine h.move rfl (fun _ => rfl) (fun id' e he => ?_) (by simp [hpc]) (by simp) (by simp)
    rcases hcache id' e he with hbefore | ⟨-, rfl, data, hdata, rfl⟩
    · exact .inl hbefore
    · obtain ⟨u, hu, hpub⟩ := hcodec.decode_encode _ _ hdata
      exact .inr ⟨u, hu, by rw [hpub]; exact h.filling i id' user hcall hpc⟩
  | @refused i st answer hpc hwrite =>
    refine h.move rfl (fun id => ?_) (fun _ _ he => .inl he) (by simp [hpc]) (by simp) (by simp)
    rw [view, hlocal _ _ _ _ _ id hwrite (by simp)]
    rfl
  | wrote hpc hwrite => exact h.write hlocal hpc hwrite (hquiet _ hwrite)
  | invalidated hpc _ hcache =>
    refine h.invalidate hpc fun id' e he => ?_
    obtain ⟨hbefore, hid⟩ := hcache id' e he
    exact ⟨hbefore, hid hquiet⟩

/-- A step moves its own call only. -/
theorem Steps.pc_of_ne {s s' : State ι σ ε π} {a : Act ι} {j : ι} (h : Steps c calls s a s')
    (hj : j ≠ a.call) : s'.pc j = s.pc j := by
  cases h <;> exact Function.update_of_ne hj ..

/-- The step that decides what a `GetByID` returns comes while the inner store
holds just that. -/
theorem view_of_decided {s s' : State ι σ ε π} {a : Act ι} {i : ι} {id : Int64}
    {r : Except ε Public} (hcall : calls i = .getByID id) (h : Coherent c calls s)
    (hquiet : Quiet c calls s a) (hstep : s.step c calls a = some s')
    (hbefore : (s.pc i).decided ≠ some r) (hafter : (s'.pc i).decided = some r) :
    (s.pc i).Active ∧ s.view c id = r := by
  have hsteps := steps_of_step hstep
  have hi : i = a.call := by
    by_contra hne
    exact hbefore (hsteps.pc_of_ne hne ▸ hafter)
  subst hi
  cases hsteps with
  | begun hpc => simp [Pc.decided, Act.call] at hafter
  | hit hpc hcall' he hlive hdecode =>
    simp only [Act.call] at hcall hpc hafter ⊢
    rw [hcall] at hcall'
    cases hcall'
    rcases h.entries _ _ he with ⟨u, hu, hview⟩ | ⟨j, answer, hj⟩
    · rw [hdecode] at hu
      cases hu
      simp only [setPc_pc, Function.update_self, Pc.decided, Option.some.injEq] at hafter
      exact ⟨by rw [hpc]; trivial, hview.trans hafter⟩
    · have hreads : (calls _).reads = some _ := congrArg Call.reads hcall
      exact absurd (congrArg Pc.invalidates hj) (hquiet _ hreads j)
  | missed hpc hcall' hsome hcache => simp [Pc.decided, Act.call] at hafter
  | notFound hpc hcall' herr =>
    simp only [Act.call] at hcall hpc hafter ⊢
    rw [hcall] at hcall'
    cases hcall'
    simp only [setPc_pc, Function.update_self, Pc.decided, Option.some.injEq] at hafter
    exact ⟨by rw [hpc]; trivial, by rw [view, herr]; exact hafter⟩
  | found hpc hcall' hok =>
    simp only [Act.call] at hcall hpc hafter ⊢
    rw [hcall] at hcall'
    cases hcall'
    simp only [setPc_pc, Function.update_self, Pc.decided, Option.some.injEq] at hafter
    exact ⟨by rw [hpc]; trivial, by rw [view, hok]; exact hafter⟩
  | filled hpc hcall' hsome hcache =>
    simp only [Act.call] at hpc hafter hbefore
    simp only [setPc_pc, Function.update_self, Pc.decided, Option.some.injEq] at hafter
    exact absurd (by rw [hpc, ← hafter]; rfl) hbefore
  | wrote hpc hwrite => simp [Pc.decided, Act.call] at hafter
  | refused hpc hwrite =>
    simp only [Act.call] at hcall
    simp [hcall, Call.write] at hwrite
  | invalidated hpc hsome hcache =>
    simp only [Act.call] at hcall hpc
    exact absurd hcall (h.writers _ _ _ _ hpc)

/-- A `GetByID` answers with what the inner store held while it was under
way, in a run whose steps are all quiet. -/
theorem held_of_returned (hlocal : Local c.inner) (hcodec : c.codec.RoundTrips) {st : σ}
    {as : List (Act ι)} {s : State ι σ ε π}
    (hrun : run (step c calls) (init st (some .new)) as = some s)
    (hquiet : Along (step c calls) (Quiet c calls) (init st (some .new)) as)
    {i : ι} {id : Int64} {r : Except ε User} (hcall : calls i = .getByID id)
    (hpc : s.pc i = .returned (.user r)) :
    HeldDuring c calls (init st (some .new)) as i id (r.map Public.of) := by
  have hdecided : (s.pc i).decided = some (r.map Public.of) := by rw [hpc]; rfl
  obtain ⟨as₁, a, as₂, u, u', rfl, hu, hstep, hbefore, hafter⟩ :=
    exists_step_of_run (P := fun s => (s.pc i).decided = some (r.map Public.of)) hrun
      (by simp [init, Pc.decided]) hdecided
  obtain ⟨hquiet₁, hquiet₂⟩ := hquiet.append
  have hcoherent : Coherent c calls u :=
    hquiet₁.invariant (coherent_step hlocal hcodec) (coherent_init st) hu
  obtain ⟨hactive, hview⟩ :=
    view_of_decided hcall hcoherent (hquiet₂ u hu).1 hstep hbefore hafter
  exact ⟨as₁, a :: as₂, u, rfl, hu, hactive, hview⟩

/-! ## Calls that do -/

/-- A call that asks the cache while it has an entry is answered from it,
whatever the inner store holds. -/
theorem answered_from_entry {s : State ι σ ε π} {j : ι} {id : Int64} {e : Entry π} {u : User}
    (now : Time) (hcall : calls j = .getByID id) (hpc : s.pc j = .start)
    (he : s.cache.entry id = some e) (hlive : now < e.expiresAt)
    (hdecode : c.codec.decode e.value = .ok u) :
    ∃ s', run (step c calls) s [.begin j, .get j now true] = some s' ∧ s'.inner = s.inner ∧
      s'.pc j = .returned (.user (.ok u)) := by
  obtain ⟨cache, hcache⟩ : ∃ cache, s.cache = some cache := by
    cases h : s.cache with
    | none => simp [h, UserCache.entry] at he
    | some cache => exact ⟨cache, rfl⟩
  have hentries : cache.entries (keyFor id) = some e := by simpa [hcache, UserCache.entry] using he
  refine ⟨(s.setPc j .begun).setPc j (.returned (.user (.ok u))), ?_, rfl, Function.update_self ..⟩
  have hbegin : s.step c calls (.begin j) = some (s.setPc j .begun) := by simp only [step, hpc]
  have hget : UserCache.get s.cache now id = (s.cache, some e.value) := by
    simp [hcache, UserCache.get, MemoryCache.get, hentries, hlive]
  refine run_cons_eq_some.mpr ⟨_, hbegin, ?_⟩
  rw [run_singleton]
  have hsame : (s.setPc j .begun).cache = s.cache := rfl
  simp only [step, setPc_pc, Function.update_self, hcall, hsame, ↓reduceIte, hget, hdecode]
  rfl

theorem cache_isSome_step (s : State ι σ ε π) (a : Act ι) (s' : State ι σ ε π)
    (h : s.cache.isSome) (hstep : s.step c calls a = some s') : s'.cache.isSome := by
  cases steps_of_step hstep with
  | missed _ _ hsome _ => exact hsome.trans h
  | filled _ _ hsome _ => exact hsome.trans h
  | invalidated _ hsome _ => exact hsome.trans h
  | begun | hit | notFound | found | wrote | refused => exact h

/-- A late write-back puts what it read into the cache, and the next call is
answered with it. -/
theorem answered_from_filling (hcodec : c.codec.RoundTrips) {s : State ι σ ε π} {i j : ι}
    {id : Int64} {user : User} {data : π} (now : Time) (hi : calls i = .getByID id)
    (hpci : s.pc i = .filling user) (hcache : s.cache.isSome)
    (hdata : c.codec.encode (.of user) = .ok data) (httl : 0 < c.ttl)
    (hj : calls j = .getByID id) (hpcj : s.pc j = .start) :
    ∃ s', run (step c calls) s [.set i now true, .begin j, .get j now true] = some s' ∧
      s'.inner = s.inner ∧ ∃ u, s'.pc j = .returned (.user (.ok u)) ∧ Public.of u = .of user := by
  obtain ⟨u, hu, hpub⟩ := hcodec.decode_encode _ _ hdata
  have hji : j ≠ i := by
    rintro rfl
    rw [hpci] at hpcj
    cases hpcj
  have hset : s.step c calls (.set i now true) =
      some { s.setPc i (.returned (.user (.ok user))) with
        cache := s.cache.setWithTTL now id data c.ttl } := by
    simp only [step, hpci, hi, hdata, ↓reduceIte]
  have hentry : (s.cache.setWithTTL now id data c.ttl).entry id =
      some ⟨data, now + c.ttl⟩ := by
    obtain ⟨cache, hcache⟩ := Option.isSome_iff_exists.mp hcache
    simp [hcache, UserCache.setWithTTL, UserCache.entry, MemoryCache.set, Int.not_le.mpr httl]
  obtain ⟨s', hrun, hinner, hpc⟩ :=
    answered_from_entry (c := c) (s := { s.setPc i (.returned (.user (.ok user))) with
        cache := s.cache.setWithTTL now id data c.ttl })
      now hj ((Function.update_of_ne hji ..).trans hpcj) hentry
      (Int.lt_add_of_pos_right now httl) hu
  exact ⟨s', run_cons_eq_some.mpr ⟨_, hset, hrun⟩, hinner, u, hpc, hpub⟩

end State

open State

/-- **Answers of `GetByID`.** In every run, from an empty cache: if all steps
are quiet then a `GetByID` answers with what the inner store held while it was
under way. Where they are not it may go wrong: in a state in which a `GetByID`
is about to write back a user, a call that starts after the write-back is
answered with that user, also when the inner store now holds another one; and
in a state in which the cache has an entry that is not yet invalidated, a call
that starts is answered with the entry. -/
theorem getByID_held_of_quiet {c : Config σ ε π} {calls : ι → Call} (hlocal : Local c.inner)
    (hcodec : c.codec.RoundTrips) {st : σ} {as : List (Act ι)} {s : State ι σ ε π}
    (hrun : run (step c calls) (init st (some .new)) as = some s) :
    (Along (step c calls) (Quiet c calls) (init st (some .new)) as →
      ∀ i id r, calls i = .getByID id → s.pc i = .returned (.user r) →
        HeldDuring c calls (init st (some .new)) as i id (r.map Public.of)) ∧
    (∀ i id user data now, calls i = .getByID id → s.pc i = .filling user →
      c.codec.encode (.of user) = .ok data → 0 < c.ttl →
      ∀ j, calls j = .getByID id → s.pc j = .start →
        ∃ s', run (step c calls) s [.set i now true, .begin j, .get j now true] = some s' ∧
          s'.view c id = s.view c id ∧
          ∃ u, s'.pc j = .returned (.user (.ok u)) ∧ Public.of u = .of user) ∧
    (∀ id e u now, s.cache.entry id = some e → now < e.expiresAt →
      c.codec.decode e.value = .ok u →
      ∀ j, calls j = .getByID id → s.pc j = .start →
        ∃ s', run (step c calls) s [.begin j, .get j now true] = some s' ∧
          s'.view c id = s.view c id ∧ s'.pc j = .returned (.user (.ok u))) := by
  refine ⟨fun hquiet i id r hcall hpc => held_of_returned hlocal hcodec hrun hquiet hcall hpc,
    ?late, ?early⟩
  case late =>
    intro i id user data now hi hpci hdata httl j hj hpcj
    have hcache : s.cache.isSome := run_invariant cache_isSome_step rfl hrun
    obtain ⟨s', hrun', hinner, hu⟩ :=
      answered_from_filling hcodec now hi hpci hcache hdata httl hj hpcj
    exact ⟨s', hrun', by rw [view, view, hinner], hu⟩
  case early =>
    intro id e u now he hlive hdecode j hj hpcj
    obtain ⟨s', hrun', hinner, hpc⟩ := answered_from_entry now hj hpcj he hlive hdecode
    exact ⟨s', hrun', by rw [view, view, hinner], hpc⟩

/-- Whether a value was held can be decided by trying the prefixes of the run. -/
theorem heldDuring_iff {c : Config σ ε π} {calls : ι → Call}
    {s₀ : State ι σ ε π} {as : List (Act ι)} {i : ι} {id : Int64} {r : Except ε Public} :
    HeldDuring c calls s₀ as i id r ↔
      ∃ as₁ ∈ as.inits, ∃ u, run (step c calls) s₀ as₁ = some u ∧
        (u.pc i).Active ∧ u.view c id = r := by
  simp only [HeldDuring, List.mem_inits, List.prefix_iff_eq_append]
  constructor
  · rintro ⟨as₁, as₂, u, rfl, h⟩
    exact ⟨as₁, by simp, u, h⟩
  · rintro ⟨as₁, has, u, h⟩
    exact ⟨as₁, _, u, has.symm, h⟩

/-- A user with the id 1. -/
def ada : User := ⟨1, "Ada", "ada@example.com", "hash"⟩

/-- A reader, a writer and a second reader of the user 1. -/
def readers : Fin 3 → Call
  | 0 => .getByID 1
  | 1 => .update 1 ⟨"Countess", "ada@example.com"⟩
  | 2 => .getByID 1

def memory : Config MemoryUserStore StoreError UserCodec.Payload :=
  ⟨MemoryUserStore.userStore, UserCodec.json, Time.minute⟩

/-- A read, then a write, then a read that finds nothing in the cache. -/
theorem getByID_after_update_current :
    let s₀ : State (Fin 3) _ _ _ := init ⟨[ada], 2⟩ (some .new)
    let as : List (Act (Fin 3)) :=
      [.begin 0, .get 0 0 true, .read 0, .set 0 0 true, .begin 1, .write 1,
        .invalidate 1 true, .begin 2, .get 2 1 true, .read 2, .set 2 1 true]
    ∃ s, run (step memory readers) s₀ as = some s ∧
      Along (step memory readers) (Quiet memory readers) s₀ as ∧
      HeldDuring memory readers s₀ as 2 1 (.ok ⟨1, "Countess", "ada@example.com"⟩) := by
  intro s₀ as
  have hends : ∃ s, run (step memory readers) s₀ as = some s ∧
      s.pc 2 = .returned (.user (.ok ⟨1, "Countess", "ada@example.com", "hash"⟩)) :=
    exists_run_of_any (by decide +kernel)
  obtain ⟨s, hrun, hpc⟩ := hends
  have hquiet : Along (step memory readers) (Quiet memory readers) s₀ as := by decide +kernel
  exact ⟨s, hrun, hquiet, (getByID_held_of_quiet MemoryUserStore.local_userStore
    UserCodec.roundTrips_json hrun).1 hquiet 2 1 _ rfl hpc⟩

/-- The first reader reads before the update and writes back after its
invalidation. All commands succeed; the second reader starts when the update
has returned, and is answered with the old name, which the inner store did not
hold at any moment of its call. -/
theorem getByID_after_update_stale :
    let s₀ : State (Fin 3) _ _ _ := init ⟨[ada], 2⟩ (some .new)
    let as : List (Act (Fin 3)) :=
      [.begin 0, .get 0 0 true, .read 0, .begin 1, .write 1, .invalidate 1 true]
    let bs : List (Act (Fin 3)) := [.set 0 0 true, .begin 2, .get 2 1 true]
    (∃ u, run (step memory readers) s₀ as = some u ∧
      u.pc 1 = .returned (.user (.ok ⟨1, "Countess", "ada@example.com", "hash"⟩)) ∧
      u.pc 2 = .start) ∧
    (∃ s, run (step memory readers) s₀ (as ++ bs) = some s ∧
      s.pc 2 = .returned (.user (.ok ⟨1, "Ada", "ada@example.com", ""⟩))) ∧
    ¬ HeldDuring memory readers s₀ (as ++ bs) 2 1 (.ok ⟨1, "Ada", "ada@example.com"⟩) := by
  intro s₀ as bs
  have hnever : ∀ as₁ ∈ (as ++ bs).inits, ∀ u ∈ run (step memory readers) s₀ as₁,
      ¬ ((u.pc 2).Active ∧ u.view memory 1 = .ok ⟨1, "Ada", "ada@example.com"⟩) := by
    decide +kernel
  refine ⟨exists_run_of_any (by decide +kernel), exists_run_of_any (by decide +kernel), ?_⟩
  rw [heldDuring_iff]
  rintro ⟨as₁, hmem, u, hu, hheld⟩
  exact hnever as₁ hmem u hu hheld

/-! ## The age of a cached answer -/

/-- Among the steps `as` is the read of the inner store by the call `j`, a
`GetByID` of `id`, which found `user`. -/
def ReadBy (c : Config σ ε π) (calls : ι → Call) (s₀ : State ι σ ε π) (as : List (Act ι)) (j : ι)
    (id : Int64) (user : User) : Prop :=
  calls j = .getByID id ∧ ∃ as₁ as₂ s₁, as = as₁ ++ .read j :: as₂ ∧
    run (step c calls) s₀ as₁ = some s₁ ∧ s₁.pc j = .reading ∧
    c.inner.getByID s₁.inner id.toInt = .ok user

/-- Among the steps `as` are the read of the inner store by a `GetByID` of
`id`, which found `user`, and after it the `Set` of that call, at `t₁`. -/
def ReadAndSet (c : Config σ ε π) (calls : ι → Call) (s₀ : State ι σ ε π) (as : List (Act ι))
    (id : Int64) (user : User) (t₁ : Time) : Prop :=
  ∃ j as₁ as₂, as = as₁ ++ .set j t₁ true :: as₂ ∧ ReadBy c calls s₀ as₁ j id user

section Age

variable {c : Config σ ε π} {calls : ι → Call} {s₀ : State ι σ ε π} {as : List (Act ι)}
  {id : Int64} {user : User}

theorem ReadBy.append {j : ι} (h : ReadBy c calls s₀ as j id user) (bs : List (Act ι)) :
    ReadBy c calls s₀ (as ++ bs) j id user := by
  obtain ⟨hcall, as₁, as₂, s₁, rfl, hrest⟩ := h
  exact ⟨hcall, as₁, as₂ ++ bs, s₁, by simp, hrest⟩

theorem ReadAndSet.append {t₁ : Time} (h : ReadAndSet c calls s₀ as id user t₁)
    (bs : List (Act ι)) : ReadAndSet c calls s₀ (as ++ bs) id user t₁ := by
  obtain ⟨j, as₁, as₂, rfl, hread⟩ := h
  exact ⟨j, as₁, as₂ ++ bs, by simp, hread⟩

/-- Where what is in the cache, and what is about to be put there, comes
from. -/
structure Sourced (c : Config σ ε π) (calls : ι → Call) (s₀ : State ι σ ε π)
    (as : List (Act ι)) (s : State ι σ ε π) : Prop where
  entries : ∀ id e, s.cache.entry id = some e → ∃ user data t₁,
    c.codec.encode (.of user) = .ok data ∧ e = ⟨data, t₁ + c.ttl⟩ ∧
    ReadAndSet c calls s₀ as id user t₁
  filling : ∀ j id user, calls j = .getByID id → s.pc j = .filling user →
    ReadBy c calls s₀ as j id user

/-- A step that puts nothing into the cache and leads no call to a
write-back. -/
theorem Sourced.move {s s' : State ι σ ε π} (h : Sourced c calls s₀ as s) (a : Act ι)
    (hcache : ∀ id e, s'.cache.entry id = some e → s.cache.entry id = some e)
    (hpc : ∀ j user, s'.pc j = .filling user → s.pc j = .filling user) :
    Sourced c calls s₀ (as ++ [a]) s' where
  entries id e he := by
    obtain ⟨user, data, t₁, hdata, heq, hread⟩ := h.entries id e (hcache id e he)
    exact ⟨user, data, t₁, hdata, heq, hread.append [a]⟩
  filling j id user hcall hj := (h.filling j id user hcall (hpc j user hj)).append [a]

/-- A call that goes to a place other than a write-back leads none there. -/
theorem filling_of_setPc {s : State ι σ ε π} {i : ι} {p : Pc ε} (hp : ¬ p.Filling) (j : ι)
    (user : User) (hj : (s.setPc i p).pc j = .filling user) : s.pc j = .filling user := by
  rcases moved_cases (g := (s.setPc i p).pc) rfl j with ⟨-, hpj⟩ | ⟨-, hpj⟩
  · rw [← hpj, hj] at hp
    exact absurd trivial hp
  · exact hpj.symm.trans hj

theorem sourced_step (as : List (Act ι)) (s : State ι σ ε π) (a : Act ι) (s' : State ι σ ε π)
    (hrun : run (step c calls) s₀ as = some s) (h : Sourced c calls s₀ as s)
    (hstep : s.step c calls a = some s') : Sourced c calls s₀ (as ++ [a]) s' := by
  cases steps_of_step hstep with
  | begun hpc => exact h.move _ (fun _ _ he => he) (filling_of_setPc id)
  | hit hpc hcall he hlive hdecode => exact h.move _ (fun _ _ he => he) (filling_of_setPc id)
  | missed hpc hcall hsome hcache => exact h.move _ hcache (filling_of_setPc id)
  | notFound hpc hcall herr => exact h.move _ (fun _ _ he => he) (filling_of_setPc id)
  | wrote hpc hwrite => exact h.move _ (fun _ _ he => he) (filling_of_setPc id)
  | refused hpc hwrite => exact h.move _ (fun _ _ he => he) (filling_of_setPc id)
  | invalidated hpc hsome hcache =>
    exact h.move _ (fun id' e he => (hcache id' e he).1) (filling_of_setPc id)
  | @found i id user hpc hcall hok =>
    refine ⟨(h.move _ (fun _ _ he => he) (fun _ _ hj => hj)).entries, ?_⟩
    intro j id' user' hcall' hj
    rcases moved_cases (g := (s.setPc i (.filling user)).pc) rfl j with ⟨rfl, hpj⟩ | ⟨-, hpj⟩
    · cases hcall.symm.trans hcall'
      cases hpj.symm.trans hj
      exact ⟨hcall, as, [], s, rfl, hrun, hpc, hok⟩
    · exact (h.filling j id' user' hcall' (hpj.symm.trans hj)).append _
  | @filled i now ok id user cache hpc hcall hsome hcache =>
    refine ⟨?_, ?_⟩
    · intro id' e he
      rcases hcache id' e he with hbefore | ⟨rfl, rfl, data, hdata, rfl⟩
      · obtain ⟨user', data, t₁, hdata, heq, hread⟩ := h.entries id' e hbefore
        exact ⟨user', data, t₁, hdata, heq, hread.append _⟩
      · exact ⟨user, data, now, hdata, rfl, i, as, [], rfl, h.filling i id' user hcall hpc⟩
    · intro j id' user' hcall' hj
      have hbefore : s.pc j = .filling user' :=
        filling_of_setPc (p := .returned (.user (.ok user))) (fun hf => hf) j user' hj
      exact (h.filling j id' user' hcall' hbefore).append _

theorem sourced_of_run {st : σ} {s : State ι σ ε π}
    (hrun : run (step c calls) (init st (some .new)) as = some s) :
    Sourced c calls (init st (some .new)) as s := by
  refine run_history ⟨?_, ?_⟩ sourced_step hrun
  · intro id e he
    cases he
  · intro j id user _ hj
    cases hj

end Age

/-- **Staleness is bounded by the TTL.** Whatever interleaves and whatever
cache commands fail: when a `GetByID` of `id` is answered from the cache at
`t`, an earlier `GetByID` of `id` has read these fields from the inner store,
and its `Set` came after that read and less than the TTL before `t`. -/
theorem cached_answer_age {c : Config σ ε π} {calls : ι → Call} (hcodec : c.codec.RoundTrips)
    {st : σ} {as : List (Act ι)} {s s' : State ι σ ε π} {i : ι} {t : Time} {ok : Bool} {u : User}
    (hrun : run (step c calls) (init st (some .new)) as = some s)
    (hget : s.step c calls (.get i t ok) = some s') (hpc : s'.pc i = .returned (.user (.ok u)))
    (hclock : ((as ++ [Act.get i t ok]).filterMap Act.time).Pairwise (· ≤ ·)) :
    ∃ id user t₁, calls i = .getByID id ∧
      ReadAndSet c calls (init st (some .new)) as id user t₁ ∧
      Public.of user = .of u ∧ t - c.ttl < t₁ ∧ t₁ ≤ t := by
  have hsourced := sourced_of_run hrun
  cases steps_of_step hget with
  | missed => simp at hpc
  | @hit _ _ id e u' _ hcall he hlive hdecode =>
    rw [setPc_pc, Function.update_self] at hpc
    cases hpc
    obtain ⟨user, data, t₁, hdata, rfl, hread⟩ := hsourced.entries id e he
    obtain ⟨u', hu', hpub⟩ := hcodec.decode_encode _ _ hdata
    rw [hdecode] at hu'
    cases hu'
    have hbefore : t₁ ≤ t := by
      obtain ⟨j, as₁, as₂, rfl, -⟩ := hread
      simp only [List.filterMap_append, List.filterMap_cons, Act.time, List.filterMap_nil] at hclock
      exact (List.pairwise_append.mp hclock).2.2 t₁ (by simp) t (by simp)
    exact ⟨id, user, t₁, hcall, hread, hpub.symm, Int.sub_right_lt_of_lt_add hlive, hbefore⟩

/-- A hit a nanosecond before the entry expires, though the invalidation of a
later update has failed. -/
theorem cached_answer_age_minute :
    let s₀ : State (Fin 3) _ _ _ := init ⟨[ada], 2⟩ (some .new)
    let as : List (Act (Fin 3)) :=
      [.begin 0, .get 0 0 true, .read 0, .set 0 0 true, .begin 1, .write 1,
        .invalidate 1 false, .begin 2]
    let t := Time.minute - 1
    ∃ id user t₁, readers 2 = .getByID id ∧ ReadAndSet memory readers s₀ as id user t₁ ∧
      Public.of user = .of ada ∧ t - Time.minute < t₁ ∧ t₁ ≤ t := by
  intro s₀ as t
  have hends : ∃ s', run (step memory readers) s₀ (as ++ [.get 2 t true]) = some s' ∧
      s'.pc 2 = .returned (.user (.ok { ada with passwordHash := "" })) :=
    exists_run_of_any (by decide +kernel)
  obtain ⟨s', hrun', hpc⟩ := hends
  obtain ⟨s, hrun, hget⟩ := run_append_eq_some.mp hrun'
  rw [run_singleton] at hget
  obtain ⟨id, user, t₁, hcall, hread, hpub, hage⟩ :=
    cached_answer_age UserCodec.roundTrips_json hrun hget hpc (by decide)
  exact ⟨id, user, t₁, hcall, hread, hpub, hage⟩

end Cached

end GoRestApi.Store
