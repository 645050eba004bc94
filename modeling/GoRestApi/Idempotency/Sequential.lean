/-
GoRestApi.Idempotency.Sequential — calls of `Run` that do not overlap.

`MemoryStore.run` is `Run` of `internal/idempotency/memory.go` as a whole, from
its `Lookup` to its return; `alone_run` says that this is what the steps of
`Idempotency.Memory` do when no other call comes in between. A history is a
list of such calls on one store.

`run_contract` is the contract of the store over every history: for `ttl`
after a `Save` its key is answered with what was saved, or with a conflict,
and `do` is not executed; at `ttl` and later it is executed again. Two facts
carry it: an entry stays as it is until a call with its key comes after its
expiry (`entries_after_of_live`), and every entry was saved by an earlier call
of the history (`savedBy_of_entries`).
-/
import GoRestApi.Idempotency.MemoryTheorems
import Mathlib.Data.List.Induction
import Mathlib.Data.Set.Function

namespace GoRestApi.Idempotency

open Go Lts

/-! ## One call -/

/-- A call of `Run`: its arguments, what `do` returns if it is executed, and
the readings of the clock in the order in which the code takes them. -/
structure Invocation where
  key : String
  request : List UInt8
  result : Except String Response
  lookupAt : Time
  storedAt : Time
  savedAt : Time
  returnedAt : Time

/-- The three results of `Run`, and whether `do` was executed. -/
structure Outcome where
  entry : Entry
  replayed : Bool
  err : Option RunError
  executed : Bool
  deriving DecidableEq, Repr

/-- `Run`. -/
def MemoryStore.run (hashRequest : List UInt8 → String) (s : MemoryStore) (c : Invocation) :
    MemoryStore × Outcome :=
  let requestHash := hashRequest c.request
  match if c.key ≠ "" then s.lookup c.lookupAt c.key requestHash else (s, .error .notFound) with
  | (s', .ok e) => (s', ⟨e, true, none, false⟩)
  | (s', .error .conflict) => (s', ⟨Entry.zero, false, some .conflict, false⟩)
  | (s', .error .notFound) =>
    match c.result with
    | .error msg => (s', ⟨Entry.zero, false, some (.doFailed msg), true⟩)
    | .ok r =>
      (if c.key ≠ "" then s'.save c.storedAt c.savedAt c.key requestHash r else s',
        ⟨⟨r, requestHash, c.returnedAt⟩, false, none, true⟩)

/-- The store after the calls of a history. -/
def MemoryStore.after (hashRequest : List UInt8 → String) (s : MemoryStore)
    (cs : List Invocation) : MemoryStore :=
  cs.foldl (fun s c => (s.run hashRequest c).1) s

/-! ## The cases of a call -/

namespace MemoryStore

variable {hash : List UInt8 → String} {s : MemoryStore} {c : Invocation}

/-- What a call saves, if it saves something. -/
def saved (hash : List UInt8 → String) (ttl : Duration) (c : Invocation) (r : Response) :
    EntryWithTTL :=
  ⟨⟨r, hash c.request, c.storedAt⟩, c.savedAt + ttl⟩

/-- The results of a call that executes `do`. -/
def executedOutcome (hash : List UInt8 → String) (c : Invocation) : Outcome :=
  match c.result with
  | .error msg => ⟨Entry.zero, false, some (.doFailed msg), true⟩
  | .ok r => ⟨⟨r, hash c.request, c.returnedAt⟩, false, none, true⟩

theorem run_of_noKey (hkey : c.key = "") : s.run hash c = (s, executedOutcome hash c) := by
  unfold run executedOutcome
  simp only [hkey, ne_eq, not_true_eq_false, ↓reduceIte]
  cases c.result <;> rfl

theorem run_of_same {e : EntryWithTTL} (hkey : c.key ≠ "") (he : s.entries c.key = some e)
    (hlive : c.lookupAt < e.validUntil) (hhash : e.entry.requestHash = hash c.request) :
    s.run hash c = (s, ⟨e.entry, true, none, false⟩) := by
  simp [run, hkey, lookup_of_same hkey he hlive hhash]

theorem run_of_other {e : EntryWithTTL} (hkey : c.key ≠ "") (he : s.entries c.key = some e)
    (hlive : c.lookupAt < e.validUntil) (hhash : e.entry.requestHash ≠ hash c.request) :
    s.run hash c = (s, ⟨Entry.zero, false, some .conflict, false⟩) := by
  simp [run, hkey, lookup_of_other hkey he hlive hhash]

/-- A call that finds nothing executes `do`, and what it leaves under its key
is what it saved. -/
theorem run_of_misses (hkey : c.key ≠ "") (hmiss : s.Misses c.lookupAt c.key) :
    s.run hash c =
      ({ s with
          entries := Function.update s.entries c.key
            (c.result.toOption.map (saved hash s.ttl c)) },
        executedOutcome hash c) := by
  unfold run executedOutcome
  simp only [hkey, ne_eq, not_false_eq_true, ↓reduceIte, lookup_of_misses hkey hmiss]
  cases c.result with
  | error msg => rfl
  | ok r => simp [save, hkey, saved, Except.toOption]

/-- The four cases of a call. -/
theorem run_cases (hash : List UInt8 → String) (s : MemoryStore) (c : Invocation) :
    c.key = "" ∨
    c.key ≠ "" ∧
      (s.Misses c.lookupAt c.key ∨
      ∃ e, s.entries c.key = some e ∧ c.lookupAt < e.validUntil ∧
        (e.entry.requestHash = hash c.request ∨ e.entry.requestHash ≠ hash c.request)) := by
  by_cases hkey : c.key = ""
  · exact .inl hkey
  refine .inr ⟨hkey, (s.misses_or_live c.lookupAt c.key).imp id ?_⟩
  rintro ⟨e, he, hlive⟩
  exact ⟨e, he, hlive, eq_or_ne ..⟩

@[simp] theorem executed_executedOutcome (c : Invocation) :
    (executedOutcome hash c).executed = true := by
  unfold executedOutcome
  cases c.result <;> rfl

/-- `Run` returns an error of `do` only if there is one. -/
theorem run_err_ne_doFailed {r : Response} (hres : c.result = .ok r) (msg : String) :
    (s.run hash c).2.err ≠ some (.doFailed msg) := by
  obtain hno | ⟨hkey, hmiss | ⟨e, he, hlive, hsame | hother⟩⟩ := run_cases hash s c
  · simp [run_of_noKey hno, executedOutcome, hres]
  · simp [run_of_misses hkey hmiss, executedOutcome, hres]
  · simp [run_of_same hkey he hlive hsame]
  · simp [run_of_other hkey he hlive hother]

/-- `do` is executed exactly when nothing valid is stored under the key. -/
theorem executed_run_iff (hkey : c.key ≠ "") :
    (s.run hash c).2.executed = true ↔ s.Misses c.lookupAt c.key := by
  obtain hno | ⟨-, hmiss | ⟨e, he, hlive, hhash⟩⟩ := run_cases hash s c
  · exact absurd hno hkey
  · simp [run_of_misses hkey hmiss, hmiss]
  · have hfound : ¬ s.Misses c.lookupAt c.key := fun h => Int.not_le.mpr hlive (h e he)
    rcases hhash with hhash | hhash
    · simp [run_of_same hkey he hlive hhash, hfound]
    · simp [run_of_other hkey he hlive hhash, hfound]

/-- A call that does not execute `do` leaves the store as it is. -/
theorem run_store_of_not_executed (h : (s.run hash c).2.executed = false) :
    (s.run hash c).1 = s := by
  obtain hno | ⟨hkey, hmiss | ⟨e, he, hlive, hhash | hhash⟩⟩ := run_cases hash s c
  · rw [run_of_noKey hno]
  · simp [(executed_run_iff hkey).mpr hmiss] at h
  · rw [run_of_same hkey he hlive hhash]
  · rw [run_of_other hkey he hlive hhash]

/-! ## What a call does to the entries -/

/-- **Frame.** A call touches the entry of its own key only, and none when
its key is empty. -/
theorem entries_run_of_ne {k : String} (hk : k ≠ c.key ∨ c.key = "") :
    (s.run hash c).1.entries k = s.entries k := by
  by_cases hkey : c.key = ""
  · rw [run_of_noKey hkey]
  have hk : k ≠ c.key := hk.resolve_right hkey
  cases hexec : (s.run hash c).2.executed with
  | true =>
    rw [run_of_misses hkey ((executed_run_iff hkey).mp hexec)]
    exact Function.update_of_ne hk ..
  | false => rw [run_store_of_not_executed hexec]

@[simp] theorem run_ttl (hash : List UInt8 → String) (s : MemoryStore) (c : Invocation) :
    (s.run hash c).1.ttl = s.ttl := by
  by_cases hkey : c.key = ""
  · rw [run_of_noKey hkey]
  cases hexec : (s.run hash c).2.executed with
  | true => rw [run_of_misses hkey ((executed_run_iff hkey).mp hexec)]
  | false => rw [run_store_of_not_executed hexec]

/-- An entry stays until a call with its key comes after its expiry. -/
theorem entries_run_of_live {k : String} {e : EntryWithTTL} (he : s.entries k = some e)
    (hlive : c.key = k → c.lookupAt < e.validUntil) : (s.run hash c).1.entries k = some e := by
  by_cases hk : k ≠ c.key ∨ c.key = ""
  · rw [entries_run_of_ne hk, he]
  · simp only [ne_eq, not_or, not_not] at hk
    obtain ⟨rfl, hkey⟩ := hk
    have hfound : (s.run hash c).2.executed = false := by
      rw [← Bool.not_eq_true, executed_run_iff hkey]
      exact fun hmiss => Int.not_le.mpr (hlive rfl) (hmiss e he)
    rw [run_store_of_not_executed hfound, he]

/-- An entry after a call was there before it, or the call has saved it. -/
theorem entries_run_eq_some {k : String} {e : EntryWithTTL}
    (he : (s.run hash c).1.entries k = some e) :
    s.entries k = some e ∨
    c.key = k ∧ k ≠ "" ∧ (s.run hash c).2.executed = true ∧
      ∃ r, c.result = .ok r ∧ e = saved hash s.ttl c r := by
  by_cases hk : k ≠ c.key ∨ c.key = ""
  · rw [entries_run_of_ne hk] at he
    exact .inl he
  simp only [ne_eq, not_or, not_not] at hk
  obtain ⟨rfl, hkey⟩ := hk
  cases hexec : (s.run hash c).2.executed with
  | false =>
    rw [run_store_of_not_executed hexec] at he
    exact .inl he
  | true =>
    rw [run_of_misses hkey ((executed_run_iff hkey).mp hexec)] at he
    simp only [Function.update_self, Option.map_eq_some_iff] at he
    obtain ⟨r, hr, rfl⟩ := he
    refine .inr ⟨rfl, hkey, rfl, r, ?_, rfl⟩
    cases hres : c.result with
    | error msg => simp [hres, Except.toOption] at hr
    | ok r' =>
      simp only [hres, Except.toOption, Option.some.injEq] at hr
      rw [hr]

/-- A call that executes `do` with success leaves what it has saved. -/
theorem entries_run_of_saves {r : Response} (hkey : c.key ≠ "")
    (hexec : (s.run hash c).2.executed = true) (hr : c.result = .ok r) :
    (s.run hash c).1.entries c.key = some (saved hash s.ttl c r) := by
  rw [run_of_misses hkey ((executed_run_iff hkey).mp hexec)]
  simp [hr, Except.toOption]

end MemoryStore

/-! ## The steps of a call -/

namespace RunSystem

variable {ι : Type} [DecidableEq ι]

/-- The steps of the call `i` with what the clock and `do` give it in `c`, up
to its return. -/
def stepsOf (i : ι) (c : Invocation) (o : Outcome) : List (RunAct ι) :=
  if o.executed then
    match c.result with
    | .error _ => [.lookup i c.lookupAt, .execute i c.result]
    | .ok _ =>
      [.lookup i c.lookupAt, .execute i c.result, .save i c.storedAt c.savedAt,
        .finish i c.returnedAt]
  else [.lookup i c.lookupAt]

/-- **The steps are those of `Run`.** The whole call leaves the store and
returns the results that its steps do when no other call comes in between. -/
theorem alone_run {hash : List UInt8 → String} {calls : Calls ι} {s : RunSystem ι} {i : ι}
    {c : Invocation} (hpc : s.pc i = .start) (hkey : calls.key i = c.key)
    (hreq : calls.request i = c.request) :
    ∃ s', run (step hash calls) s (stepsOf i c (s.store.run hash c).2) = some s' ∧
      s'.store = (s.store.run hash c).1 ∧
      s'.pc i = .returned (s.store.run hash c).2.entry (s.store.run hash c).2.replayed
        (s.store.run hash c).2.err ∧
      s'.executed = s.executed ++ (if (s.store.run hash c).2.executed then [i] else []) := by
  unfold MemoryStore.run
  by_cases hno : c.key = ""
  · -- without a key there is no `Lookup`, and `Save` does nothing
    cases hres : c.result <;>
      simp [hno, hres, stepsOf, run_cons, step, hpc, hkey, hreq, MemoryStore.save, setPc]
  · cases hl : s.store.lookup c.lookupAt c.key (hash c.request) with
    | mk st answer =>
      cases answer with
      | ok e => simp [hno, hl, stepsOf, run_cons, step, hpc, hkey, hreq, setPc]
      | error err =>
        cases err with
        | conflict => simp [hno, hl, stepsOf, run_cons, step, hpc, hkey, hreq, setPc]
        | notFound =>
          cases hres : c.result <;>
            simp [hno, hl, hres, stepsOf, run_cons, step, hpc, hkey, hreq, setPc]

end RunSystem

/-! ## Histories -/

/-- The call `c₀` of the history `cs` executed `do` for the key `k`, which
succeeded with `r` and was saved. -/
def SavedBy (hash : List UInt8 → String) (ttl : Duration) (cs : List Invocation) (k : String)
    (c₀ : Invocation) (r : Response) : Prop :=
  k ≠ "" ∧ c₀.key = k ∧ c₀.result = .ok r ∧
    ∃ cs₁ cs₂, cs = cs₁ ++ c₀ :: cs₂ ∧
      (((MemoryStore.new ttl).after hash cs₁).run hash c₀).2.executed = true

/-- The clock does not go back from one `Lookup` to a later one, which is all
that is needed of a clock that never does. -/
def InOrder (cs : List Invocation) : Prop :=
  cs.Pairwise fun c c' => c.lookupAt ≤ c'.lookupAt

namespace MemoryStore

variable {hash : List UInt8 → String} {s : MemoryStore} {ttl : Duration}

@[simp] theorem after_nil : s.after hash [] = s := rfl

theorem after_cons (c : Invocation) (cs : List Invocation) :
    s.after hash (c :: cs) = (s.run hash c).1.after hash cs := rfl

theorem after_append (cs cs' : List Invocation) :
    s.after hash (cs ++ cs') = (s.after hash cs).after hash cs' := List.foldl_append ..

@[simp] theorem after_ttl (cs : List Invocation) : (s.after hash cs).ttl = s.ttl := by
  induction cs generalizing s with
  | nil => rfl
  | cons c cs ih => rw [after_cons, ih, run_ttl]

/-- **Persistence.** An entry is as it was after any calls whose `Lookup`
comes before its expiry. -/
theorem entries_after_of_live {k : String} {e : EntryWithTTL} {cs : List Invocation}
    (he : s.entries k = some e) (hlive : ∀ c ∈ cs, c.lookupAt < e.validUntil) :
    (s.after hash cs).entries k = some e := by
  induction cs generalizing s with
  | nil => exact he
  | cons c cs ih =>
    rw [after_cons]
    have hc : (s.run hash c).1.entries k = some e :=
      entries_run_of_live he fun _ => hlive c List.mem_cons_self
    exact ih hc fun c' hc' => hlive c' (List.mem_cons_of_mem c hc')

end MemoryStore

theorem SavedBy.append {hash : List UInt8 → String} {ttl : Duration} {cs : List Invocation}
    {k : String} {c₀ : Invocation} {r : Response} (h : SavedBy hash ttl cs k c₀ r)
    (cs' : List Invocation) : SavedBy hash ttl (cs ++ cs') k c₀ r := by
  obtain ⟨hk, hkey, hr, cs₁, cs₂, rfl, hexec⟩ := h
  exact ⟨hk, hkey, hr, cs₁, cs₂ ++ cs', by simp, hexec⟩

/-- **Provenance.** Every entry was saved by a call of the history. -/
theorem savedBy_of_entries {hash : List UInt8 → String} {ttl : Duration} {k : String}
    {e : EntryWithTTL} {cs : List Invocation}
    (he : ((MemoryStore.new ttl).after hash cs).entries k = some e) :
    ∃ c₀ r, SavedBy hash ttl cs k c₀ r ∧ e = MemoryStore.saved hash ttl c₀ r := by
  induction cs using List.reverseRecOn with
  | nil => simp [MemoryStore.new] at he
  | append_singleton cs c ih =>
    rw [MemoryStore.after_append] at he
    obtain hbefore | ⟨hkey, hk, hexec, r, hr, hsaved⟩ := MemoryStore.entries_run_eq_some he
    · obtain ⟨c₀, r, hc₀, heq⟩ := ih hbefore
      exact ⟨c₀, r, hc₀.append [c], heq⟩
    · rw [MemoryStore.after_ttl] at hsaved
      exact ⟨c, r, ⟨hk, hkey, hr, cs, [], rfl, hexec⟩, hsaved⟩

/-- What a call has saved is still there for a call before its expiry. -/
theorem SavedBy.entries {hash : List UInt8 → String} {ttl : Duration} {cs : List Invocation}
    {k : String} {c₀ c : Invocation} {r : Response} (h : SavedBy hash ttl cs k c₀ r)
    (hclock : InOrder (cs ++ [c])) (hlive : c.lookupAt < c₀.savedAt + ttl) :
    ((MemoryStore.new ttl).after hash cs).entries k = some (MemoryStore.saved hash ttl c₀ r) := by
  obtain ⟨hk, rfl, hr, cs₁, cs₂, rfl, hexec⟩ := h
  rw [MemoryStore.after_append, MemoryStore.after_cons]
  have hsaved := MemoryStore.entries_run_of_saves hk hexec hr
  rw [MemoryStore.after_ttl] at hsaved
  apply MemoryStore.entries_after_of_live hsaved
  intro c' hc'
  have hle : c'.lookupAt ≤ c.lookupAt := by
    refine (List.pairwise_append.mp hclock).2.2 c' ?_ c (List.mem_singleton_self c)
    simp [hc']
  exact Int.lt_of_le_of_lt hle hlive

/-- **The sequential contract.** Let `c` be a call after the history `cs`, and
`s` the store it finds. If an earlier call with its key was executed, with
success, and saved less than `ttl` ago, then `c` is answered with the response
of that call when the bodies are the same and with a conflict when they are
not, `do` is not executed and the store stays as it is; otherwise `do` is
executed. If `do` fails nothing is saved, and no call changes the entry of
another key than its own. -/
theorem run_contract {hash : List UInt8 → String} {ttl : Duration} {cs : List Invocation}
    {c : Invocation} (hclock : InOrder (cs ++ [c]))
    (hhash : Set.InjOn hash {b | ∃ c' ∈ cs ++ [c], c'.request = b}) :
    let s := (MemoryStore.new ttl).after hash cs
    (∀ c₀ r, SavedBy hash ttl cs c.key c₀ r → c.lookupAt < c₀.savedAt + ttl →
      (c.request = c₀.request →
        s.run hash c = (s, ⟨⟨r, hash c.request, c₀.storedAt⟩, true, none, false⟩)) ∧
      (c.request ≠ c₀.request →
        s.run hash c = (s, ⟨Entry.zero, false, some .conflict, false⟩))) ∧
    ((s.run hash c).2.executed = true ↔
      c.key = "" ∨ ∀ c₀ r, SavedBy hash ttl cs c.key c₀ r → c₀.savedAt + ttl ≤ c.lookupAt) ∧
    (∀ msg, c.result = .error msg →
      ∀ k e, (s.run hash c).1.entries k = some e → s.entries k = some e) ∧
    ∀ k, k ≠ c.key ∨ c.key = "" → (s.run hash c).1.entries k = s.entries k := by
  intro s
  refine ⟨?answered, ?executed, ?failed, fun k hk => MemoryStore.entries_run_of_ne hk⟩
  case answered =>
    intro c₀ r hsaved hlive
    have he := hsaved.entries hclock hlive
    constructor
    · intro hreq
      rw [MemoryStore.run_of_same hsaved.1 he hlive (congrArg hash hreq.symm)]
      simp [MemoryStore.saved, hreq, s]
    · intro hreq
      obtain ⟨hk, -, -, cs₁, cs₂, rfl, -⟩ := hsaved
      refine MemoryStore.run_of_other hk he hlive fun heq => hreq ?_
      exact (hhash ⟨c₀, by simp, rfl⟩ ⟨c, by simp, rfl⟩ heq).symm
  case executed =>
    by_cases hkey : c.key = ""
    · simp [MemoryStore.run_of_noKey hkey, hkey]
    rw [MemoryStore.executed_run_iff hkey, or_iff_right hkey]
    constructor
    · intro hmiss c₀ r hsaved
      by_contra hlive
      have hlive : c.lookupAt < c₀.savedAt + ttl := Int.not_le.mp hlive
      exact Int.not_le.mpr hlive (hmiss _ (hsaved.entries hclock hlive))
    · intro hall e he
      obtain ⟨c₀, r, hsaved, rfl⟩ := savedBy_of_entries he
      exact hall c₀ r hsaved
  case failed =>
    intro msg hmsg k e he
    obtain hbefore | ⟨-, -, -, r, hr, -⟩ := MemoryStore.entries_run_eq_some he
    · exact hbefore
    · simp [hmsg] at hr

/-- A call that creates a user, executed at the instant 0. -/
def firstCall : Invocation :=
  ⟨"key-1", [104, 105], .ok (RunSystem.created 1), 0, 0, 0, 0⟩

/-- A nanosecond before the minute is over the key is refused with another
body, and when it is over the call is executed. -/
theorem run_contract_minute :
    let hash := sampleHash
    let s := (MemoryStore.new Time.minute).after hash [firstCall]
    let other := { firstCall with request := [104, 111], lookupAt := Time.minute - 1 }
    s.run hash other = (s, ⟨Entry.zero, false, some .conflict, false⟩) ∧
    (s.run hash { other with lookupAt := Time.minute }).2.executed = true := by
  intro hash s other
  have hinj : ∀ c, c.request = [104, 111] →
      Set.InjOn hash {b | ∃ c' ∈ [firstCall] ++ [c], c'.request = b} := by
    rintro c hc _ ⟨b, hb, rfl⟩ _ ⟨b', hb', rfl⟩ heq
    simp only [List.cons_append, List.nil_append, List.mem_cons, List.not_mem_nil,
      or_false] at hb hb'
    obtain rfl | rfl := hb <;> obtain rfl | rfl := hb' <;> first | rfl | skip
    all_goals
      simp only [hc] at heq
      exact absurd heq (by decide)
  have hsaved : SavedBy hash Time.minute [firstCall] "key-1" firstCall (RunSystem.created 1) :=
    ⟨by decide, rfl, rfl, [], [], rfl, by decide⟩
  constructor
  · exact ((run_contract (by simp [InOrder, firstCall, other, Time.minute, Time.second])
      (hinj other rfl)).1 firstCall _ hsaved (by decide)).2 (by decide)
  · refine (run_contract (by simp [InOrder, firstCall, other, Time.minute, Time.second])
      (hinj _ rfl)).2.1.mpr (.inr ?_)
    rintro c₀ r ⟨-, -, -, cs₁, cs₂, hcs, -⟩
    have hc₀ : c₀ = firstCall := by
      have hmem : c₀ ∈ [firstCall] := by rw [hcs]; simp
      simpa using hmem
    subst hc₀
    decide

end GoRestApi.Idempotency
