/-
GoRestApi.Server.IdempotencyTheorems — what decides whether a request behind
`WithIdempotency` is executed, replayed or refused.

The store is asked for the key alone. So the fate of a request depends on the
requests with the same key, whoever sent them and to whichever of the two
routes (`step_sameOn`), and on no others. Requests of different subjects, or
to different routes, do not interfere exactly if no two of them have the same
key: `noninterfering_iff_apart`.
-/
import GoRestApi.Idempotency.Isolation
import GoRestApi.Server.Idempotency

namespace GoRestApi.Server.WithIdempotency

open Go Handler Idempotency Lts

variable {ι : Type} [DecidableEq ι]

namespace State

variable {hasStore : Bool} {hash : List UInt8 → String} {reqs : ι → Req} {k : String}
  {s s' t : State ι} {a : Act ι}

/-! ## What a step can do -/

@[simp] theorem setPc_runs (s : State ι) (i : ι) (p : Pc) : (s.setPc i p).runs = s.runs := rfl

/-- The cases of a step. -/
inductive Steps (hasStore : Bool) (hash : List UInt8 → String) (reqs : ι → Req) (s : State ι) :
    Act ι → State ι → Prop where
  | passedOn {i readable} : s.pc i = .arrived → (reqs i).key = "" ∨ ¬ hasStore →
      Steps hasStore hash reqs s (.enter i readable) (s.setPc i .passing)
  | unreadable {i readable} : s.pc i = .arrived →
      Steps hasStore hash reqs s (.enter i readable)
        (s.setPc i
          (.answered .unreadable (.error (.badRequest "could not read request body"))))
  | entered {i readable} : s.pc i = .arrived → (reqs i).key ≠ "" →
      Steps hasStore hash reqs s (.enter i readable) (s.setPc i (.running .new))
  | ran {a i rec rec' ra runs} : s.pc i = .running rec → a.actor = i → ra.actor = i →
      (rec' = rec ∨ ∃ result, ra = .execute i result) →
      s.runs.step hash (calls reqs) ra = some runs →
      Steps hasStore hash reqs s a { s.setPc i (.running rec') with runs := runs }
  | replied {i rec e replayed err} : s.pc i = .running rec →
      s.runs.pc i = .returned e replayed err →
      Steps hasStore hash reqs s (.reply i) (s.setPc i (afterRun rec e replayed err))
  | passed {i rec} : s.pc i = .passing →
      Steps hasStore hash reqs s (.pass i rec)
        (s.setPc i (.answered .executed
          (.response rec.response.status rec.header rec.response.body)))

theorem steps_of_runStep {ra : RunAct ι} {i : ι} {rec' : Recorder → Recorder}
    (ha : a.actor = i) (hra : ra.actor = i)
    (hrec : (∀ rec, rec' rec = rec) ∨ ∃ result, ra = .execute i result)
    (h : s.runStep hash reqs ra i rec' = some s') : Steps hasStore hash reqs s a s' := by
  unfold runStep at h
  split at h
  · rename_i rec hpc
    obtain ⟨runs, hruns, rfl⟩ := Option.map_eq_some_iff.mp h
    exact .ran hpc ha hra (hrec.imp (fun h => h rec) id) hruns
  · cases h

/-- **Inversion.** A step is one of the cases. -/
theorem steps_of_step (h : s.step hasStore hash reqs a = some s') :
    Steps hasStore hash reqs s a s' := by
  cases a with
  | enter i readable =>
    simp only [step] at h
    split at h
    · rename_i hpc
      split at h
      · cases h
        exact .passedOn hpc ‹_›
      · rename_i hpass
        split at h <;> cases h
        · exact .unreadable hpc
        · exact .entered hpc fun hkey => hpass (.inl hkey)
    · cases h
  | lookup i now => exact steps_of_runStep rfl rfl (.inl fun _ => rfl) h
  | execute i rec => exact steps_of_runStep rfl rfl (.inr ⟨_, rfl⟩) h
  | save i now now' => exact steps_of_runStep rfl rfl (.inl fun _ => rfl) h
  | finish i now => exact steps_of_runStep rfl rfl (.inl fun _ => rfl) h
  | reply i =>
    simp only [step] at h
    split at h
    · cases h
      exact .replied ‹_› ‹_›
    · cases h
  | pass i rec =>
    simp only [step] at h
    split at h
    · cases h
      exact .passed ‹_›
    · cases h

/-- A step moves no other request, and makes at most one step of `Run`. -/
theorem step_frame (h : s.step hasStore hash reqs a = some s') :
    (∀ j, j ≠ a.actor → s'.pc j = s.pc j ∧ s'.runs.pc j = s.runs.pc j) ∧
      (s'.runs = s.runs ∨ ∃ ra : RunAct ι, ra.actor = a.actor ∧
        s.runs.step hash (calls reqs) ra = some s'.runs) := by
  cases steps_of_step h with
  | passedOn | unreadable | entered | replied | passed =>
    exact ⟨fun j hj => ⟨Function.update_of_ne hj .., rfl⟩, .inl rfl⟩
  | ran _ ha hra _ hruns =>
    subst ha
    refine ⟨fun j hj => ⟨Function.update_of_ne hj .., ?_⟩, .inr ⟨_, hra, hruns⟩⟩
    exact RunSystem.step_pc_of_ne hruns (hra ▸ hj)

/-! ## The requests with one key -/

/-- The two states look the same to the requests with the key. -/
structure SameOn (reqs : ι → Req) (k : String) (s t : State ι) : Prop where
  pc : ∀ j, (reqs j).key = k → t.pc j = s.pc j
  runs : RunSystem.SameOn (calls reqs) k s.runs t.runs

theorem SameOn.setPc {s' t' : State ι} (h : SameOn reqs k s t) (i : ι) (p : Pc)
    (hs : s'.pc = (s.setPc i p).pc) (ht : t'.pc = (t.setPc i p).pc)
    (hruns : RunSystem.SameOn (calls reqs) k s'.runs t'.runs) : SameOn reqs k s' t' := by
  refine ⟨fun j hj => ?_, hruns⟩
  rw [hs, ht]
  exact update_agree h.pc i p j hj

theorem runStep_sameOn {ra : RunAct ι} {i : ι} {rec' : Recorder → Recorder}
    (h : SameOn reqs k s t) (hkey : (reqs i).key = k) (hra : ra.actor = i)
    (hstep : s.runStep hash reqs ra i rec' = some s') :
    ∃ t', t.runStep hash reqs ra i rec' = some t' ∧ SameOn reqs k s' t' := by
  simp only [runStep, h.pc i hkey] at hstep ⊢
  split at hstep
  · rename_i rec hpc
    obtain ⟨runs, hruns, rfl⟩ := Option.map_eq_some_iff.mp hstep
    obtain ⟨runs', hruns', hsame⟩ := RunSystem.step_sameOn h.runs (hra ▸ hkey) hruns
    rw [hruns']
    exact ⟨_, rfl, h.setPc i _ rfl rfl hsame⟩
  · cases hstep

/-- A step of a request with the key can be made in the other state as well. -/
theorem step_sameOn (h : SameOn reqs k s t) (hkey : (reqs a.actor).key = k)
    (hstep : s.step hasStore hash reqs a = some s') :
    ∃ t', t.step hasStore hash reqs a = some t' ∧ SameOn reqs k s' t' := by
  cases a with
  | enter i readable =>
    simp only [step, h.pc i hkey] at hstep ⊢
    split at hstep
    · by_cases hpass : (reqs i).key = "" ∨ ¬ hasStore = true
      · rw [if_pos hpass] at hstep ⊢
        cases hstep
        exact ⟨_, rfl, h.setPc i _ rfl rfl h.runs⟩
      · rw [if_neg hpass] at hstep ⊢
        cases readable <;> cases hstep <;> exact ⟨_, rfl, h.setPc i _ rfl rfl h.runs⟩
    · cases hstep
  | lookup i now => exact runStep_sameOn h hkey rfl hstep
  | execute i rec => exact runStep_sameOn h hkey rfl hstep
  | save i now now' => exact runStep_sameOn h hkey rfl hstep
  | finish i now => exact runStep_sameOn h hkey rfl hstep
  | reply i =>
    simp only [step, h.pc i hkey, h.runs.pc i hkey] at hstep ⊢
    split at hstep
    · cases hstep
      exact ⟨_, rfl, h.setPc i _ rfl rfl h.runs⟩
    · cases hstep
  | pass i rec =>
    simp only [step, h.pc i hkey] at hstep ⊢
    split at hstep
    · cases hstep
      exact ⟨_, rfl, h.setPc i _ rfl rfl h.runs⟩
    · cases hstep

/-- A step of a request with another key is not seen. -/
theorem step_sameOn_of_ne (h : SameOn reqs k s t) (hkey : (reqs a.actor).key ≠ k)
    (hstep : s.step hasStore hash reqs a = some s') : SameOn reqs k s' t := by
  obtain ⟨hothers, hruns⟩ := step_frame hstep
  refine ⟨fun j hj => ?_, ?_⟩
  · rw [h.pc j hj, (hothers j (by rintro rfl; exact hkey hj)).1]
  · rcases hruns with hsame | ⟨ra, hra, hruns⟩
    · rw [hsame]
      exact h.runs
    · exact RunSystem.step_sameOn_of_ne h.runs (hra ▸ hkey) hruns

/-- A run, seen by the requests with the key, is the run of these requests
alone. -/
theorem run_of_key {ttl : Duration} {as : List (Act ι)} (k : String)
    (hrun : run (step hasStore hash reqs) (init ttl) as = some s) :
    ∃ t, run (step hasStore hash reqs) (init ttl)
        (as.filter fun a => (reqs a.actor).key = k) = some t ∧ SameOn reqs k s t := by
  refine run_filter ?_ ?_ ⟨fun _ _ => rfl, fun _ _ => rfl, rfl, rfl⟩ hrun
  · intro s t a s' hkeep hsame hstep
    exact step_sameOn hsame (by simpa using hkeep) hstep
  · intro s t a s' hdrop hsame hstep
    exact step_sameOn_of_ne hsame (by simpa using hdrop) hstep

/-! ## What an answer goes back to -/

/-- Where a request with the key is, and where its call of `Run` is. Only a
request with a key gets to `Run`, and its recorder is empty until the handler
is executed. -/
def Fits (key : String) : Pc → CallPc → Prop
  | .arrived, p => p = .start
  | .passing, _ => True
  | .running rec, p =>
    key ≠ "" ∧ ((p = .start ∨ ∃ e err, p = .returned e true err) → rec = .new)
  | .answered .replayed sent, p =>
    key ≠ "" ∧ ∃ e, p = .returned e true none ∧ sent = respond .new e true
  | .answered .conflict _, p => key ≠ "" ∧ ∃ e b, p = .returned e b (some .conflict)
  | .answered _ _, _ => True

theorem fits_afterRun {key : String} {rec : Recorder} {e : Entry} {replayed : Bool}
    {err : Option RunError} (h : Fits key (.running rec) (.returned e replayed err)) :
    Fits key (afterRun rec e replayed err) (.returned e replayed err) := by
  obtain ⟨hkey, hrec⟩ := h
  cases err with
  | some err =>
    cases err with
    | conflict => exact ⟨hkey, e, replayed, rfl⟩
    | doFailed msg => trivial
  | none =>
    cases replayed with
    | true =>
      cases hrec (.inr ⟨e, none, rfl⟩)
      exact ⟨hkey, e, rfl, rfl⟩
    | false => trivial

theorem step_fits (s : State ι) (a : Act ι) (s' : State ι)
    (hs : ∀ i, Fits (reqs i).key (s.pc i) (s.runs.pc i))
    (hstep : s.step hasStore hash reqs a = some s') (i : ι) :
    Fits (reqs i).key (s'.pc i) (s'.runs.pc i) := by
  by_cases hi : i = a.actor
  · have hi' := hs i
    cases steps_of_step hstep with
    | passedOn | unreadable | passed =>
      subst hi
      rw [setPc_pc, Function.update_self]
      trivial
    | @entered j _ _ hkey =>
      have hij : i = j := hi
      subst hij
      rw [setPc_pc, Function.update_self]
      exact ⟨hkey, fun _ => rfl⟩
    | @replied j rec e replayed err hpc hret =>
      have hij : i = j := hi
      subst hij
      rw [hpc, hret] at hi'
      rw [setPc_pc, Function.update_self, setPc_runs, hret]
      exact fits_afterRun hi'
    | @ran _ j rec rec' ra runs hpc ha hra hrec hruns =>
      have hij : i = j := hi.trans ha
      subst hij
      subst hra
      rw [hpc] at hi'
      rw [setPc_pc, Function.update_self]
      refine ⟨hi'.1, fun hback => ?_⟩
      obtain ⟨hstart, now, hlookup⟩ := RunSystem.lookup_of_replayed hruns hback
      rcases hrec with rfl | ⟨result, hexec⟩
      · exact hi'.2 (.inl hstart)
      · exact absurd (hlookup.symm.trans hexec) (by simp)
  · obtain ⟨hpc, hruns⟩ := (step_frame hstep).1 i hi
    rw [hpc, hruns]
    exact hs i

theorem kept_of_run {ttl : Duration} {as : List (Act ι)}
    (hrun : run (step hasStore hash reqs) (init ttl) as = some s) :
    RunSystem.Traced hash (calls reqs) s.runs ∧
      ∀ i, Fits (reqs i).key (s.pc i) (s.runs.pc i) := by
  refine run_invariant (I := fun s => RunSystem.Traced hash (calls reqs) s.runs ∧
    ∀ i, Fits (reqs i).key (s.pc i) (s.runs.pc i)) ?_ ?_ hrun
  · rintro s a s' ⟨htraced, hfits⟩ hstep
    refine ⟨?_, step_fits s a s' hfits hstep⟩
    rcases (step_frame hstep).2 with hsame | ⟨ra, -, hruns⟩
    · rw [hsame]
      exact htraced
    · exact RunSystem.step_traced _ ra _ htraced hruns
  · refine ⟨⟨?_, ?_, ?_⟩, fun i => rfl⟩ <;> simp [init, RunSystem.init, MemoryStore.new]

/-! ## The steps of `Run` inside the middleware -/

section Around

variable {i : ι}

/-- The step is one of the call `i`, in which the handler, if it is executed,
writes `rec`. -/
def StepOf (i : ι) (rec : Recorder) : RunAct ι → Prop
  | .lookup j _ | .save j _ _ | .finish j _ => j = i
  | .execute j result => j = i ∧ result = .ok rec.response

/-- The step of the middleware around a step of `Run`. -/
def around (rec : Recorder) : RunAct ι → Act ι
  | .lookup i now => .lookup i now
  | .execute i _ => .execute i rec
  | .save i now now' => .save i now now'
  | .finish i now => .finish i now

/-- The recorder after a step of `Run`. -/
def recorded (rec : Recorder) (before : Recorder) : RunAct ι → Recorder
  | .execute _ _ => rec
  | _ => before

theorem step_around {s : State ι} {rec before : Recorder} {a : RunAct ι} {runs : RunSystem ι}
    (hpc : s.pc i = .running before) (ha : StepOf i rec a)
    (h : s.runs.step hash (calls reqs) a = some runs) :
    s.step true hash reqs (around rec a) =
      some { s.setPc i (.running (recorded rec before a)) with runs := runs } := by
  cases a with
  | lookup j now | save j now now' | finish j now =>
    cases ha
    simp [around, step, runStep, hpc, h, recorded]
  | execute j result =>
    obtain ⟨rfl, rfl⟩ := ha
    simp [around, step, runStep, hpc, h, recorded]

/-- The steps of `Run` inside the middleware. -/
theorem run_around {s : State ι} {rec before : Recorder} {as : List (RunAct ι)}
    {runs : RunSystem ι} (hpc : s.pc i = .running before) (has : ∀ a ∈ as, StepOf i rec a)
    (h : run (RunSystem.step hash (calls reqs)) s.runs as = some runs) :
    ∃ s', run (step true hash reqs) s (as.map (around rec)) = some s' ∧ s'.runs = runs ∧
      s'.pc i = .running (as.foldl (recorded rec) before) ∧ ∀ j, j ≠ i → s'.pc j = s.pc j := by
  induction as generalizing s before with
  | nil => cases h; exact ⟨s, rfl, rfl, hpc, fun _ _ => rfl⟩
  | cons a as ih =>
    obtain ⟨runs₁, ha, h⟩ := run_cons_eq_some.mp h
    have hstep : s.step true hash reqs (around rec a) = _ :=
      step_around hpc (has a List.mem_cons_self) ha
    obtain ⟨s', hrun, hruns, hpc', hothers⟩ := ih
      (s := { s.setPc i (.running (recorded rec before a)) with runs := runs₁ })
      (Function.update_self ..) (fun b hb => has b (List.mem_cons_of_mem a hb)) h
    refine ⟨s', run_cons_eq_some.mpr ⟨_, hstep, hrun⟩, hruns, hpc', fun j hj => ?_⟩
    exact (hothers j hj).trans (Function.update_of_ne hj ..)

end Around

end State

/-! ## Interference -/

/-- The step is one of a request with the key and to the endpoint of the
request `i`. -/
def Own (reqs : ι → Req) (i : ι) (a : Act ι) : Bool :=
  (reqs a.actor).key = (reqs i).key ∧ (reqs a.actor).endpoint = (reqs i).endpoint

/-- Requests to different endpoints do not interfere. What becomes of a
request is decided by the steps of the requests with its key to its endpoint;
a replayed response is one that was produced by the same endpoint for the
same key; and a key is refused only if it was used at the same endpoint with
another body. -/
structure Noninterfering (hash : List UInt8 → String) (ttl : Duration) (reqs : ι → Req) :
    Prop where
  own : ∀ as as' s s', run (State.step true hash reqs) (.init ttl) as = some s →
    run (State.step true hash reqs) (.init ttl) as' = some s' →
    ∀ i, (reqs i).key ≠ "" → as.filter (Own reqs i) = as'.filter (Own reqs i) →
      s.pc i = s'.pc i ∧ s.runs.pc i = s'.runs.pc i
  replayed : ∀ as s, run (State.step true hash reqs) (.init ttl) as = some s →
    ∀ i sent, s.pc i = .answered .replayed sent →
      ∃ j e, (reqs j).key = (reqs i).key ∧ (reqs j).endpoint = (reqs i).endpoint ∧
        s.runs.Produced j e.response ∧ sent = respond .new e true
  conflict : ∀ as s, run (State.step true hash reqs) (.init ttl) as = some s →
    ∀ i sent, s.pc i = .answered .conflict sent →
      ∃ j r, (reqs j).key = (reqs i).key ∧ (reqs j).endpoint = (reqs i).endpoint ∧
        s.runs.Produced j r ∧ (reqs j).body ≠ (reqs i).body

/-- No two requests to different endpoints have the same key. -/
def Apart (reqs : ι → Req) : Prop :=
  ∀ i j, (reqs i).key ≠ "" → (reqs j).key = (reqs i).key →
    (reqs j).endpoint = (reqs i).endpoint

variable {hash : List UInt8 → String} {ttl : Duration} {reqs : ι → Req}

/-- A request that is alone gets as far as saving its response. -/
theorem run_to_save {i : ι} (hkey : (reqs i).key ≠ "") (rec : Recorder) :
    ∃ s, run (State.step true hash reqs) (.init ttl)
        [.enter i true, .lookup i 0, .execute i rec, .save i 0 0] = some s ∧
      (∀ j, j ≠ i → s.pc j = .arrived ∧ s.runs.pc j = .start) ∧
      ∃ e, s.runs.store.entries (reqs i).key = some e ∧ e.validUntil = ttl := by
  -- the calls of `Run` after the lookup, which finds nothing, and after the execution
  let runs₁ : RunSystem ι := (RunSystem.init (.new ttl)).setPc i .executing
  let runs₂ : RunSystem ι := { runs₁.setPc i (.saving rec.response) with executed := [i] }
  have hlookup : (RunSystem.init (.new ttl)).step hash (calls reqs) (.lookup i 0) = some runs₁ := by
    simp [RunSystem.step, RunSystem.init, calls, hkey, MemoryStore.lookup, MemoryStore.new, runs₁,
      RunSystem.setPc]
  have hexecute : runs₁.step hash (calls reqs) (.execute i (.ok rec.response)) = some runs₂ := by
    simp [RunSystem.step, RunSystem.init, runs₁, runs₂, RunSystem.setPc]
  have hsave : runs₂.step hash (calls reqs) (.save i 0 0) =
      some { runs₂.setPc i (.finishing rec.response) with
        store := runs₂.store.save 0 0 (reqs i).key (hash (reqs i).body) rec.response } := by
    simp [RunSystem.step, runs₂, calls]
  have hrun : run (RunSystem.step hash (calls reqs)) (RunSystem.init (.new ttl))
      [.lookup i 0, .execute i (.ok rec.response), .save i 0 0] = some _ :=
    run_cons_eq_some.mpr ⟨_, hlookup, run_cons_eq_some.mpr ⟨_, hexecute,
      (run_singleton ..).trans hsave⟩⟩
  have henter : (State.init ttl).step true hash reqs (.enter i true) =
      some ((State.init ttl).setPc i (.running .new)) := by
    simp [State.step, State.init, hkey]
  have hsteps : ∀ a ∈ [RunAct.lookup i 0, .execute i (.ok rec.response), .save i 0 0],
      State.StepOf i rec a := by simp [State.StepOf]
  obtain ⟨s, hs, hruns, _, hothers⟩ := State.run_around
    (s := (State.init ttl).setPc i (.running .new)) (Function.update_self ..) hsteps hrun
  refine ⟨s, run_cons_eq_some.mpr ⟨_, henter, hs⟩, fun j hj => ⟨?_, ?_⟩, ?_⟩
  · rw [hothers j hj, State.setPc_pc, Function.update_of_ne hj]
    rfl
  · rw [hruns]
    simp [runs₁, runs₂, RunSystem.setPc, RunSystem.init, hj]
  · rw [hruns]
    simp [runs₁, runs₂, RunSystem.setPc, RunSystem.init, MemoryStore.save, MemoryStore.new, hkey]

/-- With a valid entry under its key a request is not executed. -/
theorem not_executed_of_live {s : State ι} {j : ι} {e : EntryWithTTL} {now : Time}
    (hkey : (reqs j).key ≠ "") (hpc : s.pc j = .arrived) (hcall : s.runs.pc j = .start)
    (he : s.runs.store.entries (reqs j).key = some e) (hlive : now < e.validUntil) :
    ∃ s', run (State.step true hash reqs) s [.enter j true, .lookup j now] = some s' ∧
      s'.runs.pc j ≠ .executing := by
  by_cases hhash : e.entry.requestHash = hash (reqs j).body
  · simp [run, State.step, State.runStep, State.setPc, RunSystem.step, RunSystem.setPc, calls, hpc,
      hcall, hkey, MemoryStore.lookup_of_same hkey he hlive hhash]
  · simp [run, State.step, State.runStep, State.setPc, RunSystem.step, RunSystem.setPc, calls, hpc,
      hcall, hkey, MemoryStore.lookup_of_other hkey he hlive hhash]

/-- A request that comes after one with the same key has been saved is not
executed, though it would have been executed alone. -/
theorem not_executed_after_save {i j : ι} (hij : i ≠ j) (hkey : (reqs i).key ≠ "")
    (hsame : (reqs j).key = (reqs i).key) (httl : 0 < ttl) (rec : Recorder) :
    (∃ s, run (State.step true hash reqs) (.init ttl)
      [.enter i true, .lookup i 0, .execute i rec, .save i 0 0, .enter j true, .lookup j 0] =
        some s ∧ s.runs.pc j ≠ .executing) ∧
    ∃ s, run (State.step true hash reqs) (.init ttl) [.enter j true, .lookup j 0] = some s ∧
      s.runs.pc j = .executing := by
  constructor
  · obtain ⟨s, hrun, hothers, e, he, hvalid⟩ :=
      @run_to_save ι _ hash ttl reqs i hkey rec
    obtain ⟨hpc, hcall⟩ := hothers j hij.symm
    obtain ⟨s', hrun', hafter⟩ := @not_executed_of_live ι _ hash reqs s j e 0 (hsame ▸ hkey) hpc
      hcall (hsame ▸ he) (hvalid ▸ httl)
    exact ⟨s', run_append_eq_some.mpr ⟨s, hrun, hrun'⟩, hafter⟩
  · simp [run, State.step, State.runStep, State.init, RunSystem.init, RunSystem.step,
      MemoryStore.new, MemoryStore.lookup, calls, State.setPc, RunSystem.setPc, hkey, hsame]

omit [DecidableEq ι] in
/-- When keys are apart, the steps of its own requests are those of the
requests with its key. -/
theorem filter_own (hapart : Apart reqs) {i : ι} (hkey : (reqs i).key ≠ "") (as : List (Act ι)) :
    as.filter (Own reqs i) = as.filter fun a => (reqs a.actor).key = (reqs i).key := by
  refine List.filter_congr fun a _ => ?_
  simp only [Own, decide_eq_decide, and_iff_left_iff_imp]
  exact hapart i a.actor hkey

/-- **Keys are shared.** Requests to different endpoints do not interfere in
any run exactly if no two of them have the same key. -/
theorem noninterfering_iff_apart (httl : 0 < ttl) :
    Noninterfering hash ttl reqs ↔ Apart reqs := by
  constructor
  · intro h i j hkey hsame
    by_contra hne
    have hij : i ≠ j := by rintro rfl; exact hne rfl
    obtain ⟨⟨s, hrun, hafter⟩, s', hrun', halone⟩ :=
      @not_executed_after_save ι _ hash ttl reqs i j hij hkey hsame httl .new
    refine hafter ?_
    rw [(h.own _ _ s s' hrun hrun' j (hsame ▸ hkey) ?_).2, halone]
    -- none of the steps of `i` is one of a request to the endpoint of `j`
    simp [Own, Act.actor, hsame, Ne.symm hne]
  · intro hapart
    constructor
    · intro as as' s s' hrun hrun' i hkey hfilter
      rw [filter_own hapart hkey, filter_own hapart hkey] at hfilter
      obtain ⟨t, ht, hsame⟩ := State.run_of_key (reqs i).key hrun
      obtain ⟨t', ht', hsame'⟩ := State.run_of_key (reqs i).key hrun'
      rw [hfilter, ht'] at ht
      cases ht
      exact ⟨(hsame.pc i rfl).symm.trans (hsame'.pc i rfl),
        (hsame.runs.pc i rfl).symm.trans (hsame'.runs.pc i rfl)⟩
    · intro as s hrun i sent hpc
      obtain ⟨htraced, hfits⟩ := State.kept_of_run hrun
      have hi := hfits i
      rw [hpc] at hi
      obtain ⟨hkey, e, hret, hsent⟩ := hi
      obtain ⟨j, hsame, hproduced, -⟩ := htraced.replayed i e none hret
      exact ⟨j, e, hsame, hapart i j hkey hsame, hproduced, hsent⟩
    · intro as s hrun i sent hpc
      obtain ⟨htraced, hfits⟩ := State.kept_of_run hrun
      have hi := hfits i
      rw [hpc] at hi
      obtain ⟨hkey, e, b, hret⟩ := hi
      obtain ⟨j, r, hsame, hproduced, hbody⟩ := htraced.conflict i e b hret
      exact ⟨j, r, hsame, hapart i j hkey hsame, hproduced, hbody⟩

/-- Two requests of one subject with one key, and a registration with
another: the second request is replayed and the registration is executed. -/
theorem noninterfering_two_keys :
    Noninterfering sampleHash 60 (sampleReqs (.users 1) "a" .register "b") ∧
    ∃ s, run (State.step true sampleHash (sampleReqs (.users 1) "a" .register "b")) (.init 60)
        (sampleRun ++ [.execute 2 sampleCreated, .save 2 3 3, .finish 2 3, .reply 2]) = some s ∧
      s.pc 1 = .answered .replayed (.response 201
        [("Content-Type", "application/json"), ("Idempotent-Replay", "true")] [7]) ∧
      s.pc 2 = .answered .executed (.response 201 [("Content-Type", "application/json")] [7]) := by
  refine ⟨(noninterfering_iff_apart (by decide)).mpr ?_, exists_run_of_any (by decide +kernel)⟩
  unfold Apart
  decide +kernel

/-- Another subject sends the same body with the same key and gets the response
of the first; a registration with that key and another body is refused. -/
theorem key_of_another_client :
    (∃ s, run (State.step true sampleHash (sampleReqs (.users 2) "k" .register "k")) (.init 60)
        (sampleRun ++ [.reply 2]) = some s ∧
      s.pc 1 = .answered .replayed (.response 201
        [("Content-Type", "application/json"), ("Idempotent-Replay", "true")] [7]) ∧
      s.pc 2 = .answered .conflict
        (.error (.conflict "idempotency key reused with a different request body"))) ∧
    ¬ Noninterfering sampleHash 60 (sampleReqs (.users 2) "k" .register "k") := by
  refine ⟨exists_run_of_any (by decide +kernel), fun h => ?_⟩
  have hends : ∃ s, run (State.step true sampleHash (sampleReqs (.users 2) "k" .register "k"))
        (.init 60) (sampleRun ++ [.reply 2]) = some s ∧
      s.pc 1 = .answered .replayed (.response 201
        [("Content-Type", "application/json"), ("Idempotent-Replay", "true")] [7]) ∧
      ∃ e ∈ [(⟨sampleCreated.response, sampleHash [1], 0⟩ : Entry)],
        s.runs.pc 1 = .returned e true none :=
    exists_run_of_any (by decide +kernel)
  obtain ⟨s, hrun, hpc, e, -, hruns⟩ := hends
  obtain ⟨j, e', -, hendpoint, hproduced, -⟩ := h.replayed _ s hrun 1 _ hpc
  -- only the request itself is to its endpoint, and it was not executed
  have hj : ∀ j, (sampleReqs (.users 2) "k" .register "k" j).endpoint = .users 2 → j = 1 := by
    decide +kernel
  cases hj j hendpoint
  simp [RunSystem.Produced, hruns] at hproduced

end GoRestApi.Server.WithIdempotency
