/-
GoRestApi.Jobs.RetrySpacing — how far apart the attempts of a job are, over
every run of the pool on the in-memory queue.

`TimedJobs` is the system of `GoRestApi.Jobs.Registry` with a clock: each
step has an instant, the instants do not decrease, and a step that reads the
clock reads that instant. Nothing else about the steps changes
(`run_jobs`, `exists_run`). Two copies of a job can be equal in every field,
so a copy is followed by its trail and not by its ID: the job as it was
accepted and the attempts that have failed since, each with its number and
its instant. The trails are kept beside the queue and the workers, and no
step of the system reads them.

The delay is enforced in three places: `Nack` sets `RunAfter` from the counter
that `runJob` has advanced, `Dequeue` hands out no job whose `RunAfter` is to
come, and the counter is advanced before the handler is looked up. `Kept` says
what each of them leaves behind.
-/
import GoRestApi.Jobs.Backoff
import GoRestApi.Jobs.RegistryTheorems
import Mathlib.Data.List.Forall2

namespace GoRestApi.Jobs

open Go Lts

/-! ## The timed system -/

/-- The past of one copy of a job. -/
structure Trail where
  /-- the job as `Enqueue` accepted it -/
  origin : Job
  /-- the attempts that failed, by their number and their instant -/
  fails : List (Int × Time)

/-- The start of an attempt: the job as the handler gets it. -/
structure Start where
  job : Job
  trail : Trail
  at_ : Time

def Trail.fail (t : Trail) (attempt : Int) (now : Time) : Trail :=
  { t with fails := t.fails ++ [(attempt, now)] }

/-- What the step reads on the clock, if it reads it, is `now`. -/
def MemAct.Reads {n : Nat} (now : Time) : MemAct n → Prop
  | .dequeue _ t | .wake _ t | .settle _ t => t = now
  | _ => True

instance {n : Nat} (now : Time) : (a : MemAct n) → Decidable (a.Reads now)
  | .dequeue _ t | .wake _ t | .settle _ t => inferInstanceAs (Decidable (t = now))
  | .enqueue _ | .register _ | .cancel | .close | .loopHead _ | .wakeCancelled _
  | .findHandler _ | .handled _ _ | .ack _ => isTrue trivial

structure TimedJobs (n : Nat) where
  jobs : MemJobs n
  clock : Time
  /-- the trails of the queued jobs, in the order of the queue -/
  queued : List Trail
  /-- the trail of the job a worker has, or had last -/
  held : Fin n → Trail
  started : List Start

namespace TimedJobs

variable {n : Nat}

def init (t₀ : Time) : TimedJobs n where
  jobs := .init
  clock := t₀
  queued := []
  held := fun _ => ⟨Job.zero, []⟩
  started := []

/-- How a step moves the trails. -/
def trace (s : TimedJobs n) : MemAct n → TimedJobs n
  | .enqueue job =>
    if s.jobs.queue.closed then s else { s with queued := s.queued ++ [⟨job, []⟩] }
  | .dequeue w now =>
    match s.jobs.queue.dequeue now, s.queued with
    | .sleeps _ _, t :: rest => { s with queued := rest ++ [t] }
    | .answers _ r, t :: rest =>
      if r.ok then { s with queued := rest, held := Function.update s.held w t } else s
    | _, _ => s
  | .findHandler w =>
    match s.jobs.pc w with
    | .got job =>
      let start : Start := ⟨job.attempt, s.held w, s.clock⟩
      if job.type ∈ s.jobs.handlers then { s with started := s.started ++ [start] }
      else
        { s with
          started := s.started ++ [start]
          held := Function.update s.held w ((s.held w).fail (job.attempts + 1) s.clock) }
    | _ => s
  | .handled w (some _) =>
    match s.jobs.pc w with
    | .handling job =>
      { s with held := Function.update s.held w ((s.held w).fail job.attempts s.clock) }
    | _ => s
  | .settle w _ =>
    match s.jobs.pc w with
    | .failing job _ =>
      if job.GivenUp ∨ s.jobs.queue.closed then s
      else { s with queued := s.queued ++ [s.held w] }
    | _ => s
  | _ => s

/-- A step of the pool at an instant. -/
def step (s : TimedJobs n) : MemAct n × Time → Option (TimedJobs n)
  | (a, now) =>
    if s.clock ≤ now ∧ a.Reads now then
      (s.jobs.step a).map fun jobs =>
        { ({ s with clock := now } : TimedJobs n).trace a with jobs, clock := now }
    else none

theorem step_eq_some {s s' : TimedJobs n} {a : MemAct n} {now : Time} :
    s.step (a, now) = some s' ↔ s.clock ≤ now ∧ a.Reads now ∧ ∃ jobs, s.jobs.step a = some jobs ∧
      { ({ s with clock := now } : TimedJobs n).trace a with jobs, clock := now } = s' := by
  simp only [step]
  split
  · rename_i h
    simp only [Option.map_eq_some_iff, h.1, h.2, true_and]
  · rename_i h
    constructor
    · intro h'
      cases h'
    · rintro ⟨hle, hreads, -⟩
      exact absurd ⟨hle, hreads⟩ h

/-- The trails aside, a timed run is a run of the pool. -/
theorem run_jobs {as : List (MemAct n × Time)} {s t : TimedJobs n}
    (h : run step s as = some t) : run MemJobs.step s.jobs (as.map Prod.fst) = some t.jobs := by
  induction as generalizing s with
  | nil =>
    cases h
    rfl
  | cons a as ih =>
    obtain ⟨s', hstep, hrun⟩ := run_cons_eq_some.1 h
    obtain ⟨-, -, jobs, hjobs, rfl⟩ := step_eq_some.1 hstep
    exact run_cons_eq_some.2 ⟨jobs, hjobs, ih hrun⟩

/-- The instants of the steps do not decrease, and are what the steps read. -/
def Clocked : Time → List (MemAct n × Time) → Prop
  | _, [] => True
  | now, (a, now') :: as => now ≤ now' ∧ a.Reads now' ∧ Clocked now' as

/-- Every run of the pool with such instants is a timed run. -/
theorem exists_run {as : List (MemAct n × Time)} {s : TimedJobs n} {jobs : MemJobs n}
    (hclock : Clocked s.clock as) (h : run MemJobs.step s.jobs (as.map Prod.fst) = some jobs) :
    ∃ t, run step s as = some t ∧ t.jobs = jobs := by
  induction as generalizing s with
  | nil =>
    cases h
    exact ⟨s, rfl, rfl⟩
  | cons x as ih =>
    obtain ⟨a, now⟩ := x
    obtain ⟨hle, hreads, hclock⟩ := hclock
    obtain ⟨jobs', hstep, hrun⟩ := run_cons_eq_some.1 h
    have hs' := step_eq_some.2 ⟨hle, hreads, jobs', hstep, rfl⟩
    obtain ⟨t, ht, hjobs⟩ := ih (s := { ({ s with clock := now } : TimedJobs n).trace a with
      jobs := jobs', clock := now }) hclock hrun
    exact ⟨t, run_cons_eq_some.2 ⟨_, hs', ht⟩, hjobs⟩

end TimedJobs

/-! ## What the trails say -/

/-- The trail is the past of a job whose counter stands at `attempts`: the
failed attempts are numbered from the counter of the accepted job on. -/
structure Trail.Fits (accepted : List Job) (clock : Time) (t : Trail) (attempts : Int) :
    Prop where
  accepted : t.origin ∈ accepted
  numbered : t.fails.map Prod.fst =
    (List.range t.fails.length).map fun i : Nat => t.origin.attempts + 1 + i
  count : attempts = t.origin.attempts + t.fails.length
  past : ∀ x ∈ t.fails, x.2 ≤ clock

/-- The job is not to run before the delay after its last failure is over. -/
def Trail.Due (t : Trail) (job : Job) : Prop :=
  ∀ τ, (job.attempts, τ) ∈ t.fails → τ + backoff job.attempts ≤ job.runAfter

/-- What `Kept` says of an attempt that was started. -/
structure Start.Spaced (accepted : List Job) (x : Start) : Prop where
  fits : x.trail.Fits accepted x.at_ (x.job.attempts - 1)
  ready : x.job.runAfter ≤ x.at_
  spaced : ∀ k τ, (k, τ) ∈ x.trail.fails → x.job.attempts = k + 1 → τ + backoff k ≤ x.at_

/-- A worker's job and the trail it holds. -/
def Trail.Held (accepted : List Job) (clock : Time) (t : Trail) : MemWorker → Prop
  | .got job => t.Fits accepted clock job.attempts ∧ t.Due job ∧ job.runAfter ≤ clock
  | .handling job => t.Fits accepted clock (job.attempts - 1)
  | .failing job _ => t.Fits accepted clock job.attempts
  | .top | .dequeuing | .inQueue _ | .succeeded _ | .returned => True

section

variable {accepted accepted' : List Job} {clock clock' : Time} {t : Trail}

theorem Trail.Fits.mono {attempts : Int} (h : t.Fits accepted clock attempts)
    (hacc : accepted ⊆ accepted') (hclock : clock ≤ clock') :
    t.Fits accepted' clock' attempts where
  accepted := hacc h.accepted
  numbered := h.numbered
  count := h.count
  past := fun x hx => Int.le_trans (h.past x hx) hclock

theorem Trail.Fits.new {job : Job} (h : job ∈ accepted) :
    Trail.Fits accepted clock ⟨job, []⟩ job.attempts where
  accepted := h
  numbered := rfl
  count := by simp
  past := by simp

/-- The next attempt fails, now. -/
theorem Trail.Fits.fail {attempts : Int} (h : t.Fits accepted clock (attempts - 1)) :
    (t.fail attempts clock).Fits accepted clock attempts where
  accepted := h.accepted
  numbered := by
    have hcount := h.count
    simp only [Trail.fail, List.map_append, h.numbered, List.length_append, List.length_singleton,
      List.range_succ, List.map_cons, List.map_nil]
    congr 2
    omega
  count := by
    have hcount := h.count
    simp only [Trail.fail, List.length_append, List.length_singleton]
    omega
  past := by
    intro x hx
    simp only [Trail.fail, List.mem_append, List.mem_singleton] at hx
    rcases hx with hx | rfl
    · exact h.past x hx
    · exact Int.le_refl _

theorem Trail.Held.mono {p : MemWorker} (h : t.Held accepted clock p)
    (hacc : accepted ⊆ accepted') (hclock : clock ≤ clock') : t.Held accepted' clock' p := by
  cases p with
  | got job => exact ⟨h.1.mono hacc hclock, h.2.1, Int.le_trans h.2.2 hclock⟩
  | handling job => exact Trail.Fits.mono h hacc hclock
  | failing job err => exact Trail.Fits.mono h hacc hclock
  | top | dequeuing | inQueue _ | succeeded _ | returned => trivial

/-- The counter is advanced before the handler runs. -/
theorem Trail.Held.handling {job : Job} (h : t.Held accepted clock (.got job)) :
    t.Held accepted clock (.handling job.attempt) := by
  have hfits : t.Fits accepted clock job.attempts := h.1
  simpa [Trail.Held, Job.attempt] using hfits

theorem Start.Spaced.mono {x : Start} (h : x.Spaced accepted) (hacc : accepted ⊆ accepted') :
    x.Spaced accepted' where
  fits := h.fits.mono hacc (Int.le_refl _)
  ready := h.ready
  spaced := h.spaced

/-- The attempt a worker starts with the job it was given. -/
theorem Start.Spaced.of_got {job : Job} (h : t.Held accepted clock (.got job)) :
    Start.Spaced accepted ⟨job.attempt, t, clock⟩ := by
  obtain ⟨hfits, hdue, hready⟩ := h
  refine ⟨?_, hready, ?_⟩
  · simpa [Job.attempt] using hfits
  · intro k τ hmem hk
    have hk' : job.attempts = k := by simpa [Job.attempt] using hk
    subst hk'
    exact Int.le_trans (hdue τ hmem) hready

end

namespace TimedJobs

variable {n : Nat}

/-- The trails are those of the jobs they lie beside, and every attempt so far
was started in time. -/
structure Kept (s : TimedJobs n) : Prop where
  queue : List.Forall₂
    (fun job t => t.Fits s.jobs.accepted s.clock job.attempts ∧ t.Due job)
    s.jobs.queue.items s.queued
  hands : ∀ w, (s.held w).Held s.jobs.accepted s.clock (s.jobs.pc w)
  tried : s.jobs.tried = s.started.map fun x => (x.job.id, x.job.attempts)
  starts : ∀ x ∈ s.started, x.Spaced s.jobs.accepted

theorem init_kept (t₀ : Time) : (init t₀ : TimedJobs n).Kept where
  queue := .nil
  hands := fun _ => trivial
  tried := rfl
  starts := fun _ h => absurd h List.not_mem_nil

/-- Time passes. -/
theorem Kept.tick {s : TimedJobs n} (hs : s.Kept) {now : Time} (h : s.clock ≤ now) :
    Kept { s with clock := now } where
  queue := hs.queue.imp fun _ _ hfit => ⟨hfit.1.mono (List.Subset.refl _) h, hfit.2⟩
  hands := fun w => (hs.hands w).mono (List.Subset.refl _) h
  tried := hs.tried
  starts := hs.starts

/-- A worker moves and its trail is replaced. -/
theorem Kept.hands_update {s : TimedJobs n} (hs : s.Kept) {w : Fin n} {p : MemWorker} {t : Trail}
    (hp : t.Held s.jobs.accepted s.clock p) (w' : Fin n) :
    (Function.update s.held w t w').Held s.jobs.accepted s.clock ((s.jobs.setPc w p).pc w') := by
  by_cases h : w' = w
  · subst h
    rwa [Function.update_self, MemJobs.setPc_pc, Function.update_self]
  · rw [Function.update_of_ne h, MemJobs.setPc_pc, Function.update_of_ne h]
    exact hs.hands w'

/-- A worker moves and keeps its trail. -/
theorem Kept.hands_setPc {s : TimedJobs n} (hs : s.Kept) {w : Fin n} {p : MemWorker}
    (hp : (s.held w).Held s.jobs.accepted s.clock p) (w' : Fin n) :
    (s.held w').Held s.jobs.accepted s.clock ((s.jobs.setPc w p).pc w') := by
  have h := hs.hands_update (w := w) hp w'
  rwa [Function.update_eq_self] at h

theorem Kept.tried_append {s : TimedJobs n} (hs : s.Kept) (job : Job) (t : Trail) (now : Time) :
    s.jobs.tried ++ [(job.id, job.attempts + 1)] =
      (s.started ++ [Start.mk job.attempt t now]).map fun x => (x.job.id, x.job.attempts) := by
  rw [hs.tried, List.map_append]
  rfl

theorem Kept.starts_append {s : TimedJobs n} (hs : s.Kept) {job : Job} {t : Trail}
    (hgot : t.Held s.jobs.accepted s.clock (.got job)) :
    ∀ x ∈ s.started ++ [⟨job.attempt, t, s.clock⟩], x.Spaced s.jobs.accepted := by
  intro x hx
  rcases List.mem_append.1 hx with hx | hx
  · exact hs.starts x hx
  · cases List.mem_singleton.1 hx
    exact .of_got hgot

/-- The trail of the first job in the queue. -/
theorem Kept.queue_cons {s : TimedJobs n} (hs : s.Kept) {job : Job} {rest : List Job}
    (hq : s.jobs.queue.items = job :: rest) :
    ∃ t rest', (t.Fits s.jobs.accepted s.clock job.attempts ∧ t.Due job) ∧
      List.Forall₂ (fun job t => t.Fits s.jobs.accepted s.clock job.attempts ∧ t.Due job)
        rest rest' ∧ s.queued = t :: rest' := by
  have hqueue := hs.queue
  rw [hq] at hqueue
  exact List.forall₂_cons_left_iff.1 hqueue

/-- One step, at the instant the clock shows. -/
theorem Kept.trace {s : TimedJobs n} {a : MemAct n} {jobs : MemJobs n} (hs : s.Kept)
    (hreads : a.Reads s.clock) (h : MemJobs.Steps s.jobs a jobs) :
    Kept { s.trace a with jobs, clock := s.clock } := by
  cases h with
  | refused hc =>
    simp only [TimedJobs.trace, hc, ↓reduceIte]
    exact hs
  | @enqueued job hc =>
    simp only [TimedJobs.trace, hc, Bool.false_eq_true, ↓reduceIte]
    have hsub : s.jobs.accepted ⊆ s.jobs.accepted ++ [job] := List.subset_append_left ..
    have hle := Int.le_refl s.clock
    refine ⟨?_, fun w => (hs.hands w).mono hsub hle, hs.tried,
      fun x hx => (hs.starts x hx).mono hsub⟩
    refine List.rel_append (hs.queue.imp fun _ _ hfit => ⟨hfit.1.mono hsub hle, hfit.2⟩) ?_
    refine .cons ⟨.new (by simp), ?_⟩ .nil
    intro τ hmem
    cases hmem
  | register | cancel | close => exact ⟨hs.queue, hs.hands, hs.tried, hs.starts⟩
  | headCancelled | headGoes | woken | wokenCancelled | succeeded | acked =>
    exact ⟨hs.queue, hs.hands_setPc trivial, hs.tried, hs.starts⟩
  | dequeueClosed hpc hc =>
    have htrace : ∀ w, s.trace (.dequeue w s.clock) = s := by
      intro w
      cases hq : s.queued <;>
        simp [TimedJobs.trace, MemoryQueue.dequeue, hc, hq, DequeueReply.notOk]
    cases hreads
    rw [htrace]
    exact ⟨hs.queue, hs.hands_setPc trivial, hs.tried, hs.starts⟩
  | @putBack w now job rest hpc hc hq hlate =>
    cases hreads
    obtain ⟨t, rest', hhead, hrest, hq'⟩ := hs.queue_cons hq
    simp only [TimedJobs.trace, MemoryQueue.dequeue, hc, hq, hlate, hq', Bool.false_eq_true,
      ↓reduceIte]
    exact ⟨List.rel_append hrest (.cons hhead .nil), hs.hands_setPc trivial, hs.tried, hs.starts⟩
  | @popped w now job rest hpc hc hq hlate =>
    cases hreads
    obtain ⟨t, rest', hhead, hrest, hq'⟩ := hs.queue_cons hq
    simp only [TimedJobs.trace, MemoryQueue.dequeue, hc, hq, hlate, hq', Bool.false_eq_true,
      DequeueReply.found, ↓reduceIte]
    refine ⟨hrest, hs.hands_update ⟨hhead.1, hhead.2, Int.not_lt.1 hlate⟩, hs.tried, hs.starts⟩
  | @handlerFound w job hpc hmem =>
    have hgot := hs.hands w
    rw [hpc] at hgot
    simp only [TimedJobs.trace, hpc, hmem, ↓reduceIte]
    refine ⟨hs.queue, hs.hands_setPc ?_, hs.tried_append _ _ _, hs.starts_append hgot⟩
    exact hgot.handling
  | @handlerMissing w job hpc hmem =>
    have hgot := hs.hands w
    rw [hpc] at hgot
    simp only [TimedJobs.trace, hpc, hmem, ↓reduceIte]
    refine ⟨hs.queue, hs.hands_update ?_, hs.tried_append _ _ _, hs.starts_append hgot⟩
    exact Trail.Fits.fail hgot.handling
  | @failed w job err hpc =>
    have hhand := hs.hands w
    rw [hpc] at hhand
    simp only [TimedJobs.trace, hpc]
    exact ⟨hs.queue, hs.hands_update (Trail.Fits.fail hhand), hs.tried, hs.starts⟩
  | @givenUp w now job err hpc hup =>
    simp only [TimedJobs.trace, hpc, hup, true_or, ↓reduceIte]
    exact ⟨hs.queue, hs.hands_setPc trivial, hs.tried, hs.starts⟩
  | @requeued w now job err hpc hup hc =>
    cases hreads
    have hfits := hs.hands w
    rw [hpc] at hfits
    simp only [TimedJobs.trace, hpc, hup, hc, Bool.false_eq_true, or_self, ↓reduceIte]
    refine ⟨List.rel_append hs.queue (.cons ⟨hfits, ?_⟩ .nil), hs.hands_setPc trivial, hs.tried,
      hs.starts⟩
    -- the delay is counted from `Nack`, which is not before the failure
    intro τ hmem
    exact Int.add_le_add_right (hfits.past _ hmem) _
  | @nackRefused w now job err hpc hup hc =>
    simp only [TimedJobs.trace, hpc, hc, or_true, ↓reduceIte]
    exact ⟨hs.queue, hs.hands_setPc trivial, hs.tried, hs.starts⟩

theorem step_kept (s : TimedJobs n) (x : MemAct n × Time) (s' : TimedJobs n) (hs : s.Kept)
    (h : s.step x = some s') : s'.Kept := by
  obtain ⟨a, now⟩ := x
  obtain ⟨hle, hreads, jobs, hstep, rfl⟩ := step_eq_some.1 h
  exact (hs.tick hle).trace hreads (MemJobs.steps_of_step hstep)

/-! ## The attempts of a run -/

/-- **Retry spacing.** In every run of the pool, with any number of workers and
jobs and a clock that does not go back, each attempt starts when its job may
run. The failed attempts behind it bear all the numbers from the counter of
the accepted job to the one before its own, and the last of them lies back
the delay for its number. -/
theorem retries_spaced {t₀ : Time} {as : List (MemAct n × Time)} {s : TimedJobs n}
    (hrun : run step (init t₀) as = some s) :
    s.jobs.tried = s.started.map (fun x => (x.job.id, x.job.attempts)) ∧
    ∀ x ∈ s.started,
      x.trail.origin ∈ s.jobs.accepted ∧ x.job.runAfter ≤ x.at_ ∧
      x.job.attempts = x.trail.origin.attempts + x.trail.fails.length + 1 ∧
      x.trail.fails.map Prod.fst =
        (List.range x.trail.fails.length).map (fun i : Nat => x.trail.origin.attempts + 1 + i) ∧
      ∀ k τ, 1 ≤ k → x.job.attempts = k + 1 → (k, τ) ∈ x.trail.fails →
        τ + min (2 ^ (k - 1).toNat) 60 * Time.second ≤ x.at_ := by
  have hkept : s.Kept := run_invariant step_kept (init_kept t₀) hrun
  refine ⟨hkept.tried, fun x hx => ?_⟩
  have hx' := hkept.starts x hx
  refine ⟨hx'.fits.accepted, hx'.ready, ?_, hx'.fits.numbered, ?_⟩
  · have hcount := hx'.fits.count
    omega
  · intro k τ _ hk hmem
    have hspaced := hx'.spaced k τ hmem hk
    rwa [backoff_eq] at hspaced

/-- One worker and no handler: the job is put back, and the worker sleeps until
it may run again. -/
def noHandlerRun : List (MemAct 1 × Time) :=
  [(.enqueue { Job.zero with id := "1", maxRetries := 2 }, 0), (.loopHead 0, 0),
    (.dequeue 0 0, 0), (.findHandler 0, 0), (.settle 0 0, 0), (.loopHead 0, 0),
    (.dequeue 0 0, 0), (.wake 0 Time.second, Time.second),
    (.dequeue 0 Time.second, Time.second), (.findHandler 0, Time.second)]

theorem retries_spaced_noHandler :
    ∃ s, run step (init 0) noHandlerRun = some s ∧
      s.started.map (fun x => (x.job.attempts, x.trail.fails, x.at_)) =
        [(1, [], 0), (2, [(1, 0)], Time.second)] ∧
      ∀ x ∈ s.started, x.job.runAfter ≤ x.at_ := by
  have h : ∃ s, run step (init 0) noHandlerRun = some s ∧
      s.started.map (fun x => (x.job.attempts, x.trail.fails, x.at_)) =
        [(1, [], 0), (2, [(1, 0)], Time.second)] := exists_run_of_any (by decide +kernel)
  obtain ⟨s, hrun, hstarted⟩ := h
  exact ⟨s, hrun, hstarted, fun x hx => ((retries_spaced hrun).2 x hx).2.1⟩

end TimedJobs

end GoRestApi.Jobs
