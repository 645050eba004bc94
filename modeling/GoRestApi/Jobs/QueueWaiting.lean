/-
GoRestApi.Jobs.QueueWaiting — one call of `Dequeue` with nobody else at the
queue: when it answers, and with what.

`dequeueCall` is the whole loop. A pass that puts a delayed head back leaves
the caller in the `select` of the timer and the context; the list of wake-ups
says how each `select` ended and when. A pass tests one job only, the head,
and sleeps for the delay of that job, so what else is in the queue does not
matter: a ready job is returned at once exactly if it is the head
(`ready_served_at_once_iff`).
-/
import GoRestApi.Jobs.RegistryTheorems

namespace GoRestApi.Jobs

open Go Lts

/-- How the `select` of a sleeping `Dequeue` ends: the timer has fired, or the
context is done. -/
inductive Wake where
  | fires (now : Time)
  | cancelled (now : Time)
  deriving DecidableEq, Repr

namespace MemoryQueue

/-- The loop of `Dequeue`, with `now` the reading of the current pass. The
answer comes with the instant it is given at; `none` is a call that has not
returned yet, in `cond.Wait()` or in a `select`. A timer does not fire early. -/
def dequeueCall (q : MemoryQueue) (now : Time) :
    List Wake → Option (MemoryQueue × DequeueReply × Time)
  | [] =>
    match q.dequeue now with
    | .answers q' r => some (q', r, now)
    | .sleeps _ _ | .waits => none
  | wake :: wakes =>
    match q.dequeue now with
    | .answers q' r => some (q', r, now)
    | .sleeps q' wakeAt =>
      match wake with
      | .cancelled now' => some (q', .notOk, now')
      | .fires now' => if wakeAt ≤ now' then dequeueCall q' now' wakes else none
    | .waits => none

/-- The call answers in its first pass, at `now`, whatever comes after, with a
queued job that is ready then. -/
def ServesAtOnce (q : MemoryQueue) (now : Time) : Prop :=
  ∃ q' job, job ∈ q.items ∧ job.runAfter ≤ now ∧
    ∀ wakes, q.dequeueCall now wakes = some (q', .found job, now)

/-! ## One pass -/

theorem dequeueCall_of_answers {q q' : MemoryQueue} {now : Time} {r : DequeueReply}
    (h : q.dequeue now = .answers q' r) (wakes : List Wake) :
    q.dequeueCall now wakes = some (q', r, now) := by
  cases wakes <;> simp only [dequeueCall, h]

theorem dequeue_of_ready {q : MemoryQueue} {now : Time} {head : Job} {rest : List Job}
    (hopen : q.closed = false) (hitems : q.items = head :: rest) (h : head.runAfter ≤ now) :
    q.dequeue now = .answers { q with items := rest } (.found head) := by
  have hlate : ¬ head.runAfter > now := Int.not_lt.2 h
  simp only [dequeue, hopen, hitems, hlate, Bool.false_eq_true, ↓reduceIte]

theorem dequeue_of_delayed {q : MemoryQueue} {now : Time} {head : Job} {rest : List Job}
    (hopen : q.closed = false) (hitems : q.items = head :: rest) (h : now < head.runAfter) :
    q.dequeue now = .sleeps { q with items := rest ++ [head] } head.runAfter := by
  have hlate : head.runAfter > now := h
  simp only [dequeue, hopen, hitems, hlate, Bool.false_eq_true, ↓reduceIte]

/-- The call of a pass that has put the head back. -/
theorem dequeueCall_of_sleeps {q q' : MemoryQueue} {now wakeAt u : Time} {wakes : List Wake}
    {q'' : MemoryQueue} {job : Job} (h : q.dequeue now = .sleeps q' wakeAt)
    (hcall : q.dequeueCall now wakes = some (q'', .found job, u)) :
    ∃ now' rest, wakes = .fires now' :: rest ∧ wakeAt ≤ now' ∧
      q'.dequeueCall now' rest = some (q'', .found job, u) := by
  cases wakes with
  | nil => simp only [dequeueCall, h, reduceCtorEq] at hcall
  | cons wake rest =>
    cases wake with
    | cancelled now' =>
      simp only [dequeueCall, h, DequeueReply.notOk, DequeueReply.found, Option.some.injEq,
        Prod.mk.injEq, DequeueReply.mk.injEq, Bool.false_eq_true, false_and, and_false] at hcall
    | fires now' =>
      simp only [dequeueCall, h] at hcall
      split at hcall
      · exact ⟨now', rest, rfl, ‹_›, hcall⟩
      · cases hcall

/-- A pass sleeps only for a time that is still to come. -/
theorem lt_of_sleeps {q q' : MemoryQueue} {now wakeAt : Time}
    (h : q.dequeue now = .sleeps q' wakeAt) : now < wakeAt := by
  unfold dequeue at h
  split at h
  · cases h
  · split at h
    · cases h
    · split at h
      · cases h
        assumption
      · cases h

/-! ## The whole call -/

/-- A job is not returned before the first pass of the call. -/
theorem le_of_dequeueCall {wakes : List Wake} {q q' : MemoryQueue} {now u : Time} {job : Job}
    (h : q.dequeueCall now wakes = some (q', .found job, u)) : now ≤ u := by
  -- each further pass is at a wake-up, which is later than the pass before
  induction wakes generalizing q now with
  | nil =>
    cases hpass : q.dequeue now with
    | answers q₁ r =>
      rw [dequeueCall_of_answers hpass] at h
      cases h
      exact Int.le_refl _
    | sleeps q₁ wakeAt =>
      obtain ⟨_, _, hnil, -⟩ := dequeueCall_of_sleeps hpass h
      cases hnil
    | waits => simp only [dequeueCall, hpass, reduceCtorEq] at h
  | cons wake wakes ih =>
    cases hpass : q.dequeue now with
    | answers q₁ r =>
      rw [dequeueCall_of_answers hpass] at h
      cases h
      exact Int.le_refl _
    | sleeps q₁ wakeAt =>
      obtain ⟨now', rest, hcons, hfire, hcall⟩ := dequeueCall_of_sleeps hpass h
      cases hcons
      calc now ≤ wakeAt := Int.le_of_lt (lt_of_sleeps hpass)
        _ ≤ now' := hfire
        _ ≤ u := ih hcall
    | waits => simp only [dequeueCall, hpass, reduceCtorEq] at h

/-- With a delayed head the call returns no job before the delay of the head is
over. -/
theorem runAfter_le_of_delayed {q q' : MemoryQueue} {now u : Time} {head job : Job}
    {rest : List Job} {wakes : List Wake} (hopen : q.closed = false)
    (hitems : q.items = head :: rest) (hlate : now < head.runAfter)
    (h : q.dequeueCall now wakes = some (q', .found job, u)) : head.runAfter ≤ u := by
  obtain ⟨now', rest', -, hfire, hcall⟩ :=
    dequeueCall_of_sleeps (dequeue_of_delayed hopen hitems hlate) h
  exact Int.le_trans hfire (le_of_dequeueCall hcall)

theorem servesAtOnce_cons_iff {q : MemoryQueue} {now : Time} {head : Job} {rest : List Job}
    (hopen : q.closed = false) (hitems : q.items = head :: rest) :
    q.ServesAtOnce now ↔ head.runAfter ≤ now := by
  constructor
  · rintro ⟨q', job, -, -, hcall⟩
    by_contra hlate
    have hle := runAfter_le_of_delayed hopen hitems (Int.not_le.1 hlate) (hcall [])
    exact hlate hle
  · intro hready
    refine ⟨{ q with items := rest }, head, ?_, hready, ?_⟩
    · rw [hitems]
      exact List.mem_cons_self
    · exact dequeueCall_of_answers (dequeue_of_ready hopen hitems hready)

/-- **Ready jobs wait behind a delayed head.** In an open queue, that a ready
job makes the call answer at once with a ready job is true exactly if the head
is ready itself or no job is; with a delayed head nothing is returned before
its delay is over. -/
theorem ready_served_at_once_iff (q : MemoryQueue) (hopen : q.closed = false) (now : Time) :
    (((∃ job ∈ q.items, job.runAfter ≤ now) → q.ServesAtOnce now) ↔
      ∀ head ∈ q.items.head?,
        head.runAfter ≤ now ∨ ∀ job ∈ q.items, now < job.runAfter) ∧
    ∀ head ∈ q.items.head?, now < head.runAfter →
      ∀ wakes q' job u, q.dequeueCall now wakes = some (q', .found job, u) →
        head.runAfter ≤ u := by
  cases hitems : q.items with
  | nil => simp
  | cons head rest =>
    simp only [List.head?_cons, Option.mem_some_iff, forall_eq']
    refine ⟨?_, fun hlate wakes q' job u h => runAfter_le_of_delayed hopen hitems hlate h⟩
    rw [servesAtOnce_cons_iff hopen hitems]
    constructor
    · intro h
      by_cases hsome : ∃ job ∈ head :: rest, job.runAfter ≤ now
      · exact Or.inl (h hsome)
      · refine Or.inr fun job hjob => ?_
        by_contra hlate
        exact hsome ⟨job, hjob, Int.not_lt.1 hlate⟩
    · rintro (hready | hnone) ⟨job, hjob, hle⟩
      · exact hready
      · exact absurd (hnone job hjob) (Int.not_lt.2 hle)

/-- A job that may run in ten seconds, and behind it one that may run now. -/
def delayedFirst : MemoryQueue where
  items := [{ Job.zero with id := "retry", runAfter := 10 * Time.second },
    { Job.zero with id := "new", runAfter := 0 }]
  closed := false

theorem ready_served_at_once_delayedFirst :
    delayedFirst.closed = false ∧
      ∀ wakes q' job u, delayedFirst.dequeueCall 0 wakes = some (q', .found job, u) →
        10 * Time.second ≤ u := by
  refine ⟨rfl, ?_⟩
  exact (ready_served_at_once_iff delayedFirst rfl 0).2
    { Job.zero with id := "retry", runAfter := 10 * Time.second } rfl (by decide)

/-- The ready job is returned ten seconds late, though nobody else is at the
queue. -/
theorem ready_job_kept_waiting :
    (∃ job ∈ delayedFirst.items, job.runAfter ≤ 0) ∧ ¬ delayedFirst.ServesAtOnce 0 ∧
      (∃ q', delayedFirst.dequeueCall 0 [.fires (10 * Time.second)] =
        some (q', .found { Job.zero with id := "new", runAfter := 0 }, 10 * Time.second)) := by
  refine ⟨by decide, ?_, _, rfl⟩
  rw [servesAtOnce_cons_iff rfl rfl]
  decide

end MemoryQueue

/-! ## The call as steps of a worker -/

namespace MemJobs

variable {n : Nat}

/-- Where a worker goes with what `Dequeue` gave it. -/
def afterDequeue (r : DequeueReply) : MemWorker :=
  match Registry.onDequeue r with
  | some job => .got job
  | none => .returned

theorem step_dequeue_of_answers {s : MemJobs n} {w : Fin n} {now : Time} {q' : MemoryQueue}
    {r : DequeueReply} (hpc : s.pc w = .dequeuing) (h : s.queue.dequeue now = .answers q' r) :
    s.step (.dequeue w now) = some { s.setPc w (afterDequeue r) with queue := q' } := by
  simp only [step, hpc, h]
  rfl

theorem step_dequeue_of_sleeps {s : MemJobs n} {w : Fin n} {now wakeAt : Time}
    {q' : MemoryQueue} (hpc : s.pc w = .dequeuing) (h : s.queue.dequeue now = .sleeps q' wakeAt) :
    s.step (.dequeue w now) = some { s.setPc w (.inQueue wakeAt) with queue := q' } := by
  simp only [step, hpc, h]

theorem step_wake {s : MemJobs n} {w : Fin n} {now wakeAt : Time}
    (hpc : s.pc w = .inQueue wakeAt) (h : wakeAt ≤ now) :
    s.step (.wake w now) = some (s.setPc w .dequeuing) := by
  simp only [step, hpc, h, ↓reduceIte]

theorem step_wakeCancelled {s : MemJobs n} {w : Fin n} {wakeAt : Time}
    (hpc : s.pc w = .inQueue wakeAt) (h : s.cancelled = true) :
    s.step (.wakeCancelled w) = some (s.setPc w (afterDequeue .notOk)) := by
  simp only [step, hpc, h, ↓reduceIte]
  rfl

/-- A call that answers in its first pass is one step. -/
theorem alone_of_answers {wakes : List Wake} {s : MemJobs n} {w : Fin n} {now u : Time}
    {q₁ q' : MemoryQueue} {r₁ r : DequeueReply} (hpc : s.pc w = .dequeuing)
    (hpass : s.queue.dequeue now = .answers q₁ r₁)
    (h : s.queue.dequeueCall now wakes = some (q', r, u)) :
    ∃ as s', run step s as = some s' ∧ s'.queue = q' ∧ s'.pc w = afterDequeue r := by
  rw [MemoryQueue.dequeueCall_of_answers hpass, Option.some.injEq, Prod.mk.injEq,
    Prod.mk.injEq] at h
  obtain ⟨rfl, rfl, -⟩ := h
  refine ⟨[.dequeue w now], { s.setPc w (afterDequeue r₁) with queue := q₁ }, ?_, rfl,
    Function.update_self ..⟩
  rw [run_singleton, step_dequeue_of_answers hpc hpass]

/-- **Alone.** A worker inside `Dequeue`, with no step of another goroutine in
between, does what `dequeueCall` says. -/
theorem alone_dequeueCall {wakes : List Wake} {s : MemJobs n} {w : Fin n} {now u : Time}
    {q' : MemoryQueue} {r : DequeueReply} (hpc : s.pc w = .dequeuing)
    (hctx : ∀ now', .cancelled now' ∈ wakes → s.cancelled = true)
    (h : s.queue.dequeueCall now wakes = some (q', r, u)) :
    ∃ as s', run step s as = some s' ∧ s'.queue = q' ∧ s'.pc w = afterDequeue r := by
  induction wakes generalizing s now with
  | nil =>
    cases hpass : s.queue.dequeue now with
    | answers q₁ r₁ => exact alone_of_answers hpc hpass h
    | sleeps q₁ wakeAt => simp only [MemoryQueue.dequeueCall, hpass, reduceCtorEq] at h
    | waits => simp only [MemoryQueue.dequeueCall, hpass, reduceCtorEq] at h
  | cons wake wakes ih =>
    cases hpass : s.queue.dequeue now with
    | answers q₁ r₁ => exact alone_of_answers hpc hpass h
    | sleeps q₁ wakeAt =>
      -- the worker is in the `select`, and the wake-up says how it leaves it
      let s₁ : MemJobs n := { s.setPc w (.inQueue wakeAt) with queue := q₁ }
      have hsleep : s.step (.dequeue w now) = some s₁ := step_dequeue_of_sleeps hpc hpass
      have hin : s₁.pc w = .inQueue wakeAt := Function.update_self ..
      cases wake with
      | cancelled now' =>
        simp only [MemoryQueue.dequeueCall, hpass, Option.some.injEq, Prod.mk.injEq] at h
        obtain ⟨rfl, rfl, -⟩ := h
        have hcancel := step_wakeCancelled hin (hctx now' List.mem_cons_self)
        refine ⟨[.dequeue w now, .wakeCancelled w], s₁.setPc w (afterDequeue .notOk), ?_, rfl,
          Function.update_self ..⟩
        rw [run_cons_of_step hsleep, run_singleton, hcancel]
      | fires now' =>
        simp only [MemoryQueue.dequeueCall, hpass] at h
        split at h
        · rename_i hfire
          obtain ⟨as, s', hrun, hq, hpc'⟩ :=
            ih (s := s₁.setPc w .dequeuing) (Function.update_self ..)
            (fun now'' hmem => hctx now'' (List.mem_cons_of_mem _ hmem)) h
          refine ⟨.dequeue w now :: .wake w now' :: as, s', ?_, hq, hpc'⟩
          rw [run_cons_of_step hsleep, run_cons_of_step (step_wake hin hfire), hrun]
        · cases h
    | waits => simp only [MemoryQueue.dequeueCall, hpass, reduceCtorEq] at h

end MemJobs

end GoRestApi.Jobs
