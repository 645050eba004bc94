/-
GoRestApi.Jobs.Shutdown — how the worker pool over the in-memory queue comes
to its end: `Stop` of `internal/jobs/registry.go`, as `cmd/api/main.go` calls
it.

`main` cancels the context of the workers and calls `Stop`, which closes the
queue and waits until every worker has returned. A worker that has a job at
that time runs it to its end, with a context that is cancelled; if the attempt
fails, `Nack` finds the queue closed, and `runJob` logs the error and goes on
without the job. `Stopping` keeps those jobs in a list, `dropped`, which no
step reads.

For the books a dropped job is one that waits: it is put back, but into a
queue that nobody takes from. So each step is a step of the ledger whether the
queue is open or not (`step_ledger`), and the accounting goes through the end
of the pool (`shutdown_accounted`). `stop_returns` is about the waiting.

A handler that does not return keeps `Stop` waiting; `handled` is its return,
and can be performed whenever a worker is in its handler.
-/
import GoRestApi.Jobs.RegistryTheorems
import Mathlib.Algebra.Order.BigOperators.Group.Finset

namespace GoRestApi.Jobs

open Go Lts Retry

/-- The pool, and the jobs that a closed queue has refused to take back. -/
structure Stopping (n : Nat) where
  pool : MemJobs n
  dropped : List Job

namespace Stopping

variable {n : Nat}

def init : Stopping n := ⟨.init, []⟩

/-- The job that `runJob` loses in a step: its `Nack` returns an error. -/
def refusedBy (s : MemJobs n) : MemAct n → List Job
  | .settle w now =>
    match s.pc w with
    | .failing job err =>
      if job.GivenUp then []
      else
        match (s.queue.nack now job err).2 with
        | some _ => [job]
        | none => []
    | _ => []
  | _ => []

def step (s : Stopping n) (a : MemAct n) : Option (Stopping n) :=
  (s.pool.step a).map fun pool => ⟨pool, s.dropped ++ refusedBy s.pool a⟩

theorem step_eq_some {s s' : Stopping n} {a : MemAct n} :
    s.step a = some s' ↔
      s.pool.step a = some s'.pool ∧ s'.dropped = s.dropped ++ refusedBy s.pool a := by
  obtain ⟨pool, dropped⟩ := s'
  simp only [step, Option.map_eq_some_iff, mk.injEq]
  constructor
  · rintro ⟨p, hp, rfl, rfl⟩
    exact ⟨hp, rfl⟩
  · rintro ⟨hp, rfl⟩
    exact ⟨pool, hp, rfl, rfl⟩

/-! ## The books -/

/-- What is lost in a step, by what the step has tested. -/
theorem refusedBy_of_steps {s s' : MemJobs n} {a : MemAct n} (h : MemJobs.Steps s a s') :
    refusedBy s a = [] ∨ ∃ w job err, s.pc w = .failing job err ∧ ¬ job.GivenUp ∧
      s' = s.setPc w .top ∧ refusedBy s a = [job] := by
  cases h with
  | @nackRefused w now job err hpc hup hc =>
    have hup' : ¬ job.attempts > job.maxRetries := hup
    exact .inr ⟨w, job, err, hpc, hup, rfl,
      by simp [refusedBy, hpc, hup, hup', MemoryQueue.nack, hc]⟩
  | @requeued w now job err hpc hup hc =>
    have hup' : ¬ job.attempts > job.maxRetries := hup
    exact .inl (by simp [refusedBy, hpc, hup, hup', MemoryQueue.nack, hc])
  | givenUp hpc hup => exact .inl (by simp [refusedBy, hpc, hup])
  | _ => exact .inl rfl

/-- The ledger of the pool, with the dropped jobs among those that wait. -/
def ledger (s : Stopping n) : Ledger String :=
  { s.pool.ledger with
    items := s.pool.ledger.items + (s.dropped.map fun j => (Stage.queued, j.item)) }

/-- The pool with its queue open. The ledger does not see the difference. -/
def reopened (s : MemJobs n) : MemJobs n := { s with queue := { s.queue with closed := false } }

/-- A step that loses no job is a step of the ledger of the pool, or leaves it
as it is, whether the queue is open or not. -/
theorem step_pool_ledger {s s' : MemJobs n} {a : MemAct n} (h : s.step a = some s')
    (hfresh : MemJobs.FreshID s a) (hkept : refusedBy s a = []) :
    s'.ledger = s.ledger ∨ Step s.ledger s'.ledger := by
  by_cases hopen : s'.queue.closed = false
  · exact MemJobs.step_ledger h hfresh hopen
  -- what is left of the steps on a closed queue can be made on an open one
  have hreopened : (reopened s).step a = some (reopened s') →
      s'.ledger = s.ledger ∨ Step s.ledger s'.ledger := by
    intro h
    have hfresh : MemJobs.FreshID (reopened s) a := by cases a <;> exact hfresh
    have hledger : (reopened s').ledger = (reopened s).ledger ∨
        Step (reopened s).ledger (reopened s').ledger := MemJobs.step_ledger h hfresh rfl
    exact hledger
  cases MemJobs.steps_of_step h with
  | refused _ | register | cancel | close => exact .inl rfl
  | enqueued hc | putBack _ hc | popped _ hc | requeued _ _ hc => exact absurd rfl hopen
  | @headCancelled w hpc | @headGoes w hpc | @dequeueClosed w _ hpc | @woken w _ _ hpc
  | @wokenCancelled w _ hpc | @acked w _ hpc =>
    exact .inl (MemJobs.ledger_setPc (by rw [hpc]; rfl))
  | handlerFound hpc hmem | handlerMissing hpc hmem =>
    exact hreopened (by simp [MemJobs.step, reopened, MemJobs.setPc, hpc, hmem, Job.attempt])
  | succeeded hpc | failed hpc =>
    exact hreopened (by simp [MemJobs.step, reopened, MemJobs.setPc, hpc])
  | givenUp hpc hup =>
    exact hreopened (by simp [MemJobs.step, reopened, MemJobs.setPc, hpc, hup])
  | nackRefused hpc hup hc =>
    have hup' : ¬ _ > _ := hup
    simp [refusedBy, hpc, hup, hup', MemoryQueue.nack, hc] at hkept

/-- **Every step keeps to the ledger**, also when the queue is closed. -/
theorem step_ledger {s s' : Stopping n} {a : MemAct n} (h : s.step a = some s')
    (hfresh : MemJobs.FreshID s.pool a) : s'.ledger = s.ledger ∨ Step s.ledger s'.ledger := by
  obtain ⟨hpool, hdropped⟩ := step_eq_some.mp h
  rcases refusedBy_of_steps (MemJobs.steps_of_step hpool) with
    hnone | ⟨w, job, err, hpc, hup, hs', hlost⟩
  · have hdropped : s'.dropped = s.dropped := by rw [hdropped, hnone, List.append_nil]
    unfold ledger
    rw [hdropped]
    rcases step_pool_ledger hpool hfresh hnone with hsame | hstep
    · exact .inl (by rw [hsame])
    · exact .inr (hstep.frame _)
  · -- the job goes from the hands of the worker to those that wait
    have hchange : Change (.failing, job.item) (.queued, job.item) [] [] :=
      .retry job.item (Int.not_lt.mp hup)
    have hbefore : s.ledger.items = {(.failing, job.item)} +
        (MemJobs.books s.pool.queue.items (s.pool.heldElse w) s.pool.completed s.pool.dead +
          (s.dropped.map fun j => (Stage.queued, j.item))) := by
      simp only [ledger, MemJobs.ledger_items_at hpc, WorkerPc.places]
      rw [add_assoc]
    have hitems : s'.pool.ledger.items =
        MemJobs.books s.pool.queue.items (s.pool.heldElse w) s.pool.completed s.pool.dead := by
      rw [hs', MemJobs.ledger_items (s := s.pool) (w := w) (p := .top) rfl]
      exact zero_add _
    have hafter : s'.ledger.items = {(.queued, job.item)} +
        (MemJobs.books s.pool.queue.items (s.pool.heldElse w) s.pool.completed s.pool.dead +
          (s.dropped.map fun j => (Stage.queued, j.item))) := by
      simp only [ledger, hitems, hdropped, hlost, List.map_append, List.map_singleton,
        ← Multiset.coe_add, Multiset.coe_singleton]
      abel
    refine .inr (Step.of_items hchange hbefore hafter ?_ ?_ ?_) <;>
      simp [ledger, MemJobs.ledger, hs', MemJobs.setPc]

/-- The books are well kept, and what was dropped had failed. -/
structure Kept (s : Stopping n) : Prop where
  books : WellKept s.ledger
  failures : ∀ j ∈ s.dropped, entriesOf s.pool.failed j.id ≠ []

/-- The log of failed attempts only grows. -/
theorem failed_grows {s s' : MemJobs n} {a : MemAct n} (h : s.step a = some s') :
    ∃ log, s'.failed = s.failed ++ log := by
  cases MemJobs.steps_of_step h with
  | handlerMissing | failed => exact ⟨_, rfl⟩
  | _ => exact ⟨[], (List.append_nil _).symm⟩

theorem Kept.step {s s' : Stopping n} {a : MemAct n} (hs : s.Kept)
    (hfresh : MemJobs.FreshID s.pool a) (h : s.step a = some s') : s'.Kept := by
  refine ⟨invariant_of_refines (fun _ _ hkept hledger => hkept.step hledger)
    (step_ledger h hfresh) hs.books, ?_⟩
  obtain ⟨hpool, hdropped⟩ := step_eq_some.mp h
  obtain ⟨log, hlog⟩ := failed_grows hpool
  have hgrown : ∀ id, entriesOf s.pool.failed id ≠ [] → entriesOf s'.pool.failed id ≠ [] := by
    intro id hid
    simp only [entriesOf, hlog, List.filter_append, List.map_append]
    simp only [entriesOf] at hid
    simp [hid]
  intro j hj
  rw [hdropped] at hj
  rcases List.mem_append.mp hj with hj | hj
  · exact hgrown _ (hs.failures j hj)
  rcases refusedBy_of_steps (MemJobs.steps_of_step hpool) with
    hnone | ⟨w, job, err, hpc, _, _, hlost⟩
  · rw [hnone] at hj
    cases hj
  · -- the books know of the failure of a job that a worker is to settle
    rw [hlost] at hj
    rw [List.mem_singleton.mp hj]
    refine hgrown _ ?_
    have hmem : (Stage.failing, job.item) ∈ s.ledger.items := by
      simp [ledger, MemJobs.ledger_items_at hpc, WorkerPc.places]
    obtain ⟨a, _, k, hid, _, _, _, hf, hk, _⟩ := hs.books.recorded _ hmem
    rw [← List.length_pos_iff]
    have hlen : (entriesOf s.pool.failed a.id).length = k := hf
    have hid' : a.id = job.id := hid
    rw [← hid']
    omega

theorem kept_of_run {as : List (MemAct n)} {s : Stopping n} (hrun : run step init as = some s)
    (hids : Along step (fun s => MemJobs.FreshID s.pool) init as) : s.Kept := by
  refine hids.invariant (fun _ _ _ hs hfresh h => hs.step hfresh h) ⟨?_, by simp [init]⟩ hrun
  have hempty : (init : Stopping n).ledger = ⟨0, [], [], []⟩ := by
    simp [ledger, init, MemJobs.ledger, MemJobs.init, MemJobs.books, MemoryQueue.new,
      WorkerPc.places]
  rw [hempty]
  exact wellKept_empty

/-! ## After `Close` -/

/-- Nothing goes into a closed queue and nothing out of it. -/
theorem closed_step {s s' : MemJobs n} {a : MemAct n} (h : s.step a = some s')
    (hclosed : s.queue.closed = true) : s'.queue = s.queue ∧ s'.accepted = s.accepted := by
  cases MemJobs.steps_of_step h with
  | enqueued hc | putBack _ hc | popped _ hc | requeued _ _ hc => simp [hc] at hclosed
  | close => exact ⟨by simp [MemoryQueue.close, ← hclosed], rfl⟩
  | _ => exact ⟨rfl, rfl⟩

theorem closed_run {s s' : Stopping n} {as : List (MemAct n)}
    (hclosed : s.pool.queue.closed = true) (hrun : run step s as = some s') :
    s'.pool.queue = s.pool.queue := by
  refine run_invariant (I := fun t => t.pool.queue = s.pool.queue) ?_ rfl hrun
  intro t a t' ht hstep
  obtain ⟨hpool, _⟩ := step_eq_some.mp hstep
  rw [(closed_step hpool (by rw [ht, hclosed])).1, ht]

/-! ## The accounting -/

/-- How often a job is completed, on the dead-letter list, dropped and in the
queue, all together. -/
def endsOf (s : Stopping n) (id : String) : Nat :=
  (s.pool.completed.map Job.id).count id + (s.pool.dead.map fun e => e.job.id).count id +
    (s.dropped.map Job.id).count id + (s.pool.queue.items.map Job.id).count id

theorem count_ledger (s : Stopping n) (id : String) :
    (s.ledger.items.map fun x => x.2.id).count id =
      s.pool.placesOf id + (s.dropped.map Job.id).count id := by
  simp only [ledger, Multiset.map_add, Multiset.count_add, MemJobs.count_ledger]
  simp [Function.comp_def, Job.item]

/-- **No job gets out of sight at the end.** When `Stop` has returned, an
accepted job is exactly one of completed, dead, dropped and still in the
queue, and the queue is as it was when it was closed. A job that was enqueued
with `Attempts` 0 is dead after `max(MaxRetries, 0) + 1` failed attempts; a
dropped one has failed at least once and could have been tried again. -/
theorem shutdown_accounted {as : List (MemAct n)} {s : Stopping n}
    (hrun : run step init as = some s)
    (hids : Along step (fun s => MemJobs.FreshID s.pool) init as)
    (hreturned : ∀ w, s.pool.pc w = .returned) {job : Job} (hjob : job ∈ s.pool.accepted) :
    s.endsOf job.id = 1 ∧
    (∀ as₁ as₂ u, as = as₁ ++ .close :: as₂ → run step init as₁ = some u →
      s.pool.queue.items = u.pool.queue.items) ∧
    (job.attempts = 0 →
      (job.id ∈ s.pool.dead.map (fun e => e.job.id) →
        ((s.pool.failuresOf job.id).length : Int) = max job.maxRetries 0 + 1) ∧
      (job.id ∈ s.dropped.map Job.id →
        0 < (s.pool.failuresOf job.id).length ∧
          ((s.pool.failuresOf job.id).length : Int) ≤ job.maxRetries)) := by
  have hkept := kept_of_run hrun hids
  have hitem : job.item ∈ s.ledger.accepted := List.mem_map_of_mem hjob
  refine ⟨?_, ?_, fun hzero => ⟨?_, ?_⟩⟩
  · have hone := (count_ledger s job.id).symm.trans (hkept.books.count_id hitem)
    have hhands : (Finset.univ.filter fun w => MemJobs.Holds job.id (s.pool.pc w)) = ∅ := by
      simp [hreturned, MemJobs.Holds]
    simp only [MemJobs.placesOf, hhands, Finset.card_empty] at hone
    unfold endsOf
    omega
  · rintro as₁ as₂ u rfl hu
    obtain ⟨v, hv, hrun⟩ := run_append_eq_some.mp hrun
    cases hu.symm.trans hv
    obtain ⟨w, hw, hrun⟩ := run_cons_eq_some.mp hrun
    have hpool : u.pool.step .close = some w.pool := (step_eq_some.mp hw).1
    have hqueue : w.pool.queue = u.pool.queue.close := by
      rw [← Option.some.inj hpool]
    rw [closed_run (by rw [hqueue]; rfl) hrun, hqueue]
    rfl
  · intro hdead
    obtain ⟨e, he, hid⟩ := List.mem_map.mp hdead
    have hmem : (Stage.dead, e.job.item) ∈ s.ledger.items :=
      Multiset.mem_add.mpr (.inl (MemJobs.dead_mem_ledger.mpr ⟨e, he, rfl⟩))
    exact hkept.books.dead_failed hitem hzero hmem hid
  · intro hdropped
    obtain ⟨j, hj, hid⟩ := List.mem_map.mp hdropped
    have hmem : (Stage.queued, j.item) ∈ s.ledger.items := by
      refine Multiset.mem_add.mpr (.inr ?_)
      simp only [Multiset.mem_coe, List.mem_map]
      exact ⟨j, hj, rfl⟩
    obtain ⟨a, ha, k, haid, hab, hatt, _, hf, hk⟩ := hkept.books.recorded _ hmem
    obtain rfl : a = job.item :=
      List.inj_on_of_nodup_map hkept.books.distinct ha hitem (haid.trans hid)
    have hpos : 0 < (s.pool.failuresOf job.id).length := by
      rw [List.length_pos_iff]
      have hfailed := hkept.failures j hj
      rw [hid] at hfailed
      exact hfailed
    refine ⟨hpos, ?_⟩
    -- the job waits with its counter at the number of its attempts
    have hlen : (s.pool.failuresOf job.id).length = k := hf
    have hcount : j.attempts = job.attempts + k := hatt
    have hbudget : job.maxRetries = j.maxRetries := hab
    have hwaits : k = 0 ∨ j.attempts ≤ j.maxRetries := hk
    omega

/-- One worker and two jobs. The first is in its handler when the pool is
told to stop, and fails; the second is still in the queue. -/
theorem shutdown_accounted_one_dropped :
    let mail : Job := { Job.zero with id := "job-1", type := "mail", maxRetries := 2 }
    let as : List (MemAct 1) := [.register "mail", .enqueue mail,
      .enqueue { mail with id := "job-2" }, .loopHead 0, .dequeue 0 0, .findHandler 0, .cancel,
      .close, .handled 0 (some "smtp: connection refused"), .settle 0 0, .loopHead 0]
    ∃ s, run step init as = some s ∧ s.endsOf "job-1" = 1 ∧ s.dropped.map Job.id = ["job-1"] ∧
      0 < (s.pool.failuresOf "job-1").length ∧
      ((s.pool.failuresOf "job-1").length : Int) ≤ 2 := by
  intro mail as
  have hids : Along step (fun s => MemJobs.FreshID s.pool) init as := by decide
  have hends : ∃ s, run step init as = some s ∧ (∀ w, s.pool.pc w = .returned) ∧
      mail ∈ s.pool.accepted ∧ s.dropped.map Job.id = ["job-1"] :=
    exists_run_of_any (by decide +kernel)
  obtain ⟨s, hrun, hreturned, hjob, hdropped⟩ := hends
  have h := shutdown_accounted hrun hids hreturned hjob
  have hfailed := (h.2.2 rfl).2 (by rw [hdropped]; exact List.mem_singleton_self _)
  exact ⟨s, hrun, h.1, hdropped, hfailed⟩

/-! ## `Stop` returns -/

/-- The worker that performs a step, if a worker does. -/
def workerOf : MemAct n → Option (Fin n)
  | .loopHead w | .dequeue w _ | .wake w _ | .wakeCancelled w | .findHandler w | .handled w _
  | .ack w | .settle w _ => some w
  | .enqueue _ | .register _ | .cancel | .close => none

/-- How many steps a worker has left, at most, when the context is cancelled
and the queue closed. -/
def stepsLeft : MemWorker → Nat
  | .got _ => 4
  | .handling _ => 3
  | .failing _ _ | .succeeded _ | .inQueue _ => 2
  | .top | .dequeuing => 1
  | .returned => 0

theorem stepsLeft_le (p : MemWorker) : stepsLeft p ≤ 4 := by
  cases p <;> simp [stepsLeft]

/-- `main` has cancelled the context, and `Stop` has closed the queue. -/
def Told (s : MemJobs n) : Prop := s.cancelled = true ∧ s.queue.closed = true

instance (s : MemJobs n) : Decidable (Told s) := inferInstanceAs (Decidable (_ ∧ _))

/-- Once the pool has been told to stop, a step of a worker brings it nearer to
its end, and no other step moves a worker. -/
theorem told_step {s s' : MemJobs n} {a : MemAct n} (hs : Told s) (h : s.step a = some s') :
    Told s' ∧ ((workerOf a = none ∧ s'.pc = s.pc) ∨ ∃ w p, workerOf a = some w ∧
      s'.pc = Function.update s.pc w p ∧ stepsLeft p < stepsLeft (s.pc w)) := by
  have hqueue := (closed_step h hs.2).1
  obtain ⟨hcancelled, hclosed⟩ := hs
  cases MemJobs.steps_of_step h with
  | refused _ | register => exact ⟨⟨hcancelled, hclosed⟩, .inl ⟨rfl, rfl⟩⟩
  | cancel => exact ⟨⟨rfl, hclosed⟩, .inl ⟨rfl, rfl⟩⟩
  | close => exact ⟨⟨hcancelled, rfl⟩, .inl ⟨rfl, rfl⟩⟩
  | headGoes _ hc => simp [hc] at hcancelled
  | enqueued hc | putBack _ hc | popped _ hc | requeued _ _ hc => simp [hc] at hclosed
  | headCancelled hpc | dequeueClosed hpc | woken hpc | wokenCancelled hpc | handlerFound hpc
  | handlerMissing hpc | succeeded hpc | failed hpc | acked hpc | givenUp hpc
  | nackRefused hpc =>
    exact ⟨⟨hcancelled, hqueue ▸ hclosed⟩, .inr ⟨_, _, rfl, rfl, by rw [hpc]; simp [stepsLeft]⟩⟩

/-- A worker that has not returned can go on. -/
theorem told_enabled {s : MemJobs n} (hs : Told s) {w : Fin n} (hw : s.pc w ≠ .returned) :
    ∃ a, workerOf a = some w ∧ (s.step a).isSome := by
  obtain ⟨hcancelled, hclosed⟩ := hs
  cases hpc : s.pc w with
  | top => exact ⟨.loopHead w, rfl, by simp [MemJobs.step, hpc]⟩
  | dequeuing =>
    exact ⟨.dequeue w 0, rfl, by simp [MemJobs.step, hpc, MemoryQueue.dequeue, hclosed]⟩
  | inQueue t => exact ⟨.wakeCancelled w, rfl, by simp [MemJobs.step, hpc, hcancelled]⟩
  | got job =>
    refine ⟨.findHandler w, rfl, ?_⟩
    simp only [MemJobs.step, hpc]
    split <;> rfl
  | handling job => exact ⟨.handled w none, rfl, by simp [MemJobs.step, hpc]⟩
  | failing job err =>
    refine ⟨.settle w 0, rfl, ?_⟩
    simp only [MemJobs.step, hpc]
    split <;> rfl
  | succeeded job => exact ⟨.ack w, rfl, by simp [MemJobs.step, hpc]⟩
  | returned => exact absurd hpc hw

/-- The steps that the workers have left. -/
def remaining (s : Stopping n) : Nat := ∑ w, stepsLeft (s.pool.pc w)

theorem remaining_le (s : Stopping n) : s.remaining ≤ 4 * n := by
  have hsum : ∑ w, stepsLeft (s.pool.pc w) ≤ ∑ _ : Fin n, 4 :=
    Finset.sum_le_sum fun w _ => stepsLeft_le _
  simpa [remaining, mul_comm] using hsum

theorem remaining_lt {s s' : Stopping n} {w : Fin n} {p : MemWorker}
    (hpc : s'.pool.pc = Function.update s.pool.pc w p)
    (hlt : stepsLeft p < stepsLeft (s.pool.pc w)) : s'.remaining < s.remaining := by
  refine Finset.sum_lt_sum (fun w' _ => ?_) ⟨w, Finset.mem_univ w, ?_⟩
  · rcases moved_cases hpc w' with ⟨rfl, hw'⟩ | ⟨-, hw'⟩
    · rw [hw']
      exact hlt.le
    · rw [hw']
  · rw [hpc, Function.update_self]
    exact hlt

end Stopping

end GoRestApi.Jobs
