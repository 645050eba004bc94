/-
GoRestApi.Jobs.RegistryTheorems — the worker pool over the in-memory queue.

`MemJobs.Steps` lists what a step can do. `MemJobs.ledger` forgets everything
about a state but the ledger of `Retry.Ledger`: which job is queued, in a
worker's hands, completed or dead-lettered, and the logs of attempts. Each
step of the pool, while the queue is open, is a step of the ledger or leaves
it as it is (`step_ledger`), so the books are well kept in every reachable
state, and `jobs_accounted` reads the accounting off them.
-/
import GoRestApi.Jobs.Registry
import GoRestApi.Retry.Ledger
import Mathlib.Algebra.BigOperators.Fin
import Mathlib.Tactic.Abel

namespace GoRestApi.Jobs

open Go Lts Retry

namespace MemJobs

variable {n : Nat}

/-! ## What a step can do -/

/-- The cases of a step, one per branch of the code, with what the branch has
tested. -/
inductive Steps (s : MemJobs n) : MemAct n → MemJobs n → Prop where
  | refused {job} : s.queue.closed = true → Steps s (.enqueue job) s
  | enqueued {job} : s.queue.closed = false →
      Steps s (.enqueue job)
        { s with
          queue := ⟨s.queue.items ++ [job], false⟩
          accepted := s.accepted ++ [job] }
  | register {jobType} :
      Steps s (.register jobType) { s with handlers := jobType :: s.handlers }
  | cancel : Steps s .cancel { s with cancelled := true }
  | close : Steps s .close { s with queue := s.queue.close }
  | headCancelled {w} : s.pc w = .top → s.cancelled = true →
      Steps s (.loopHead w) (s.setPc w .returned)
  | headGoes {w} : s.pc w = .top → s.cancelled = false →
      Steps s (.loopHead w) (s.setPc w .dequeuing)
  | dequeueClosed {w now} : s.pc w = .dequeuing → s.queue.closed = true →
      Steps s (.dequeue w now) (s.setPc w .returned)
  | putBack {w now job rest} : s.pc w = .dequeuing → s.queue.closed = false →
      s.queue.items = job :: rest → job.runAfter > now →
      Steps s (.dequeue w now)
        { s.setPc w (.inQueue job.runAfter) with
          queue := ⟨rest ++ [job], false⟩ }
  | popped {w now job rest} : s.pc w = .dequeuing → s.queue.closed = false →
      s.queue.items = job :: rest → ¬ job.runAfter > now →
      Steps s (.dequeue w now)
        { s.setPc w (.got job) with queue := ⟨rest, false⟩ }
  | woken {w now wakeAt} : s.pc w = .inQueue wakeAt → wakeAt ≤ now →
      Steps s (.wake w now) (s.setPc w .dequeuing)
  | wokenCancelled {w wakeAt} : s.pc w = .inQueue wakeAt → s.cancelled = true →
      Steps s (.wakeCancelled w) (s.setPc w .returned)
  | handlerFound {w job} : s.pc w = .got job → job.type ∈ s.handlers →
      Steps s (.findHandler w)
        { s.setPc w (.handling job.attempt) with
          tried := s.tried ++ [(job.id, job.attempts + 1)] }
  | handlerMissing {w job} : s.pc w = .got job → job.type ∉ s.handlers →
      Steps s (.findHandler w)
        { s.setPc w (.failing job.attempt (errNoHandler job.type)) with
          tried := s.tried ++ [(job.id, job.attempts + 1)]
          failed := s.failed ++ [(job.id, job.attempts + 1)] }
  | succeeded {w job} : s.pc w = .handling job →
      Steps s (.handled w none)
        { s.setPc w (.succeeded job) with completed := s.completed ++ [job] }
  | failed {w job err} : s.pc w = .handling job →
      Steps s (.handled w (some err))
        { s.setPc w (.failing job err) with failed := s.failed ++ [(job.id, job.attempts)] }
  | acked {w job} : s.pc w = .succeeded job → Steps s (.ack w) (s.setPc w .top)
  | givenUp {w now job err} : s.pc w = .failing job err → job.GivenUp →
      Steps s (.settle w now) { s.setPc w .top with dead := s.dead ++ [.of job err] }
  | requeued {w now job err} : s.pc w = .failing job err → ¬ job.GivenUp →
      s.queue.closed = false →
      Steps s (.settle w now)
        { s.setPc w .top with
          queue := ⟨s.queue.items ++
            [{ job with lastError := err, runAfter := now + backoff job.attempts }], false⟩ }
  | nackRefused {w now job err} : s.pc w = .failing job err → ¬ job.GivenUp →
      s.queue.closed = true → Steps s (.settle w now) (s.setPc w .top)

/-- **Inversion.** A step is one of the cases. -/
theorem steps_of_step {s s' : MemJobs n} {a : MemAct n} (h : s.step a = some s') :
    Steps s a s' := by
  cases a with
  | enqueue job =>
    cases hc : s.queue.closed <;>
      simp only [step, MemoryQueue.enqueue, hc, Bool.false_eq_true, ↓reduceIte] at h <;> cases h
    · exact .enqueued hc
    · exact .refused hc
  | register jobType => cases h; exact .register
  | cancel => cases h; exact .cancel
  | close => cases h; exact .close
  | loopHead w =>
    simp only [step] at h
    split at h
    · cases hc : s.cancelled <;> simp only [hc, Bool.false_eq_true, ↓reduceIte] at h <;> cases h
      · exact .headGoes ‹_› hc
      · exact .headCancelled ‹_› hc
    · cases h
  | dequeue w now =>
    simp only [step] at h
    split at h
    · rename_i hpc
      cases hc : s.queue.closed with
      | true =>
        simp only [MemoryQueue.dequeue, hc, ↓reduceIte] at h
        cases h
        exact .dequeueClosed hpc hc
      | false =>
        cases hq : s.queue.items with
        | nil =>
          simp [MemoryQueue.dequeue, hc, hq] at h
        | cons job rest =>
          simp only [MemoryQueue.dequeue, hc, hq, Bool.false_eq_true, ↓reduceIte] at h
          by_cases hlate : job.runAfter > now
          · simp only [hlate, ↓reduceIte] at h
            cases h
            exact .putBack hpc hc hq hlate
          · simp only [hlate, ↓reduceIte] at h
            cases h
            exact .popped hpc hc hq hlate
    · cases h
  | wake w now =>
    simp only [step] at h
    split at h
    · split at h
      · cases h
        exact .woken ‹_› ‹_›
      · cases h
    · cases h
  | wakeCancelled w =>
    simp only [step] at h
    split at h
    · split at h
      · cases h
        exact .wokenCancelled ‹_› ‹_›
      · cases h
    · cases h
  | findHandler w =>
    simp only [step] at h
    split at h
    · split at h <;> cases h
      · exact .handlerFound ‹_› ‹_›
      · exact .handlerMissing ‹_› ‹_›
    · cases h
  | handled w err =>
    simp only [step] at h
    split at h
    · cases err <;> cases h
      · exact .succeeded ‹_›
      · exact .failed ‹_›
    · cases h
  | ack w =>
    simp only [step] at h
    split at h
    · cases h
      exact .acked ‹_›
    · cases h
  | settle w now =>
    simp only [step] at h
    split at h
    · rename_i job err hpc
      split at h
      · cases h
        exact .givenUp hpc ‹_›
      · -- the limit is tested again in `Nack`, on the same counter
        rename_i hup
        have hup' : ¬ job.attempts > job.maxRetries := hup
        cases hc : s.queue.closed <;>
          simp only [MemoryQueue.nack, hup', hc, Bool.false_eq_true, ↓reduceIte] at h <;> cases h
        · exact .requeued hpc hup hc
        · exact .nackRefused hpc hup hc
    · cases h

/-! ## The pool does not shrink -/

/-- A worker that has returned was told to. -/
def ReturnedWasTold (s : MemJobs n) : Prop :=
  ∀ w, s.pc w = .returned → s.cancelled = true ∨ s.queue.closed = true

/-- Moving a worker keeps `ReturnedWasTold` in any state `t` with the same
worker positions, if it does not return untold. -/
theorem ReturnedWasTold.setPc {s t : MemJobs n} (hs : s.ReturnedWasTold) (w : Fin n)
    (p : MemWorker) (hpc : t.pc = (s.setPc w p).pc) (hcancel : t.cancelled = s.cancelled)
    (hclosed : t.queue.closed = s.queue.closed)
    (hp : p = .returned → s.cancelled = true ∨ s.queue.closed = true) : t.ReturnedWasTold := by
  intro w' hr
  rw [hcancel, hclosed]
  rcases moved_cases hpc w' with ⟨-, hw'⟩ | ⟨-, hw'⟩
  · exact hp (hw'.symm.trans hr)
  · exact hs w' (hw'.symm.trans hr)

theorem step_returnedWasTold (s : MemJobs n) (a : MemAct n) (s' : MemJobs n)
    (hs : s.ReturnedWasTold) (h : s.step a = some s') : s'.ReturnedWasTold := by
  cases steps_of_step h with
  | refused _ | register => exact hs
  | enqueued hc => exact fun w hw => (hs w hw).imp_right (fun h => absurd h (by simp [hc]))
  | cancel => exact fun _ _ => Or.inl rfl
  | close => exact fun _ _ => Or.inr rfl
  | headCancelled _ hc | wokenCancelled _ hc => exact hs.setPc _ _ rfl rfl rfl (fun _ => Or.inl hc)
  | dequeueClosed _ hc => exact hs.setPc _ _ rfl rfl rfl (fun _ => Or.inr hc)
  | putBack _ hc | popped _ hc | requeued _ _ hc =>
    exact hs.setPc _ _ rfl rfl hc.symm (fun hp => by cases hp)
  | _ => exact hs.setPc _ _ rfl rfl rfl (fun hp => by cases hp)

/-- Over the in-memory queue no worker leaves its loop before the context is
cancelled or the queue closed. -/
theorem workers_stay {as : List (MemAct n)} {s : MemJobs n} (hrun : run step init as = some s)
    (hctx : s.cancelled = false) (hopen : s.queue.closed = false) (w : Fin n) :
    s.pc w ≠ .returned := by
  intro hr
  have hinv : s.ReturnedWasTold := by
    refine run_invariant step_returnedWasTold ?_ hrun
    intro w hw
    simp [init] at hw
  rcases hinv w hr with h | h
  · simp [hctx] at h
  · simp [hopen] at h

end MemJobs

/-! ## The books of the pool -/

/-- What the book-keeping needs of a job. -/
def Job.item (j : Job) : Item String := ⟨j.id, j.attempts, j.maxRetries⟩

/-- What a worker keeps. A worker about to `Ack` has no job: it is completed. -/
def WorkerPc.places {ω : Type} : WorkerPc ω Job → Multiset (Stage × Item String)
  | .got j => {(.taken, j.item)}
  | .handling j => {(.running, j.item)}
  | .failing j _ => {(.failing, j.item)}
  | _ => 0

namespace MemJobs

variable {n : Nat}

/-- The jobs that are queued, in the given hands, completed and dead. -/
def books (queue : List Job) (hands : Multiset (Stage × Item String)) (completed : List Job)
    (dead : List DeadLetterEntry) : Multiset (Stage × Item String) :=
  (queue.map fun j => (Stage.queued, j.item)) + hands +
    (completed.map fun j => (Stage.completed, j.item)) +
    (dead.map fun e => (Stage.dead, e.job.item))

/-- The ledger of a state. -/
def ledger (s : MemJobs n) : Ledger String where
  items := books s.queue.items (∑ w, (s.pc w).places) s.completed s.dead
  accepted := s.accepted.map Job.item
  tried := s.tried
  failed := s.failed

section Books

variable (queue : List Job) (hands : Multiset (Stage × Item String)) (completed : List Job)
  (dead : List DeadLetterEntry) (j : Job)

theorem books_hands (p : Multiset (Stage × Item String)) :
    books queue (p + hands) completed dead = p + books queue hands completed dead := by
  simp only [books]
  abel

theorem books_cons_queue :
    books (j :: queue) hands completed dead =
      {(.queued, j.item)} + books queue hands completed dead := by
  simp only [books, List.map_cons, ← Multiset.cons_coe, ← Multiset.singleton_add]
  abel

theorem books_append_queue :
    books (queue ++ [j]) hands completed dead =
      {(.queued, j.item)} + books queue hands completed dead := by
  simp only [books, List.map_append, ← Multiset.coe_add, List.map_cons, List.map_nil,
    Multiset.coe_singleton]
  abel

theorem books_append_completed :
    books queue hands (completed ++ [j]) dead =
      {(.completed, j.item)} + books queue hands completed dead := by
  simp only [books, List.map_append, ← Multiset.coe_add, List.map_cons, List.map_nil,
    Multiset.coe_singleton]
  abel

theorem books_append_dead (err : String) :
    books queue hands completed (dead ++ [.of j err]) =
      {(.dead, j.item)} + books queue hands completed dead := by
  simp only [books, List.map_append, ← Multiset.coe_add, List.map_cons, List.map_nil,
    Multiset.coe_singleton, DeadLetterEntry.of]
  abel

end Books

/-- The jobs in the hands of the workers other than `w`. -/
def heldElse (s : MemJobs n) (w : Fin n) : Multiset (Stage × Item String) :=
  ∑ w' ∈ Finset.univ.erase w, (s.pc w').places

/-- The ledger of a state that differs from `s` in the position of `w`: what
`w` holds, and the rest. -/
theorem ledger_items {s t : MemJobs n} {w : Fin n} {p : MemWorker}
    (hpc : t.pc = (s.setPc w p).pc) :
    t.ledger.items = p.places + books t.queue.items (s.heldElse w) t.completed t.dead := by
  have hsum : ∑ w', (t.pc w').places = p.places + s.heldElse w := by
    rw [hpc, ← Finset.add_sum_erase _ _ (Finset.mem_univ w), setPc_pc, Function.update_self]
    congr 1
    refine Finset.sum_congr rfl fun w' hw' => ?_
    rw [setPc_pc, Function.update_of_ne (Finset.ne_of_mem_erase hw')]
  rw [ledger, hsum, books_hands]

theorem ledger_items_at {s : MemJobs n} {w : Fin n} {p : MemWorker} (hpc : s.pc w = p) :
    s.ledger.items = p.places + books s.queue.items (s.heldElse w) s.completed s.dead :=
  ledger_items (by rw [setPc, ← hpc, Function.update_eq_self])

/-- A job is enqueued under an ID that no accepted job has. -/
def FreshID (s : MemJobs n) : MemAct n → Prop
  | .enqueue job => job.id ∉ s.accepted.map Job.id
  | _ => True

instance (s : MemJobs n) : (a : MemAct n) → Decidable (FreshID s a)
  | .enqueue job => inferInstanceAs (Decidable (job.id ∉ s.accepted.map Job.id))
  | .register _ | .cancel | .close | .loopHead _ | .dequeue _ _ | .wake _ _ | .wakeCancelled _
  | .findHandler _ | .handled _ _ | .ack _ | .settle _ _ => isTrue trivial

/-- A step of a worker that has no job before or after leaves the ledger. -/
theorem ledger_setPc {s : MemJobs n} {w : Fin n} {p : MemWorker} (h : (s.pc w).places = p.places) :
    (s.setPc w p).ledger = s.ledger := by
  have hitems : (s.setPc w p).ledger.items = s.ledger.items := by
    rw [ledger_items (s := s) rfl, ledger_items_at (s := s) rfl, h]
    rfl
  exact congrArg (fun items => { s.ledger with items := items }) hitems

/-- **The pool refines the ledger.** While the queue is open, a step of the
pool is a step of the ledger or leaves it as it is. -/
theorem step_ledger {s s' : MemJobs n} {a : MemAct n} (h : s.step a = some s')
    (hfresh : FreshID s a) (hopen : s'.queue.closed = false) :
    s'.ledger = s.ledger ∨ Step s.ledger s'.ledger := by
  -- the jobs that a step of `w` which touches none of the lists leaves alone
  have hnil : ∀ log : List (String × Int), ∀ id,
      log = log ++ ([] : List Int).map (Prod.mk id) := by simp
  cases steps_of_step h with
  | refused _ | register | cancel => exact .inl rfl
  | close => simp [MemoryQueue.close] at hopen
  | @enqueued job _ =>
    refine .inr ?_
    have hid : job.item.id ∉ s.ledger.accepted.map Item.id := by
      simpa [ledger, Job.item, FreshID, Function.comp_def] using hfresh
    have hstep := Step.accept s.ledger job.item hid
    simpa [ledger, books_append_queue] using hstep
  | @headCancelled w hpc | @headGoes w hpc | @dequeueClosed w _ hpc | @woken w _ _ hpc
  | @wokenCancelled w _ hpc | @acked w _ hpc =>
    exact .inl (ledger_setPc (by rw [hpc]; rfl))
  | @putBack w now job rest hpc hc hq hlate =>
    refine .inl ?_
    rw [← ledger_setPc (s := s) (w := w) (p := .inQueue job.runAfter) (by rw [hpc]; rfl)]
    simp [ledger, hq, books_append_queue, books_cons_queue, setPc]
  | @popped w now job rest hpc hc hq hdue =>
    refine .inr (Step.of_items (.take job.item) ?_
      (ledger_items (s := s) (w := w) (p := .got job) rfl) rfl (hnil _ _) (hnil _ _))
    rw [ledger_items_at hpc, hq, books_cons_queue]
    exact zero_add _
  | @handlerFound w job hpc =>
    exact .inr (Step.of_items (.start job.item) (ledger_items_at hpc)
      (ledger_items (s := s) (w := w) (p := .handling job.attempt) rfl) rfl rfl (hnil _ _))
  | @handlerMissing w job hpc =>
    exact .inr (Step.of_items (.missing job.item) (ledger_items_at hpc)
      (ledger_items (s := s) (w := w) (p := .failing job.attempt (errNoHandler job.type)) rfl)
      rfl rfl rfl)
  | @succeeded w job hpc =>
    refine .inr (Step.of_items (.succeed job.item) (ledger_items_at hpc) ?_ rfl (hnil _ _)
      (hnil _ _))
    refine .trans (ledger_items (s := s) (w := w) (p := .succeeded job) (by rfl)) ?_
    exact (zero_add _).trans (books_append_completed ..)
  | @failed w job err hpc =>
    exact .inr (Step.of_items (.fail job.item) (ledger_items_at hpc)
      (ledger_items (s := s) (w := w) (p := .failing job err) rfl) rfl
      (hnil _ _) rfl)
  | @givenUp w now job err hpc hup =>
    refine .inr (Step.of_items (.bury job.item hup) (ledger_items_at hpc) ?_ rfl (hnil _ _)
      (hnil _ _))
    refine .trans (ledger_items (s := s) (w := w) (p := .top) (by rfl)) ?_
    exact (zero_add _).trans (books_append_dead ..)
  | @requeued w now job err hpc hup _ =>
    refine .inr (Step.of_items (.retry job.item (Int.not_lt.mp hup)) (ledger_items_at hpc) ?_ rfl
      (hnil _ _) (hnil _ _))
    refine .trans (ledger_items (s := s) (w := w) (p := .top) (by rfl)) ?_
    exact (zero_add _).trans (books_append_queue ..)
  | nackRefused _ _ hc => simp [setPc, hc] at hopen

/-- `Close` is never undone. -/
theorem open_before {s s' : MemJobs n} {a : MemAct n} (h : s.step a = some s')
    (hopen : s'.queue.closed = false) : s.queue.closed = false := by
  cases steps_of_step h with
  | close => simp [MemoryQueue.close] at hopen
  | enqueued hc | putBack _ hc | popped _ hc | requeued _ _ hc => exact hc
  | _ => exact hopen

/-- As long as the queue is open, the books are well kept. -/
theorem wellKept_ledger {as : List (MemAct n)} {s : MemJobs n} (hrun : run step init as = some s)
    (hids : Along step FreshID init as) (hopen : s.queue.closed = false) :
    WellKept s.ledger := by
  refine hids.invariant (I := fun s => s.queue.closed = false → WellKept s.ledger) ?_ ?_ hrun hopen
  · intro s a s' hs hfresh hstep hopen
    exact invariant_of_refines (fun _ _ hkept hledger => hkept.step hledger)
      (step_ledger hstep hfresh hopen) (hs (open_before hstep hopen))
  · intro _
    have hempty : (init : MemJobs n).ledger = ⟨0, [], [], []⟩ := by
      simp [ledger, init, books, MemoryQueue.new, WorkerPc.places]
    rw [hempty]
    exact wellKept_empty

/-! ## The accounting -/

/-- The worker has the job in its hands. -/
def Holds (id : String) : MemWorker → Prop
  | .got j | .handling j | .failing j _ => j.id = id
  | _ => False

instance (id : String) : (p : MemWorker) → Decidable (Holds id p)
  | .got j | .handling j | .failing j _ => inferInstanceAs (Decidable (j.id = id))
  | .top | .dequeuing | .inQueue _ | .succeeded _ | .returned => inferInstanceAs (Decidable False)

/-- How often the job is in the queue, in a worker's hands, completed and on
the dead-letter list, all together. -/
def placesOf (s : MemJobs n) (id : String) : Nat :=
  (s.queue.items.map Job.id).count id + (Finset.univ.filter fun w => Holds id (s.pc w)).card +
    (s.completed.map Job.id).count id + (s.dead.map fun e => e.job.id).count id

theorem count_places (id : String) (p : MemWorker) :
    (p.places.map fun x => x.2.id).count id = if Holds id p then 1 else 0 := by
  cases p <;> simp [WorkerPc.places, Holds, Multiset.count_singleton, Job.item, eq_comm]

/-- The ledger and the accounting agree. -/
theorem count_ledger (s : MemJobs n) (id : String) :
    (s.ledger.items.map fun x => x.2.id).count id = s.placesOf id := by
  have hsum : ((∑ w, (s.pc w).places).map fun x => x.2.id).count id =
      (Finset.univ.filter fun w => Holds id (s.pc w)).card := by
    rw [Finset.card_filter, ← Multiset.coe_mapAddMonoidHom, map_sum,
      ← Multiset.coe_countAddMonoidHom, map_sum]
    exact Finset.sum_congr rfl fun w _ => count_places id (s.pc w)
  simp only [ledger, books, Multiset.map_add, Multiset.count_add, hsum, placesOf]
  simp [Function.comp_def, Job.item]

theorem mem_ledger {s : MemJobs n} {x : Stage × Item String} :
    x ∈ s.ledger.items ↔
      (∃ j ∈ s.queue.items, (.queued, j.item) = x) ∨ (∃ w, x ∈ (s.pc w).places) ∨
      (∃ j ∈ s.completed, (.completed, j.item) = x) ∨ ∃ e ∈ s.dead, (.dead, e.job.item) = x := by
  simp only [ledger, books, Multiset.mem_add, Multiset.mem_coe, List.mem_map, Multiset.mem_sum,
    Finset.mem_univ, true_and, or_assoc]

/-- The dead jobs of the ledger are those on the dead-letter list. -/
theorem dead_mem_ledger {s : MemJobs n} {i : Item String} :
    (.dead, i) ∈ s.ledger.items ↔ ∃ e ∈ s.dead, e.job.item = i := by
  have hworker : ∀ p : MemWorker, (Stage.dead, i) ∉ p.places := by
    intro p
    cases p <;> simp [WorkerPc.places]
  simp [mem_ledger, hworker]

/-- The failing jobs of the ledger are those of workers that are to settle a
failure. -/
theorem failing_mem_ledger {s : MemJobs n} {i : Item String} (h : (.failing, i) ∈ s.ledger.items) :
    ∃ w j err, s.pc w = .failing j err ∧ j.item = i := by
  rcases mem_ledger.mp h with ⟨_, _, h⟩ | ⟨w, hw⟩ | ⟨_, _, h⟩ | ⟨_, _, h⟩
  · cases h
  · cases hp : s.pc w <;> rw [hp] at hw <;> simp [WorkerPc.places] at hw
    exact ⟨w, _, _, hp, hw.symm⟩
  · cases h
  · cases h

/-- The `Attempts` values of the attempts made at a job, in their order. -/
def attemptsOf (s : MemJobs n) (id : String) : List Int := entriesOf s.tried id

/-- The `Attempts` values of the attempts at a job that failed. -/
def failuresOf (s : MemJobs n) (id : String) : List Int := entriesOf s.failed id

/-- **No job is lost or duplicated.** For any number of workers and any
interleaving, as long as the queue has not been closed, an accepted job is in
exactly one place. If it was enqueued with `Attempts` 0, its attempts are
numbered `1, 2, 3, …` and are at most `max(MaxRetries, 0) + 1`; if it is on
the dead-letter list that many have failed; and once that many have failed it
is there, or the worker whose attempt failed last is about to put it there. -/
theorem jobs_accounted {as : List (MemAct n)} {s : MemJobs n} (hrun : run step init as = some s)
    (hids : Along step FreshID init as) (hopen : s.queue.closed = false) {job : Job}
    (hjob : job ∈ s.accepted) :
    s.placesOf job.id = 1 ∧
    (job.attempts = 0 →
      (∃ k : Nat, (k : Int) ≤ max job.maxRetries 0 + 1 ∧
        s.attemptsOf job.id = (List.range k).map fun i : Nat => (i : Int) + 1) ∧
      (job.id ∈ s.dead.map (fun e => e.job.id) →
        ((s.failuresOf job.id).length : Int) = max job.maxRetries 0 + 1) ∧
      (((s.failuresOf job.id).length : Int) = max job.maxRetries 0 + 1 →
        job.id ∈ s.dead.map (fun e => e.job.id) ∨
          ∃ w j err, s.pc w = .failing j err ∧ j.id = job.id ∧ j.GivenUp)) := by
  have hkept := wellKept_ledger hrun hids hopen
  have hitem : job.item ∈ s.ledger.accepted := List.mem_map_of_mem hjob
  refine ⟨(count_ledger s job.id).symm.trans (hkept.count_id hitem), fun hzero => ⟨?_, ?_, ?_⟩⟩
  · obtain ⟨k, hk, htried⟩ := hkept.attempts_numbered hitem hzero
    refine ⟨k, hk, htried.trans (List.map_congr_left fun i _ => ?_)⟩
    omega
  · intro hdead
    obtain ⟨e, he, hid⟩ := List.mem_map.mp hdead
    exact hkept.dead_failed hitem hzero (dead_mem_ledger.mpr ⟨e, he, rfl⟩) hid
  · intro hfailed
    rcases hkept.failed_dead hitem hzero hfailed with ⟨i, hi, hid⟩ | ⟨i, hi, hid, hup⟩
    · obtain ⟨e, he, rfl⟩ := dead_mem_ledger.mp hi
      exact .inl (List.mem_map.mpr ⟨e, he, hid⟩)
    · obtain ⟨w, j, err, hpc, rfl⟩ := failing_mem_ledger hi
      exact .inr ⟨w, j, err, hpc, hid, hup⟩

/-- One worker, one job with a single retry and no handler: it is attempted
twice and ends on the dead-letter list. -/
theorem jobs_accounted_without_handler :
    let job : Job := { Job.zero with id := "job-1", type := "mail", maxRetries := 1 }
    let as : List (MemAct 1) := [.enqueue job, .loopHead 0, .dequeue 0 0, .findHandler 0,
      .settle 0 0, .loopHead 0, .dequeue 0 Time.second, .findHandler 0, .settle 0 Time.second]
    ∃ s, run step init as = some s ∧ s.placesOf "job-1" = 1 ∧
      s.dead.map (fun e => e.job.id) = ["job-1"] ∧ s.attemptsOf "job-1" = [1, 2] ∧
      (s.failuresOf "job-1").length = 2 := by
  intro job as
  have hids : Along step FreshID init as := by decide
  have hends : ∃ s, run step init as = some s ∧ s.queue.closed = false ∧ job ∈ s.accepted ∧
      s.dead.map (fun e => e.job.id) = ["job-1"] ∧ s.attemptsOf "job-1" = [1, 2] :=
    exists_run_of_any (by decide +kernel)
  obtain ⟨s, hrun, hopen, hjob, hdead, hattempts⟩ := hends
  have h := jobs_accounted hrun hids hopen hjob
  have hfailed := (h.2 rfl).2.1 (by rw [hdead]; exact List.mem_singleton_self _)
  exact ⟨s, hrun, h.1, hdead, hattempts, Int.ofNat_inj.mp hfailed⟩

end MemJobs

end GoRestApi.Jobs
