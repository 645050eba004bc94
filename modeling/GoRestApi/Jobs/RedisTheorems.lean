/-
GoRestApi.Jobs.RedisTheorems — the worker pool over the Redis queue.

* `pool_whole_iff_polls_deliver`: `workerLoop` leaves on `ok = false` and on
  an error, `redisQueue.Dequeue` answers the first after two idle seconds and
  the second for a malformed entry, so the pool is whole exactly as long as
  every poll brings an entry that decodes. Over the in-memory queue it stays
  whole.
* `job_missing_iff_only_copy_acked`: `Nack` acknowledges the entry of a
  failed job before it writes the next one. A job that the system has
  accepted is therefore somewhere at every moment exactly if no such `XACK`
  takes effect on its only copy; and it is back after the `XADD`, if `Nack`
  gets that far.
-/
import GoRestApi.Jobs.Redis
import GoRestApi.Jobs.RegistryTheorems

namespace GoRestApi.Jobs

open Go Lts

namespace RedisJobs

variable {n : Nat} {π : Type}

/-! ## What a step can do -/

/-- `Dequeue` never answers a failed read with a job. -/
@[simp] theorem afterDequeue_dequeueFailed (err : RedisError) :
    afterDequeue (π := π) (RedisQueue.dequeueFailed err) = .returned := by
  unfold RedisQueue.dequeueFailed
  split
  · rfl
  · cases err <;> rfl

/-- The cases of a step, one per branch of the code, with what the branch has
tested. -/
inductive Steps (c : JobCodec π) (s : RedisJobs n π) : RedisAct n π → RedisJobs n π → Prop where
  | refused {job now redis id} : Steps c s (.enqueue job now redis id) s
  | enqueued {job now id v} : RedisQueue.message c now job = .ok v → id ∉ s.stream.ids →
      Steps c s (.enqueue job now none id)
        { s with
          stream := s.stream.xadd id v
          accepted := s.accepted ++ [job]
          origins := s.origins ++ [(id, s.accepted.length)] }
  | produced {v id} : id ∉ s.stream.ids →
      Steps c s (.produce v id) { s with stream := s.stream.xadd id v }
  | register {jobType} :
      Steps c s (.register jobType) { s with handlers := jobType :: s.handlers }
  | cancel : Steps c s .cancel { s with cancelled := true }
  | close : Steps c s .close s
  | headCancelled {w} : s.pc w = .top → s.cancelled = true →
      Steps c s (.loopHead w) (s.setPc w .returned)
  | headGoes {w} : s.pc w = .top → s.cancelled = false →
      Steps c s (.loopHead w) (s.setPc w .dequeuing)
  | readEntry {w e rest} : s.pc w = .dequeuing → s.stream.undelivered = e :: rest →
      Steps c s (.read w .entry)
        { s.setPc w (.inQueue (.delivered e)) with
          stream := ⟨s.stream.delivered ++ [e], rest, s.stream.pending ++ [e.id]⟩ }
  | readNil {w} : s.pc w = .dequeuing → s.stream.undelivered = [] →
      Steps c s (.read w .nil) (s.setPc w .returned)
  | readFailed {w err} : s.pc w = .dequeuing →
      Steps c s (.read w (.failed err)) (s.setPc w .returned)
  | malformed {w redis e msg} : s.pc w = .inQueue (.delivered e) →
      jobFromMessage c e.values = .error msg →
      Steps c s (.decode w redis)
        { s.setPc w .returned with stream := xackUnless s.stream redis e.id }
  | decoded {w redis e job} : s.pc w = .inQueue (.delivered e) →
      jobFromMessage c e.values = .ok job →
      Steps c s (.decode w redis) (s.setPc w (.got { job with id := e.id }))
  | handlerFound {w job} : s.pc w = .got job → job.type ∈ s.handlers →
      Steps c s (.findHandler w) (s.setPc w (.handling job.attempt))
  | handlerMissing {w job} : s.pc w = .got job → job.type ∉ s.handlers →
      Steps c s (.findHandler w) (s.setPc w (.failing job.attempt (errNoHandler job.type)))
  | succeeded {w job} : s.pc w = .handling job →
      Steps c s (.handled w none)
        { s.setPc w (.succeeded job) with completed := s.completed ++ [job] }
  | failed {w job err} : s.pc w = .handling job →
      Steps c s (.handled w (some err)) (s.setPc w (.failing job err))
  | acked {w redis job} : s.pc w = .succeeded job →
      Steps c s (.ack w redis)
        { s.setPc w .top with stream := xackUnless s.stream redis job.id }
  | givenUp {w now now' redis job err} : s.pc w = .failing job err → job.GivenUp →
      Steps c s (.settle w now now' redis)
        { s.setPc w .top with dead := s.dead ++ [.of job err] }
  | forgotten {w now now' redis job err} : s.pc w = .failing job err → ¬ job.GivenUp →
      (∀ job' v, RedisQueue.nackJob now job err = some job' →
        RedisQueue.message c now' job' ≠ .ok v) →
      Steps c s (.settle w now now' redis)
        { s.setPc w .top with stream := xackUnless s.stream redis job.id }
  | nacked {w now now' redis job err job' v} : s.pc w = .failing job err → ¬ job.GivenUp →
      RedisQueue.nackJob now job err = some job' → RedisQueue.message c now' job' = .ok v →
      Steps c s (.settle w now now' redis)
        { s.setPc w (.inQueue (.readding job' v)) with
          stream := xackUnless s.stream redis job.id }
  | readdFailed {w err id job v} : s.pc w = .inQueue (.readding job v) →
      Steps c s (.readd w (some err) id) (s.setPc w .top)
  | readded {w id job v} : s.pc w = .inQueue (.readding job v) → id ∉ s.stream.ids →
      Steps c s (.readd w none id)
        { s.setPc w .top with
          stream := s.stream.xadd id v
          origins := s.origins ++
            (s.origins.filter fun p => p.1 = job.id).map fun p => (id, p.2) }

/-- **Inversion.** A step is one of the cases. -/
theorem steps_of_step {c : JobCodec π} {s s' : RedisJobs n π} {a : RedisAct n π}
    (h : s.step c a = some s') : Steps c s a s' := by
  cases a with
  | enqueue job now redis id =>
    simp only [step] at h
    split at h
    · cases h; exact .refused
    · split at h
      · cases h; exact .refused
      · split at h <;> cases h
        exact .enqueued ‹_› ‹_›
  | produce v id =>
    simp only [step] at h
    split at h <;> cases h
    exact .produced ‹_›
  | register jobType => cases h; exact .register
  | cancel => cases h; exact .cancel
  | close => cases h; exact .close
  | loopHead w =>
    simp only [step] at h
    split at h
    · cases hc : s.cancelled <;> simp only [hc, Bool.false_eq_true, ↓reduceIte] at h <;> cases h
      · exact .headGoes ‹_› hc
      · exact .headCancelled ‹_› hc
    · cases h
  | read w reply =>
    simp only [step] at h
    split at h
    · rename_i hpc
      cases reply with
      | failed err =>
        simp only [afterDequeue_dequeueFailed] at h
        cases h
        exact .readFailed hpc
      | entry | nil =>
        cases hu : s.stream.undelivered <;> simp only [Stream.xreadgroup, hu] at h <;> cases h
        first | exact .readEntry hpc hu | exact .readNil hpc hu
    · cases h
  | decode w redis =>
    simp only [step] at h
    split at h
    · rename_i e hpc
      cases hj : jobFromMessage c e.values <;>
        simp only [RedisQueue.dequeueEntry, hj] at h <;> cases h
      · exact .malformed hpc hj
      · exact .decoded hpc hj
    · cases h
  | findHandler w =>
    simp only [step] at h
    split at h
    · split at h <;> cases h
      · exact .handlerFound ‹_› ‹_›
      · exact .handlerMissing ‹_› ‹_›
    · cases h
  | handled w err =>
    simp only [step] at h
    split at h
    · cases err <;> cases h
      · exact .succeeded ‹_›
      · exact .failed ‹_›
    · cases h
  | ack w redis =>
    simp only [step] at h
    split at h
    · cases h
      exact .acked ‹_›
    · cases h
  | settle w now now' redis =>
    simp only [step] at h
    split at h
    · rename_i job err hpc
      split at h
      · cases h
        exact .givenUp hpc ‹_›
      · rename_i hup
        cases hj : RedisQueue.nackJob now job err with
        | none =>
          simp only [hj] at h
          cases h
          exact .forgotten hpc hup (by simp [hj])
        | some job' =>
          cases hm : RedisQueue.message c now' job' with
          | error err =>
            simp only [hj, hm] at h
            cases h
            refine .forgotten hpc hup (fun job'' v hj' => ?_)
            obtain rfl : job' = job'' := Option.some.inj (hj.symm.trans hj')
            simp [hm]
          | ok v =>
            simp only [hj, hm] at h
            cases h
            exact .nacked hpc hup hj hm
    · cases h
  | readd w redis id =>
    simp only [step] at h
    split at h
    · cases redis with
      | some err => cases h; exact .readdFailed ‹_›
      | none =>
        simp only at h
        split at h <;> cases h
        exact .readded ‹_› ‹_›
    · cases h

/-! ## The pool -/

/-- The message of the entry decodes. -/
def Decodes (c : JobCodec π) (e : Entry π) : Prop := (jobFromMessage c e.values).isOk = true

instance (c : JobCodec π) (e : Entry π) : Decidable (Decodes c e) :=
  inferInstanceAs (Decidable (_ = true))

/-- All workers are inside `workerLoop`. -/
def Whole (s : RedisJobs n π) : Prop := ∀ w, s.pc w ≠ .returned

/-- A poll meets an undelivered entry and does not fail, and the entry that it
brings decodes. -/
def PollDelivers (c : JobCodec π) (s : RedisJobs n π) : RedisAct n π → Prop
  | .read _ (.failed _) => False
  | .read _ _ => s.stream.undelivered ≠ []
  | .decode w _ => ∀ e, s.pc w = .inQueue (.delivered e) → Decodes c e
  | _ => True

/-- Moving a worker of a whole pool leaves it whole unless that worker
returns. -/
theorem whole_setPc_iff {s t : RedisJobs n π} (hs : s.Whole) (w : Fin n) (p : RedisWorker π)
    (hpc : t.pc = (s.setPc w p).pc) : t.Whole ↔ p ≠ .returned := by
  constructor
  · intro h
    have := h w
    rwa [hpc, setPc_pc, Function.update_self] at this
  · intro hp w'
    rcases moved_cases hpc w' with ⟨-, hw'⟩ | ⟨-, hw'⟩
    · rwa [hw']
    · rw [hw']
      exact hs w'

/-- A worker that has returned stays so. -/
theorem not_whole_stays {c : JobCodec π} (s : RedisJobs n π) (a : RedisAct n π)
    (s' : RedisJobs n π) (hs : ¬ s.Whole) (h : s.step c a = some s') : ¬ s'.Whole := by
  -- in a whole pool after the step, every worker the step has not moved was there before it
  have key : ∀ w p, s.pc w ≠ .returned → s'.pc = (s.setPc w p).pc → ¬ s'.Whole := by
    intro w p hw hpc hwhole
    refine hs (fun w' => ?_)
    by_cases he : w' = w
    · subst he; exact hw
    · have := hwhole w'
      rwa [hpc, setPc_pc, Function.update_of_ne he] at this
  cases steps_of_step h with
  | refused | enqueued _ _ | produced _ | register | cancel | close => exact hs
  | headCancelled hpc | headGoes hpc | readEntry hpc | readNil hpc | readFailed hpc
  | malformed hpc | decoded hpc | handlerFound hpc | handlerMissing hpc | succeeded hpc
  | failed hpc | acked hpc | givenUp hpc | forgotten hpc | nacked hpc | readdFailed hpc
  | readded hpc => exact key _ _ (by simp [hpc]) rfl

theorem cancelled_stays {c : JobCodec π} (s : RedisJobs n π) (a : RedisAct n π)
    (s' : RedisJobs n π) (hs : s.cancelled = true) (h : s.step c a = some s') :
    s'.cancelled = true := by
  cases steps_of_step h with
  | cancel => rfl
  | _ => exact hs

/-- While the context is live, a step keeps the pool whole exactly if it is
not a poll that misses. -/
theorem whole_iff_poll_delivers {c : JobCodec π} (s : RedisJobs n π) (a : RedisAct n π)
    (s' : RedisJobs n π) (hs : s.Whole) (hctx : ¬ s.cancelled = true)
    (h : s.step c a = some s') : s'.Whole ↔ PollDelivers c s a := by
  cases steps_of_step h with
  | refused | enqueued _ _ | produced _ | register | cancel | close => exact iff_of_true hs trivial
  | headCancelled _ hc => exact absurd hc hctx
  | readNil _ hu =>
    refine .trans (whole_setPc_iff hs _ _ (by rfl)) ?_
    exact iff_of_false (by simp) (fun hp => hp hu)
  | readFailed _ =>
    refine .trans (whole_setPc_iff hs _ _ (by rfl)) ?_
    exact iff_of_false (by simp) id
  | readEntry _ hu =>
    refine .trans (whole_setPc_iff hs _ _ (by rfl)) ?_
    exact iff_of_true (by simp) (by simp [PollDelivers, hu])
  | malformed hpc hj =>
    refine .trans (whole_setPc_iff hs _ _ (by rfl)) ?_
    refine iff_of_false (by simp) (fun hp => ?_)
    have hdec := hp _ hpc
    simp [Decodes, hj, Except.isOk, Except.toBool] at hdec
  | @decoded w _ e _ hpc hj =>
    refine .trans (whole_setPc_iff hs _ _ (by rfl)) ?_
    refine iff_of_true (by simp) (fun e' he' => ?_)
    rw [hpc] at he'
    cases he'
    simp [Decodes, hj, Except.isOk, Except.toBool]
  | headGoes _ _ | handlerFound _ _ | handlerMissing _ _ | succeeded _ | failed _ | acked _
  | givenUp _ _ | forgotten _ _ _ | nacked _ _ _ _ | readdFailed _ | readded _ _ =>
    refine .trans (whole_setPc_iff hs _ _ (by rfl)) ?_
    exact iff_of_true (by simp) trivial

end RedisJobs

/-- **The pool shrinks on its own over Redis, exactly when a poll misses, and
never over memory.** Over a `redisQueue`, whatever the stream holds and other
clients add to it, and as long as the context is not cancelled, all workers
are inside `workerLoop` if and only if every poll so far met an undelivered
entry, did not fail, and the entry decoded. Over a `memoryQueue` they are, as
long as the context is not cancelled and the queue not closed. -/
theorem pool_whole_iff_polls_deliver {π : Type} (c : JobCodec π) (n : Nat) :
    (∀ (st : Stream π) (as : List (RedisAct n π)) (s : RedisJobs n π),
      run (RedisJobs.step c) (.init st) as = some s → s.cancelled = false →
      ((∀ w, s.pc w ≠ .returned) ↔
        Along (RedisJobs.step c) (RedisJobs.PollDelivers c) (.init st) as)) ∧
    (∀ (as : List (MemAct n)) (s : MemJobs n), run MemJobs.step .init as = some s →
      s.cancelled = false → s.queue.closed = false → ∀ w, s.pc w ≠ .returned) := by
  refine ⟨fun st as s hrun hctx => ?_,
    fun as s hrun hctx hopen => MemJobs.workers_stay hrun hctx hopen⟩
  have hall : Along (RedisJobs.step c) (fun _ _ => True) (.init st) as :=
    Along.of_forall (fun _ _ => trivial) _ _
  have hlive := along_not_trapped (C := fun _ _ => True)
    (T := fun s : RedisJobs n π => s.cancelled = true)
    (fun s a s' hs _ => RedisJobs.cancelled_stays s a s' hs) hall hrun (by simp [hctx])
  have hiff := not_trapped_iff_along (T := fun s : RedisJobs n π => ¬ s.Whole)
    (fun s a s' hs _ => RedisJobs.not_whole_stays s a s' hs)
    (fun s a s' hs hctx hstep => by
      rw [not_not] at hs ⊢
      exact RedisJobs.whole_iff_poll_delivers s a s' hs hctx hstep)
    hlive (by simp [RedisJobs.Whole, RedisJobs.init]) hrun
  rwa [not_not] at hiff

/-- A mail job with nothing in it. -/
def sampleJob (maxRetries : Int) : Job :=
  { Job.zero with id := "job-1", type := "mail", maxRetries := maxRetries }

/-- A worker whose poll meets a job and that completes it is in its loop. -/
theorem pool_whole_after_job :
    let as : List (RedisAct 1 Encoding.Document) :=
      [.register "mail", .enqueue (sampleJob 3) 0 none "1-0", .loopHead 0, .read 0 .entry,
        .decode 0 none, .findHandler 0, .handled 0 none, .ack 0 none]
    ∃ s, run (RedisJobs.step JobCodec.json) (.init .empty) as = some s ∧ s.pc 0 = .top ∧
      Along (RedisJobs.step JobCodec.json) (RedisJobs.PollDelivers JobCodec.json)
        (.init .empty) as := by
  intro as
  have hends : ∃ s, run (RedisJobs.step JobCodec.json) (.init .empty) as = some s ∧
      s.pc 0 = .top ∧ s.cancelled = false := exists_run_of_any (by decide +kernel)
  obtain ⟨s, hrun, htop, hctx⟩ := hends
  have hall : ∀ w, s.pc w ≠ .returned := by
    intro w
    rw [Subsingleton.elim w 0, htop]
    simp
  have h := (pool_whole_iff_polls_deliver JobCodec.json 1).1 .empty as s hrun hctx
  exact ⟨s, hrun, htop, h.mp hall⟩

/-- A poll that times out without an entry makes the only worker return, with
a live context; the job of the next moment is not read by anybody. -/
theorem pool_empty_after_idle_poll :
    let as : List (RedisAct 1 Encoding.Document) :=
      [.loopHead 0, .read 0 .nil, .enqueue (sampleJob 3) 0 none "1-0"]
    ∃ s, run (RedisJobs.step JobCodec.json) (.init .empty) as = some s ∧
      s.cancelled = false ∧ s.pc 0 = .returned ∧
      s.stream.undelivered.map Entry.id = ["1-0"] :=
  exists_run_of_any (by decide +kernel)

/-! ## Where a job is -/

/-- `EnqueuedAt` after `Enqueue` has filled it in. -/
def RedisQueue.stamp (now : Time) (job : Job) : Time :=
  if job.enqueuedAt = Time.zero then now else job.enqueuedAt

/-- The job that `Enqueue` encodes: the one it was given, with both times. -/
def RedisQueue.stamped (now : Time) (job : Job) : Job :=
  { job with
    enqueuedAt := stamp now job
    runAfter := if job.runAfter = Time.zero then stamp now job else job.runAfter }

theorem RedisQueue.stamped_eq (now : Time) (job : Job) :
    stamped now job =
      let job := if job.enqueuedAt = Time.zero then { job with enqueuedAt := now } else job
      if job.runAfter = Time.zero then { job with runAfter := job.enqueuedAt } else job := by
  by_cases he : job.enqueuedAt = Time.zero <;> by_cases hr : job.runAfter = Time.zero <;>
    simp [stamped, stamp, he, hr]

/-- What `Enqueue` writes is an encoding of that job. -/
theorem RedisQueue.message_ok {π : Type} {c : JobCodec π} {now : Time} {job : Job} {v : Values π}
    (h : RedisQueue.message c now job = .ok v) :
    ∃ p, c.marshal (stamped now job) = .ok p ∧ v = ⟨some job.id, some job.type, some p⟩ := by
  simp only [RedisQueue.message, ← stamped_eq] at h
  split at h
  · cases h
  · split at h
    · cases h
    · rename_i p hp
      cases h
      exact ⟨p, hp, rfl⟩

/-- And `jobFromMessage` reads it back. -/
theorem RedisQueue.jobFromMessage_message {π : Type} {c : JobCodec π} (hc : c.RoundTrips)
    {now : Time} {job : Job} {v : Values π} (h : RedisQueue.message c now job = .ok v) :
    jobFromMessage c v = .ok (stamped now job) := by
  obtain ⟨p, hp, rfl⟩ := message_ok h
  simp only [jobFromMessage, hc.unmarshal_marshal _ _ hp, Option.getD_some]
  rfl

/-- What `Enqueue` writes decodes. -/
theorem RedisQueue.message_decodes {π : Type} {c : JobCodec π} (hc : c.RoundTrips) {now : Time}
    {job : Job} {v : Values π} (h : RedisQueue.message c now job = .ok v) (id : String) :
    RedisJobs.Decodes c ⟨id, v⟩ := by
  simp [RedisJobs.Decodes, jobFromMessage_message hc h, Except.isOk, Except.toBool]

namespace RedisJobs

variable {n : Nat} {π : Type}

/-- The job that was accepted as number `o` has an undelivered entry, one on
the given pending list, a handler that returned nil, or a dead letter. -/
def CopyIn (s : RedisJobs n π) (pending : List String) (o : Nat) : Prop :=
  (∃ e ∈ s.stream.undelivered, (e.id, o) ∈ s.origins) ∨
  (∃ id ∈ pending, (id, o) ∈ s.origins) ∨
  (∃ j ∈ s.completed, (j.id, o) ∈ s.origins) ∨
  (∃ d ∈ s.dead, (d.job.id, o) ∈ s.origins)

/-- The job is in one of the four places. -/
def Present (s : RedisJobs n π) (o : Nat) : Prop := s.CopyIn s.stream.pending o

instance (s : RedisJobs n π) (pending : List String) (o : Nat) :
    Decidable (s.CopyIn pending o) :=
  inferInstanceAs (Decidable (_ ∨ _ ∨ _ ∨ _))

instance (s : RedisJobs n π) (o : Nat) : Decidable (s.Present o) :=
  inferInstanceAs (Decidable (s.CopyIn _ o))

def AllPresent (s : RedisJobs n π) : Prop := ∀ o < s.accepted.length, s.Present o

instance : DecidablePred (AllPresent : RedisJobs n π → Prop) :=
  fun s => inferInstanceAs (Decidable (∀ o < s.accepted.length, s.Present o))

/-- The job is in the hands of a worker that stands between the `XACK` and
the `XADD` of its `Nack`. -/
def BetweenCommands (s : RedisJobs n π) (o : Nat) : Prop :=
  ∃ w job v, s.pc w = .inQueue (.readding job v) ∧ (job.id, o) ∈ s.origins

/-- An `XACK` of `Nack` that takes effect leaves the job another copy. -/
def KeepsCopy (s : RedisJobs n π) : RedisAct n π → Prop
  | .settle w _ _ none => ∀ job err, s.pc w = .failing job err → ¬ job.GivenUp →
      ∀ o < s.accepted.length, (job.id, o) ∈ s.origins → s.CopyIn (s.stream.xack job.id).pending o
  | _ => True

/-- A `Nack` whose `XACK` takes effect gets to its `XADD`: the second count of
the attempt stays within the limit, and the job encodes. And an `XADD` of
`Nack` fails only if the old entry is still pending. -/
def NackReadds (c : JobCodec π) (s : RedisJobs n π) : RedisAct n π → Prop
  | .settle w now now' none => ∀ job err, s.pc w = .failing job err → ¬ job.GivenUp →
      job.attempts < job.maxRetries ∧
        ∀ job', RedisQueue.nackJob now job err = some job' →
          ∃ v, RedisQueue.message c now' job' = .ok v
  | .readd w (some _) _ => ∀ job v, s.pc w = .inQueue (.readding job v) →
      job.id ∈ s.stream.pending
  | _ => True

instance decidableEncodes (c : JobCodec π) (now : Time) (job : Job) :
    Decidable (∃ v, RedisQueue.message c now job = .ok v) :=
  match RedisQueue.message c now job with
  | .ok v => isTrue ⟨v, rfl⟩
  | .error _ => isFalse (fun ⟨_, h⟩ => by cases h)

instance decidableReadding (Q : Job → Prop) [DecidablePred Q] :
    (p : RedisWorker π) → Decidable (∀ job v, p = .inQueue (.readding job v) → Q job)
  | .inQueue (.readding job v) =>
      decidable_of_iff (Q job) ⟨fun h _ _ he => by cases he; exact h, fun h => h job v rfl⟩
  | .inQueue (.delivered _) | .top | .dequeuing | .got _ | .handling _ | .failing _ _
  | .succeeded _ | .returned => isTrue (fun _ _ h => by cases h)

instance (c : JobCodec π) (s : RedisJobs n π) : (a : RedisAct n π) → Decidable (NackReadds c s a)
  | .settle w now now' none => WorkerPc.decidableFailing (fun (job : Job) err => ¬ job.GivenUp →
      job.attempts < job.maxRetries ∧ ∀ job' ∈ RedisQueue.nackJob now job err,
        ∃ v, RedisQueue.message c now' job' = .ok v) (s.pc w)
  | .readd w (some _) _ => decidableReadding (fun job => job.id ∈ s.stream.pending) (s.pc w)
  | .settle _ _ _ (some _) | .readd _ none _ | .enqueue .. | .produce .. | .register _ | .cancel
  | .close | .loopHead _ | .read .. | .decode .. | .findHandler _ | .handled .. | .ack .. =>
      isTrue trivial

/-- What ties the entries of accepted jobs to the stream. -/
structure Tracked (c : JobCodec π) (s : RedisJobs n π) : Prop where
  origin_ids : ∀ p ∈ s.origins, p.1 ∈ s.stream.ids
  decodes : ∀ e ∈ s.stream.delivered ++ s.stream.undelivered, ∀ o, (e.id, o) ∈ s.origins →
    Decodes c e
  delivered : ∀ w e, s.pc w = .inQueue (.delivered e) → e ∈ s.stream.delivered
  readding : ∀ w job v, s.pc w = .inQueue (.readding job v) → ∀ id, Decodes c ⟨id, v⟩
  succeeded : ∀ w job, s.pc w = .succeeded job → job ∈ s.completed

theorem tracked_init (c : JobCodec π) (st : Stream π) : Tracked c (init st : RedisJobs n π) where
  origin_ids := by simp [init]
  decodes := by simp [init]
  delivered := by simp [init]
  readding := by simp [init]
  succeeded := by simp [init]

/-- Moving a worker, with the same entries and more completed jobs. -/
theorem Tracked.setPc {c : JobCodec π} {s t : RedisJobs n π} (hs : Tracked c s) (w : Fin n)
    (p : RedisWorker π) (hpc : t.pc = (s.setPc w p).pc)
    (hdel : t.stream.delivered = s.stream.delivered)
    (hundel : t.stream.undelivered = s.stream.undelivered) (hor : t.origins = s.origins)
    (hcomp : s.completed ⊆ t.completed)
    (hd : ∀ e, p = .inQueue (.delivered e) → e ∈ s.stream.delivered)
    (hr : ∀ job v, p = .inQueue (.readding job v) → ∀ id, Decodes c ⟨id, v⟩)
    (hsu : ∀ job, p = .succeeded job → job ∈ t.completed) : Tracked c t := by
  refine ⟨?_, ?_, ?_, ?_, ?_⟩
  · rw [hor, Stream.ids, hdel, hundel]
    exact hs.origin_ids
  · rw [hor, hdel, hundel]
    exact hs.decodes
  · intro w' e he
    rw [hdel]
    rcases moved_cases hpc w' with ⟨-, h⟩ | ⟨-, h⟩
    · exact hd e (h.symm.trans he)
    · exact hs.delivered w' e (h.symm.trans he)
  · intro w' job v he
    rcases moved_cases hpc w' with ⟨-, h⟩ | ⟨-, h⟩
    · exact hr job v (h.symm.trans he)
    · exact hs.readding w' job v (h.symm.trans he)
  · intro w' job he
    rcases moved_cases hpc w' with ⟨-, h⟩ | ⟨-, h⟩
    · exact hsu job (h.symm.trans he)
    · exact hcomp (hs.succeeded w' job (h.symm.trans he))

/-- An `XADD` under a new ID, for accepted jobs only if what it writes
decodes. -/
theorem Tracked.xadd {c : JobCodec π} {s : RedisJobs n π} (hs : Tracked c s) {id : String}
    (hid : id ∉ s.stream.ids) (v : Values π) (new : List (String × Nat))
    (hnew : ∀ p ∈ new, p.1 = id ∧ Decodes c ⟨id, v⟩) (accepted : List Job) :
    Tracked c { s with
      stream := s.stream.xadd id v, accepted := accepted, origins := s.origins ++ new } where
  origin_ids := by
    intro p hp
    simp only [Stream.ids, Stream.xadd, ← List.append_assoc, List.map_append, List.mem_append] at *
    rcases hp with hp | hp
    · exact .inl (by simpa [Stream.ids] using hs.origin_ids p hp)
    · exact .inr (by simp [(hnew p hp).1])
  decodes := by
    intro e he o ho
    simp only [Stream.xadd, ← List.append_assoc, List.mem_append, List.mem_singleton] at he
    rcases List.mem_append.mp ho with ho | ho
    · rcases he with he | rfl
      · exact hs.decodes e (List.mem_append.mpr he) o ho
      · exact absurd (hs.origin_ids _ ho) hid
    · obtain ⟨hpe, hdec⟩ := hnew _ ho
      rcases he with he | rfl
      · exact absurd (hpe ▸ List.mem_map_of_mem (List.mem_append.mpr he)) hid
      · exact hdec
  delivered := hs.delivered
  readding := hs.readding
  succeeded := hs.succeeded

/-- Handing an entry over keeps it in the stream. -/
theorem Tracked.read {c : JobCodec π} {s : RedisJobs n π} (hs : Tracked c s) {e : Entry π}
    {rest : List (Entry π)} (hu : s.stream.undelivered = e :: rest) (pending : List String) :
    Tracked c { s with stream := ⟨s.stream.delivered ++ [e], rest, pending⟩ } where
  origin_ids := by simpa [Stream.ids, hu] using hs.origin_ids
  decodes := by simpa [hu] using hs.decodes
  delivered := fun w e' he => List.mem_append_left _ (hs.delivered w e' he)
  readding := hs.readding
  succeeded := hs.succeeded

@[simp] theorem xackUnless_delivered (st : Stream π) (redis : Option RedisError) (id : String) :
    (xackUnless st redis id).delivered = st.delivered := by
  unfold xackUnless
  split <;> rfl

@[simp] theorem xackUnless_undelivered (st : Stream π) (redis : Option RedisError) (id : String) :
    (xackUnless st redis id).undelivered = st.undelivered := by
  unfold xackUnless
  split <;> rfl

theorem ids_xadd {st : Stream π} {id id' : String} {v : Values π} :
    id' ∈ (st.xadd id v).ids ↔ id' ∈ st.ids ∨ id' = id := by
  simp [Stream.ids, Stream.xadd, or_assoc, eq_comm]

theorem ids_xackUnless {st : Stream π} {redis : Option RedisError} {id id' : String} :
    id' ∈ (xackUnless st redis id).ids ↔ id' ∈ st.ids := by
  simp [Stream.ids]

theorem step_tracked {c : JobCodec π} (hc : c.RoundTrips) (s : RedisJobs n π)
    (a : RedisAct n π) (s' : RedisJobs n π) (hs : Tracked c s) (h : s.step c a = some s') :
    Tracked c s' := by
  cases steps_of_step h with
  | refused | register | cancel | close => exact ⟨hs.1, hs.2, hs.3, hs.4, hs.5⟩
  | @enqueued job now id v hm hid =>
    refine hs.xadd hid v _ ?_ _
    intro p hp
    rw [List.mem_singleton.mp hp]
    exact ⟨rfl, RedisQueue.message_decodes hc hm id⟩
  | @produced v id hid =>
    have := hs.xadd hid v [] (by simp) s.accepted
    rwa [List.append_nil] at this
  | @readEntry w e rest hpc hu =>
    refine (hs.read hu _).setPc w _ (by rfl) rfl rfl rfl (fun _ h => h) ?_ (by simp) (by simp)
    intro e' he'
    cases he'
    exact List.mem_append_right _ (List.mem_singleton_self e)
  | @succeeded w job hpc =>
    refine hs.setPc w _ (by rfl) rfl rfl rfl (fun _ => List.mem_append_left _) (by simp)
      (by simp) ?_
    intro job' hj
    cases hj
    exact List.mem_append_right _ (List.mem_singleton_self job)
  | @nacked w now now' redis job err job' v hpc hup hj hm =>
    refine hs.setPc w _ (by rfl) (xackUnless_delivered ..) (xackUnless_undelivered ..) rfl
      (fun _ h => h) (by simp) ?_ (by simp)
    intro _ _ hr id
    cases hr
    exact RedisQueue.message_decodes hc hm id
  | @readded w id job v hpc hid =>
    refine (hs.xadd hid v _ ?_ s.accepted).setPc w .top (by rfl) rfl rfl rfl (fun _ h => h)
      (by simp) (by simp) (by simp)
    intro p hp
    obtain ⟨q, _, rfl⟩ := List.mem_map.mp hp
    exact ⟨rfl, hs.readding w job v hpc id⟩
  | malformed hpc | acked hpc | forgotten hpc =>
    exact hs.setPc _ _ (by rfl) (xackUnless_delivered ..) (xackUnless_undelivered ..) rfl
      (fun _ h => h) (by simp) (by simp) (by simp)
  | headCancelled hpc | headGoes hpc | readNil hpc | readFailed hpc | decoded hpc
  | handlerFound hpc | handlerMissing hpc | failed hpc | givenUp hpc | readdFailed hpc =>
    exact hs.setPc _ _ (by rfl) rfl rfl rfl (fun _ h => h) (by simp) (by simp) (by simp)

/-! ### Copies -/

/-- What a step adds, and an undelivered entry that becomes a pending one,
take no copy away. -/
theorem CopyIn.mono {s t : RedisJobs n π} {P Q : List String} {o : Nat} (h : s.CopyIn P o)
    (hu : ∀ e ∈ s.stream.undelivered, e ∈ t.stream.undelivered ∨ e.id ∈ Q) (hp : P ⊆ Q)
    (hcomp : s.completed ⊆ t.completed) (hdead : s.dead ⊆ t.dead)
    (hor : s.origins ⊆ t.origins) : t.CopyIn Q o := by
  rcases h with ⟨e, he, ho⟩ | ⟨id, hid, ho⟩ | ⟨j, hj, ho⟩ | ⟨d, hd, ho⟩
  · rcases hu e he with h | h
    · exact .inl ⟨e, h, hor ho⟩
    · exact .inr (.inl ⟨e.id, h, hor ho⟩)
  · exact .inr (.inl ⟨id, hp hid, hor ho⟩)
  · exact .inr (.inr (.inl ⟨j, hcomp hj, hor ho⟩))
  · exact .inr (.inr (.inr ⟨d, hdead hd, hor ho⟩))

/-- An `XACK` takes a copy away only from the job of its entry. -/
theorem Present.xack {s : RedisJobs n π} {o : Nat} (h : s.Present o) (id : String) :
    (id, o) ∈ s.origins ∨ s.CopyIn (s.stream.xack id).pending o := by
  rcases h with h | ⟨id', hid', ho⟩ | h | h
  · exact .inr (.inl h)
  · by_cases he : id' = id
    · exact .inl (he ▸ ho)
    · exact .inr (.inr (.inl ⟨id', by simp [Stream.xack, hid', he], ho⟩))
  · exact .inr (.inr (.inr (.inl h)))
  · exact .inr (.inr (.inr (.inr h)))

/-- The same for one that may fail. -/
theorem Present.xackUnless {s : RedisJobs n π} {o : Nat} (h : s.Present o)
    (redis : Option RedisError) (id : String) :
    (redis = none ∧ (id, o) ∈ s.origins) ∨
      s.CopyIn (RedisJobs.xackUnless s.stream redis id).pending o := by
  cases redis with
  | some err => exact .inr h
  | none => exact (h.xack id).imp_left (fun ho => ⟨rfl, ho⟩)

theorem CopyIn.present {s t : RedisJobs n π} {redis : Option RedisError} {id : String} {o : Nat}
    (h : s.CopyIn (RedisJobs.xackUnless s.stream redis id).pending o)
    (hst : t.stream = RedisJobs.xackUnless s.stream redis id) (hcomp : t.completed = s.completed)
    (hdead : t.dead = s.dead) (hor : t.origins = s.origins) : t.Present o := by
  unfold Present CopyIn
  rw [hst, hcomp, hdead, hor, xackUnless_undelivered]
  exact h

/-- An accepted job has a copy after every step but one: the `XACK` of a
`Nack` of that job. -/
theorem Present.step {c : JobCodec π} {s s' : RedisJobs n π} {a : RedisAct n π} {o : Nat}
    (hs : Tracked c s) (h : s.Present o) (hstep : s.step c a = some s') :
    s'.Present o ∨ ∃ w now now' job err, a = .settle w now now' none ∧
      s.pc w = .failing job err ∧ ¬ job.GivenUp ∧ (job.id, o) ∈ s.origins := by
  cases steps_of_step hstep with
  | refused | register | cancel | close | headCancelled _ | headGoes _ | readNil _ | readFailed _
  | decoded _ | handlerFound _ | handlerMissing _ | failed _ | readdFailed _ => exact .inl h
  | enqueued _ _ | produced _ | readded _ _ =>
    refine .inl (CopyIn.mono h (fun e he => .inl (List.mem_append_left _ he)) (fun _ h => h)
      (fun _ h => h) (fun _ h => h) (by simp))
  | @readEntry w e rest _ hu =>
    refine .inl (CopyIn.mono h (fun e' he' => ?_) (List.subset_append_left _ _)
      (fun _ h => h) (fun _ h => h) (fun _ h => h))
    rw [hu] at he'
    rcases List.mem_cons.mp he' with rfl | he'
    · exact .inr (List.mem_append_right _ (List.mem_singleton_self _))
    · exact .inl he'
  | succeeded _ =>
    exact .inl (CopyIn.mono h (fun _ => .inl) (fun _ h => h) (List.subset_append_left _ _)
      (fun _ h => h) (fun _ h => h))
  | givenUp _ _ =>
    exact .inl (CopyIn.mono h (fun _ => .inl) (fun _ h => h) (fun _ h => h)
      (List.subset_append_left _ _) (fun _ h => h))
  | @malformed w redis e msg hpc hj =>
    rcases h.xackUnless redis e.id with ⟨_, ho⟩ | hcopy
    · -- an entry written for an accepted job decodes
      have hdec := hs.decodes e (List.mem_append_left _ (hs.delivered w e hpc)) o ho
      simp [Decodes, hj, Except.isOk, Except.toBool] at hdec
    · exact .inl (hcopy.present rfl rfl rfl rfl)
  | @acked w redis job hpc =>
    rcases h.xackUnless redis job.id with ⟨_, ho⟩ | hcopy
    · exact .inl (.inr (.inr (.inl ⟨job, hs.succeeded w job hpc, ho⟩)))
    · exact .inl (hcopy.present rfl rfl rfl rfl)
  | @forgotten w now now' redis job err hpc hup _ | @nacked w now now' redis job err _ _ hpc hup =>
    rcases h.xackUnless redis job.id with ⟨rfl, ho⟩ | hcopy
    · exact .inr ⟨w, now, now', job, err, rfl, hpc, hup, ho⟩
    · exact .inl (hcopy.present rfl rfl rfl rfl)

/-- A job is accepted with its first entry. -/
theorem accepted_step {c : JobCodec π} {s s' : RedisJobs n π} {a : RedisAct n π}
    (hstep : s.step c a = some s') {o : Nat} (ho : o < s'.accepted.length) :
    o < s.accepted.length ∨ s'.Present o := by
  cases steps_of_step hstep with
  | @enqueued job now id v _ _ =>
    by_cases h : o < s.accepted.length
    · exact .inl h
    · have ho : o = s.accepted.length := by
        simp only [List.length_append, List.length_singleton] at ho
        omega
      refine .inr (.inl ⟨⟨id, v⟩, ?_, ?_⟩)
      · simp [Stream.xadd]
      · simp [ho]
  | _ => exact .inl ho

/-- After the `XACK` of a `Nack` a job has the copies that it leaves. -/
theorem present_settle_iff {c : JobCodec π} {s s' : RedisJobs n π} {w : Fin n} {now now' : Time}
    {job : Job} {err : String} {o : Nat} (hstep : s.step c (.settle w now now' none) = some s')
    (hpc : s.pc w = .failing job err) (hup : ¬ job.GivenUp) :
    s'.Present o ↔ s.CopyIn (s.stream.xack job.id).pending o := by
  cases steps_of_step hstep with
  | givenUp hpc' hup' =>
    rw [hpc] at hpc'
    cases hpc'
    exact absurd hup' hup
  | forgotten hpc' _ | nacked hpc' _ =>
    rw [hpc] at hpc'
    cases hpc'
    exact Iff.rfl

theorem accepted_settle {c : JobCodec π} {s s' : RedisJobs n π} {w : Fin n} {now now' : Time}
    {redis : Option RedisError} (hstep : s.step c (.settle w now now' redis) = some s') :
    s'.accepted = s.accepted := by
  cases steps_of_step hstep <;> rfl

/-- **One step, exactly.** From a state in which all accepted jobs are
present, a step leads to such a state if and only if it is not the `XACK` of
a `Nack` on the only copy of a job. -/
theorem allPresent_step_iff {c : JobCodec π} (s : RedisJobs n π) (a : RedisAct n π)
    (s' : RedisJobs n π) (hs : Tracked c s) (hall : s.AllPresent) (hstep : s.step c a = some s') :
    s'.AllPresent ↔ KeepsCopy s a := by
  constructor
  · intro hall'
    cases a with
    | settle w now now' redis =>
      cases redis with
      | some err => trivial
      | none =>
        intro job err hpc hup o ho _
        rw [← accepted_settle hstep] at ho
        exact (present_settle_iff hstep hpc hup).mp (hall' o ho)
    | _ => trivial
  · intro hkeep o ho
    rcases accepted_step hstep ho with ho | h
    · rcases (hall o ho).step hs hstep with h | ⟨w, now, now', job, err, rfl, hpc, hup, hor⟩
      · exact h
      · exact (present_settle_iff hstep hpc hup).mpr (hkeep job err hpc hup o ho hor)
    · exact h

theorem keepsCopy_of_disabled {c : JobCodec π} (s : RedisJobs n π) (a : RedisAct n π)
    (h : s.step c a = none) : KeepsCopy s a := by
  cases a with
  | settle w now now' redis =>
    cases redis with
    | some err => trivial
    | none =>
      intro job err hpc hup
      simp only [step, hpc, hup, ↓reduceIte] at h
      split at h
      · cases h
      · split at h <;> cases h
  | _ => trivial

/-! ### The window of `Nack` -/

theorem nackJob_eq_some (now : Time) {job : Job} (err : String)
    (h : job.attempts < job.maxRetries) :
    ∃ job', RedisQueue.nackJob now job err = some job' ∧ job'.id = job.id := by
  have hlimit : ¬ job.attempts + 1 > job.maxRetries := by omega
  simp [RedisQueue.nackJob, hlimit]

/-- A worker leaves the window with the job written to the stream, or with
its old entry still pending. -/
theorem BetweenCommands.step {c : JobCodec π} {s s' : RedisJobs n π} {a : RedisAct n π} {o : Nat}
    (h : s.BetweenCommands o) (hnack : NackReadds c s a) (hstep : s.step c a = some s') :
    s'.Present o ∨ s'.BetweenCommands o := by
  obtain ⟨w, job, v, hpc, ho⟩ := h
  -- a step of another worker leaves `w` in the window
  have hother : ∀ w' p, s'.pc = (s.setPc w' p).pc → s.origins ⊆ s'.origins → w ≠ w' →
      s'.BetweenCommands o := by
    intro w' p hpc' hor hne
    refine ⟨w, job, v, ?_, hor ho⟩
    rw [hpc', setPc_pc, Function.update_of_ne hne]
    exact hpc
  have hne : ∀ {w' p}, s.pc w' = p → p ≠ .inQueue (.readding job v) → w ≠ w' := by
    rintro w' p hp hne rfl
    exact hne (hp.symm.trans hpc)
  cases steps_of_step hstep with
  | refused | produced _ | register | cancel | close => exact .inr ⟨w, job, v, hpc, ho⟩
  | enqueued _ _ => exact .inr ⟨w, job, v, hpc, List.mem_append_left _ ho⟩
  | headCancelled hp | headGoes hp | readEntry hp | readNil hp | readFailed hp | malformed hp
  | decoded hp | handlerFound hp | handlerMissing hp | succeeded hp | failed hp | acked hp
  | givenUp hp | forgotten hp | nacked hp =>
    exact .inr (hother _ _ (by rfl) (fun _ h => h) (hne hp (by simp)))
  | @readdFailed w' err id job' v' hp =>
    by_cases he : w = w'
    · subst he
      rw [hpc] at hp
      cases hp
      exact .inl (.inr (.inl ⟨job.id, hnack job v hpc, ho⟩))
    · exact .inr (hother w' _ (by rfl) (fun _ h => h) he)
  | @readded w' id job' v' hp hid =>
    by_cases he : w = w'
    · subst he
      rw [hpc] at hp
      cases hp
      refine .inl (.inl ⟨⟨id, v⟩, ?_, ?_⟩)
      · simp [Stream.xadd]
      · refine List.mem_append_right _ (List.mem_map.mpr ⟨(job.id, o), ?_, rfl⟩)
        simpa using ho
    · exact .inr (hother w' .top (by rfl) (by simp) he)

/-- A job in one of the four places stays there, or enters the window. -/
theorem Present.step_window {c : JobCodec π} {s s' : RedisJobs n π} {a : RedisAct n π} {o : Nat}
    (hs : Tracked c s) (h : s.Present o) (hnack : NackReadds c s a)
    (hstep : s.step c a = some s') : s'.Present o ∨ s'.BetweenCommands o := by
  rcases h.step hs hstep with h | ⟨w, now, now', job, err, rfl, hpc, hup, ho⟩
  · exact .inl h
  · obtain ⟨hlimit, hencodes⟩ := hnack job err hpc hup
    obtain ⟨job', hj, hid⟩ := nackJob_eq_some now err hlimit
    obtain ⟨v, hm⟩ := hencodes job' hj
    simp only [RedisJobs.step, hpc, hup, hj, hm, ↓reduceIte] at hstep
    cases hstep
    exact .inr ⟨w, job', v, Function.update_self .., hid ▸ ho⟩

/-- **A job is missing exactly when `Nack` has acknowledged its only copy.**
For any number of workers, any `MaxRetries`, any outcomes, and any command
failing without effect:

* in every state of a run each accepted job is an undelivered entry, a pending
  one, completed or dead-lettered, if and only if no `XACK` of a `Nack` takes
  effect on the only copy of a job;
* if each `Nack` whose `XACK` takes effect gets to its `XADD` (`Attempts` is
  below `MaxRetries` and the job encodes) and that `XADD` does not fail unless
  the old entry is still pending, each accepted job is in one of the four
  places or in the hands of a worker between those two commands. -/
theorem job_missing_iff_only_copy_acked {c : JobCodec π} (hc : c.RoundTrips) (st : Stream π)
    (as : List (RedisAct n π)) :
    (Always (step c) AllPresent (init st) as ↔ Along (step c) KeepsCopy (init st) as) ∧
    ∀ s, run (step c) (init st) as = some s → Along (step c) (NackReadds c) (init st) as →
      ∀ o < s.accepted.length, s.Present o ∨ s.BetweenCommands o := by
  refine ⟨?_, fun s hrun hnack => ?_⟩
  · exact always_iff_along (J := Tracked c) allPresent_step_iff
      (fun s a s' hs h => step_tracked hc s a s' hs h) keepsCopy_of_disabled (tracked_init c st)
      (fun o ho => absurd ho (by simp [init]))
  · have hinv : Tracked c s ∧ ∀ o < s.accepted.length, s.Present o ∨ s.BetweenCommands o := by
      refine hnack.invariant (I := fun s : RedisJobs n π =>
        Tracked c s ∧ ∀ o < s.accepted.length, s.Present o ∨ s.BetweenCommands o) ?_ ?_ hrun
      · intro s a s' ⟨hs, hall⟩ hn hstep
        refine ⟨step_tracked hc s a s' hs hstep, fun o ho => ?_⟩
        rcases accepted_step hstep ho with ho | h
        · rcases hall o ho with h | h
          · exact h.step_window hs hn hstep
          · exact h.step hn hstep
        · exact .inl h
      · exact ⟨tracked_init c st, fun o ho => absurd ho (by simp [init])⟩
    exact hinv.2

/-- A job with three retries whose first attempt fails: its `Nack` acknowledges
the old entry and writes a new one, and the job is there. -/
theorem nacked_job_present :
    let as : List (RedisAct 1 Encoding.Document) :=
      [.enqueue (sampleJob 3) 0 none "1-0", .loopHead 0, .read 0 .entry, .decode 0 none,
        .findHandler 0, .settle 0 0 0 none, .readd 0 none "2-0"]
    ∃ s, run (step JobCodec.json) (init .empty) as = some s ∧ s.pc 0 = .top ∧
      s.stream.pending = [] ∧ s.accepted.length = 1 ∧ (s.Present 0 ∨ s.BetweenCommands 0) := by
  intro as
  have hends : ∃ s, run (step JobCodec.json) (init .empty) as = some s ∧ s.pc 0 = .top ∧
      s.stream.pending = [] ∧ s.accepted.length = 1 := exists_run_of_any (by decide +kernel)
  obtain ⟨s, hrun, htop, hpending, hlen⟩ := hends
  have h := (job_missing_iff_only_copy_acked JobCodec.roundTrips_json .empty as).2 s hrun
    (by decide +kernel) 0 (by omega)
  exact ⟨s, hrun, htop, hpending, hlen, h⟩

/-- A job with one retry whose first attempt fails: `Nack` acknowledges its
entry, counts the attempt again, and forgets it. No command failed, the worker
is back at the head of its loop, and the job is nowhere. -/
theorem nacked_job_lost :
    let as : List (RedisAct 1 Encoding.Document) :=
      [.enqueue (sampleJob 1) 0 none "1-0", .loopHead 0, .read 0 .entry, .decode 0 none,
        .findHandler 0, .settle 0 0 0 none]
    ∃ s, run (step JobCodec.json) (init .empty) as = some s ∧ s.accepted = [sampleJob 1] ∧
      s.pc 0 = .top ∧ s.stream.undelivered = [] ∧ s.stream.pending = [] ∧ s.completed = [] ∧
      s.dead = [] ∧ ¬ s.AllPresent :=
  exists_run_of_any (by decide +kernel)

end RedisJobs

end GoRestApi.Jobs
