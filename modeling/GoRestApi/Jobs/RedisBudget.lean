/-
GoRestApi.Jobs.RedisBudget — how often the handler of a job is invoked, by the
worker pool over the Redis queue, and the retry budget of the two queues side
by side.

The development follows `Jobs.RegistryBudget`. What is different here: the
copies of a job are found by `origins`, since every retry writes an entry with
a new ID; a copy in the stream or inside `Dequeue` or `Nack` is the job that
its message decodes to; and `Nack` counts the attempt that `runJob` has
already counted, so a life is one with `extra = 1`.

`retry_budget` is the comparison. Over memory a job has `MaxRetries + 1`
attempts, over Redis `MaxRetries / 2 + 1`; and a job whose `MaxRetries` is odd
does not get a dead letter over Redis: the second count takes it over the
limit in `Nack`, which forgets it.
-/
import GoRestApi.Jobs.RedisTheorems
import GoRestApi.Jobs.RegistryBudget

namespace GoRestApi.Jobs

open Go Lts Retry

/-! ## The copies of a job -/

section Copies

variable {π : Type} (c : JobCodec π) (mine : String → Prop) [DecidablePred mine]

/-- The job a message decodes to, under the given ID. -/
def valuesCopy (id : String) (v : Values π) : Multiset (Stage × Count String) :=
  match jobFromMessage c v with
  | .ok job => Job.copy mine .queued { job with id := id }
  | .error _ => 0

def RedisPc.copies : RedisPc π → Multiset (Stage × Count String)
  | .delivered e => valuesCopy c mine e.id e.values
  | .readding job v => valuesCopy c mine job.id v

variable {c mine}

theorem valuesCopy_ok {id : String} {v : Values π} {job : Job} (h : jobFromMessage c v = .ok job) :
    valuesCopy c mine id v = Job.copy mine .queued { job with id := id } := by
  simp only [valuesCopy, h]

theorem valuesCopy_error {id : String} {v : Values π} {msg : String}
    (h : jobFromMessage c v = .error msg) : valuesCopy c mine id v = 0 := by
  simp only [valuesCopy, h]

theorem mem_valuesCopy {id : String} {v : Values π} {y : Stage × Count String} :
    y ∈ valuesCopy c mine id v ↔
      mine id ∧ ∃ job, jobFromMessage c v = .ok job ∧ y = (.queued, job.count) := by
  cases h : jobFromMessage c v with
  | error msg => simp [valuesCopy_error h]
  | ok job =>
    rw [valuesCopy_ok h, Job.mem_copy]
    simp [Job.count]

theorem valuesCopy_of_not {id : String} {v : Values π} (h : ¬ mine id) :
    valuesCopy c mine id v = 0 := by
  rw [Multiset.eq_zero_iff_forall_notMem]
  exact fun y hy => h (mem_valuesCopy.mp hy).1

/-- The copies of a job do not depend on which IDs other jobs have. -/
theorem Job.copy_congr {mine' : String → Prop} [DecidablePred mine'] {st : Stage} {j : Job}
    (h : mine j.id ↔ mine' j.id) : j.copy mine st = j.copy mine' st := by
  simp only [Job.copy, h]

theorem valuesCopy_congr {mine' : String → Prop} [DecidablePred mine'] {id id' : String}
    {v : Values π} (h : mine id ↔ mine' id') :
    valuesCopy c mine id v = valuesCopy c mine' id' v := by
  unfold valuesCopy
  split
  · simp only [Job.copy, h]
    rfl
  · rfl

end Copies

/-- What `Enqueue` writes decodes to the job it was given, but for the times
it fills in, and such a job has been encoded. -/
theorem RedisQueue.message_job {π : Type} {c : JobCodec π} (hc : c.RoundTrips) {now : Time}
    {job : Job} {v : Values π} (h : RedisQueue.message c now job = .ok v) :
    ∃ job' p, jobFromMessage c v = .ok job' ∧ job'.count = job.count ∧
      c.marshal job' = .ok p := by
  obtain ⟨p, hp, -⟩ := message_ok h
  exact ⟨stamped now job, p, jobFromMessage_message hc h, rfl, hp⟩

namespace RedisJobs

variable {n : Nat} {π : Type}

/-- The entry `id` was written for the job accepted as number `o`. -/
def Mine (s : RedisJobs n π) (o : Nat) (id : String) : Prop := (id, o) ∈ s.origins

instance (s : RedisJobs n π) (o : Nat) : DecidablePred (s.Mine o) :=
  fun id => inferInstanceAs (Decidable ((id, o) ∈ s.origins))

section CopiesBy

variable (c : JobCodec π) (mine : String → Prop) [DecidablePred mine]

/-- The copies under the given IDs. -/
def copiesBy (s : RedisJobs n π) : Multiset (Stage × Count String) :=
  pile mine (s.stream.undelivered.map fun e => valuesCopy c mine e.id e.values).sum
    (∑ w, (s.pc w).copies mine (RedisPc.copies c mine)) s.completed s.dead

/-- Those that a step of `w` leaves alone, with the given lists. -/
def copiesElse (s : RedisJobs n π) (w : Fin n) (undelivered : List (Entry π))
    (completed : List Job) (dead : List DeadLetterEntry) : Multiset (Stage × Count String) :=
  pile mine (undelivered.map fun e => valuesCopy c mine e.id e.values).sum
    (∑ w' ∈ Finset.univ.erase w, (s.pc w').copies mine (RedisPc.copies c mine)) completed dead

variable {c mine} {s t : RedisJobs n π} {w : Fin n} {p : RedisWorker π}

theorem copiesBy_move (hpc : t.pc = (s.setPc w p).pc) :
    t.copiesBy c mine = p.copies mine (RedisPc.copies c mine) +
      s.copiesElse c mine w t.stream.undelivered t.completed t.dead := by
  rw [copiesBy, hpc, setPc, sum_copies, pile_hands, copiesElse]

theorem copiesBy_at (hpc : s.pc w = p) :
    s.copiesBy c mine = p.copies mine (RedisPc.copies c mine) +
      s.copiesElse c mine w s.stream.undelivered s.completed s.dead :=
  copiesBy_move (by rw [setPc, ← hpc, Function.update_eq_self])

variable {undelivered : List (Entry π)} {completed : List Job} {dead : List DeadLetterEntry}
  {e : Entry π} {job : Job}

theorem copiesElse_cons :
    s.copiesElse c mine w (e :: undelivered) completed dead =
      valuesCopy c mine e.id e.values + s.copiesElse c mine w undelivered completed dead := by
  rw [copiesElse, List.map_cons, List.sum_cons, pile_queued, copiesElse]

theorem copiesElse_append :
    s.copiesElse c mine w (undelivered ++ [e]) completed dead =
      valuesCopy c mine e.id e.values + s.copiesElse c mine w undelivered completed dead := by
  rw [copiesElse, List.map_append, List.sum_append, List.map_singleton, List.sum_singleton,
    add_comm _ (valuesCopy ..), pile_queued, copiesElse]

theorem copiesElse_append_completed :
    s.copiesElse c mine w undelivered (completed ++ [job]) dead =
      job.copy mine .completed + s.copiesElse c mine w undelivered completed dead :=
  pile_completed

theorem copiesElse_append_dead {err : String} :
    s.copiesElse c mine w undelivered completed (dead ++ [.of job err]) =
      job.copy mine .dead + s.copiesElse c mine w undelivered completed dead := pile_dead

theorem copiesBy_xadd (s t : RedisJobs n π) (e : Entry π)
    (hu : t.stream.undelivered = s.stream.undelivered ++ [e]) (hpc : t.pc = s.pc)
    (hc : t.completed = s.completed) (hd : t.dead = s.dead) :
    t.copiesBy c mine = valuesCopy c mine e.id e.values + s.copiesBy c mine := by
  rw [copiesBy, copiesBy, hu, hpc, hc, hd, List.map_append, List.sum_append, List.map_singleton,
    List.sum_singleton, add_comm _ (valuesCopy ..), pile_queued]

end CopiesBy

/-! ### The IDs in use -/

/-- The ID of the job or entry a worker has. -/
def heldID : RedisWorker π → Option String
  | .inQueue (.delivered e) => some e.id
  | .inQueue (.readding job _) | .got job | .handling job | .failing job _ | .succeeded job =>
    some job.id
  | .top | .dequeuing | .returned => none

/-- All IDs in use are those of entries. -/
structure Known (s : RedisJobs n π) : Prop where
  held : ∀ w id, heldID (s.pc w) = some id → id ∈ s.stream.ids
  completed : ∀ j ∈ s.completed, j.id ∈ s.stream.ids
  dead : ∀ d ∈ s.dead, d.job.id ∈ s.stream.ids

theorem Known.setPc {s t : RedisJobs n π} (hs : Known s) {w : Fin n} {p : RedisWorker π}
    (hpc : t.pc = (s.setPc w p).pc) (hids : ∀ id ∈ s.stream.ids, id ∈ t.stream.ids)
    (hp : ∀ id, heldID p = some id → id ∈ t.stream.ids)
    (hcomp : ∀ j ∈ t.completed, j ∈ s.completed ∨ j.id ∈ t.stream.ids)
    (hdead : ∀ d ∈ t.dead, d ∈ s.dead ∨ d.job.id ∈ t.stream.ids) : Known t where
  held := by
    intro w' id hid
    rcases moved_cases hpc w' with ⟨-, hw'⟩ | ⟨-, hw'⟩
    · rw [hw'] at hid
      exact hp id hid
    · rw [hw'] at hid
      exact hids id (hs.held w' id hid)
  completed := fun j hj => (hcomp j hj).elim (fun h => hids _ (hs.completed j h)) id
  dead := fun d hd => (hdead d hd).elim (fun h => hids _ (hs.dead d h)) id

theorem nackJob_forgets {now : Time} {job : Job} {err : String} (hup : ¬ job.GivenUp)
    (h : RedisQueue.nackJob now job err = none) : fate 1 job.count = .forget := by
  simp only [RedisQueue.nackJob] at h
  split at h
  · rename_i hgt
    exact fate_eq_forget.mpr ⟨Int.not_lt.mp hup, hgt⟩
  · cases h

theorem nackJob_again {now : Time} {job job' : Job} {err : String}
    (h : RedisQueue.nackJob now job err = some job') :
    job'.id = job.id ∧ fate 1 job.count = .again job'.count := by
  simp only [RedisQueue.nackJob] at h
  split at h
  · cases h
  · rename_i hle
    cases h
    exact ⟨rfl, fate_eq_again.mpr ⟨Int.not_lt.mp hle, rfl⟩⟩

theorem mem_ids {s : RedisJobs n π} {id : String} :
    id ∈ s.stream.ids ↔ ∃ e ∈ s.stream.delivered ++ s.stream.undelivered, e.id = id :=
  List.mem_map

theorem step_known {c : JobCodec π} {s t : RedisJobs n π} {a : RedisAct n π} (hs : Known s)
    (h : s.step c a = some t) : Known t := by
  cases steps_of_step h with
  | refused | register | cancel | close => exact ⟨hs.held, hs.completed, hs.dead⟩
  | enqueued _ _ | produced _ =>
    exact ⟨fun w id hid => ids_xadd.mpr (.inl (hs.held w id hid)),
      fun j hj => ids_xadd.mpr (.inl (hs.completed j hj)),
      fun d hd => ids_xadd.mpr (.inl (hs.dead d hd))⟩
  | headCancelled hpc | headGoes hpc | readNil hpc | readFailed hpc | readdFailed hpc =>
    exact hs.setPc (by rfl) (fun _ h => h) (by simp [heldID]) (fun _ h => .inl h)
      (fun _ h => .inl h)
  | @readEntry w e rest hpc hu =>
    have hids : Stream.ids ⟨s.stream.delivered ++ [e], rest, s.stream.pending ++ [e.id]⟩ =
        s.stream.ids := by
      simp [Stream.ids, hu]
    refine hs.setPc (by rfl) (fun _ h => hids ▸ h) ?_ (fun _ h => .inl h) (fun _ h => .inl h)
    intro id hid
    cases hid
    simp [Stream.ids]
  | malformed hpc | acked hpc | forgotten hpc =>
    exact hs.setPc (by rfl) (fun _ h => ids_xackUnless.mpr h) (by simp [heldID]) (fun _ h => .inl h)
      (fun _ h => .inl h)
  | @decoded w redis e job hpc hj =>
    refine hs.setPc (by rfl) (fun _ h => h) ?_ (fun _ h => .inl h) (fun _ h => .inl h)
    intro id hid
    cases hid
    exact hs.held w e.id (by rw [hpc]; rfl)
  | @handlerFound w job hpc hreg | @handlerMissing w job hpc hreg | @failed w job err hpc =>
    refine hs.setPc (by rfl) (fun _ h => h) ?_ (fun _ h => .inl h) (fun _ h => .inl h)
    intro id hid
    exact hs.held w id (by rw [hpc]; exact hid)
  | @succeeded w job hpc =>
    have hjob : job.id ∈ s.stream.ids := hs.held w job.id (by rw [hpc]; rfl)
    refine hs.setPc (by rfl) (fun _ h => h) ?_ ?_ (fun _ h => .inl h)
    · intro id hid
      cases hid
      exact hjob
    · intro j hj
      rcases List.mem_append.mp hj with hj | hj
      · exact .inl hj
      · rw [List.mem_singleton.mp hj]
        exact .inr hjob
  | @givenUp w now now' redis job err hpc hup =>
    refine hs.setPc (by rfl) (fun _ h => h) (by simp [heldID]) (fun _ h => .inl h) ?_
    intro d hd
    rcases List.mem_append.mp hd with hd | hd
    · exact .inl hd
    · rw [List.mem_singleton.mp hd]
      exact .inr (hs.held w job.id (by rw [hpc]; rfl))
  | @nacked w now now' redis job err job' v hpc hup hj hm =>
    refine hs.setPc (by rfl) (fun _ h => ids_xackUnless.mpr h) ?_ (fun _ h => .inl h)
      (fun _ h => .inl h)
    intro id hid
    cases hid
    exact ids_xackUnless.mpr ((nackJob_again hj).1 ▸ hs.held w job.id (by rw [hpc]; rfl))
  | readded hpc hid =>
    exact hs.setPc (by rfl) (fun _ h => ids_xadd.mpr (.inl h)) (by simp [heldID])
      (fun _ h => .inl h) (fun _ h => .inl h)

/-- IDs that are not in use have no copies. -/
theorem copiesBy_congr {c : JobCodec π} {mine mine' : String → Prop} [DecidablePred mine]
    [DecidablePred mine'] {s : RedisJobs n π} (hs : Known s)
    (h : ∀ id ∈ s.stream.ids, mine id ↔ mine' id) : s.copiesBy c mine = s.copiesBy c mine' := by
  have hqueue : s.stream.undelivered.map (fun e => valuesCopy c mine e.id e.values) =
      s.stream.undelivered.map fun e => valuesCopy c mine' e.id e.values :=
    List.map_congr_left fun e he =>
      valuesCopy_congr (h _ (mem_ids.mpr ⟨e, List.mem_append_right _ he, rfl⟩))
  have hhands : ∀ w, (s.pc w).copies mine (RedisPc.copies c mine) =
      (s.pc w).copies mine' (RedisPc.copies c mine') := by
    intro w
    have hheld := hs.held w
    cases hpc : s.pc w with
    | inQueue p =>
      rw [hpc] at hheld
      cases p with
      | delivered e => exact valuesCopy_congr (h _ (hheld _ rfl))
      | readding job v => exact valuesCopy_congr (h _ (hheld _ rfl))
    | got j | handling j | failing j err =>
      rw [hpc] at hheld
      exact Job.copy_congr (h _ (hheld _ rfl))
    | top | dequeuing | succeeded j | returned => rfl
  have hcompleted : s.completed.map (Job.copy mine .completed) =
      s.completed.map (Job.copy mine' .completed) :=
    List.map_congr_left fun j hj => Job.copy_congr (h _ (hs.completed j hj))
  have hdead : (s.dead.map fun d => d.job.copy mine .dead) =
      s.dead.map fun d => d.job.copy mine' .dead :=
    List.map_congr_left fun d hd => Job.copy_congr (h _ (hs.dead d hd))
  rw [copiesBy, copiesBy, pile, pile, hqueue, hcompleted, hdead,
    Finset.sum_congr rfl fun w _ => hhands w]

/-! ## The life of a job -/

/-- The copies of the job that was accepted as number `o`. -/
def copies (c : JobCodec π) (o : Nat) (s : RedisJobs n π) : Multiset (Stage × Count String) :=
  s.copiesBy c (s.Mine o)

/-- The handler of that job is invoked. -/
def invokes (o : Nat) (s : RedisJobs n π) : RedisAct n π → Bool
  | .findHandler w =>
    match s.pc w with
    | .got job => decide (s.Mine o job.id ∧ job.type ∈ s.handlers)
    | _ => false
  | _ => false

def life (c : JobCodec π) (o : Nat) (x : RedisJobs n π × Nat) : Life String :=
  ⟨x.1.copies c o, x.2⟩

/-- The job accepted as number `o`. -/
def acceptedAs (o : Nat) (x : RedisJobs n π × Nat) : Option Job := x.1.accepted[o]?

/-- The steps of a run in which the job is served: no command fails, the IDs
that `XADD` generates are not empty, the job encodes when it is to be written
again, a handler is registered when a worker looks for it, and invocation
number `k` of that handler succeeds exactly if `plan k`. -/
def Serves (c : JobCodec π) (o : Nat) (plan : Nat → Bool) (x : RedisJobs n π × Nat) :
    RedisAct n π → Prop
  | .enqueue _ _ redis id | .readd _ redis id => redis = none ∧ id ≠ ""
  | .read _ (.failed _) => False
  | .decode _ redis | .ack _ redis => redis = none
  | .findHandler w => ∀ job, x.1.pc w = .got job → x.1.Mine o job.id → job.type ∈ x.1.handlers
  | .handled w err => ∀ job, x.1.pc w = .handling job → x.1.Mine o job.id → err.isNone = plan x.2
  | .settle w now now' redis => redis = none ∧ ∀ job err, x.1.pc w = .failing job err →
      x.1.Mine o job.id → ∀ job', RedisQueue.nackJob now job err = some job' →
        ∃ v, RedisQueue.message c now' job' = .ok v
  | _ => True

instance (c : JobCodec π) (o : Nat) (plan : Nat → Bool) (x : RedisJobs n π × Nat) :
    (a : RedisAct n π) → Decidable (Serves c o plan x a)
  | .enqueue _ _ redis id | .readd _ redis id =>
    inferInstanceAs (Decidable (redis = none ∧ id ≠ ""))
  | .read _ (.failed _) => inferInstanceAs (Decidable False)
  | .decode _ redis | .ack _ redis => inferInstanceAs (Decidable (redis = none))
  | .findHandler w =>
    WorkerPc.decidableGot (fun job : Job => x.1.Mine o job.id → job.type ∈ x.1.handlers) (x.1.pc w)
  | .handled w err =>
    WorkerPc.decidableHandling (fun job : Job => x.1.Mine o job.id → err.isNone = plan x.2)
      (x.1.pc w)
  | .settle w now now' redis =>
    have := WorkerPc.decidableFailing (fun (job : Job) err => x.1.Mine o job.id →
      ∀ job' ∈ RedisQueue.nackJob now job err, ∃ v, RedisQueue.message c now' job' = .ok v)
      (x.1.pc w)
    inferInstanceAs (Decidable (redis = none ∧ _))
  | .read _ .entry | .read _ .nil | .produce .. | .register _ | .cancel | .close | .loopHead _ =>
    isTrue trivial

section Idle

variable {c : JobCodec π} {o : Nat} {plan : Nat → Bool} {s t : RedisJobs n π} {k : Nat}

/-- Nothing changes for the job if its copies are the same. -/
theorem lifeStep_of_copies (haccepted : t.accepted = s.accepted)
    (hcopies : t.copies c o = s.copies c o) :
    LifeStep 1 plan (acceptedAs o (s, k)) (acceptedAs o (t, k)) (life c o (s, k))
      (life c o (t, k)) :=
  .same (by simp only [acceptedAs, haccepted]) (by simp only [life, hcopies])

/-- A worker moves with nothing of the job in its hands, and no list changes. -/
theorem lifeStep_of_idle {w : Fin n} {p p' : RedisWorker π} (haccepted : t.accepted = s.accepted)
    (hmine : t.copies c o = t.copiesBy c (s.Mine o)) (hw : s.pc w = p)
    (hpc : t.pc = (s.setPc w p').pc) (hu : t.stream.undelivered = s.stream.undelivered)
    (hc : t.completed = s.completed) (hd : t.dead = s.dead)
    (hp : p'.copies (s.Mine o) (RedisPc.copies c (s.Mine o)) =
      p.copies (s.Mine o) (RedisPc.copies c (s.Mine o))) :
    LifeStep 1 plan (acceptedAs o (s, k)) (acceptedAs o (t, k)) (life c o (s, k))
      (life c o (t, k)) := by
  refine lifeStep_of_copies haccepted ?_
  rw [hmine, copiesBy_move hpc, hu, hc, hd, hp, ← copiesBy_at hw, copies]

/-- A worker has a job, which takes a turn. -/
theorem lifeStep_of_turn {k' : Nat} {w : Fin n} {p : RedisWorker π} (job : Job) (st : Stage)
    (z : Multiset (Stage × Count String)) (haccepted : t.accepted = s.accepted)
    (hmine : t.copies c o = t.copiesBy c (s.Mine o)) (hw : s.pc w = p)
    (hp : p.copies (s.Mine o) (RedisPc.copies c (s.Mine o)) = job.copy (s.Mine o) st)
    (ht : t.copiesBy c (s.Mine o) = (if s.Mine o job.id then z else 0) +
      s.copiesElse c (s.Mine o) w s.stream.undelivered s.completed s.dead)
    (hturn : s.Mine o job.id → Turn 1 plan k (st, job.count) k' z)
    (hcount : ¬ s.Mine o job.id → k' = k) :
    LifeStep 1 plan (acceptedAs o (s, k)) (acceptedAs o (t, k')) (life c o (s, k))
      (life c o (t, k')) := by
  refine .of_turn (s.Mine o) job st (by simp only [acceptedAs, haccepted]) ?_ (hmine.trans ht)
    hturn hcount
  exact (copiesBy_at hw).trans (by rw [hp])

end Idle

section NewEntries

variable {c : JobCodec π} {o : Nat} {s : RedisJobs n π}

/-- An ID that is new is not yet one of the job's. -/
theorem Tracked.not_mine (h : Tracked c s) {id : String} (hid : id ∉ s.stream.ids) :
    ¬ s.Mine o id := fun hmine => hid (h.origin_ids _ hmine)

/-- A job is accepted: it is the job asked for, and its life begins, or it is
another one. -/
theorem lifeStep_of_enqueue (hc : c.RoundTrips) (plan : Nat → Bool) (htracked : Tracked c s)
    (hknown : Known s) (k : Nat) {job : Job} {now : Time} {id : String} {v : Values π}
    (hm : RedisQueue.message c now job = .ok v) (hid : id ∉ s.stream.ids) {t : RedisJobs n π}
    (ht : t = { s with
      stream := s.stream.xadd id v
      accepted := s.accepted ++ [job]
      origins := s.origins ++ [(id, s.accepted.length)] }) :
    LifeStep 1 plan (acceptedAs o (s, k)) (acceptedAs o (t, k)) (life c o (s, k))
      (life c o (t, k)) := by
  obtain ⟨job', _, hdec, hsame, _⟩ := RedisQueue.message_job hc hm
  have haccepted : t.accepted = s.accepted ++ [job] := by rw [ht]
  have hmem : ∀ id', t.Mine o id' ↔ s.Mine o id' ∨ id' = id ∧ o = s.accepted.length := by
    intro id'
    simp [ht, Mine]
  have hmine : ∀ id' ∈ s.stream.ids, s.Mine o id' ↔ t.Mine o id' := by
    intro id' hid'
    have hne : id' ≠ id := fun he => hid (he ▸ hid')
    simp [hmem, hne]
  have hnew : t.Mine o id ↔ o = s.accepted.length := by
    simp [hmem, htracked.not_mine hid]
  have hadd : t.copies c o = valuesCopy c (t.Mine o) id v + s.copies c o := by
    rw [copies, copies, copiesBy_congr hknown hmine]
    subst ht
    exact copiesBy_xadd s _ ⟨id, v⟩ rfl rfl rfl rfl
  by_cases ho : o = s.accepted.length
  · refine .born job ?_ ?_ ?_
    · simp [acceptedAs, ho]
    · simp [acceptedAs, haccepted, ho]
    · rw [valuesCopy_ok hdec, Job.copy_of_mine (hnew.mpr ho)] at hadd
      rw [life, ← hsame]
      exact congrArg (Life.mk · k) hadd
  · refine .same ?_ ?_
    · simp only [acceptedAs, haccepted, List.getElem?_append]
      split
      · rfl
      · rw [List.getElem?_eq_none (by simp; omega), List.getElem?_eq_none (by omega)]
    · rw [valuesCopy_of_not (fun h => ho (hnew.mp h)), zero_add] at hadd
      exact congrArg (Life.mk · k) hadd

/-- The copy that was in the hands of `w` is put into the stream, under a new
ID. -/
theorem copies_readd (htracked : Tracked c s) (hknown : Known s) {w : Fin n} {job : Job}
    {id : String} {v : Values π} (hpc : s.pc w = .inQueue (.readding job v))
    (hid : id ∉ s.stream.ids) {t : RedisJobs n π}
    (ht : t = { s.setPc w .top with
      stream := s.stream.xadd id v
      origins := s.origins ++
        (s.origins.filter fun p => p.1 = job.id).map fun p => (id, p.2) }) :
    t.copies c o = s.copies c o := by
  have hmem : ∀ id', t.Mine o id' ↔ s.Mine o id' ∨ (s.Mine o job.id ∧ id' = id) := by
    intro id'
    simp only [ht, Mine, List.mem_append, List.mem_map, List.mem_filter, decide_eq_true_eq,
      Prod.mk.injEq]
    constructor
    · rintro (hold | ⟨⟨i, o'⟩, ⟨hp, rfl⟩, rfl, rfl⟩)
      · exact .inl hold
      · exact .inr ⟨hp, rfl⟩
    · rintro (hold | ⟨hnew, rfl⟩)
      · exact .inl hold
      · exact .inr ⟨(job.id, o), ⟨hnew, rfl⟩, rfl, rfl⟩
  have hmine : ∀ id' ∈ s.stream.ids, s.Mine o id' ↔ t.Mine o id' := by
    intro id' hid'
    have hne : id' ≠ id := fun he => hid (he ▸ hid')
    simp [hmem, hne]
  have hsame : t.Mine o id ↔ t.Mine o job.id := by
    have hjob : job.id ∈ s.stream.ids := hknown.held w job.id (by rw [hpc]; rfl)
    rw [← hmine _ hjob, hmem]
    simp [htracked.not_mine hid]
  rw [copies, copies, copiesBy_congr hknown hmine, copiesBy_at hpc,
    copiesBy_move (s := s) (w := w) (p := .top) (by rw [ht])]
  subst ht
  refine (zero_add _).trans (copiesElse_append.trans ?_)
  exact congrArg (· + _) (valuesCopy_congr hsame)

end NewEntries

/-- **The pool refines the life of a job**, with every failed attempt that is
tried again counted twice. -/
theorem step_life {c : JobCodec π} (hc : c.RoundTrips) {o : Nat} {plan : Nat → Bool}
    {x y : RedisJobs n π × Nat} {a : RedisAct n π} (htracked : Tracked c x.1) (hknown : Known x.1)
    (hserves : Serves c o plan x a) (h : counted (step c) (invokes o) x a = some y) :
    LifeStep 1 plan (acceptedAs o x) (acceptedAs o y) (life c o x) (life c o y) := by
  obtain ⟨hstep, hcount⟩ := counted_eq_some.mp h
  obtain ⟨s, k⟩ := x
  obtain ⟨t, k'⟩ := y
  simp only at hstep hcount htracked hknown
  cases steps_of_step hstep with
  | refused | register | cancel | close => exact .same rfl (by rw [hcount]; rfl)
  | @enqueued job now id v hm hid =>
    rw [hcount]
    exact lifeStep_of_enqueue hc plan htracked hknown k hm hid rfl
  | @produced v id hid =>
    rw [hcount]
    refine lifeStep_of_copies rfl ?_
    have hadd : copies c o { s with stream := s.stream.xadd id v } =
        valuesCopy c (s.Mine o) id v + s.copies c o :=
      copiesBy_xadd s { s with stream := s.stream.xadd id v } ⟨id, v⟩ rfl rfl rfl rfl
    rw [hadd, valuesCopy_of_not (htracked.not_mine hid), zero_add]
  | headCancelled hpc | headGoes hpc | readNil hpc | readFailed hpc =>
    rw [hcount]
    exact lifeStep_of_idle rfl rfl hpc rfl rfl rfl rfl rfl
  | @readEntry w e rest hpc hu =>
    rw [hcount]
    refine lifeStep_of_copies rfl ?_
    refine (copiesBy_move (s := s) (w := w) (by rfl)).trans (.trans ?_ (copiesBy_at hpc).symm)
    rw [hu, copiesElse_cons]
    exact (zero_add _).symm
  | @malformed w redis e msg hpc hj =>
    obtain rfl : redis = none := hserves
    rw [hcount]
    exact lifeStep_of_idle rfl rfl hpc rfl rfl rfl rfl (valuesCopy_error hj).symm
  | @acked w redis job hpc =>
    obtain rfl : redis = none := hserves
    rw [hcount]
    exact lifeStep_of_idle rfl rfl hpc rfl rfl rfl rfl rfl
  | @decoded w redis e job hpc hj =>
    refine lifeStep_of_turn { job with id := e.id } .queued _ rfl rfl hpc (valuesCopy_ok hj)
      (copiesBy_move (s := s) (w := w) (by rfl)) (fun _ => ?_) (fun _ => hcount)
    rw [hcount]
    exact .take
  | @handlerFound w job hpc hreg =>
    refine lifeStep_of_turn job .taken _ rfl rfl hpc rfl
      (copiesBy_move (s := s) (w := w) (by rfl)) (fun hid => ?_) (fun hid => ?_)
    · simp only [invokes, hpc, hid, hreg, and_self, decide_true, ↓reduceIte] at hcount
      rw [hcount]
      exact .start
    · simpa [invokes, hpc, hid] using hcount
  | @handlerMissing w job hpc hreg =>
    refine lifeStep_of_turn job .taken _ rfl rfl hpc rfl
      (copiesBy_move (s := s) (w := w) (by rfl)) (fun hid => absurd (hserves job hpc hid) hreg)
      (fun hid => ?_)
    simpa [invokes, hpc, hid] using hcount
  | @succeeded w job hpc =>
    refine lifeStep_of_turn job .running {(.completed, job.count)} rfl rfl hpc rfl ?_
      (fun hid => ?_) (fun _ => hcount)
    · refine (copiesBy_move (s := s) (w := w) (by rfl)).trans ?_
      exact (zero_add _).trans copiesElse_append_completed
    · rw [hcount]
      exact .succeed (hserves job hpc hid).symm
  | @failed w job err hpc =>
    refine lifeStep_of_turn job .running _ rfl rfl hpc rfl
      (copiesBy_move (s := s) (w := w) (by rfl)) (fun hid => ?_) (fun _ => hcount)
    rw [hcount]
    exact .fail (hserves job hpc hid).symm
  | @givenUp w now now' redis job err hpc hup =>
    refine lifeStep_of_turn job .failing {(.dead, job.count)} rfl rfl hpc rfl ?_
      (fun hid => ?_) (fun _ => hcount)
    · refine (copiesBy_move (s := s) (w := w) (by rfl)).trans ?_
      exact (zero_add _).trans copiesElse_append_dead
    · rw [hcount]
      exact .bury (fate_eq_bury.mpr hup)
  | @forgotten w now now' redis job err hpc hup hno =>
    obtain ⟨rfl, hencodes⟩ := hserves
    refine lifeStep_of_turn job .failing 0 rfl rfl hpc rfl ?_ (fun hid => ?_) (fun _ => hcount)
    · refine (copiesBy_move (s := s) (w := w) (by rfl)).trans ?_
      rw [ite_self]
      rfl
    · -- the job encodes, so it is forgotten because the second count is over the limit
      rw [hcount]
      cases hj : RedisQueue.nackJob now job err with
      | none => exact .forget (nackJob_forgets hup hj)
      | some job' =>
        obtain ⟨v, hm⟩ := hencodes job err hpc hid job' hj
        exact absurd hm (hno job' v hj)
  | @nacked w now now' redis job err job' v hpc hup hj hm =>
    obtain ⟨rfl, _⟩ := hserves
    obtain ⟨hid', hagain⟩ := nackJob_again hj
    obtain ⟨job'', _, hdec, hsame, _⟩ := RedisQueue.message_job hc hm
    refine lifeStep_of_turn job .failing {(.queued, job'.count)} rfl rfl hpc rfl ?_ (fun _ => ?_)
      (fun _ => hcount)
    · refine (copiesBy_move (s := s) (w := w) (by rfl)).trans ?_
      congr 1
      refine (valuesCopy_ok hdec).trans ?_
      rw [← hsame, ← hid']
      rfl
    · rw [hcount]
      exact .retry hagain
  | @readdFailed w err id job v hpc => simp [Serves] at hserves
  | @readded w id job v hpc hid =>
    rw [hcount]
    exact lifeStep_of_copies rfl (copies_readd htracked hknown hpc hid rfl)

/-! ## At rest -/

/-- The worker has a copy of the job, or is about to write one. -/
def Has (mine : String → Prop) : RedisWorker π → Prop
  | .inQueue (.delivered e) => mine e.id
  | .inQueue (.readding job _) | .got job | .handling job | .failing job _ => mine job.id
  | .top | .dequeuing | .succeeded _ | .returned => False

instance (mine : String → Prop) [DecidablePred mine] : (p : RedisWorker π) → Decidable (Has mine p)
  | .inQueue (.delivered e) => inferInstanceAs (Decidable (mine e.id))
  | .inQueue (.readding job _) | .got job | .handling job | .failing job _ =>
    inferInstanceAs (Decidable (mine job.id))
  | .top | .dequeuing | .succeeded _ | .returned => inferInstanceAs (Decidable False)

/-- The job is neither undelivered nor in the hands of a worker. -/
def AtRest (o : Nat) (s : RedisJobs n π) : Prop :=
  (∀ e ∈ s.stream.undelivered, ¬ s.Mine o e.id) ∧ ∀ w, ¬ Has (s.Mine o) (s.pc w)

instance (o : Nat) (s : RedisJobs n π) : Decidable (s.AtRest o) :=
  inferInstanceAs (Decidable (_ ∧ _))

/-- How many dead letters there are for the job. -/
def deadLetters (o : Nat) (s : RedisJobs n π) : Nat :=
  s.dead.countP fun d => decide (s.Mine o d.job.id)

theorem mem_copies {c : JobCodec π} {s : RedisJobs n π} {o : Nat} {y : Stage × Count String} :
    y ∈ s.copies c o ↔
      (∃ e ∈ s.stream.undelivered, y ∈ valuesCopy c (s.Mine o) e.id e.values) ∨
      (∃ w, y ∈ (s.pc w).copies (s.Mine o) (RedisPc.copies c (s.Mine o))) ∨
      (∃ j ∈ s.completed, s.Mine o j.id ∧ y = (.completed, j.count)) ∨
      ∃ d ∈ s.dead, s.Mine o d.job.id ∧ y = (.dead, d.job.count) := by
  simp only [copies, copiesBy, mem_pile, mem_sum_map, Multiset.mem_sum, Finset.mem_univ, true_and]

/-- What a worker has is queued or being worked on. -/
theorem mem_hand {c : JobCodec π} {mine : String → Prop} [DecidablePred mine] {p : RedisWorker π}
    {y : Stage × Count String} (h : y ∈ p.copies mine (RedisPc.copies c mine)) :
    Has mine p ∧ y.1 ≠ .completed ∧ y.1 ≠ .dead := by
  rcases WorkerPc.mem_copies h with ⟨q, rfl, hq⟩ | ⟨j, rfl, hid, rfl⟩ | ⟨j, rfl, hid, rfl⟩ |
    ⟨j, err, rfl, hid, rfl⟩
  · cases q with
    | delivered e =>
      obtain ⟨hid, job, _, rfl⟩ := mem_valuesCopy.mp hq
      exact ⟨hid, by simp, by simp⟩
    | readding j v =>
      obtain ⟨hid, job, _, rfl⟩ := mem_valuesCopy.mp hq
      exact ⟨hid, by simp, by simp⟩
  · exact ⟨hid, by simp, by simp⟩
  · exact ⟨hid, by simp, by simp⟩
  · exact ⟨hid, by simp, by simp⟩

theorem AtRest.life {c : JobCodec π} {o : Nat} {x : RedisJobs n π × Nat} (h : AtRest o x.1) :
    (RedisJobs.life c o x).AtRest := by
  intro y hy
  rcases mem_copies.mp hy with ⟨e, he, hy⟩ | ⟨w, hw⟩ | ⟨_, _, _, rfl⟩ | ⟨_, _, _, rfl⟩
  · exact absurd (mem_valuesCopy.mp hy).1 (h.1 e he)
  · exact absurd (mem_hand hw).1 (h.2 w)
  · exact .inl rfl
  · exact .inr rfl

/-- A run that serves the job keeps its books. -/
theorem kept_of_run {c : JobCodec π} (hc : c.RoundTrips) {o : Nat} {plan : Nat → Bool}
    {st : Stream π} {as : List (RedisAct n π)} {x : RedisJobs n π × Nat}
    (hrun : run (counted (step c) (invokes o)) (init st, 0) as = some x)
    (hserves : Along (counted (step c) (invokes o)) (Serves c o plan) (init st, 0) as) :
    Tracked c x.1 ∧ Known x.1 ∧ Kept 1 plan (acceptedAs o x) (life c o x) := by
  refine hserves.invariant (I := fun x => Tracked c x.1 ∧ Known x.1 ∧
    Kept 1 plan (acceptedAs o x) (life c o x)) ?_ ⟨tracked_init c st, ?_, .inl ⟨rfl, ?_⟩⟩ hrun
  · rintro x a y ⟨htracked, hknown, hkept⟩ hserve hstep
    have hbase := (counted_eq_some.mp hstep).1
    exact ⟨step_tracked hc _ _ _ htracked hbase, step_known hknown hbase,
      hkept.step (step_life hc htracked hknown hserve hstep)⟩
  · exact ⟨by simp [init, heldID], by simp [init], by simp [init]⟩
  · have hcopies : copies c o (init st : RedisJobs n π) = 0 := by
      rw [Multiset.eq_zero_iff_forall_notMem]
      intro y hy
      rcases mem_copies.mp hy with ⟨e, _, hy⟩ | ⟨w, hw⟩ | ⟨_, hj, _⟩ | ⟨_, hd, _⟩
      · exact absurd (mem_valuesCopy.mp hy).1 List.not_mem_nil
      · exact (mem_hand hw).1
      · exact absurd hj List.not_mem_nil
      · exact absurd hd List.not_mem_nil
    rw [life, hcopies]

theorem count_dead (c : JobCodec π) (o : Nat) (x : RedisJobs n π × Nat) :
    (life c o x).count .dead = deadLetters o x.1 := by
  refine count_pile_dead (fun y hy => ?_) (fun y hy => ?_)
  · obtain ⟨e, _, hy⟩ := mem_sum_map.mp hy
    obtain ⟨_, _, _, rfl⟩ := mem_valuesCopy.mp hy
    simp
  · obtain ⟨w, _, hw⟩ := Multiset.mem_sum.mp hy
    exact (mem_hand hw).2.2

end RedisJobs

/-! ## The job is brought to its end -/

/-- A job has an encoding exactly if the years of its times have four
digits. -/
structure JobCodec.Dates {π : Type} (c : JobCodec π) : Prop where
  marshal_iff : ∀ j : Job, (∃ p, c.marshal j = .ok p) ↔
    Time.HasYear j.enqueuedAt ∧ Time.HasYear j.runAfter

theorem JobCodec.dates_json : json.Dates where
  marshal_iff := by
    intro j
    simp only [json]
    split <;> simp [*]

/-- The message decodes to a job with such a year. -/
def Dated {π : Type} (c : JobCodec π) (v : Values π) : Prop :=
  ∃ job, jobFromMessage c v = .ok job ∧ Time.HasYear job.enqueuedAt

theorem RedisQueue.message_dated {π : Type} {c : JobCodec π} (hc : c.RoundTrips) (hd : c.Dates)
    {now : Time} {job : Job} {v : Values π} (h : RedisQueue.message c now job = .ok v) :
    Dated c v := by
  obtain ⟨job', p, hdec, _, hp⟩ := RedisQueue.message_job hc h
  exact ⟨job', hdec, ((hd.marshal_iff job').mp ⟨p, hp⟩).1⟩

/-- `Nack` can write a job with such a year again: here with a clock at which
the delay ends at the zero time, which `Enqueue` replaces. -/
theorem RedisQueue.message_nackJob {π : Type} {c : JobCodec π} (hd : c.Dates) {job : Job}
    (hid : job.id ≠ "") (hyear : Time.HasYear job.enqueuedAt)
    (hrun : job.runAfter = Time.zero) :
    ∃ v, RedisQueue.message c job.enqueuedAt job = .ok v := by
  have hjob : ∃ p, c.marshal { job with runAfter := job.enqueuedAt } = .ok p :=
    (hd.marshal_iff _).mpr ⟨hyear, hyear⟩
  obtain ⟨p, hp⟩ := hjob
  obtain ⟨id, type, payload, attempts, maxRetries, enqueuedAt, runAfter, lastError⟩ := job
  simp only at hid hrun hp
  subst hrun
  simp [RedisQueue.message, hid, hp]

namespace RedisJobs

variable {n : Nat} {π : Type}

/-- Nobody but the pool writes to the stream. -/
def Own : RedisAct n π → Prop
  | .produce .. => False
  | _ => True

/-- What a worker carries has a year. -/
def HandDated (c : JobCodec π) : RedisWorker π → Prop
  | .inQueue (.readding _ v) => Dated c v
  | .got job | .handling job | .failing job _ => Time.HasYear job.enqueuedAt
  | .inQueue (.delivered _) | .top | .dequeuing | .succeeded _ | .returned => True

structure WellDated (c : JobCodec π) (s : RedisJobs n π) : Prop where
  entries : ∀ e ∈ s.stream.delivered ++ s.stream.undelivered, Dated c e.values
  hands : ∀ w, HandDated c (s.pc w)

theorem WellDated.setPc {c : JobCodec π} {s t : RedisJobs n π} (hs : WellDated c s) {w : Fin n}
    {p : RedisWorker π} (hpc : t.pc = (s.setPc w p).pc)
    (hentries : ∀ e ∈ t.stream.delivered ++ t.stream.undelivered, Dated c e.values)
    (hp : HandDated c p) : WellDated c t where
  entries := hentries
  hands := by
    intro w'
    rcases moved_cases hpc w' with ⟨-, hw'⟩ | ⟨-, hw'⟩
    · rwa [hw']
    · rw [hw']
      exact hs.hands w'

/-- What is written to the stream has a year. -/
theorem WellDated.xadd {c : JobCodec π} {s : RedisJobs n π} (hs : WellDated c s) {id : String}
    {v : Values π} (hv : Dated c v) :
    ∀ e ∈ (s.stream.xadd id v).delivered ++ (s.stream.xadd id v).undelivered,
      Dated c e.values := by
  intro e he
  simp only [Stream.xadd, ← List.append_assoc, List.mem_append, List.mem_singleton] at he
  rcases he with he | rfl
  · exact hs.entries e (List.mem_append.mpr he)
  · exact hv

theorem step_wellDated {c : JobCodec π} (hc : c.RoundTrips) (hd : c.Dates) {s t : RedisJobs n π}
    {a : RedisAct n π} (htracked : Tracked c s) (hs : WellDated c s) (hown : Own a)
    (h : s.step c a = some t) : WellDated c t := by
  have hhand : ∀ {w p}, s.pc w = p → HandDated c p := fun hpc => hpc ▸ hs.hands _
  cases steps_of_step h with
  | refused | register | cancel | close => exact ⟨hs.entries, hs.hands⟩
  | produced _ => exact hown.elim
  | enqueued hm _ => exact ⟨hs.xadd (RedisQueue.message_dated hc hd hm), hs.hands⟩
  | headCancelled _ | headGoes _ | readNil _ | readFailed _ | readdFailed _ | succeeded _
  | givenUp _ => exact hs.setPc (by rfl) hs.entries (by trivial)
  | readEntry _ hu =>
    refine hs.setPc (by rfl) ?_ (by trivial)
    simpa [hu] using hs.entries
  | malformed _ | acked _ | forgotten _ =>
    refine hs.setPc (by rfl) ?_ (by trivial)
    simpa using hs.entries
  | @decoded w redis e job hpc hj =>
    refine hs.setPc (by rfl) hs.entries ?_
    obtain ⟨job', hj', hyear⟩ := hs.entries e (List.mem_append_left _ (htracked.delivered w e hpc))
    rw [hj] at hj'
    cases hj'
    exact hyear
  | handlerFound hpc | handlerMissing hpc | failed hpc =>
    have hyear := hhand hpc
    exact hs.setPc (by rfl) hs.entries (by exact hyear)
  | nacked _ _ _ hm =>
    refine hs.setPc (by rfl) ?_ (by exact RedisQueue.message_dated hc hd hm)
    simpa using hs.entries
  | readded hpc _ => exact hs.setPc (by rfl) (hs.xadd (hhand hpc)) (by trivial)

/-- The steps by which the job is brought to its end. -/
def Goes (c : JobCodec π) (o : Nat) (plan : Nat → Bool) (x : RedisJobs n π × Nat)
    (a : RedisAct n π) : Prop :=
  Serves c o plan x a ∧ a ≠ .cancel ∧ Own a

abbrev CanGo (c : JobCodec π) (o : Nat) (plan : Nat → Bool) (P : RedisJobs n π × Nat → Prop)
    (x : RedisJobs n π × Nat) : Prop :=
  Can (counted (step c) (invokes o)) (Goes c o plan) P x

/-- The job has been accepted and has a handler, and the pool is running. -/
structure Live (c : JobCodec π) (o : Nat) (plan : Nat → Bool) (job : Job)
    (x : RedisJobs n π × Nat) : Prop where
  ctx : x.1.cancelled = false
  handler : job.type ∈ x.1.handlers
  accepted : acceptedAs o x = some job
  lawful : Lawful 1 plan job.type job.maxRetries (life c o x)
  tracked : Tracked c x.1
  known : Known x.1
  dated : WellDated c x.1
  named : ∀ id, x.1.Mine o id → id ≠ ""

/-- The IDs of the job's entries are not empty. -/
theorem step_named {c : JobCodec π} {o : Nat} {plan : Nat → Bool} {x y : RedisJobs n π × Nat}
    {a : RedisAct n π} (hx : ∀ id, x.1.Mine o id → id ≠ "") (hserves : Serves c o plan x a)
    (h : counted (step c) (invokes o) x a = some y) : ∀ id, y.1.Mine o id → id ≠ "" := by
  obtain ⟨hstep, _⟩ := counted_eq_some.mp h
  obtain ⟨s, k⟩ := x
  obtain ⟨t, k'⟩ := y
  cases steps_of_step hstep with
  | enqueued _ _ =>
    intro id hid
    rcases List.mem_append.mp hid with hid | hid
    · exact hx id hid
    · cases List.mem_singleton.mp hid
      exact hserves.2
  | readded _ _ =>
    intro id hid
    rcases List.mem_append.mp hid with hid | hid
    · exact hx id hid
    · obtain ⟨p, _, hp⟩ := List.mem_map.mp hid
      cases hp
      exact hserves.2
  | _ => exact hx

theorem Live.step {c : JobCodec π} (hc : c.RoundTrips) (hd : c.Dates) {o : Nat}
    {plan : Nat → Bool} {job : Job} (x : RedisJobs n π × Nat) (a : RedisAct n π)
    (y : RedisJobs n π × Nat) (hx : Live c o plan job x) (hgo : Goes c o plan x a)
    (h : counted (RedisJobs.step c) (invokes o) x a = some y) : Live c o plan job y := by
  obtain ⟨hserves, hcancel, hown⟩ := hgo
  have hbase := (counted_eq_some.mp h).1
  have hrest : y.1.cancelled = false ∧ job.type ∈ y.1.handlers := by
    obtain ⟨t, k'⟩ := y
    cases steps_of_step hbase with
    | cancel => exact absurd rfl hcancel
    | register => exact ⟨hx.ctx, List.mem_cons_of_mem _ hx.handler⟩
    | _ => exact ⟨hx.ctx, hx.handler⟩
  have htracked := step_tracked hc _ _ _ hx.tracked hbase
  have hknown := step_known hx.known hbase
  have hdated := step_wellDated hc hd hx.tracked hx.dated hown hbase
  have hnamed := step_named hx.named hserves h
  cases step_life hc hx.tracked hx.known hserves h with
  | same hb hL =>
    exact ⟨hrest.1, hrest.2, hb.trans hx.accepted, hL ▸ hx.lawful, htracked, hknown, hdated, hnamed⟩
  | moved hb hmove =>
    exact ⟨hrest.1, hrest.2, hb.trans hx.accepted, hx.lawful.move hmove, htracked, hknown, hdated,
      hnamed⟩
  | born _ hb =>
    rw [hx.accepted] at hb
    cases hb

/-- A step in which the handler of the job is not invoked. -/
theorem CanGo.step {c : JobCodec π} {o : Nat} {plan : Nat → Bool} {P : RedisJobs n π × Nat → Prop}
    {s t : RedisJobs n π} {k : Nat} (a : RedisAct n π) (hgo : Goes c o plan (s, k) a)
    (hstep : s.step c a = some t) (hno : invokes o s a = false) (h : CanGo c o plan P (t, k)) :
    CanGo c o plan P (s, k) :=
  .next a hgo (counted_eq_some.mpr ⟨hstep, by simp [hno]⟩) h

/-! ### A worker gets to its next poll -/

/-- The worker polls; nothing has been taken from the stream since `s`, and
the handler has been invoked `k` times. -/
def Polls (w : Fin n) (s : RedisJobs n π) (k : Nat) (y : RedisJobs n π × Nat) : Prop :=
  y.1.pc w = .dequeuing ∧ y.2 = k ∧
    (∃ more, y.1.stream.undelivered = s.stream.undelivered ++ more) ∧ s.origins ⊆ y.1.origins

theorem exists_fresh (s : RedisJobs n π) : ∃ id, id ∉ s.stream.ids ∧ id ≠ "" := by
  obtain ⟨id, hid⟩ := Infinite.exists_notMem_finset (insert "" s.stream.ids.toFinset)
  rw [Finset.mem_insert, not_or, List.mem_toFinset] at hid
  exact ⟨id, hid.2, hid.1⟩

section Poll

variable {c : JobCodec π} {o : Nat} {plan : Nat → Bool} {s : RedisJobs n π} {k : Nat} {w : Fin n}

theorem can_poll_top (hctx : s.cancelled = false) (hpc : s.pc w = .top) :
    CanGo c o plan (Polls w s k) (s, k) := by
  refine .step (t := s.setPc w .dequeuing) (.loopHead w) ⟨trivial, by simp, trivial⟩
    (by simp [step, hpc, hctx]) rfl (.here ⟨Function.update_self .., rfl, ⟨[], ?_⟩, fun _ h => h⟩)
  exact (List.append_nil _).symm

theorem can_poll_succeeded (hctx : s.cancelled = false) {job : Job}
    (hpc : s.pc w = .succeeded job) : CanGo c o plan (Polls w s k) (s, k) :=
  .step (.ack w none) ⟨rfl, by simp, trivial⟩ (by simp only [step, hpc]) rfl
    (can_poll_top (s := { s.setPc w .top with stream := xackUnless s.stream none job.id }) hctx
      (Function.update_self ..))

/-- The retry that a worker is about to write is written. -/
theorem can_poll_readding (hctx : s.cancelled = false) {job : Job} {v : Values π}
    (hpc : s.pc w = .inQueue (.readding job v)) : CanGo c o plan (Polls w s k) (s, k) := by
  obtain ⟨id, hfresh, hne⟩ := exists_fresh s
  refine .step (.readd w none id) ⟨⟨rfl, hne⟩, by simp, trivial⟩
    (by simp only [step, hpc, hfresh, ↓reduceIte]) rfl
    ((can_poll_top (s := { s.setPc w .top with
      stream := s.stream.xadd id v
      origins := s.origins ++ (s.origins.filter fun p => p.1 = job.id).map fun p => (id, p.2) })
      hctx (Function.update_self ..)).mono ?_)
  rintro y ⟨hw, hk, ⟨more, hmore⟩, horigins⟩
  refine ⟨hw, hk, ⟨_, hmore.trans (List.append_assoc ..)⟩, fun p hp => ?_⟩
  exact horigins (List.mem_append_left _ hp)

/-- After a failed attempt at another job. -/
theorem can_poll_failing (hctx : s.cancelled = false) {job : Job} {err : String}
    (hpc : s.pc w = .failing job err) (hother : ¬ s.Mine o job.id) :
    CanGo c o plan (Polls w s k) (s, k) := by
  have hgo : Goes c o plan (s, k) (.settle w 0 0 none) := by
    refine ⟨⟨rfl, fun job' err' hpc' hmine => ?_⟩, by simp, trivial⟩
    rw [hpc] at hpc'
    cases hpc'
    exact absurd hmine hother
  by_cases hup : job.GivenUp
  · exact .step _ hgo (by simp only [step, hpc, hup, ↓reduceIte]) rfl
      (can_poll_top (s := { s.setPc w .top with dead := s.dead ++ [.of job err] }) hctx
        (Function.update_self ..))
  · have hdropped : s.step c (.settle w 0 0 none) =
          some { s.setPc w .top with stream := xackUnless s.stream none job.id } →
        CanGo c o plan (Polls w s k) (s, k) := fun hstep =>
      .step _ hgo hstep rfl
        (can_poll_top (s := { s.setPc w .top with stream := xackUnless s.stream none job.id })
          hctx (Function.update_self ..))
    cases hj : RedisQueue.nackJob 0 job err with
    | none => exact hdropped (by simp only [step, hpc, hup, hj, ↓reduceIte])
    | some job' =>
      cases hm : RedisQueue.message c 0 job' with
      | error msg => exact hdropped (by simp only [step, hpc, hup, hj, hm, ↓reduceIte])
      | ok v =>
        exact .step _ hgo (by simp only [step, hpc, hup, hj, hm, ↓reduceIte]) rfl
          (can_poll_readding (s := { s.setPc w (.inQueue (.readding job' v)) with
            stream := xackUnless s.stream none job.id }) hctx (Function.update_self ..))

theorem can_poll_handling (hctx : s.cancelled = false) {job : Job}
    (hpc : s.pc w = .handling job) (hother : ¬ s.Mine o job.id) :
    CanGo c o plan (Polls w s k) (s, k) := by
  refine .step (.handled w none) ⟨fun job' hpc' hmine => ?_, by simp, trivial⟩
    (by simp only [step, hpc]) rfl
    (can_poll_succeeded (s := { s.setPc w (.succeeded job) with
      completed := s.completed ++ [job] }) hctx (Function.update_self ..))
  rw [hpc] at hpc'
  cases hpc'
  exact absurd hmine hother

theorem can_poll_got (hctx : s.cancelled = false) {job : Job} (hpc : s.pc w = .got job)
    (hother : ¬ s.Mine o job.id) : CanGo c o plan (Polls w s k) (s, k) := by
  have hgo : Goes c o plan (s, k) (.findHandler w) := by
    refine ⟨fun job' hpc' hmine => ?_, by simp, trivial⟩
    rw [hpc] at hpc'
    cases hpc'
    exact absurd hmine hother
  have hno : invokes o s (.findHandler w) = false := by simp [invokes, hpc, hother]
  by_cases hreg : job.type ∈ s.handlers
  · exact .step _ hgo (by simp only [step, hpc, hreg, ↓reduceIte]) hno
      (can_poll_handling (s := s.setPc w (.handling job.attempt)) hctx (Function.update_self ..)
        hother)
  · exact .step _ hgo (by simp only [step, hpc, hreg, ↓reduceIte]) hno
      (can_poll_failing (s := s.setPc w (.failing job.attempt (errNoHandler job.type))) hctx
        (Function.update_self ..) hother)

/-- An entry that decodes and was written for another job. -/
theorem can_poll_delivered (hctx : s.cancelled = false) {e : Entry π}
    (hpc : s.pc w = .inQueue (.delivered e)) (hdated : Dated c e.values)
    (hother : ¬ s.Mine o e.id) : CanGo c o plan (Polls w s k) (s, k) := by
  obtain ⟨job, hj, _⟩ := hdated
  refine .step (.decode w none) ⟨rfl, by simp, trivial⟩
    (by simp only [step, hpc, RedisQueue.dequeueEntry, hj]; rfl) rfl
    (can_poll_got (s := s.setPc w (.got { job with id := e.id })) hctx (Function.update_self ..)
      hother)

/-- A worker that has not returned and does not have the job. -/
theorem can_poll (htracked : Tracked c s) (hdated : WellDated c s) (hctx : s.cancelled = false)
    (hw : s.pc w ≠ .returned) (hfree : ¬ Has (s.Mine o) (s.pc w)) :
    CanGo c o plan (Polls w s k) (s, k) := by
  cases hpc : s.pc w with
  | top => exact can_poll_top hctx hpc
  | dequeuing =>
    exact .here ⟨hpc, rfl, ⟨[], (List.append_nil _).symm⟩, fun _ h => h⟩
  | inQueue p =>
    cases p with
    | delivered e =>
      rw [hpc] at hfree
      exact can_poll_delivered hctx hpc
        (hdated.entries e (List.mem_append_left _ (htracked.delivered w e hpc))) hfree
    | readding job v => exact can_poll_readding hctx hpc
  | got job => exact can_poll_got hctx hpc (by rw [hpc] at hfree; exact hfree)
  | handling job => exact can_poll_handling hctx hpc (by rw [hpc] at hfree; exact hfree)
  | failing job err => exact can_poll_failing hctx hpc (by rw [hpc] at hfree; exact hfree)
  | succeeded job => exact can_poll_succeeded hctx hpc
  | returned => exact absurd hpc hw

end Poll

/-! ### The job is attempted -/

/-- The job is in the stream and has not been delivered. -/
def InQueue (o : Nat) (s : RedisJobs n π) : Prop := ∃ e ∈ s.stream.undelivered, s.Mine o e.id

section Attempt

variable {c : JobCodec π} {o : Nat} {plan : Nat → Bool} {job : Job}

theorem mem_of_dated {id : String} {v : Values π} {mine : String → Prop} [DecidablePred mine]
    (hdated : Dated c v) (hmine : mine id) : ∃ y, y ∈ valuesCopy c mine id v := by
  obtain ⟨job, hj, _⟩ := hdated
  exact ⟨_, mem_valuesCopy.mpr ⟨hmine, job, hj, rfl⟩⟩

theorem exists_mem_of_has {s : RedisJobs n π} (htracked : Tracked c s) (hdated : WellDated c s)
    {w : Fin n} (h : Has (s.Mine o) (s.pc w)) :
    ∃ y, y ∈ (s.pc w).copies (s.Mine o) (RedisPc.copies c (s.Mine o)) := by
  have hhand := hdated.hands w
  have hcopy : ∀ {j : Job} {st : Stage}, s.Mine o j.id → (st, j.count) ∈ j.copy (s.Mine o) st :=
    fun hid => Job.mem_copy.mpr ⟨hid, rfl⟩
  cases hpc : s.pc w with
  | inQueue p =>
    rw [hpc] at h hhand
    cases p with
    | delivered e =>
      exact mem_of_dated (hdated.entries e (List.mem_append_left _ (htracked.delivered w e hpc))) h
    | readding j v => exact mem_of_dated hhand h
  | got j | handling j | failing j err =>
    rw [hpc] at h
    exact ⟨_, hcopy h⟩
  | top | dequeuing | succeeded j | returned =>
    rw [hpc] at h
    exact h.elim

/-- A job whose life is at rest is neither undelivered nor in hands. -/
theorem Live.atRest {x : RedisJobs n π × Nat} (hx : Live c o plan job x)
    (h : (RedisJobs.life c o x).AtRest) : AtRest o x.1 := by
  refine ⟨fun e he hmine => ?_, fun w hw => ?_⟩
  · obtain ⟨y, hy⟩ := mem_of_dated (hx.dated.entries e (List.mem_append_right _ he)) hmine
    have hrest := h y (mem_copies.mpr (.inl ⟨e, he, hy⟩))
    obtain ⟨_, _, _, rfl⟩ := mem_valuesCopy.mp hy
    simp at hrest
  · obtain ⟨y, hy⟩ := exists_mem_of_has hx.tracked hx.dated hw
    obtain ⟨_, hcompleted, hdead⟩ := mem_hand hy
    exact (h y (mem_copies.mpr (.inr (.inl ⟨w, hy⟩)))).elim hcompleted hdead

theorem Live.atRest_of_mem {x : RedisJobs n π × Nat} (hx : Live c o plan job x) {st : Stage}
    {d : Count String} (hmem : (st, d) ∈ x.1.copies c o) (hst : st = .completed ∨ st = .dead) :
    AtRest o x.1 := by
  obtain ⟨hsingle, _⟩ := hx.lawful.of_mem hmem
  refine hx.atRest fun y hy => ?_
  rw [hsingle, Multiset.mem_singleton] at hy
  rwa [hy]

/-- While the job is in the stream no worker has it: there is one copy. -/
theorem Live.free {s : RedisJobs n π} {k : Nat} (hx : Live c o plan job (s, k)) (hq : InQueue o s)
    (w : Fin n) : ¬ Has (s.Mine o) (s.pc w) := by
  intro hhas
  obtain ⟨e, he, hmine⟩ := hq
  obtain ⟨y, hy⟩ := exists_mem_of_has (s := s) hx.tracked hx.dated hhas
  obtain ⟨z, hz⟩ := mem_of_dated (hx.dated.entries e (List.mem_append_right _ he)) hmine
  have hcard := hx.lawful.card_le_one
  simp only [RedisJobs.life, copies] at hcard
  rw [copiesBy_at (w := w) rfl, Multiset.card_add] at hcard
  have hhand := Multiset.card_pos_iff_exists_mem.mpr ⟨y, hy⟩
  have hrest : 0 < (s.copiesElse c (s.Mine o) w s.stream.undelivered s.completed s.dead).card :=
    Multiset.card_pos_iff_exists_mem.mpr
      ⟨z, mem_pile.mpr (.inl (mem_sum_map.mpr ⟨e, he, hz⟩))⟩
  omega

/-- A step in which the handler of the job is not invoked, with the pool
running and the books kept. -/
theorem Live.go (hc : c.RoundTrips) (hd : c.Dates) {P : RedisJobs n π × Nat → Prop}
    {s t : RedisJobs n π} {k : Nat} (hlive : Live c o plan job (s, k)) (a : RedisAct n π)
    (hgo : Goes c o plan (s, k) a) (hstep : s.step c a = some t) (hno : invokes o s a = false)
    (h : Live c o plan job (t, k) → CanGo c o plan P (t, k)) : CanGo c o plan P (s, k) :=
  .step a hgo hstep hno
    (h (hlive.step hc hd _ a _ hgo (counted_eq_some.mpr ⟨hstep, by simp [hno]⟩)))

/-- A worker that polls gets to the job if that is in the stream: it completes
the jobs ahead of it. The measure is their number. -/
theorem can_take (hc : c.RoundTrips) (hd : c.Dates) {w : Fin n} {x : RedisJobs n π × Nat}
    (hx : Live c o plan job x) (hw : x.1.pc w = .dequeuing) (hq : InQueue o x.1) :
    CanGo c o plan (fun y => Live c o plan job y ∧ y.2 = x.2 ∧
      ∃ j, y.1.pc w = .got j ∧ y.1.Mine o j.id) x := by
  obtain ⟨e, he, hmine⟩ := hq
  refine Can.of_measure (I := fun y => Live c o plan job y ∧ y.2 = x.2 ∧
    y.1.pc w = .dequeuing ∧ e ∈ y.1.stream.undelivered ∧ y.1.Mine o e.id)
    (fun y => y.1.stream.undelivered.findIdx fun e' => decide (e'.id = e.id)) ?_
    ⟨hx, rfl, hw, he, hmine⟩
  rintro ⟨s, k⟩ ⟨hlive, hk, hpc, he, hmine⟩
  simp only at hpc he hk hmine
  cases hu : s.stream.undelivered with
  | nil => simp [hu] at he
  | cons head rest =>
    have hread : s.step c (.read w .entry) =
        some { s.setPc w (.inQueue (.delivered head)) with
          stream := ⟨s.stream.delivered ++ [head], rest, s.stream.pending ++ [head.id]⟩ } := by
      simp [step, hpc, Stream.xreadgroup, hu]
    refine hlive.go hc hd (.read w .entry) ⟨trivial, by simp, trivial⟩ hread rfl fun hlive' => ?_
    have hhead : Dated c head.values := hlive.dated.entries head (by simp [hu])
    by_cases hid : s.Mine o head.id
    · obtain ⟨j, hj, _⟩ := hhead
      refine hlive'.go (t := { s.setPc w (.inQueue (.delivered head)) with
          stream := ⟨s.stream.delivered ++ [head], rest, s.stream.pending ++ [head.id]⟩
          pc := Function.update (s.setPc w (.inQueue (.delivered head))).pc w
            (.got { j with id := head.id }) })
        hc hd (.decode w none) ⟨rfl, by simp, trivial⟩
        ?_ rfl fun hlive'' => .here (.inl ⟨hlive'', hk, { j with id := head.id }, ?_, hid⟩)
      · simp only [step, setPc_pc, Function.update_self, RedisQueue.dequeueEntry, hj]
        rfl
      · exact Function.update_self ..
    · refine ((can_poll_delivered (s := { s.setPc w (.inQueue (.delivered head)) with
          stream := ⟨s.stream.delivered ++ [head], rest, s.stream.pending ++ [head.id]⟩ })
        hlive.ctx (Function.update_self ..) hhead hid).invariant (Live.step hc hd) hlive').mono ?_
      rintro y ⟨⟨hw, hk', ⟨more, hmore⟩, horigins⟩, hlive''⟩
      have hne : head.id ≠ e.id := fun h => hid (h ▸ hmine)
      have hrest : e ∈ rest := by
        rw [hu] at he
        rcases List.mem_cons.mp he with rfl | he
        · exact absurd rfl hne
        · exact he
      refine .inr ⟨⟨hlive'', hk'.trans hk, hw, ?_, horigins hmine⟩, ?_⟩
      · rw [hmore]
        exact List.mem_append_left _ hrest
      · have hfound : rest.findIdx (fun e' => decide (e'.id = e.id)) < rest.length :=
          List.findIdx_lt_length_of_exists ⟨e, hrest, by simp⟩
        simp only [hmore, List.findIdx_append, hfound, ↓reduceIte, List.findIdx_cons,
          hne, decide_false, cond_false]
        omega

/-- What is so after an attempt: the job is at rest, or back in the stream. -/
def Settled (c : JobCodec π) (o : Nat) (plan : Nat → Bool) (job : Job) (w : Fin n) (k : Nat)
    (y : RedisJobs n π × Nat) : Prop :=
  AtRest o y.1 ∨ Live c o plan job y ∧ InQueue o y.1 ∧ y.2 = k ∧ y.1.pc w ≠ .returned

theorem can_readd (hc : c.RoundTrips) (hd : c.Dates) {s : RedisJobs n π} {k : Nat} {w : Fin n}
    {j : Job} {v : Values π} (hlive : Live c o plan job (s, k))
    (hpc : s.pc w = .inQueue (.readding j v)) (hid : s.Mine o j.id) :
    CanGo c o plan (Settled c o plan job w k) (s, k) := by
  obtain ⟨id, hfresh, hne⟩ := exists_fresh s
  have hstep : s.step c (.readd w none id) = some { s.setPc w .top with
      stream := s.stream.xadd id v
      origins := s.origins ++
        (s.origins.filter fun p => p.1 = j.id).map fun p => (id, p.2) } := by
    simp only [step, hpc, hfresh, ↓reduceIte]
  refine hlive.go hc hd (.readd w none id) ⟨⟨rfl, hne⟩, by simp, trivial⟩ hstep rfl fun hlive' =>
    .here (.inr ⟨hlive', ⟨⟨id, v⟩, ?_, ?_⟩, rfl, by simp⟩)
  · simp [Stream.xadd]
  · refine List.mem_append_right _ (List.mem_map.mpr ⟨(j.id, o), ?_, rfl⟩)
    simpa [Mine] using hid

theorem can_settle (hc : c.RoundTrips) (hd : c.Dates) {s : RedisJobs n π} {k : Nat} {w : Fin n}
    {j : Job} {err : String} (hlive : Live c o plan job (s, k)) (hpc : s.pc w = .failing j err)
    (hid : s.Mine o j.id) : CanGo c o plan (Settled c o plan job w k) (s, k) := by
  have hyear : Time.HasYear j.enqueuedAt := by
    have := hlive.dated.hands w
    simp only [hpc] at this
    exact this
  -- the clock is read when the delay would end at the zero time
  let now := Time.zero - backoff (j.attempts + 1)
  have hencodes : ∀ job', RedisQueue.nackJob now j err = some job' →
      job'.id = j.id ∧ ∃ v, RedisQueue.message c j.enqueuedAt job' = .ok v := by
    intro job' hj
    simp only [RedisQueue.nackJob] at hj
    split at hj <;> cases hj
    exact ⟨rfl, RedisQueue.message_nackJob hd (hlive.named j.id hid) hyear
      (Int.sub_add_cancel Time.zero (backoff (j.attempts + 1)))⟩
  have hgo : Goes c o plan (s, k) (.settle w now j.enqueuedAt none) := by
    refine ⟨⟨rfl, fun j' err' hpc' _ job' hj => ?_⟩, by simp, trivial⟩
    simp only [hpc] at hpc'
    cases hpc'
    exact (hencodes job' hj).2
  by_cases hup : j.GivenUp
  · have hstep : s.step c (.settle w now j.enqueuedAt none) =
        some { s.setPc w .top with dead := s.dead ++ [.of j err] } := by
      simp only [step, hpc, hup, ↓reduceIte]
    refine hlive.go hc hd _ hgo hstep rfl fun hlive' =>
      .here (.inl (hlive'.atRest_of_mem (d := j.count) ?_ (.inr rfl)))
    exact mem_copies.mpr (.inr (.inr (.inr ⟨.of j err, by simp, hid, rfl⟩)))
  · cases hj : RedisQueue.nackJob now j err with
    | none =>
      -- the job is forgotten: the worker had its only copy
      have hstep : s.step c (.settle w now j.enqueuedAt none) =
          some { s.setPc w .top with stream := xackUnless s.stream none j.id } := by
        simp only [step, hpc, hup, hj, ↓reduceIte]
      refine hlive.go hc hd _ hgo hstep rfl fun hlive' =>
        .here (.inl (hlive'.atRest fun y hy => ?_))
      have hmem : (Stage.failing, j.count) ∈ s.copies c o := by
        refine mem_copies.mpr (.inr (.inl ⟨w, ?_⟩))
        rw [hpc, WorkerPc.copies, Job.mem_copy]
        exact ⟨hid, rfl⟩
      obtain ⟨hsingle, _⟩ := hlive.lawful.of_mem hmem
      have hnone : s.copiesElse c (s.Mine o) w s.stream.undelivered s.completed s.dead = 0 := by
        simp only [RedisJobs.life, copies] at hsingle
        rw [copiesBy_at hpc, WorkerPc.copies, Job.copy_of_mine hid] at hsingle
        exact add_eq_left.mp hsingle
      have hcopies : copies c o { s.setPc w .top with stream := xackUnless s.stream none j.id } =
          0 := (copiesBy_move (s := s) (w := w) (p := .top) (by rfl)).trans
        ((zero_add _).trans hnone)
      simp only [RedisJobs.life, hcopies] at hy
      exact absurd hy (Multiset.notMem_zero y)
    | some job' =>
      obtain ⟨hsame, v, hm⟩ := hencodes job' hj
      have hstep : s.step c (.settle w now j.enqueuedAt none) =
          some { s.setPc w (.inQueue (.readding job' v)) with
            stream := xackUnless s.stream none j.id } := by
        simp only [step, hpc, hup, hj, hm, ↓reduceIte]
      exact hlive.go hc hd _ hgo hstep rfl
        fun hlive' => can_readd hc hd hlive' (Function.update_self ..) (hsame ▸ hid)

theorem can_handle (hc : c.RoundTrips) (hd : c.Dates) {s : RedisJobs n π} {k : Nat} {w : Fin n}
    {j : Job} (hlive : Live c o plan job (s, k)) (hpc : s.pc w = .handling j)
    (hid : s.Mine o j.id) : CanGo c o plan (Settled c o plan job w k) (s, k) := by
  have hgo : ∀ err : Option String, err.isNone = plan k →
      Goes c o plan (s, k) (.handled w err) :=
    fun err herr => ⟨fun _ _ _ => herr, by simp, trivial⟩
  cases hplan : plan k with
  | true =>
    have hstep : s.step c (.handled w none) =
        some { s.setPc w (.succeeded j) with completed := s.completed ++ [j] } := by
      simp only [step, hpc]
    refine hlive.go hc hd _ (hgo none hplan.symm) hstep rfl fun hlive' =>
      .here (.inl (hlive'.atRest_of_mem (d := j.count) ?_ (.inl rfl)))
    exact mem_copies.mpr (.inr (.inr (.inl ⟨j, by simp, hid, rfl⟩)))
  | false =>
    have hstep : s.step c (.handled w (some "")) = some (s.setPc w (.failing j "")) := by
      simp only [step, hpc]
    exact hlive.go hc hd _ (hgo (some "") hplan.symm) hstep rfl
      fun hlive' => can_settle hc hd hlive' (Function.update_self ..) hid

theorem can_attempt (hc : c.RoundTrips) (hd : c.Dates) {s : RedisJobs n π} {k : Nat} {w : Fin n}
    {j : Job} (hlive : Live c o plan job (s, k)) (hpc : s.pc w = .got j) (hid : s.Mine o j.id) :
    CanGo c o plan (Settled c o plan job w (k + 1)) (s, k) := by
  have hmem : (Stage.taken, j.count) ∈ s.copies c o := by
    refine mem_copies.mpr (.inr (.inl ⟨w, ?_⟩))
    rw [hpc, WorkerPc.copies, Job.mem_copy]
    exact ⟨hid, rfl⟩
  have hreg : j.type ∈ s.handlers := by
    obtain ⟨_, hfits⟩ := hlive.lawful.of_mem hmem
    have htype : j.type = job.type := hfits.kind_eq
    rw [htype]
    exact hlive.handler
  have hgo : Goes c o plan (s, k) (.findHandler w) := by
    refine ⟨fun j' hj' _ => ?_, by simp, trivial⟩
    rw [hpc] at hj'
    cases hj'
    exact hreg
  have hstep : counted (step c) (invokes o) (s, k) (.findHandler w) =
      some (s.setPc w (.handling j.attempt), k + 1) := by
    refine counted_eq_some.mpr ⟨?_, ?_⟩
    · simp only [step, hpc, hreg, ↓reduceIte]
    · simp [invokes, hpc, hid, hreg]
  exact .next _ hgo hstep
    (can_handle hc hd (hlive.step hc hd _ _ _ hgo hstep) (Function.update_self ..) hid)

/-- A worker that has not returned brings the job in the stream to its end.
The measure is the number of attempts that are left. -/
theorem can_rest_queued (hc : c.RoundTrips) (hd : c.Dates) {m : Nat} (hm : job.maxRetries = m)
    {x : RedisJobs n π × Nat} (hx : Live c o plan job x) (hq : InQueue o x.1)
    (hw : ∃ w, x.1.pc w ≠ .returned) : CanGo c o plan (fun y => AtRest o y.1) x := by
  refine Can.of_measure (I := fun y => Live c o plan job y ∧ InQueue o y.1 ∧
    ∃ w, y.1.pc w ≠ .returned) (fun y => m + 1 - y.2) ?_ ⟨hx, hq, hw⟩
  rintro ⟨s, k⟩ ⟨hlive, hq, w, hw⟩
  have hfree := hlive.free hq w
  obtain ⟨e, he, hmine⟩ := hq
  have hk : k ≤ m := by
    obtain ⟨j, hj, _⟩ := hlive.dated.entries e (List.mem_append_right _ he)
    have hmem : (Stage.queued, j.count) ∈ s.copies c o :=
      mem_copies.mpr (.inl ⟨e, he, mem_valuesCopy.mpr ⟨hmine, j, hj, rfl⟩⟩)
    obtain ⟨_, hfits⟩ := hlive.lawful.of_mem hmem
    rw [hm] at hfits
    exact hfits.le_budget
  refine ((can_poll hlive.tracked hlive.dated hlive.ctx hw hfree).invariant (Live.step hc hd)
    hlive).trans ?_
  rintro y ⟨⟨hpolls, hy, ⟨more, hmore⟩, horigins⟩, hlive'⟩
  refine (can_take hc hd hlive' hpolls ⟨e, ?_, horigins hmine⟩).trans ?_
  · rw [hmore]
    exact List.mem_append_left _ he
  · rintro ⟨t, k'⟩ ⟨hlive'', hk', j', hpc, hid⟩
    refine (can_attempt hc hd hlive'' hpc hid).mono ?_
    rintro z (hrest | ⟨hliveZ, hqueued, hz, hreturned⟩)
    · exact .inl hrest
    · refine .inr ⟨⟨hliveZ, hqueued, w, hreturned⟩, ?_⟩
      have : k' = k := hk'.trans hy
      omega

/-- **Progress.** As long as there is a worker, the job is brought to its
end. -/
theorem can_rest (hc : c.RoundTrips) (hd : c.Dates) {m : Nat} (hm : job.maxRetries = m)
    {x : RedisJobs n π × Nat} (hx : Live c o plan job x) (hw : ∃ w, x.1.pc w ≠ .returned) :
    CanGo c o plan (fun y => AtRest o y.1) x := by
  have hsettled : ∀ (w : Fin n) k y, Settled c o plan job w k y →
      CanGo c o plan (fun y => AtRest o y.1) y := by
    rintro w k y (hrest | ⟨hlive, hq, _, hw⟩)
    · exact .here hrest
    · exact can_rest_queued hc hd hm hlive hq ⟨w, hw⟩
  by_cases hq : InQueue o x.1
  · exact can_rest_queued hc hd hm hx hq hw
  by_cases hhas : ∃ w, Has (x.1.Mine o) (x.1.pc w)
  · obtain ⟨w, hw⟩ := hhas
    obtain ⟨s, k⟩ := x
    cases hpc : s.pc w with
    | inQueue p =>
      simp only [hpc] at hw
      cases p with
      | delivered e =>
        obtain ⟨j, hj, _⟩ :=
          hx.dated.entries e (List.mem_append_left _ (hx.tracked.delivered w e hpc))
        have hstep : s.step c (.decode w none) =
            some (s.setPc w (.got { j with id := e.id })) := by
          simp only [step, hpc, RedisQueue.dequeueEntry, hj]
          rfl
        exact hx.go hc hd (.decode w none) ⟨rfl, by simp, trivial⟩ hstep rfl fun hlive =>
          (can_attempt hc hd hlive (Function.update_self ..) hw).trans (hsettled w _)
      | readding j v => exact (can_readd hc hd hx hpc hw).trans (hsettled w _)
    | got j =>
      simp only [hpc] at hw
      exact (can_attempt hc hd hx hpc hw).trans (hsettled w _)
    | handling j =>
      simp only [hpc] at hw
      exact (can_handle hc hd hx hpc hw).trans (hsettled w _)
    | failing j err =>
      simp only [hpc] at hw
      exact (can_settle hc hd hx hpc hw).trans (hsettled w _)
    | top | dequeuing | succeeded _ | returned =>
      simp only [hpc] at hw
      exact hw.elim
  · exact .here ⟨fun e he hmine => hq ⟨e, he, hmine⟩, fun w hw => hhas ⟨w, hw⟩⟩

end Attempt

end RedisJobs

/-! ## The two queues -/

namespace MemJobs

variable {n : Nat}

/-- A job that was accepted under an ID no other job has is the one found
under it. -/
theorem acceptedAs_of_mem {id : String} {plan : Nat → Bool} {as : List (MemAct n)}
    {x : MemJobs n × Nat} (hrun : run (counted step (invokes id)) (init, 0) as = some x)
    (hserves : Along (counted step (invokes id)) (Serves id plan) (init, 0) as) {job : Job}
    (hjob : job ∈ x.1.accepted) (hid : job.id = id) : acceptedAs id x = some job := by
  have hunique : ∀ j ∈ x.1.accepted, j.id = id → acceptedAs id x = some j := by
    refine hserves.invariant (I := fun x => ∀ j ∈ x.1.accepted, j.id = id →
      acceptedAs id x = some j) ?_ (by simp [init]) hrun
    intro x a y hx hserve hstep
    have hbase := (counted_eq_some.mp hstep).1
    obtain ⟨t, k'⟩ := y
    cases steps_of_step hbase with
    | @enqueued job _ =>
      intro j hj hjid
      rcases List.mem_append.mp hj with hj | hj
      · have hold := hx j hj hjid
        simp only [acceptedAs, List.find?_append] at hold ⊢
        rw [hold]
        rfl
      · obtain rfl := List.mem_singleton.mp hj
        have hnone : x.1.accepted.find? (fun job => decide (job.id = id)) = none := by
          simpa using hserve hjid
        simp only [acceptedAs, List.find?_append, hnone]
        simp [hjid]
    | _ => exact hx
  exact hunique job hjob hid

end MemJobs

namespace RedisJobs

variable {n : Nat} {π : Type}

/-- While nobody else writes to the stream, what it holds has a year, and the
IDs of the job's entries are not empty. -/
theorem dated_of_run {c : JobCodec π} (hc : c.RoundTrips) (hd : c.Dates) {o : Nat}
    {plan : Nat → Bool} {st : Stream π} {as : List (RedisAct n π)} {x : RedisJobs n π × Nat}
    (hrun : run (counted (step c) (invokes o)) (init st, 0) as = some x)
    (hserves : Along (counted (step c) (invokes o)) (Serves c o plan) (init st, 0) as)
    (hst : ∀ e ∈ st.delivered ++ st.undelivered, Dated c e.values) (hown : ∀ a ∈ as, Own a) :
    WellDated c x.1 ∧ ∀ id, x.1.Mine o id → id ≠ "" := by
  have hinit : WellDated c (init st : RedisJobs n π) := ⟨hst, fun _ => trivial⟩
  have h := (hserves.and (.of_forall_mem hown (init st, 0))).invariant
    (I := fun x => Tracked c x.1 ∧ WellDated c x.1 ∧ ∀ id, x.1.Mine o id → id ≠ "") ?_
    ⟨tracked_init c st, hinit, by simp [init, Mine]⟩ hrun
  · exact h.2
  · rintro x a y ⟨htracked, hdated, hnamed⟩ ⟨hserve, hown⟩ hstep
    have hbase := (counted_eq_some.mp hstep).1
    exact ⟨step_tracked hc _ _ _ htracked hbase, step_wellDated hc hd htracked hdated hown hbase,
      step_named hnamed hserve hstep⟩

end RedisJobs

/-- **The retry budget of the two queues.** A job is enqueued with `Attempts` 0
and `MaxRetries` `m`, the handler of its type succeeds at its invocation number
`i` exactly if `plan i`, and there are any other jobs, any number of workers
and any interleaving. Once the job is at rest:

* over `memoryQueue`, if the first `m + 1` invocations fail there were exactly
  these and there is one dead letter; if number `j ≤ m + 1` is the first that
  succeeds there were `j` and no dead letter;
* over `redisQueue`, where no command fails, the same is so with `m / 2 + 1`
  in the place of `m + 1`, and the job that was not completed has its dead
  letter only if `m` is even.

So the two agree on every job exactly for `m = 0`, and on a job that succeeds
at attempt `j` for every `m ≥ 2 (j - 1)`. And the job is brought to rest from
every state in which a worker is polling: over Redis this is said for a stream
without entries that do not decode, since those make workers return. -/
theorem retry_budget {π : Type} {c : JobCodec π} (hc : c.RoundTrips) (hd : c.Dates) (n : Nat)
    (plan : Nat → Bool) {job : Job} {m : Nat} (hzero : job.attempts = 0)
    (hm : job.maxRetries = m) :
    (∀ (as : List (MemAct n)) (s : MemJobs n) (k : Nat),
      run (counted MemJobs.step (MemJobs.invokes job.id)) (.init, 0) as = some (s, k) →
      Along (counted MemJobs.step (MemJobs.invokes job.id)) (MemJobs.Serves job.id plan)
        (.init, 0) as →
      job ∈ s.accepted →
      (MemJobs.AtRest job.id s →
        (Failed plan (m + 1) → k = m + 1 ∧ MemJobs.deadLetters job.id s = 1) ∧
        ∀ j, First plan j → j ≤ m + 1 → k = j ∧ MemJobs.deadLetters job.id s = 0) ∧
      (0 < n → s.cancelled = false → job.type ∈ s.handlers →
        ∃ as' y, run (counted MemJobs.step (MemJobs.invokes job.id)) (s, k) as' = some y ∧
          Along (counted MemJobs.step (MemJobs.invokes job.id)) (MemJobs.Serves job.id plan)
            (s, k) as' ∧
          MemJobs.AtRest job.id y.1)) ∧
    (∀ (st : Stream π) (as : List (RedisAct n π)) (s : RedisJobs n π) (k o : Nat),
      run (counted (RedisJobs.step c) (RedisJobs.invokes o)) (.init st, 0) as = some (s, k) →
      Along (counted (RedisJobs.step c) (RedisJobs.invokes o)) (RedisJobs.Serves c o plan)
        (.init st, 0) as →
      s.accepted[o]? = some job →
      (RedisJobs.AtRest o s →
        (Failed plan (m / 2 + 1) →
          k = m / 2 + 1 ∧ RedisJobs.deadLetters o s = if 2 ∣ m then 1 else 0) ∧
        ∀ j, First plan j → j ≤ m / 2 + 1 → k = j ∧ RedisJobs.deadLetters o s = 0) ∧
      ((∃ w, s.pc w ≠ .returned) → s.cancelled = false → job.type ∈ s.handlers →
        (∀ e ∈ st.delivered ++ st.undelivered, Dated c e.values) →
        (∀ a ∈ as, RedisJobs.Own a) →
        ∃ as' y, run (counted (RedisJobs.step c) (RedisJobs.invokes o)) (s, k) as' = some y ∧
          Along (counted (RedisJobs.step c) (RedisJobs.invokes o)) (RedisJobs.Serves c o plan)
            (s, k) as' ∧
          RedisJobs.AtRest o y.1)) := by
  refine ⟨fun as s k hrun hserves hjob => ?_, fun st as s k o hrun hserves hjob => ?_⟩
  · obtain ⟨hopen, hkept⟩ := MemJobs.kept_of_run hrun hserves
    have haccepted := MemJobs.acceptedAs_of_mem hrun hserves hjob rfl
    refine ⟨fun hrest => ?_, fun hn hctx hreg => ?_⟩
    · have hlaw := hkept.at_rest haccepted hzero hm (MemJobs.atRest_iff.mp hrest)
      rw [MemJobs.count_dead] at hlaw
      simpa [MemJobs.life] using hlaw
    · have hlive : MemJobs.Live job.id plan job (s, k) :=
        ⟨hopen, hctx, hreg, haccepted, hkept.lawful haccepted hzero⟩
      have hworker := MemJobs.workers_stay (run_of_counted hrun) hctx hopen ⟨0, hn⟩
      obtain ⟨as', y, hrun', halong, hrest⟩ :=
        (MemJobs.can_rest hm hlive ⟨⟨0, hn⟩, hworker⟩).exists_run
      exact ⟨as', y, hrun', halong.mono fun _ _ h => h.1, hrest⟩
  · obtain ⟨htracked, hknown, hkept⟩ := RedisJobs.kept_of_run hc hrun hserves
    refine ⟨fun hrest => ?_, fun hw hctx hreg hst hown => ?_⟩
    · have hlaw := hkept.at_rest hjob hzero hm (RedisJobs.AtRest.life (x := (s, k)) hrest)
      rw [RedisJobs.count_dead] at hlaw
      simpa [RedisJobs.life] using hlaw
    · obtain ⟨hdated, hnamed⟩ := RedisJobs.dated_of_run hc hd hrun hserves hst hown
      have hlive : RedisJobs.Live c o plan job (s, k) :=
        ⟨hctx, hreg, hjob, hkept.lawful hjob hzero, htracked, hknown, hdated, hnamed⟩
      obtain ⟨as', y, hrun', halong, hrest⟩ := (RedisJobs.can_rest hc hd hm hlive hw).exists_run
      exact ⟨as', y, hrun', halong.mono fun _ _ h => h.1, hrest⟩

/-- A job with two retries and a handler that always fails: three invocations
and a dead letter over memory, two and a dead letter over Redis. -/
theorem retry_budget_two_retries :
    let attempt : List (MemAct 1) := [.loopHead 0, .dequeue 0 Time.minute, .findHandler 0,
      .handled 0 (some "down"), .settle 0 0]
    let attempt' : List (RedisAct 1 Encoding.Document) := [.loopHead 0, .read 0 .entry,
      .decode 0 none, .findHandler 0, .handled 0 (some "down"), .settle 0 0 0 none]
    (∃ s k, run (counted MemJobs.step (MemJobs.invokes "job-1")) (.init, 0)
        ([.register "mail", .enqueue (sampleJob 2)] ++ attempt ++ attempt ++ attempt) =
          some (s, k) ∧ k = 3 ∧ MemJobs.deadLetters "job-1" s = 1) ∧
    ∃ s k, run (counted (RedisJobs.step JobCodec.json) (RedisJobs.invokes 0)) (.init .empty, 0)
        ([.register "mail", .enqueue (sampleJob 2) 0 none "1-0"] ++ attempt' ++
          [.readd 0 none "2-0"] ++ attempt') =
          some (s, k) ∧ k = 2 ∧ RedisJobs.deadLetters 0 s = 1 := by
  intro attempt attempt'
  have hlaw := retry_budget JobCodec.roundTrips_json JobCodec.dates_json 1 (fun _ => false)
    (m := 2) (rfl : (sampleJob 2).attempts = 0) rfl
  constructor
  · have hends : ∃ x, run (counted MemJobs.step (MemJobs.invokes "job-1")) (.init, 0)
        ([.register "mail", .enqueue (sampleJob 2)] ++ attempt ++ attempt ++ attempt) = some x ∧
        sampleJob 2 ∈ x.1.accepted ∧ MemJobs.AtRest "job-1" x.1 :=
      exists_run_of_any (by decide +kernel)
    obtain ⟨⟨s, k⟩, hrun, hjob, hrest⟩ := hends
    obtain ⟨hk, hdead⟩ := ((hlaw.1 _ s k hrun (by decide +kernel) hjob).1 hrest).1
      (fun _ _ _ => rfl)
    exact ⟨s, k, hrun, hk, hdead⟩
  · have hends : ∃ x, run (counted (RedisJobs.step JobCodec.json) (RedisJobs.invokes 0))
        (.init .empty, 0) ([.register "mail", .enqueue (sampleJob 2) 0 none "1-0"] ++ attempt' ++
          [.readd 0 none "2-0"] ++ attempt') = some x ∧
        x.1.accepted[0]? = some (sampleJob 2) ∧ RedisJobs.AtRest 0 x.1 :=
      exists_run_of_any (by decide +kernel)
    obtain ⟨⟨s, k⟩, hrun, hjob, hrest⟩ := hends
    obtain ⟨hk, hdead⟩ := ((hlaw.2 _ _ s k 0 hrun (by decide +kernel) hjob).1 hrest).1
      (fun _ _ _ => rfl)
    exact ⟨s, k, hrun, hk, hdead⟩

/-- A job with one retry and a handler that always fails. Over memory it is
invoked twice and there is a dead letter; over Redis it is invoked once, `Nack`
counts that attempt again and forgets the job: it is nowhere. -/
theorem retry_budget_one_retry_lost :
    let attempt : List (MemAct 1) := [.loopHead 0, .dequeue 0 Time.minute, .findHandler 0,
      .handled 0 (some "down"), .settle 0 0]
    (∃ x, run (counted MemJobs.step (MemJobs.invokes "job-1")) (.init, 0)
        ([.register "mail", .enqueue (sampleJob 1)] ++ attempt ++ attempt) = some x ∧
      x.2 = 2 ∧ MemJobs.AtRest "job-1" x.1 ∧ MemJobs.deadLetters "job-1" x.1 = 1) ∧
    ∃ x, run (counted (RedisJobs.step JobCodec.json) (RedisJobs.invokes 0)) (.init .empty, 0)
        ([.register "mail", .enqueue (sampleJob 1) 0 none "1-0", .loopHead 0, .read 0 .entry,
          .decode 0 none, .findHandler 0, .handled 0 (some "down"), .settle 0 0 0 none] :
            List (RedisAct 1 Encoding.Document)) = some x ∧
      x.2 = 1 ∧ RedisJobs.AtRest 0 x.1 ∧ RedisJobs.deadLetters 0 x.1 = 0 :=
  ⟨exists_run_of_any (by decide +kernel), exists_run_of_any (by decide +kernel)⟩

end GoRestApi.Jobs
