/-
GoRestApi.Jobs.RedisCalls — `redisQueue` under any callers, and what a job
keeps over its retries.

The pool of GoRestApi.Jobs.Redis is one way to use the queue. Here the callers
are anybody: they call `Enqueue` with any jobs, `Dequeue`, and `Ack` and `Nack`
with any copy that `Dequeue` has returned, in any order and as often as they
like. A caller may have changed the `Attempts` of its copy, as `runJob` does;
what it does to `RunAfter` and `LastError` is lost, since `Nack` overwrites
both. One Redis command is one step, as in the pool.

`copies` lists what `Dequeue` has returned, with the entry each copy was
delivered from. `origins` says which accepted job an entry was written for:
`Enqueue` writes the first one, and the `Enqueue` inside a `Nack` one for the
same job. No step reads either to decide what it does to the stream, but for
the copy a caller passes.

* `Intact`: what an entry carries is what was fixed when its job was accepted,
  and a copy is what its entry carries. The ID under which a job is encoded
  changes with every retry, and is overwritten on the way out.
* `Settled`: an entry is on the pending list from its delivery to the first
  `Ack` or `Nack` made with its copy. Every entry is delivered once, so that
  calls with other copies do not touch it.
* `retried_job_intact` puts the two together. `pool_follows` shows that the pool
  is one of the callers, which gives `job_in_hand_keeps` for its workers.
-/
import GoRestApi.Jobs.RedisPending
import Mathlib.Tactic.Simps.Basic

namespace GoRestApi.Jobs

open Go Lts

/-! ## The queue and its callers -/

/-- A job that `Enqueue` has accepted, and what it read from the clock. -/
structure Enqueued where
  job : Job
  now : Time
  deriving DecidableEq, Repr

/-- A copy that `Dequeue` has returned, and the entry it was delivered from. -/
structure Delivery (π : Type) where
  entry : Entry π
  job : Job
  deriving DecidableEq, Repr

/-- One `redisQueue`; `ι` is the type of the goroutines that call it. -/
structure RedisCalls (ι π : Type) where
  stream : Stream π
  /-- where a caller is inside a method, between two commands -/
  pc : ι → Option (RedisPc π)
  copies : List (Delivery π)
  origins : List (String × Enqueued)

/-- The steps. `k` is the number of the copy that is passed to `Ack` or `Nack`;
the rest is as for `RedisAct`. -/
inductive CallAct (ι π : Type) where
  | enqueue (job : Job) (now : Time) (redis : Option RedisError) (entryID : String)
  | produce (v : Values π) (entryID : String)
  | read (i : ι) (reply : ReadReply)
  | decode (i : ι) (redis : Option RedisError)
  | ack (k : Nat) (redis : Option RedisError)
  | nack (i : ι) (k : Nat) (attempts : Int) (err : String) (now now' : Time)
      (redis : Option RedisError)
  | readd (i : ι) (redis : Option RedisError) (entryID : String)
  deriving DecidableEq, Repr

/-- The copy with which the action makes an `XACK` that does not fail. -/
def CallAct.acked {ι π : Type} : CallAct ι π → Option Nat
  | .ack k none | .nack _ k _ _ _ _ none => some k
  | _ => none

namespace RedisCalls

variable {ι π : Type}

/-- Nobody has called the queue yet; the stream holds whatever it holds. -/
def init (st : Stream π) : RedisCalls ι π where
  stream := st
  pc := fun _ => none
  copies := []
  origins := []

variable [DecidableEq ι]

@[simps pc]
def setPc (s : RedisCalls ι π) (i : ι) (p : Option (RedisPc π)) : RedisCalls ι π :=
  { s with pc := Function.update s.pc i p }

def step (c : JobCodec π) (s : RedisCalls ι π) : CallAct ι π → Option (RedisCalls ι π)
  | .enqueue job now redis entryID =>
    match RedisQueue.message c now job with
    | .error _ => some s
    | .ok v =>
      match redis with
      | some _ => some s
      | none =>
        if entryID ∈ s.stream.ids then none
        else
          some { s with
            stream := s.stream.xadd entryID v
            origins := s.origins ++ [(entryID, ⟨job, now⟩)] }
  | .produce v entryID =>
    if entryID ∈ s.stream.ids then none
    else some { s with stream := s.stream.xadd entryID v }
  | .read i reply =>
    match s.pc i with
    | some _ => none
    | none =>
      match reply with
      | .entry =>
        match s.stream.xreadgroup with
        | some (e, st) => some { s.setPc i (some (.delivered e)) with stream := st }
        | none => none
      | .nil =>
        match s.stream.xreadgroup with
        | some _ => none
        | none => some s
      | .failed _ => some s
  | .decode i redis =>
    match s.pc i with
    | some (.delivered e) =>
      match jobFromMessage c e.values with
      | .error _ => some { s.setPc i none with stream := RedisJobs.xackUnless s.stream redis e.id }
      | .ok job => some { s.setPc i none with copies := s.copies ++ [⟨e, { job with id := e.id }⟩] }
    | _ => none
  | .ack k redis =>
    match s.copies[k]? with
    | some d => some { s with stream := RedisJobs.xackUnless s.stream redis d.job.id }
    | none => none
  | .nack i k attempts err now now' redis =>
    match s.pc i, s.copies[k]? with
    | none, some d =>
      let job := { d.job with attempts := attempts }
      let st := RedisJobs.xackUnless s.stream redis job.id
      match RedisQueue.nackJob now job err with
      | none => some { s with stream := st }
      | some job' =>
        match RedisQueue.message c now' job' with
        | .error _ => some { s with stream := st }
        | .ok v => some { s.setPc i (some (.readding job' v)) with stream := st }
    | _, _ => none
  | .readd i redis entryID =>
    match s.pc i with
    | some (.readding job v) =>
      match redis with
      | some _ => some (s.setPc i none)
      | none =>
        if entryID ∈ s.stream.ids then none
        else
          some { s.setPc i none with
            stream := s.stream.xadd entryID v
            origins := s.origins ++
              (s.origins.filter fun p => p.1 = job.id).map fun p => (entryID, p.2) }
    | _ => none

/-! ## What a step can do -/

/-- The cases of a step, one per branch of the code, with what the branch has
tested. -/
inductive Steps (c : JobCodec π) (s : RedisCalls ι π) :
    CallAct ι π → RedisCalls ι π → Prop where
  | refused {job now redis id} : Steps c s (.enqueue job now redis id) s
  | enqueued {job now id v} : RedisQueue.message c now job = .ok v → id ∉ s.stream.ids →
      Steps c s (.enqueue job now none id)
        { s with
          stream := s.stream.xadd id v
          origins := s.origins ++ [(id, ⟨job, now⟩)] }
  | produced {v id} : id ∉ s.stream.ids →
      Steps c s (.produce v id) { s with stream := s.stream.xadd id v }
  | readEntry {i e rest} : s.pc i = none → s.stream.undelivered = e :: rest →
      Steps c s (.read i .entry)
        { s.setPc i (some (.delivered e)) with
          stream := ⟨s.stream.delivered ++ [e], rest, s.stream.pending ++ [e.id]⟩ }
  | readNothing {i reply} : s.pc i = none → reply ≠ .entry → Steps c s (.read i reply) s
  | malformed {i redis e msg} : s.pc i = some (.delivered e) →
      jobFromMessage c e.values = .error msg →
      Steps c s (.decode i redis)
        { s.setPc i none with stream := RedisJobs.xackUnless s.stream redis e.id }
  | decoded {i redis e job} : s.pc i = some (.delivered e) →
      jobFromMessage c e.values = .ok job →
      Steps c s (.decode i redis)
        { s.setPc i none with copies := s.copies ++ [⟨e, { job with id := e.id }⟩] }
  | acked {k redis d} : s.copies[k]? = some d →
      Steps c s (.ack k redis)
        { s with stream := RedisJobs.xackUnless s.stream redis d.job.id }
  | dropped {i k attempts err now now' redis d} : s.pc i = none → s.copies[k]? = some d →
      (∀ job v, RedisQueue.nackJob now { d.job with attempts := attempts } err = some job →
        RedisQueue.message c now' job ≠ .ok v) →
      Steps c s (.nack i k attempts err now now' redis)
        { s with stream := RedisJobs.xackUnless s.stream redis d.job.id }
  | nacked {i k attempts err now now' redis d job v} : s.pc i = none → s.copies[k]? = some d →
      RedisQueue.nackJob now { d.job with attempts := attempts } err = some job →
      RedisQueue.message c now' job = .ok v →
      Steps c s (.nack i k attempts err now now' redis)
        { s.setPc i (some (.readding job v)) with
          stream := RedisJobs.xackUnless s.stream redis d.job.id }
  | readdFailed {i err id job v} : s.pc i = some (.readding job v) →
      Steps c s (.readd i (some err) id) (s.setPc i none)
  | readded {i id job v} : s.pc i = some (.readding job v) → id ∉ s.stream.ids →
      Steps c s (.readd i none id)
        { s.setPc i none with
          stream := s.stream.xadd id v
          origins := s.origins ++
            (s.origins.filter fun p => p.1 = job.id).map fun p => (id, p.2) }

/-- **Inversion.** A step is one of the cases. -/
theorem steps_of_step {c : JobCodec π} {s s' : RedisCalls ι π} {a : CallAct ι π}
    (h : s.step c a = some s') : Steps c s a s' := by
  cases a with
  | enqueue job now redis id =>
    simp only [step] at h
    split at h
    · cases h; exact .refused
    · split at h
      · cases h; exact .refused
      · split at h <;> cases h
        exact .enqueued ‹_› ‹_›
  | produce v id =>
    simp only [step] at h
    split at h <;> cases h
    exact .produced ‹_›
  | read i reply =>
    simp only [step] at h
    split at h
    · cases h
    · rename_i hpc
      cases reply with
      | failed err => cases h; exact .readNothing hpc (by simp)
      | entry | nil =>
        cases hu : s.stream.undelivered <;> simp only [Stream.xreadgroup, hu] at h <;> cases h
        first | exact .readEntry hpc hu | exact .readNothing hpc (by simp)
  | decode i redis =>
    simp only [step] at h
    split at h
    · split at h <;> cases h
      · exact .malformed ‹_› ‹_›
      · exact .decoded ‹_› ‹_›
    · cases h
  | ack k redis =>
    simp only [step] at h
    split at h <;> cases h
    exact .acked ‹_›
  | nack i k attempts err now now' redis =>
    simp only [step] at h
    split at h
    · rename_i d hpc hk
      split at h
      · rename_i hj
        cases h
        exact .dropped hpc hk (by simp [hj])
      · rename_i job hj
        split at h <;> cases h
        · rename_i hm
          refine .dropped hpc hk fun job' v hj' => ?_
          cases hj.symm.trans hj'
          simp [hm]
        · exact .nacked hpc hk hj ‹_›
    · cases h
  | readd i redis id =>
    simp only [step] at h
    split at h
    · cases redis with
      | some err => cases h; exact .readdFailed ‹_›
      | none =>
        simp only at h
        split at h <;> cases h
        exact .readded ‹_› ‹_›
    · cases h

end RedisCalls

/-! ## What is fixed when a job is accepted -/

namespace Enqueued

/-- `EnqueuedAt`, as the first `Enqueue` leaves it. -/
def enqueuedAt (q : Enqueued) : Time := RedisQueue.stamp q.now q.job

/-- The job has what was fixed for `q`. The zero time stands for one that is
not set, and is not what a clock reads. -/
structure Keeps (q : Enqueued) (job : Job) : Prop where
  type : job.type = q.job.type
  payload : job.payload = q.job.payload
  maxRetries : job.maxRetries = q.job.maxRetries
  enqueuedAt : q.enqueuedAt ≠ Time.zero → job.enqueuedAt = q.enqueuedAt

theorem keeps_stamped (job : Job) (now : Time) :
    (⟨job, now⟩ : Enqueued).Keeps (RedisQueue.stamped now job) := ⟨rfl, rfl, rfl, fun _ => rfl⟩

/-- A later `Enqueue` finds `EnqueuedAt` set. -/
theorem Keeps.stamped {q : Enqueued} {job : Job} (h : q.Keeps job) (now : Time) :
    q.Keeps (RedisQueue.stamped now job) where
  type := h.type
  payload := h.payload
  maxRetries := h.maxRetries
  enqueuedAt := by
    intro hset
    have hjob := h.enqueuedAt hset
    show RedisQueue.stamp now job = q.enqueuedAt
    rw [RedisQueue.stamp, hjob, if_neg hset]

theorem Keeps.nackJob {q : Enqueued} {job job' : Job} {attempts : Int} {now : Time} {err : String}
    (h : q.Keeps job)
    (hj : RedisQueue.nackJob now { job with attempts := attempts } err = some job') :
    q.Keeps job' := by
  simp only [RedisQueue.nackJob] at hj
  split at hj <;> cases hj
  exact ⟨h.type, h.payload, h.maxRetries, h.enqueuedAt⟩

/-- The message decodes to a job that has it. -/
def CarriedBy {π : Type} (c : JobCodec π) (q : Enqueued) (v : Values π) : Prop :=
  ∃ job, jobFromMessage c v = .ok job ∧ q.Keeps job

end Enqueued

theorem RedisQueue.nackJob_id {job job' : Job} {now : Time} {err : String}
    (h : RedisQueue.nackJob now job err = some job') : job'.id = job.id := by
  simp only [RedisQueue.nackJob] at h
  split at h <;> cases h
  rfl

namespace RedisCalls

variable {ι π : Type}

/-! ## From entries to copies -/

/-- What a caller has in hand, inside a method. A job that is about to be
written again has the ID of the entry its copy came from. -/
def Holds (c : JobCodec π) (s : RedisCalls ι π) : RedisPc π → Prop
  | .delivered e => e ∈ s.stream.delivered
  | .readding job v => job.id ∈ s.stream.ids ∧ ∀ q, (job.id, q) ∈ s.origins → q.CarriedBy c v

/-- Entries carry what was fixed for their jobs, and copies are what their
entries carry, under the ID of the entry. -/
structure Intact (c : JobCodec π) (s : RedisCalls ι π) : Prop where
  origin_ids : ∀ p ∈ s.origins, p.1 ∈ s.stream.ids
  entries : ∀ e ∈ s.stream.delivered ++ s.stream.undelivered, ∀ q, (e.id, q) ∈ s.origins →
    q.CarriedBy c e.values
  holds : ∀ i p, s.pc i = some p → s.Holds c p
  copies : ∀ d ∈ s.copies, d.entry ∈ s.stream.delivered ∧
    ∃ job, jobFromMessage c d.entry.values = .ok job ∧ d.job = { job with id := d.entry.id }

theorem intact_init (c : JobCodec π) (st : Stream π) : Intact c (init st : RedisCalls ι π) where
  origin_ids := by simp [init]
  entries := by simp [init]
  holds := by simp [init]
  copies := by simp [init]

theorem Intact.copy_id {c : JobCodec π} {s : RedisCalls ι π} (hs : Intact c s) {d : Delivery π}
    (hd : d ∈ s.copies) : d.job.id = d.entry.id := by
  obtain ⟨-, job, -, hjob⟩ := hs.copies d hd
  rw [hjob]

theorem Intact.copy_keeps {c : JobCodec π} {s : RedisCalls ι π} (hs : Intact c s) {d : Delivery π}
    (hd : d ∈ s.copies) {q : Enqueued} (hq : (d.entry.id, q) ∈ s.origins) : q.Keeps d.job := by
  obtain ⟨hdel, job, hdec, hjob⟩ := hs.copies d hd
  obtain ⟨job', hdec', hkeeps⟩ := hs.entries d.entry (List.mem_append_left _ hdel) q hq
  cases hdec.symm.trans hdec'
  rw [hjob]
  exact ⟨hkeeps.type, hkeeps.payload, hkeeps.maxRetries, hkeeps.enqueuedAt⟩

/-- An `XACK` changes no entry. -/
theorem Intact.xackUnless {c : JobCodec π} {s : RedisCalls ι π} (hs : Intact c s)
    (redis : Option RedisError) (id : String) :
    Intact c { s with stream := RedisJobs.xackUnless s.stream redis id } := by
  have hids : (RedisJobs.xackUnless s.stream redis id).ids = s.stream.ids := by simp [Stream.ids]
  refine ⟨?_, ?_, fun i p hp => ?_, ?_⟩
  · simpa only [hids] using hs.origin_ids
  · simpa only [RedisJobs.xackUnless_delivered, RedisJobs.xackUnless_undelivered] using hs.entries
  · cases p with
    | delivered e => simpa [Holds] using hs.holds i _ hp
    | readding job v => simpa only [Holds, hids] using hs.holds i _ hp
  · simpa only [RedisJobs.xackUnless_delivered] using hs.copies

/-- What a caller has in hand stays what it is when a new entry is written. -/
theorem Holds.xadd {c : JobCodec π} {s : RedisCalls ι π} {p : RedisPc π} (h : s.Holds c p)
    {id : String} (hid : id ∉ s.stream.ids) (v : Values π) {new : List (String × Enqueued)}
    (hnew : ∀ x ∈ new, x.1 = id) :
    Holds c { s with stream := s.stream.xadd id v, origins := s.origins ++ new } p := by
  cases p with
  | delivered e => exact h
  | readding job v' =>
    refine ⟨RedisJobs.ids_xadd.mpr (.inl h.1), fun q hq => ?_⟩
    rcases List.mem_append.mp hq with hq | hq
    · exact h.2 q hq
    · exact absurd (hnew _ hq ▸ h.1) hid

/-- An `XADD` under a new ID of what was fixed for the jobs it is written for. -/
theorem Intact.xadd {c : JobCodec π} {s : RedisCalls ι π} (hs : Intact c s) {id : String}
    (hid : id ∉ s.stream.ids) {v : Values π} {new : List (String × Enqueued)}
    (hnew : ∀ x ∈ new, x.1 = id ∧ x.2.CarriedBy c v) :
    Intact c { s with stream := s.stream.xadd id v, origins := s.origins ++ new } where
  origin_ids := by
    intro x hx
    rcases List.mem_append.mp hx with hx | hx
    · exact RedisJobs.ids_xadd.mpr (.inl (hs.origin_ids x hx))
    · exact RedisJobs.ids_xadd.mpr (.inr (hnew x hx).1)
  entries := by
    intro e he q hq
    simp only [Stream.xadd, ← List.append_assoc, List.mem_append, List.mem_singleton] at he
    rcases List.mem_append.mp hq with hq | hq
    · rcases he with he | rfl
      · exact hs.entries e (List.mem_append.mpr he) q hq
      · exact absurd (hs.origin_ids _ hq) hid
    · obtain ⟨heid, hcarried⟩ := hnew _ hq
      rcases he with he | rfl
      · exact absurd (heid ▸ List.mem_map_of_mem (List.mem_append.mpr he)) hid
      · exact hcarried
  holds := fun i p hp => (hs.holds i p hp).xadd hid v fun x hx => (hnew x hx).1
  copies := hs.copies

/-- Handing an entry over keeps it in the stream. -/
theorem Intact.read {c : JobCodec π} {s : RedisCalls ι π} (hs : Intact c s) {e : Entry π}
    {rest : List (Entry π)} (hu : s.stream.undelivered = e :: rest) (pending : List String) :
    Intact c { s with stream := ⟨s.stream.delivered ++ [e], rest, pending⟩ } where
  origin_ids := by simpa [Stream.ids, hu] using hs.origin_ids
  entries := by simpa [hu] using hs.entries
  holds := by
    intro i p hp
    cases p with
    | delivered e' => exact List.mem_append_left _ (hs.holds i _ hp)
    | readding job v => simpa [Holds, Stream.ids, hu] using hs.holds i _ hp
  copies := fun d hd => ⟨List.mem_append_left _ (hs.copies d hd).1, (hs.copies d hd).2⟩

variable [DecidableEq ι]

theorem Intact.setPc {c : JobCodec π} {s : RedisCalls ι π} (hs : Intact c s) {i : ι}
    {p : Option (RedisPc π)} (hp : ∀ x, p = some x → s.Holds c x) : Intact c (s.setPc i p) where
  origin_ids := hs.origin_ids
  entries := hs.entries
  holds := by
    intro j x hx
    rcases moved_cases (g := (s.setPc i p).pc) rfl j with ⟨-, hj⟩ | ⟨-, hj⟩
    · exact hp x (hj.symm.trans hx)
    · exact hs.holds j x (hj.symm.trans hx)
  copies := hs.copies

theorem step_intact {c : JobCodec π} (hc : c.RoundTrips) {s s' : RedisCalls ι π}
    {a : CallAct ι π} (hs : Intact c s) (h : s.step c a = some s') : Intact c s' := by
  cases steps_of_step h with
  | refused | readNothing _ _ => exact hs
  | @enqueued job now id v hm hid =>
    refine hs.xadd hid fun x hx => ?_
    rw [List.mem_singleton.mp hx]
    exact ⟨rfl, _, RedisQueue.jobFromMessage_message hc hm, Enqueued.keeps_stamped job now⟩
  | @produced v id hid =>
    have hadd : Intact c { s with stream := s.stream.xadd id v, origins := s.origins ++ [] } :=
      hs.xadd hid (by simp)
    rwa [List.append_nil] at hadd
  | @readEntry i e rest hpc hu =>
    refine (hs.read hu _).setPc fun x hx => ?_
    cases hx
    exact List.mem_append_right _ (List.mem_singleton_self e)
  | malformed _ _ => exact (hs.xackUnless _ _).setPc (by simp)
  | @decoded i redis e job hpc hj =>
    have hset : Intact c (s.setPc i none) := hs.setPc (by simp)
    refine ⟨hset.origin_ids, hset.entries, hset.holds, fun d hd => ?_⟩
    rcases List.mem_append.mp hd with hd | hd
    · exact hs.copies d hd
    · rw [List.mem_singleton.mp hd]
      exact ⟨hs.holds i _ hpc, job, hj, rfl⟩
  | acked _ | dropped _ _ _ => exact hs.xackUnless _ _
  | @nacked i k attempts err now now' redis d job v hpc hk hj hm =>
    have hd := List.mem_of_getElem? hk
    have hid : job.id = d.entry.id := (RedisQueue.nackJob_id hj).trans (hs.copy_id hd)
    refine (hs.xackUnless _ _).setPc fun x hx => ?_
    cases hx
    refine ⟨?_, fun q hq => ?_⟩
    · rw [hid, RedisJobs.ids_xackUnless]
      exact List.mem_map_of_mem (List.mem_append_left _ (hs.copies d hd).1)
    · -- `Nack` and the `Enqueue` inside it keep what the copy has
      rw [hid] at hq
      exact ⟨_, RedisQueue.jobFromMessage_message hc hm,
        ((hs.copy_keeps hd hq).nackJob hj).stamped now'⟩
  | readdFailed _ => exact hs.setPc (by simp)
  | @readded i id job v hpc hid =>
    refine (hs.xadd hid fun x hx => ?_).setPc (by simp)
    obtain ⟨y, hy, rfl⟩ := List.mem_map.mp hx
    obtain ⟨hmem, hyid⟩ := List.mem_filter.mp hy
    refine ⟨rfl, (hs.holds i _ hpc).2 y.2 ?_⟩
    rw [← of_decide_eq_true hyid]
    exact hmem

/-- The callers that have an entry in hand after one of them has moved. -/
theorem delivered_cases {s t : RedisCalls ι π} {i j : ι} {p : Option (RedisPc π)} {e : Entry π}
    (hpc : t.pc = (s.setPc i p).pc) (h : t.pc j = some (.delivered e)) :
    (j = i ∧ p = some (.delivered e)) ∨ (j ≠ i ∧ s.pc j = some (.delivered e)) := by
  rcases moved_cases hpc j with ⟨hji, hj⟩ | ⟨hji, hj⟩
  · exact .inl ⟨hji, hj.symm.trans h⟩
  · exact .inr ⟨hji, hj.symm.trans h⟩

end RedisCalls

/-! ## The pending list -/

namespace RedisCalls

variable {ι π : Type}

/-- What has happened to the entries of the copies; `as` are the actions so
far. An entry is pending until an `XACK` with its copy. -/
structure Settled (as : List (CallAct ι π)) (s : RedisCalls ι π) : Prop where
  ids : s.stream.ids.Nodup
  /-- every entry is delivered once -/
  once : (s.copies.map fun d => d.entry.id).Nodup
  inside : ∀ i e, s.pc i = some (.delivered e) →
    e.id ∈ s.stream.pending ∧ e.id ∉ s.copies.map fun d => d.entry.id
  apart : ∀ i j e e', s.pc i = some (.delivered e) → s.pc j = some (.delivered e') →
    e.id = e'.id → i = j
  past : ∀ a ∈ as, ∀ k, a.acked = some k → k < s.copies.length
  pending : ∀ k d, s.copies[k]? = some d →
    (d.entry.id ∈ s.stream.pending ↔ ∀ a ∈ as, a.acked ≠ some k)

theorem settled_init {st : Stream π} (hids : st.ids.Nodup) :
    Settled [] (init st : RedisCalls ι π) where
  ids := hids
  once := by simp [init]
  inside := by simp [init]
  apart := by simp [init]
  past := by simp
  pending := by simp [init]

theorem forall_acked_append {as : List (CallAct ι π)} {a : CallAct ι π} {k : Nat} :
    (∀ b ∈ as ++ [a], b.acked ≠ some k) ↔
      (∀ b ∈ as, b.acked ≠ some k) ∧ a.acked ≠ some k := by
  simp [or_imp, forall_and]

theorem mem_xack {st : Stream π} {id id' : String} :
    id' ∈ (st.xack id).pending ↔ id' ∈ st.pending ∧ id' ≠ id := by
  simp [Stream.xack]

section Step

variable {as : List (CallAct ι π)} {a : CallAct ι π} {s t : RedisCalls ι π}

/-- Two copies of one entry are the same copy. -/
theorem Settled.eq_iff (h : Settled as s) {k k' : Nat} {d d' : Delivery π}
    (hd : s.copies[k]? = some d) (hd' : s.copies[k']? = some d') :
    d'.entry.id = d.entry.id ↔ k = k' := by
  have hlt : k < (s.copies.map fun d => d.entry.id).length := by
    rw [List.length_map]
    exact (List.getElem?_eq_some_iff.mp hd).1
  rw [← List.getElem?_inj hlt h.once, List.getElem?_map, List.getElem?_map, hd, hd',
    Option.map_some, Option.map_some, Option.some.injEq, eq_comm]

/-- A step that hands nothing over and takes off the pending list the entry of
the copy it acknowledges, if any. -/
theorem Settled.next (h : Settled as s) (hids : t.stream.ids.Nodup) (hcopies : t.copies = s.copies)
    (hpc : ∀ i e, t.pc i = some (.delivered e) →
      s.pc i = some (.delivered e) ∧ e.id ∈ t.stream.pending)
    (hpast : ∀ k, a.acked = some k → k < s.copies.length)
    (hpending : ∀ k d, s.copies[k]? = some d → (d.entry.id ∈ t.stream.pending ↔
      d.entry.id ∈ s.stream.pending ∧ a.acked ≠ some k)) : Settled (as ++ [a]) t where
  ids := hids
  once := by rw [hcopies]; exact h.once
  inside := by
    intro i e he
    rw [hcopies]
    exact ⟨(hpc i e he).2, (h.inside i e (hpc i e he).1).2⟩
  apart := fun i j e e' he he' => h.apart i j e e' (hpc i e he).1 (hpc j e' he').1
  past := by
    intro b hb
    rw [hcopies]
    rcases List.mem_append.mp hb with hb | hb
    · exact h.past b hb
    · rw [List.mem_singleton.mp hb]
      exact hpast
  pending := by
    intro k d hd
    rw [hcopies] at hd
    rw [hpending k d hd, h.pending k d hd, forall_acked_append]

/-- A step that leaves the pending list. -/
theorem Settled.keep (h : Settled as s) (ha : a.acked = none) (hids : t.stream.ids.Nodup)
    (hpending : t.stream.pending = s.stream.pending) (hcopies : t.copies = s.copies)
    (hpc : ∀ i e, t.pc i = some (.delivered e) → s.pc i = some (.delivered e)) :
    Settled (as ++ [a]) t := by
  refine h.next hids hcopies (fun i e he => ⟨hpc i e he, ?_⟩) (by simp [ha]) fun k d hd => ?_
  · rw [hpending]
    exact (h.inside i e (hpc i e he)).1
  · simp [hpending, ha]

/-- An `XACK` with a copy. -/
theorem Settled.ack (h : Settled as s) {k : Nat} {d : Delivery π} (hd : s.copies[k]? = some d)
    (ha : a.acked = some k) (hstream : t.stream = s.stream.xack d.entry.id)
    (hcopies : t.copies = s.copies)
    (hpc : ∀ i e, t.pc i = some (.delivered e) → s.pc i = some (.delivered e)) :
    Settled (as ++ [a]) t := by
  refine h.next ?_ hcopies (fun i e he => ⟨hpc i e he, ?_⟩) (fun k' hk' => ?_)
    fun k' d' hd' => ?_
  · rw [hstream]
    exact h.ids
  · obtain ⟨hmem, hnew⟩ := h.inside i e (hpc i e he)
    rw [hstream, mem_xack]
    refine ⟨hmem, fun heq => hnew ?_⟩
    exact List.mem_map.mpr ⟨d, List.mem_of_getElem? hd, heq.symm⟩
  · cases ha.symm.trans hk'
    exact (List.getElem?_eq_some_iff.mp hd).1
  · rw [hstream, mem_xack, ha, ne_eq, h.eq_iff hd hd', ne_eq, Option.some.injEq]

variable [DecidableEq ι]

/-- An entry that does not decode is acknowledged by `Dequeue`. -/
theorem Settled.malformed (h : Settled as s) (ha : a.acked = none) {i : ι} {e : Entry π}
    (hi : s.pc i = some (.delivered e)) (hstream : t.stream = s.stream.xack e.id)
    (hcopies : t.copies = s.copies) (hpc : t.pc = (s.setPc i none).pc) :
    Settled (as ++ [a]) t := by
  refine h.next ?_ hcopies (fun j e' he' => ?_) (by simp [ha]) fun k d hd => ?_
  · rw [hstream]
    exact h.ids
  · rcases delivered_cases hpc he' with ⟨-, hnone⟩ | ⟨hj, he'⟩
    · cases hnone
    · rw [hstream, mem_xack]
      exact ⟨he', (h.inside j e' he').1, fun heq => hj (h.apart j i e' e he' hi heq)⟩
  · have hne : d.entry.id ≠ e.id := by
      intro heq
      exact (h.inside i e hi).2 (List.mem_map.mpr ⟨d, List.mem_of_getElem? hd, heq⟩)
    rw [hstream, mem_xack]
    simp [hne, ha]

/-- An entry is handed to a caller. -/
theorem Settled.read {c : JobCodec π} (h : Settled as s) (hs : Intact c s) (ha : a.acked = none)
    {i : ι} {e : Entry π} {rest : List (Entry π)} (hu : s.stream.undelivered = e :: rest)
    (hstream : t.stream = ⟨s.stream.delivered ++ [e], rest, s.stream.pending ++ [e.id]⟩)
    (hcopies : t.copies = s.copies) (hpc : t.pc = (s.setPc i (some (.delivered e))).pc) :
    Settled (as ++ [a]) t := by
  -- it is not one of those that were delivered before
  have hnew : ∀ e' ∈ s.stream.delivered, e'.id ≠ e.id := by
    have hids := h.ids
    rw [Stream.ids, hu, List.map_append, List.map_cons, List.nodup_append] at hids
    exact fun e' he' => hids.2.2 _ (List.mem_map_of_mem he') _ List.mem_cons_self
  refine ⟨?_, ?_, fun j e' he' => ?_, fun j j' e₁ e₂ h₁ h₂ heq => ?_, ?_, fun k d hd => ?_⟩
  · simpa [hstream, Stream.ids, hu] using h.ids
  · rw [hcopies]
    exact h.once
  · rw [hstream, hcopies]
    rcases delivered_cases hpc he' with ⟨-, hsome⟩ | ⟨-, he'⟩
    · cases hsome
      refine ⟨List.mem_append_right _ (List.mem_singleton_self _), fun hmem => ?_⟩
      obtain ⟨d, hd, hid⟩ := List.mem_map.mp hmem
      exact hnew d.entry (hs.copies d hd).1 hid
    · exact ⟨List.mem_append_left _ (h.inside j e' he').1, (h.inside j e' he').2⟩
  · rcases delivered_cases hpc h₁ with ⟨rfl, hsome⟩ | ⟨-, h₁⟩ <;>
      rcases delivered_cases hpc h₂ with ⟨rfl, hsome'⟩ | ⟨-, h₂⟩
    · rfl
    · cases hsome
      exact absurd heq.symm (hnew e₂ (hs.holds j' _ h₂))
    · cases hsome'
      exact absurd heq (hnew e₁ (hs.holds j _ h₁))
    · exact h.apart j j' e₁ e₂ h₁ h₂ heq
  · simpa [hcopies, or_imp, forall_and, ha] using h.past
  · rw [hcopies] at hd
    have hne := hnew d.entry (hs.copies d (List.mem_of_getElem? hd)).1
    rw [hstream, forall_acked_append, ha, ← h.pending k d hd]
    simp [hne]

/-- `Dequeue` returns the job of an entry. -/
theorem Settled.decoded (h : Settled as s) (ha : a.acked = none) {i : ι} {e : Entry π} {job : Job}
    (hi : s.pc i = some (.delivered e)) (hstream : t.stream = s.stream)
    (hcopies : t.copies = s.copies ++ [⟨e, job⟩]) (hpc : t.pc = (s.setPc i none).pc) :
    Settled (as ++ [a]) t := by
  obtain ⟨hmem, hnew⟩ := h.inside i e hi
  have hothers : ∀ j e', t.pc j = some (.delivered e') → j ≠ i ∧ s.pc j = some (.delivered e') := by
    intro j e' he'
    rcases delivered_cases hpc he' with ⟨-, hnone⟩ | hother
    · cases hnone
    · exact hother
  have hids : (t.copies.map fun d => d.entry.id) =
      (s.copies.map fun d => d.entry.id) ++ [e.id] := by
    rw [hcopies, List.map_append]
    rfl
  refine ⟨?_, ?_, fun j e' he' => ?_, fun j j' e₁ e₂ h₁ h₂ => ?_, fun b hb k hk => ?_,
    fun k d hd => ?_⟩
  · rw [hstream]
    exact h.ids
  · rw [hids, ← List.concat_eq_append, List.nodup_concat]
    exact ⟨hnew, h.once⟩
  · obtain ⟨hj, he'⟩ := hothers j e' he'
    obtain ⟨hmem', hnew'⟩ := h.inside j e' he'
    rw [hstream, hids]
    refine ⟨hmem', fun hold => ?_⟩
    rcases List.mem_append.mp hold with hold | hold
    · exact hnew' hold
    · exact hj (h.apart j i e' e he' hi (List.mem_singleton.mp hold))
  · exact h.apart j j' e₁ e₂ (hothers j e₁ h₁).2 (hothers j' e₂ h₂).2
  · rw [hcopies, List.length_append]
    rcases List.mem_append.mp hb with hb | hb
    · exact Nat.lt_add_right _ (h.past b hb k hk)
    · rw [List.mem_singleton.mp hb, ha] at hk
      cases hk
  · rw [hcopies] at hd
    rw [hstream, forall_acked_append, ha]
    rcases Nat.lt_or_ge k s.copies.length with hlt | hge
    · rw [List.getElem?_append_left hlt] at hd
      rw [h.pending k d hd]
      simp
    · -- nobody has acknowledged with a copy that was not there yet
      rw [List.getElem?_append_right hge] at hd
      obtain rfl : d = ⟨e, job⟩ := List.mem_singleton.mp (List.mem_of_getElem? hd)
      refine iff_of_true hmem ⟨fun b hb hk => ?_, by simp⟩
      exact absurd (h.past b hb k hk) (Nat.not_lt.mpr hge)

end Step

variable [DecidableEq ι]

theorem step_settled {c : JobCodec π} {as : List (CallAct ι π)} {s s' : RedisCalls ι π}
    {a : CallAct ι π} (hs : Intact c s) (hsettled : Settled as s) (h : s.step c a = some s') :
    Settled (as ++ [a]) s' := by
  -- a caller that moves to `readding` or leaves its method has no entry in hand
  have hfree : ∀ {i : ι} {p : Option (RedisPc π)}, (∀ e, p ≠ some (.delivered e)) → ∀ j e,
      (s.setPc i p).pc j = some (.delivered e) → s.pc j = some (.delivered e) := by
    intro i p hp j e he
    rcases delivered_cases rfl he with ⟨-, hsome⟩ | ⟨-, hother⟩
    · exact absurd hsome (hp e)
    · exact hother
  cases steps_of_step h with
  | refused | readNothing _ _ => exact hsettled.keep rfl hsettled.ids rfl rfl fun _ _ he => he
  | enqueued _ hid | produced hid =>
    exact hsettled.keep rfl (RedisJobs.nodup_ids_xadd hsettled.ids hid _) rfl rfl fun _ _ he => he
  | readEntry _ hu => exact hsettled.read hs rfl hu rfl rfl rfl
  | @malformed i redis e msg hpc _ =>
    cases redis with
    | none => exact hsettled.malformed rfl hpc rfl rfl rfl
    | some err => exact hsettled.keep rfl hsettled.ids rfl rfl (hfree (by simp))
  | decoded hpc _ => exact hsettled.decoded rfl hpc rfl rfl rfl
  | @acked k redis d hk =>
    cases redis with
    | none =>
      rw [hs.copy_id (List.mem_of_getElem? hk)]
      exact hsettled.ack hk rfl rfl rfl fun _ _ he => he
    | some err => exact hsettled.keep rfl hsettled.ids rfl rfl fun _ _ he => he
  | @dropped i k attempts err now now' redis d _ hk _ =>
    cases redis with
    | none =>
      rw [hs.copy_id (List.mem_of_getElem? hk)]
      exact hsettled.ack hk rfl rfl rfl fun _ _ he => he
    | some err => exact hsettled.keep rfl hsettled.ids rfl rfl fun _ _ he => he
  | @nacked i k attempts err now now' redis d job v _ hk _ _ =>
    cases redis with
    | none =>
      rw [hs.copy_id (List.mem_of_getElem? hk)]
      exact hsettled.ack hk rfl rfl rfl (hfree (by simp))
    | some err => exact hsettled.keep rfl hsettled.ids rfl rfl (hfree (by simp))
  | readdFailed _ => exact hsettled.keep rfl hsettled.ids rfl rfl (hfree (by simp))
  | readded _ hid =>
    exact hsettled.keep rfl (RedisJobs.nodup_ids_xadd hsettled.ids hid _) rfl rfl (hfree (by simp))

/-- The stream after an `XACK` with a copy. -/
theorem stream_of_acked {c : JobCodec π} {s s' : RedisCalls ι π} {a : CallAct ι π} {k : Nat}
    {d : Delivery π} (hd : s.copies[k]? = some d) (ha : a.acked = some k)
    (h : s.step c a = some s') : s'.stream = s.stream.xack d.job.id := by
  cases steps_of_step h with
  | @acked k' redis d' hk | @dropped _ k' _ _ _ _ redis d' _ hk _
  | @nacked _ k' _ _ _ _ redis d' _ _ _ hk _ _ =>
    cases redis with
    | none =>
      cases ha
      cases hd.symm.trans hk
      rfl
    | some err => cases ha
  | _ => cases ha

/-- Both invariants along a run, from any stream with unique IDs. -/
theorem run_intact_settled {c : JobCodec π} (hc : c.RoundTrips) {st : Stream π}
    (hids : st.ids.Nodup) {as : List (CallAct ι π)} {s : RedisCalls ι π}
    (hrun : run (step c) (init st) as = some s) : Intact c s ∧ Settled as s := by
  refine run_history (I := fun as s => Intact c s ∧ Settled as s)
    ⟨intact_init c st, settled_init hids⟩ (fun as u a u' _ hu ha => ?_) hrun
  exact ⟨step_intact hc hu.1 ha, step_settled hu.1 hu.2 ha⟩

/-- **A job survives its retries.** Whatever the callers do, a copy that
`Dequeue` has returned has what was fixed when its job was accepted, and the ID
of the entry it was delivered from; that entry is pending until the first `Ack`
or `Nack` made with the copy, and such a call takes this entry off the pending
list and no other. -/
theorem retried_job_intact {c : JobCodec π} (hc : c.RoundTrips) {st : Stream π}
    (hids : st.ids.Nodup) {as : List (CallAct ι π)} {s : RedisCalls ι π}
    (hrun : run (step c) (init st) as = some s) {k : Nat} {d : Delivery π}
    (hd : s.copies[k]? = some d) :
    (∀ q, (d.entry.id, q) ∈ s.origins → q.Keeps d.job) ∧
    (d.entry ∈ s.stream.delivered ∧ d.job.id = d.entry.id) ∧
    (d.entry.id ∈ s.stream.pending ↔ ∀ a ∈ as, a.acked ≠ some k) ∧
    ∀ a s', a.acked = some k → s.step c a = some s' →
      ∀ e ∈ s.stream.delivered ++ s.stream.undelivered,
        (e.id ∈ s'.stream.pending ↔ e.id ∈ s.stream.pending ∧ e ≠ d.entry) := by
  obtain ⟨hs, hsettled⟩ := run_intact_settled hc hids hrun
  have hmem := List.mem_of_getElem? hd
  have hdel := (hs.copies d hmem).1
  refine ⟨fun q hq => hs.copy_keeps hmem hq, ⟨hdel, hs.copy_id hmem⟩, hsettled.pending k d hd, ?_⟩
  intro a s' ha hstep e he
  have hinj : e.id = d.entry.id ↔ e = d.entry :=
    ⟨List.inj_on_of_nodup_map hsettled.ids he (List.mem_append_left _ hdel), congrArg Entry.id⟩
  rw [stream_of_acked hd ha hstep, hs.copy_id hmem, mem_xack, ne_eq, hinj]

/-- One caller. Five retries are allowed; the first two attempts fail, and the
third copy has just been returned. -/
def failedTwice : List (CallAct Unit Encoding.Document) :=
  [.enqueue (sampleJob 5) 7 none "1-0", .read () .entry, .decode () none,
    .nack () 0 1 "timeout" 8 9 none, .readd () none "2-0", .read () .entry, .decode () none,
    .nack () 1 3 "timeout" 10 11 none, .readd () none "3-0", .read () .entry, .decode () none]

theorem third_copy_intact :
    ∃ s d, run (step JobCodec.json) (init .empty) failedTwice = some s ∧
      s.copies[2]? = some d ∧ (s.copies.map fun d => d.job.id) = ["1-0", "2-0", "3-0"] ∧
      (⟨sampleJob 5, 7⟩ : Enqueued).Keeps d.job ∧ d.job.id = d.entry.id ∧
      d.entry.id ∈ s.stream.pending := by
  obtain ⟨s, hrun, hthird, hids, horigins⟩ : ∃ s, run (step JobCodec.json) (init .empty)
      failedTwice = some s ∧ s.copies[2]?.map (fun d => d.entry.id) = some "3-0" ∧
      (s.copies.map fun d => d.job.id) = ["1-0", "2-0", "3-0"] ∧
      ("3-0", ⟨sampleJob 5, 7⟩) ∈ s.origins := exists_run_of_any (by decide +kernel)
  obtain ⟨d, hd, hid⟩ := Option.map_eq_some_iff.mp hthird
  have h := retried_job_intact JobCodec.roundTrips_json (by simp [Stream.empty, Stream.ids]) hrun hd
  refine ⟨s, d, hrun, hd, hids, h.1 _ (hid ▸ horigins), h.2.1.2, h.2.2.1.mpr ?_⟩
  simp [failedTwice, CallAct.acked]

end RedisCalls

/-! ## The pool is one of the callers -/

/-- A job is a copy that `Dequeue` has returned, but for its `Attempts`. -/
def RedisCalls.Returned {ι π : Type} (t : RedisCalls ι π) (job : Job) : Prop :=
  ∃ (k : Nat) (d : Delivery π), t.copies[k]? = some d ∧
    job = { d.job with attempts := job.attempts }

namespace RedisJobs

variable {n : Nat} {π : Type}

/-- Where a worker is inside a method of the queue. -/
def inside : RedisWorker π → Option (RedisPc π)
  | .inQueue p => some p
  | .top | .dequeuing | .got _ | .handling _ | .failing _ _ | .succeeded _ | .returned => none

/-- The job that `Dequeue` has returned to a worker. -/
def jobInHand : RedisWorker π → Option Job
  | .got job | .handling job | .failing job _ | .succeeded job => some job
  | .inQueue _ | .top | .dequeuing | .returned => none

/-- The queue as the pool uses it. -/
structure Follows (s : RedisJobs n π) (t : RedisCalls (Fin n) π) : Prop where
  stream : t.stream = s.stream
  pc : ∀ w, t.pc w = inside (s.pc w)
  held : ∀ w job, jobInHand (s.pc w) = some job → t.Returned job
  origins : ∀ p ∈ s.origins, ∃ job now, s.accepted[p.2]? = some job ∧ (p.1, ⟨job, now⟩) ∈ t.origins

theorem follows_init (st : Stream π) : Follows (init st : RedisJobs n π) (.init st) where
  stream := rfl
  pc := fun _ => rfl
  held := by simp [init, jobInHand]
  origins := by simp [init]

section Step

variable {s s' : RedisJobs n π} {t t' : RedisCalls (Fin n) π} {w : Fin n} {p : RedisWorker π}

/-- A worker moves, in the pool and in the queue. -/
theorem Follows.move (h : Follows s t) (hpc : s'.pc = (s.setPc w p).pc)
    (hpc' : t'.pc = (t.setPc w (inside p)).pc) (hstream : t'.stream = s'.stream)
    (hcopies : t.copies <+: t'.copies) (hheld : ∀ job, jobInHand p = some job → t'.Returned job)
    (horigins : ∀ p ∈ s'.origins, ∃ job now,
      s'.accepted[p.2]? = some job ∧ (p.1, ⟨job, now⟩) ∈ t'.origins) : Follows s' t' where
  stream := hstream
  pc := by
    intro w'
    rw [hpc']
    rcases moved_cases hpc w' with ⟨rfl, hw'⟩ | ⟨hw, hw'⟩
    · rw [hw', RedisCalls.setPc_pc, Function.update_self]
    · rw [hw', RedisCalls.setPc_pc, Function.update_of_ne hw, h.pc w']
  held := by
    intro w' job hjob
    rcases moved_cases hpc w' with ⟨-, hw'⟩ | ⟨-, hw'⟩
    · exact hheld job (hw' ▸ hjob)
    · rw [hw'] at hjob
      obtain ⟨k, d, hd, heq⟩ := h.held w' job hjob
      obtain ⟨new, hnew⟩ := hcopies
      refine ⟨k, d, ?_, heq⟩
      rw [← hnew, List.getElem?_append_left (List.getElem?_eq_some_iff.mp hd).1, hd]
  origins := horigins

/-- A call that begins and ends with this step, made by a worker that is
outside the queue before and after. -/
theorem Follows.call (h : Follows s t) (hpc : s'.pc = (s.setPc w p).pc)
    (hinside : inside p = inside (s.pc w)) (hstream : t'.stream = s'.stream)
    (hpc' : t'.pc = t.pc) (hcopies : t'.copies = t.copies)
    (hheld : ∀ job, jobInHand p = some job → t.Returned job)
    (haccepted : s'.accepted = s.accepted) (horigins : s'.origins = s.origins)
    (horigins' : t'.origins = t.origins) : Follows s' t' := by
  refine h.move hpc ?_ hstream (by rw [hcopies]) (fun job hjob => ?_) ?_
  · rw [hpc', hinside, ← h.pc w, RedisCalls.setPc, Function.update_eq_self]
  · rw [RedisCalls.Returned, hcopies]
    exact hheld job hjob
  · rw [haccepted, horigins, horigins']
    exact h.origins

/-- The entry of a new job. -/
theorem Follows.origins_enqueued (h : Follows s t) (job : Job) (now : Time) (id : String) :
    ∀ p ∈ s.origins ++ [(id, s.accepted.length)], ∃ job' now',
      (s.accepted ++ [job])[p.2]? = some job' ∧
        (p.1, ⟨job', now'⟩) ∈ t.origins ++ [(id, ⟨job, now⟩)] := by
  intro p hp
  rcases List.mem_append.mp hp with hp | hp
  · obtain ⟨job', now', hacc, hmem⟩ := h.origins p hp
    refine ⟨job', now', ?_, List.mem_append_left _ hmem⟩
    rw [List.getElem?_append_left (List.getElem?_eq_some_iff.mp hacc).1, hacc]
  · rw [List.mem_singleton.mp hp]
    exact ⟨job, now, List.getElem?_concat_length, List.mem_append_right _ (by simp)⟩

/-- The entry of a retry, written for the jobs of the old one. -/
theorem Follows.origins_readded (h : Follows s t) (old id : String) :
    ∀ p ∈ s.origins ++ (s.origins.filter fun p => p.1 = old).map fun p => (id, p.2),
      ∃ job now, s.accepted[p.2]? = some job ∧ (p.1, ⟨job, now⟩) ∈
        t.origins ++ (t.origins.filter fun p => p.1 = old).map fun p => (id, p.2) := by
  intro p hp
  rcases List.mem_append.mp hp with hp | hp
  · obtain ⟨job, now, hacc, hmem⟩ := h.origins p hp
    exact ⟨job, now, hacc, List.mem_append_left _ hmem⟩
  · obtain ⟨y, hy, rfl⟩ := List.mem_map.mp hp
    obtain ⟨hy, hold⟩ := List.mem_filter.mp hy
    obtain ⟨job, now, hacc, hmem⟩ := h.origins y hy
    have hfilter : (y.1, ⟨job, now⟩) ∈ t.origins.filter fun p => p.1 = old :=
      List.mem_filter.mpr ⟨hmem, hold⟩
    exact ⟨job, now, hacc, List.mem_append_right _ (List.mem_map.mpr ⟨_, hfilter, rfl⟩)⟩

/-- The queue makes one step with the pool. -/
theorem matched {c : JobCodec π} {b : CallAct (Fin n) π} (hstep : t.step c b = some t')
    (h : Follows s' t') :
    ∃ bs t', run (RedisCalls.step c) t bs = some t' ∧ Follows s' t' :=
  ⟨[b], t', by rw [run_singleton, hstep], h⟩

end Step

/-- Every step of the pool is a step of the queue, or none. -/
theorem step_follows {c : JobCodec π} (s : RedisJobs n π) (a : RedisAct n π) (s' : RedisJobs n π)
    (t : RedisCalls (Fin n) π) (h : Follows s t) (hstep : s.step c a = some s') :
    ∃ bs t', run (RedisCalls.step c) t bs = some t' ∧ Follows s' t' := by
  have hfree : ∀ {w p}, s.pc w = p → inside p = none → t.pc w = none := by
    intro w p hpc hp
    rw [h.pc, hpc, hp]
  have hat : ∀ {w q}, s.pc w = .inQueue q → t.pc w = some q := by
    intro w q hpc
    rw [h.pc, hpc]
    rfl
  cases steps_of_step hstep with
  | refused | close => exact ⟨[], t, rfl, h⟩
  | register | cancel => exact ⟨[], t, rfl, ⟨h.stream, h.pc, h.held, h.origins⟩⟩
  | @enqueued job now id v hm hid =>
    have ht : t.step c (.enqueue job now none id) = some { t with
        stream := t.stream.xadd id v, origins := t.origins ++ [(id, ⟨job, now⟩)] } := by
      simp [RedisCalls.step, hm, h.stream, hid]
    refine matched ht ⟨?_, h.pc, h.held, h.origins_enqueued job now id⟩
    rw [h.stream]
  | @produced v id hid =>
    have ht : t.step c (.produce v id) = some { t with stream := t.stream.xadd id v } := by
      simp [RedisCalls.step, h.stream, hid]
    refine matched ht ⟨?_, h.pc, h.held, h.origins⟩
    rw [h.stream]
  | headCancelled hpc _ | headGoes hpc _ | readNil hpc _ | readFailed hpc | givenUp hpc _ =>
    refine ⟨[], t, rfl, h.call rfl ?_ h.stream rfl rfl (by simp [jobInHand]) rfl rfl rfl⟩
    rw [hpc]
    rfl
  | @readEntry w e rest hpc hu =>
    have ht : t.step c (.read w .entry) = some { t.setPc w (some (.delivered e)) with
        stream := ⟨s.stream.delivered ++ [e], rest, s.stream.pending ++ [e.id]⟩ } := by
      simp [RedisCalls.step, hfree hpc rfl, Stream.xreadgroup, h.stream, hu]
    exact matched ht (h.move rfl rfl rfl List.prefix_rfl (by simp [jobInHand]) h.origins)
  | @malformed w redis e msg hpc hj =>
    have ht : t.step c (.decode w redis) = some { t.setPc w none with
        stream := xackUnless t.stream redis e.id } := by
      simp [RedisCalls.step, hat hpc, hj]
    refine matched ht (h.move rfl rfl ?_ List.prefix_rfl (by simp [jobInHand]) h.origins)
    rw [h.stream]
  | @decoded w redis e job hpc hj =>
    have ht : t.step c (.decode w redis) = some { t.setPc w none with
        copies := t.copies ++ [⟨e, { job with id := e.id }⟩] } := by
      simp [RedisCalls.step, hat hpc, hj]
    refine matched ht (h.move rfl rfl h.stream (List.prefix_append ..) (fun job' hjob' => ?_)
      h.origins)
    cases hjob'
    exact ⟨t.copies.length, _, List.getElem?_concat_length, rfl⟩
  | @handlerFound w job hpc _ | @handlerMissing w job hpc _ =>
    -- `runJob` counts the attempt on its copy
    obtain ⟨k, d, hd, heq⟩ := h.held w job (by rw [hpc]; rfl)
    refine ⟨[], t, rfl, h.call rfl (by rw [hpc]; rfl) h.stream rfl rfl (fun job' hjob' => ?_)
      rfl rfl rfl⟩
    cases hjob'
    refine ⟨k, d, hd, ?_⟩
    rw [Job.attempt, heq]
  | @succeeded w job hpc | @failed w job err hpc =>
    refine ⟨[], t, rfl, h.call rfl (by rw [hpc]; rfl) h.stream rfl rfl (fun job' hjob' => ?_)
      rfl rfl rfl⟩
    cases hjob'
    exact h.held w job (by rw [hpc]; rfl)
  | @acked w redis job hpc =>
    obtain ⟨k, d, hd, heq⟩ := h.held w job (by rw [hpc]; rfl)
    have ht : t.step c (.ack k redis) = some { t with
        stream := xackUnless t.stream redis d.job.id } := by
      simp only [RedisCalls.step, hd]
    refine matched ht (h.call rfl ?_ ?_ rfl rfl (by simp [jobInHand]) rfl rfl rfl)
    · rw [hpc]
      rfl
    · rw [h.stream, heq]
  | @forgotten w now now' redis job err hpc _ hno =>
    obtain ⟨k, d, hd, heq⟩ := h.held w job (by rw [hpc]; rfl)
    have ht : t.step c (.nack w k job.attempts err now now' redis) = some { t with
        stream := xackUnless t.stream redis d.job.id } := by
      simp only [RedisCalls.step, hfree hpc rfl, hd, ← heq]
      cases hj : RedisQueue.nackJob now job err with
      | none => rfl
      | some job' =>
        cases hm : RedisQueue.message c now' job' with
        | error _ => simp only [hm]
        | ok v => exact absurd hm (hno job' v hj)
    refine matched ht (h.call rfl ?_ ?_ rfl rfl (by simp [jobInHand]) rfl rfl rfl)
    · rw [hpc]
      rfl
    · rw [h.stream, heq]
  | @nacked w now now' redis job err job' v hpc _ hj hm =>
    obtain ⟨k, d, hd, heq⟩ := h.held w job (by rw [hpc]; rfl)
    have ht : t.step c (.nack w k job.attempts err now now' redis) = some {
        t.setPc w (some (.readding job' v)) with
          stream := xackUnless t.stream redis d.job.id } := by
      simp only [RedisCalls.step, hfree hpc rfl, hd, ← heq, hj, hm]
    refine matched ht (h.move rfl rfl ?_ List.prefix_rfl (by simp [jobInHand]) h.origins)
    rw [h.stream, heq]
  | @readdFailed w err id job v hpc =>
    have ht : t.step c (.readd w (some err) id) = some (t.setPc w none) := by
      simp only [RedisCalls.step, hat hpc]
    exact matched ht (h.move rfl rfl h.stream List.prefix_rfl (by simp [jobInHand]) h.origins)
  | @readded w id job v hpc hid =>
    have ht : t.step c (.readd w none id) = some { t.setPc w none with
        stream := t.stream.xadd id v
        origins := t.origins ++
          (t.origins.filter fun p => p.1 = job.id).map fun p => (id, p.2) } := by
      simp only [RedisCalls.step, hat hpc, h.stream, if_neg hid]
    refine matched ht (h.move rfl rfl ?_ List.prefix_rfl (by simp [jobInHand])
      (h.origins_readded job.id id))
    rw [h.stream]

/-- **The pool is one of the callers.** Every run of the pool is a run of the
queue under callers. -/
theorem pool_follows {c : JobCodec π} {st : Stream π} {as : List (RedisAct n π)}
    {s : RedisJobs n π} (hrun : run (step c) (init st) as = some s) :
    ∃ bs t, run (RedisCalls.step c) (.init st) bs = some t ∧ Follows s t :=
  run_of_simulates step_follows (follows_init st) hrun

/-- The job a worker has in hand is that of a delivered entry, under its ID,
with what was fixed when it was accepted. -/
theorem job_in_hand_keeps {c : JobCodec π} (hc : c.RoundTrips) {st : Stream π}
    (hids : st.ids.Nodup) {as : List (RedisAct n π)} {s : RedisJobs n π}
    (hrun : run (step c) (init st) as = some s) {w : Fin n} {job : Job}
    (hjob : jobInHand (s.pc w) = some job) :
    (∃ e ∈ s.stream.delivered, job.id = e.id) ∧
    ∀ o, (job.id, o) ∈ s.origins →
      ∃ j now, s.accepted[o]? = some j ∧ (⟨j, now⟩ : Enqueued).Keeps job := by
  obtain ⟨bs, t, ht, hfollows⟩ := pool_follows hrun
  obtain ⟨hintact, -⟩ := RedisCalls.run_intact_settled hc hids ht
  obtain ⟨k, d, hd, heq⟩ := hfollows.held w job hjob
  have hmem := List.mem_of_getElem? hd
  have hid : job.id = d.entry.id := by rw [heq, hintact.copy_id hmem]
  refine ⟨⟨d.entry, ?_, hid⟩, fun o ho => ?_⟩
  · rw [← hfollows.stream]
    exact (hintact.copies d hmem).1
  · obtain ⟨j, now, hacc, horigin⟩ := hfollows.origins _ ho
    rw [hid] at horigin
    have hkeeps := hintact.copy_keeps hmem horigin
    refine ⟨j, now, hacc, ?_⟩
    rw [heq]
    exact ⟨hkeeps.type, hkeeps.payload, hkeeps.maxRetries, hkeeps.enqueuedAt⟩

end RedisJobs

end GoRestApi.Jobs
