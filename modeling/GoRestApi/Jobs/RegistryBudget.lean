/-
GoRestApi.Jobs.RegistryBudget — how often the handler of a job is invoked, by
the worker pool over the in-memory queue.

`Job.copy`, `WorkerPc.copies` and `pile` say where the copies of a job are,
for both queues: which IDs are those of the job is a parameter, since over
Redis a job changes its ID with every retry. The copies of a job and the
number of invocations of its handler are a life in the sense of `Retry.Life`,
and the steps of the pool that serve the job (`Serves`) are moves of that
life with nothing counted twice (`step_life`).

`can_rest` is that the job is brought to its end if a worker keeps polling:
the worker finishes what it has, takes and completes the jobs ahead in the
queue, and then makes the attempts.
-/
import GoRestApi.Jobs.RegistryTheorems
import GoRestApi.Retry.Life

namespace GoRestApi.Jobs

open Go Lts Retry

/-! ## The copies of a job -/

/-- What the attempts at a job go by; no attempt changes its type. -/
def Job.count (j : Job) : Count String := ⟨j.type, j.attempts, j.maxRetries⟩

section Copies

variable (mine : String → Prop) [DecidablePred mine]

/-- The job in the given stage, if its ID is one of those asked for. -/
def Job.copy (st : Stage) (j : Job) : Multiset (Stage × Count String) :=
  if mine j.id then {(st, j.count)} else 0

/-- The copies a worker has; `inQueue` is for those inside the queue's
methods. -/
def WorkerPc.copies {ω : Type} (inQueue : ω → Multiset (Stage × Count String)) :
    WorkerPc ω Job → Multiset (Stage × Count String)
  | .inQueue w => inQueue w
  | .got j => j.copy mine .taken
  | .handling j => j.copy mine .running
  | .failing j _ => j.copy mine .failing
  | .top | .dequeuing | .succeeded _ | .returned => 0

/-- All copies: those queued, those in the given hands, and the job as
completed and as dead. -/
def pile (queued hands : Multiset (Stage × Count String)) (completed : List Job)
    (dead : List DeadLetterEntry) : Multiset (Stage × Count String) :=
  queued + hands + (completed.map (Job.copy mine .completed)).sum +
    (dead.map fun d => d.job.copy mine .dead).sum

variable {mine} {x queued hands : Multiset (Stage × Count String)} {completed : List Job}
  {dead : List DeadLetterEntry} {j : Job}

theorem pile_queued :
    pile mine (x + queued) hands completed dead = x + pile mine queued hands completed dead := by
  simp only [pile, add_assoc]

theorem pile_hands :
    pile mine queued (x + hands) completed dead = x + pile mine queued hands completed dead := by
  simp only [pile]
  abel

theorem pile_completed :
    pile mine queued hands (completed ++ [j]) dead =
      j.copy mine .completed + pile mine queued hands completed dead := by
  simp only [pile, List.map_append, List.sum_append, List.map_singleton, List.sum_singleton]
  abel

theorem pile_dead {err : String} :
    pile mine queued hands completed (dead ++ [.of j err]) =
      j.copy mine .dead + pile mine queued hands completed dead := by
  simp only [pile, List.map_append, List.sum_append, List.map_singleton, List.sum_singleton,
    DeadLetterEntry.of]
  abel

theorem Job.copy_of_mine {st : Stage} (h : mine j.id) : j.copy mine st = {(st, j.count)} :=
  if_pos h

theorem Job.copy_of_not {st : Stage} (h : ¬ mine j.id) : j.copy mine st = 0 := if_neg h

theorem mem_sum_map {α β : Type} {l : List α} {f : α → Multiset β} {y : β} :
    y ∈ (l.map f).sum ↔ ∃ a ∈ l, y ∈ f a := by
  induction l with
  | nil => simp
  | cons a l ih => simp [ih]

theorem Job.mem_copy {st : Stage} {y : Stage × Count String} :
    y ∈ j.copy mine st ↔ mine j.id ∧ y = (st, j.count) := by
  unfold Job.copy
  split <;> simp [*]

theorem mem_pile {y : Stage × Count String} :
    y ∈ pile mine queued hands completed dead ↔ y ∈ queued ∨ y ∈ hands ∨
      (∃ j ∈ completed, mine j.id ∧ y = (.completed, j.count)) ∨
      ∃ d ∈ dead, mine d.job.id ∧ y = (.dead, d.job.count) := by
  simp only [pile, Multiset.mem_add, mem_sum_map, Job.mem_copy, or_assoc]

theorem count_sum_copy {α : Type} (l : List α) (f : α → Job) (st : Stage) :
    (((l.map fun a => (f a).copy mine st).sum).map Prod.fst).count st =
      l.countP fun a => decide (mine (f a).id) := by
  induction l with
  | nil => rfl
  | cons a l ih =>
    rw [List.map_cons, List.sum_cons, Multiset.map_add, Multiset.count_add, ih, List.countP_cons,
      Nat.add_comm, Job.copy]
    by_cases h : mine (f a).id <;> simp [h]

/-- The dead copies are the dead letters. -/
theorem count_pile_dead (hq : ∀ y ∈ queued, y.1 ≠ .dead) (hh : ∀ y ∈ hands, y.1 ≠ .dead) :
    ((pile mine queued hands completed dead).map Prod.fst).count .dead =
      dead.countP fun d => decide (mine d.job.id) := by
  have hzero : ∀ {q : Multiset (Stage × Count String)}, (∀ y ∈ q, y.1 ≠ .dead) →
      (q.map Prod.fst).count .dead = 0 := by
    intro q hq
    rw [Multiset.count_eq_zero, Multiset.mem_map]
    rintro ⟨y, hy, hst⟩
    exact hq y hy hst
  rw [pile, Multiset.map_add, Multiset.map_add, Multiset.map_add, Multiset.count_add,
    Multiset.count_add, Multiset.count_add, hzero hq, hzero hh, hzero ?_,
    count_sum_copy dead DeadLetterEntry.job]
  · simp
  · intro y hy
    obtain ⟨j, _, hj⟩ := mem_sum_map.mp hy
    rw [(Job.mem_copy.mp hj).2]
    simp

/-- A job in the hands of a worker is neither completed nor dead. -/
theorem WorkerPc.mem_copies {ω : Type}
    {inQueue : ω → Multiset (Stage × Count String)} {p : WorkerPc ω Job}
    {y : Stage × Count String} (h : y ∈ p.copies mine inQueue) :
    (∃ w, p = .inQueue w ∧ y ∈ inQueue w) ∨
      (∃ j, p = .got j ∧ mine j.id ∧ y = (.taken, j.count)) ∨
      (∃ j, p = .handling j ∧ mine j.id ∧ y = (.running, j.count)) ∨
      ∃ j err, p = .failing j err ∧ mine j.id ∧ y = (.failing, j.count) := by
  cases p with
  | inQueue w => exact .inl ⟨w, rfl, h⟩
  | got j => exact .inr (.inl ⟨j, rfl, Job.mem_copy.mp h⟩)
  | handling j => exact .inr (.inr (.inl ⟨j, rfl, Job.mem_copy.mp h⟩))
  | failing j err => exact .inr (.inr (.inr ⟨j, err, rfl, Job.mem_copy.mp h⟩))
  | top | dequeuing | succeeded _ | returned => exact absurd h (Multiset.notMem_zero y)

/-- The hands of all workers: those of `w`, and the others. -/
theorem sum_copies {n : Nat} {ω : Type}
    {inQueue : ω → Multiset (Stage × Count String)} (pc : Fin n → WorkerPc ω Job)
    (w : Fin n) (p : WorkerPc ω Job) :
    ∑ w', (Function.update pc w p w').copies mine inQueue =
      p.copies mine inQueue + ∑ w' ∈ Finset.univ.erase w, (pc w').copies mine inQueue := by
  rw [← Finset.add_sum_erase _ _ (Finset.mem_univ w), Function.update_self]
  congr 1
  refine Finset.sum_congr rfl fun w' hw' => ?_
  rw [Function.update_of_ne (Finset.ne_of_mem_erase hw')]

end Copies

/-- Questions about the job a worker has taken, or runs. -/
instance WorkerPc.decidableGot {ω κ : Type} (Q : κ → Prop) [DecidablePred Q] :
    (p : WorkerPc ω κ) → Decidable (∀ j, p = .got j → Q j)
  | .got j => decidable_of_iff (Q j) ⟨fun h _ he => by cases he; exact h, fun h => h j rfl⟩
  | .top | .dequeuing | .inQueue _ | .handling _ | .failing _ _ | .succeeded _ | .returned =>
      isTrue (fun _ h => by cases h)

instance WorkerPc.decidableHandling {ω κ : Type} (Q : κ → Prop) [DecidablePred Q] :
    (p : WorkerPc ω κ) → Decidable (∀ j, p = .handling j → Q j)
  | .handling j => decidable_of_iff (Q j) ⟨fun h _ he => by cases he; exact h, fun h => h j rfl⟩
  | .top | .dequeuing | .inQueue _ | .got _ | .failing _ _ | .succeeded _ | .returned =>
      isTrue (fun _ h => by cases h)

/-! ## How often a job is attempted -/

section Story

variable (extra : Nat) (plan : Nat → Bool)

/-- What a step is to a job, given by the job that was accepted, if it has
been, and its life: nothing, a move, or the beginning. -/
inductive LifeStep (b b' : Option Job) (L L' : Life String) : Prop where
  | same : b' = b → L' = L → LifeStep b b' L L'
  | moved : b' = b → Move extra plan L L' → LifeStep b b' L L'
  | born (job : Job) : b = none → b' = some job →
      L' = ⟨{(.queued, job.count)} + L.copies, L.invoked⟩ → LifeStep b b' L L'

/-- The job has not been accepted and has no life, or it was accepted, and if
its counter was zero its life is lawful. -/
def Kept (b : Option Job) (L : Life String) : Prop :=
  (b = none ∧ L = ⟨0, 0⟩) ∨
    ∃ job, b = some job ∧ (job.attempts = 0 → Lawful extra plan job.type job.maxRetries L)

end Story

section Steps

variable {extra : Nat} {plan : Nat → Bool} {b b' : Option Job} {L L' : Life String}

theorem Kept.step (h : Kept extra plan b L) (hstep : LifeStep extra plan b b' L L') :
    Kept extra plan b' L' := by
  cases hstep with
  | same hb hL => rwa [hb, hL]
  | moved hb hmove =>
    subst hb
    rcases h with ⟨_, rfl⟩ | ⟨job, hjob, hlawful⟩
    · obtain ⟨x, y, rest, hx, _⟩ := hmove
      simp at hx
    · exact .inr ⟨job, hjob, fun hzero => (hlawful hzero).move hmove⟩
  | born job hb hb' hL =>
    rcases h with ⟨_, rfl⟩ | ⟨job', hjob', _⟩
    · refine .inr ⟨job, hb', fun hzero => ?_⟩
      rw [hL, Job.count, hzero]
      exact lawful_queued
    · rw [hb] at hjob'
      cases hjob'

theorem Kept.lawful (h : Kept extra plan b L) {job : Job} (hb : b = some job)
    (hzero : job.attempts = 0) : Lawful extra plan job.type job.maxRetries L := by
  subst hb
  rcases h with ⟨⟨⟩, _⟩ | ⟨job', ⟨⟩, hlawful⟩
  exact hlawful hzero

/-- The attempts at a job and its dead letters, once it is at rest. -/
theorem Kept.at_rest (h : Kept extra plan b L) {job : Job} (hb : b = some job)
    (hzero : job.attempts = 0) {m : Nat} (hm : job.maxRetries = m) (hrest : L.AtRest) :
    (Failed plan (m / (extra + 1) + 1) →
      L.invoked = m / (extra + 1) + 1 ∧ L.count .dead = if (extra + 1) ∣ m then 1 else 0) ∧
    ∀ k, First plan k → k ≤ m / (extra + 1) + 1 → L.invoked = k ∧ L.count .dead = 0 := by
  have hlawful := h.lawful hb hzero
  rw [hm] at hlawful
  refine ⟨fun hfails => ?_, fun k hfirst hk => ?_⟩
  · obtain ⟨hinvoked, _, hdead⟩ := hlawful.never_completed hrest hfails
    exact ⟨hinvoked, hdead⟩
  · have hpred : k - 1 ≤ m / (extra + 1) := Nat.sub_le_of_le_add hk
    have hle : (k - 1) * (extra + 1) ≤ m :=
      (Nat.le_div_iff_mul_le (Nat.succ_pos extra)).mp hpred
    obtain ⟨hinvoked, _, hdead⟩ :=
      hlawful.completed_at hrest hfirst (by rwa [Nat.mul_comm])
    exact ⟨hinvoked, hdead⟩

/-- One job takes a turn: if its ID is one of those asked for this is a move,
and if not nothing changes. -/
theorem LifeStep.of_turn (mine : String → Prop) [DecidablePred mine] (job : Job) (st : Stage)
    {z rest : Multiset (Stage × Count String)} (hb : b' = b)
    (hx : L.copies = job.copy mine st + rest)
    (hy : L'.copies = (if mine job.id then z else 0) + rest)
    (hturn : mine job.id → Turn extra plan L.invoked (st, job.count) L'.invoked z)
    (hcount : ¬ mine job.id → L'.invoked = L.invoked) : LifeStep extra plan b b' L L' := by
  by_cases hid : mine job.id
  · rw [Job.copy_of_mine hid] at hx
    rw [if_pos hid] at hy
    exact .moved hb ⟨_, _, rest, hx, hy, hturn hid⟩
  · rw [Job.copy_of_not hid] at hx
    rw [if_neg hid] at hy
    have hcount := hcount hid
    obtain ⟨copies, k⟩ := L
    obtain ⟨copies', k'⟩ := L'
    simp only at hx hy hcount
    exact .same hb (by rw [hx, hy, hcount])

end Steps

namespace MemJobs

variable {n : Nat}

/-! ## The life of a job -/

/-- The copies of the job `id`. -/
def copies (s : MemJobs n) (id : String) : Multiset (Stage × Count String) :=
  pile (· = id) (s.queue.items.map (Job.copy (· = id) .queued)).sum
    (∑ w, (s.pc w).copies (· = id) fun _ => 0) s.completed s.dead

/-- The copies that a step of `w` leaves alone, with the given lists. -/
def copiesElse (s : MemJobs n) (id : String) (w : Fin n) (queue completed : List Job)
    (dead : List DeadLetterEntry) : Multiset (Stage × Count String) :=
  pile (· = id) (queue.map (Job.copy (· = id) .queued)).sum
    (∑ w' ∈ Finset.univ.erase w, (s.pc w').copies (· = id) fun _ => 0) completed dead

/-- The copies in a state that differs from `s` in the position of `w`. -/
theorem copies_move {s t : MemJobs n} {w : Fin n} {p : MemWorker} {id : String}
    (hpc : t.pc = (s.setPc w p).pc) :
    t.copies id = p.copies (· = id) (fun _ => 0) +
      s.copiesElse id w t.queue.items t.completed t.dead := by
  rw [copies, hpc, setPc, sum_copies, pile_hands, copiesElse]

theorem copies_at {s : MemJobs n} {w : Fin n} {p : MemWorker} {id : String} (hpc : s.pc w = p) :
    s.copies id = p.copies (· = id) (fun _ => 0) +
      s.copiesElse id w s.queue.items s.completed s.dead :=
  copies_move (by rw [setPc, ← hpc, Function.update_eq_self])

theorem copies_enqueue {s t : MemJobs n} {job : Job} (id : String)
    (hq : t.queue.items = s.queue.items ++ [job]) (hpc : t.pc = s.pc)
    (hc : t.completed = s.completed) (hd : t.dead = s.dead) :
    t.copies id = job.copy (· = id) .queued + s.copies id := by
  rw [copies, copies, hq, hpc, hc, hd, List.map_append, List.sum_append, List.map_singleton,
    List.sum_singleton, add_comm _ (job.copy _ _), pile_queued]

/-- The handler of the job `id` is invoked. -/
def invokes (id : String) (s : MemJobs n) : MemAct n → Bool
  | .findHandler w =>
    match s.pc w with
    | .got job => decide (job.id = id ∧ job.type ∈ s.handlers)
    | _ => false
  | _ => false

/-- The life of the job `id`, with the number of invocations of its handler. -/
def life (id : String) (x : MemJobs n × Nat) : Life String := ⟨x.1.copies id, x.2⟩

/-- The steps of a run in which the job `id` is served: its ID is given to one
job only, the queue stays open, a handler is registered when a worker looks
for it, and invocation number `k` of that handler succeeds exactly if
`plan k`. -/
def Serves (id : String) (plan : Nat → Bool) (x : MemJobs n × Nat) : MemAct n → Prop
  | .enqueue job => job.id = id → id ∉ x.1.accepted.map Job.id
  | .close => False
  | .findHandler w => ∀ job, x.1.pc w = .got job → job.id = id → job.type ∈ x.1.handlers
  | .handled w err => ∀ job, x.1.pc w = .handling job → job.id = id → err.isNone = plan x.2
  | _ => True

instance (id : String) (plan : Nat → Bool) (x : MemJobs n × Nat) :
    (a : MemAct n) → Decidable (Serves id plan x a)
  | .enqueue job => inferInstanceAs (Decidable (job.id = id → id ∉ x.1.accepted.map Job.id))
  | .close => inferInstanceAs (Decidable False)
  | .findHandler w =>
    WorkerPc.decidableGot (fun job : Job => job.id = id → job.type ∈ x.1.handlers) (x.1.pc w)
  | .handled w err =>
    WorkerPc.decidableHandling (fun job : Job => job.id = id → err.isNone = plan x.2) (x.1.pc w)
  | .register _ | .cancel | .loopHead _ | .dequeue _ _ | .wake _ _ | .wakeCancelled _ | .ack _
  | .settle _ _ => isTrue trivial

/-- The job accepted under the ID `id`. -/
def acceptedAs (id : String) (x : MemJobs n × Nat) : Option Job :=
  x.1.accepted.find? fun job => job.id = id

theorem Job.fate_of_not_givenUp {job : Job} (h : ¬ job.GivenUp) :
    fate 0 job.count = .again job.count := by
  refine fate_eq_again.mpr ⟨?_, ?_⟩
  · simpa [Job.count] using Int.not_lt.mp h
  · simp [Job.count]

section Else

variable {s : MemJobs n} {id : String} {w : Fin n} {queue completed : List Job}
  {dead : List DeadLetterEntry} {job : Job}

theorem copiesElse_cons_queue :
    s.copiesElse id w (job :: queue) completed dead =
      job.copy (· = id) .queued + s.copiesElse id w queue completed dead := by
  rw [copiesElse, List.map_cons, List.sum_cons, pile_queued, copiesElse]

theorem copiesElse_append_queue :
    s.copiesElse id w (queue ++ [job]) completed dead =
      job.copy (· = id) .queued + s.copiesElse id w queue completed dead := by
  rw [copiesElse, List.map_append, List.sum_append, List.map_singleton, List.sum_singleton,
    add_comm _ (job.copy _ _), pile_queued, copiesElse]

theorem copiesElse_append_completed :
    s.copiesElse id w queue (completed ++ [job]) dead =
      job.copy (· = id) .completed + s.copiesElse id w queue completed dead := pile_completed

theorem copiesElse_append_dead {err : String} :
    s.copiesElse id w queue completed (dead ++ [.of job err]) =
      job.copy (· = id) .dead + s.copiesElse id w queue completed dead := pile_dead

end Else

/-- A worker moves with nothing of the job in its hands, and no list changes. -/
theorem LifeStep.of_idle {id : String} {plan : Nat → Bool} {s t : MemJobs n} {k : Nat} {w : Fin n}
    {p p' : MemWorker} (haccepted : t.accepted = s.accepted) (hw : s.pc w = p)
    (hpc : t.pc = (s.setPc w p').pc) (hq : t.queue.items = s.queue.items)
    (hc : t.completed = s.completed) (hd : t.dead = s.dead)
    (hp : p'.copies (· = id) (fun _ => 0) = p.copies (· = id) fun _ => 0) :
    LifeStep 0 plan (acceptedAs id (s, k)) (acceptedAs id (t, k))
      (life id (s, k)) (life id (t, k)) := by
  refine .same (by simp only [acceptedAs, haccepted]) ?_
  rw [life, life, copies_move hpc, hq, hc, hd, hp, ← copies_at hw]

/-- **The pool refines the life of a job**, with no attempt counted twice. -/
theorem step_life {id : String} {plan : Nat → Bool} {x y : MemJobs n × Nat} {a : MemAct n}
    (hopen : x.1.queue.closed = false) (hserves : Serves id plan x a)
    (h : counted step (invokes id) x a = some y) :
    LifeStep 0 plan (acceptedAs id x) (acceptedAs id y) (life id x)
      (life id y) := by
  obtain ⟨hstep, hcount⟩ := counted_eq_some.mp h
  obtain ⟨s, k⟩ := x
  obtain ⟨t, k'⟩ := y
  simp only at hstep hcount hopen
  cases steps_of_step hstep with
  | refused _ | register | cancel => exact .same rfl (by rw [hcount]; rfl)
  | close => exact hserves.elim
  | @enqueued job _ =>
    have hcopies := copies_enqueue (s := s) id
      (t := { s with queue := ⟨s.queue.items ++ [job], false⟩, accepted := s.accepted ++ [job] })
      rfl rfl rfl rfl
    by_cases hid : job.id = id
    · have hnone : acceptedAs id (s, k) = none := by
        simpa [acceptedAs] using hserves hid
      refine .born job hnone ?_ ?_
      · simp only [acceptedAs, List.find?_append] at hnone ⊢
        simp [hnone, hid]
      · rw [Job.copy_of_mine hid] at hcopies
        rw [life, hcopies, hcount]
        rfl
    · refine .same (by simp [acceptedAs, hid]) ?_
      rw [Job.copy_of_not hid, zero_add] at hcopies
      rw [life, hcopies, hcount]
      rfl
  | headCancelled hpc | headGoes hpc | dequeueClosed hpc | woken hpc | wokenCancelled hpc
  | acked hpc =>
    rw [hcount]
    exact LifeStep.of_idle rfl hpc rfl rfl rfl rfl rfl
  | nackRefused _ _ hc => simp [hopen] at hc
  | @putBack w now job rest hpc _ hq hlate =>
    refine .same rfl ?_
    rw [life, life, copies_at hpc, copies_move (s := s) (w := w) (by rfl), hq,
      copiesElse_cons_queue, copiesElse_append_queue, hcount]
    rfl
  | @popped w now job rest hpc _ hq hdue =>
    refine .of_turn (· = id) job .queued rfl ?_
      (copies_move (s := s) (w := w) (p := .got job) rfl) (fun _ => ?_) (fun _ => hcount)
    · refine (copies_at hpc).trans ?_
      rw [hq, copiesElse_cons_queue]
      exact zero_add _
    · rw [life, hcount]
      exact .take
  | @handlerFound w job hpc hreg =>
    refine .of_turn (· = id) job .taken rfl (copies_at hpc)
      (copies_move (s := s) (w := w) rfl) (fun hid => ?_) (fun hid => ?_)
    · simp only [invokes, hpc, hid, hreg, and_self, decide_true, ↓reduceIte] at hcount
      rw [hcount]
      exact .start
    · simpa [life, invokes, hpc, hid] using hcount
  | @handlerMissing w job hpc hreg =>
    refine .of_turn (· = id) job .taken rfl (copies_at hpc)
      (copies_move (s := s) (w := w) rfl) (fun hid => absurd (hserves job hpc hid) hreg)
      (fun hid => ?_)
    simpa [life, invokes, hpc, hid] using hcount
  | @succeeded w job hpc =>
    refine .of_turn (· = id) job .running (z := {(.completed, job.count)}) rfl (copies_at hpc)
      ?_ (fun hid => ?_) (fun _ => hcount)
    · refine .trans (copies_move (s := s) (w := w) (by rfl)) ?_
      exact (zero_add _).trans copiesElse_append_completed
    · rw [hcount]
      exact .succeed (hserves job hpc hid).symm
  | @failed w job err hpc =>
    refine .of_turn (· = id) job .running rfl (copies_at hpc)
      (copies_move (s := s) (w := w) rfl) (fun hid => ?_) (fun _ => hcount)
    rw [hcount]
    exact .fail (hserves job hpc hid).symm
  | @givenUp w now job err hpc hup =>
    refine .of_turn (· = id) job .failing (z := {(.dead, job.count)}) rfl (copies_at hpc)
      ?_ (fun _ => ?_) (fun _ => hcount)
    · refine .trans (copies_move (s := s) (w := w) (by rfl)) ?_
      exact (zero_add _).trans copiesElse_append_dead
    · rw [hcount]
      exact .bury (fate_eq_bury.mpr hup)
  | @requeued w now job err hpc hup _ =>
    refine .of_turn (· = id) job .failing (z := {(.queued, job.count)}) rfl (copies_at hpc)
      ?_ (fun _ => ?_) (fun _ => hcount)
    · refine .trans (copies_move (s := s) (w := w) (by rfl)) ?_
      exact (zero_add _).trans copiesElse_append_queue
    · rw [hcount]
      exact .retry (Job.fate_of_not_givenUp hup)

theorem open_stays {id : String} {plan : Nat → Bool} {x y : MemJobs n × Nat} {a : MemAct n}
    (hopen : x.1.queue.closed = false) (hserves : Serves id plan x a)
    (h : counted step (invokes id) x a = some y) : y.1.queue.closed = false := by
  obtain ⟨hstep, _⟩ := counted_eq_some.mp h
  obtain ⟨t, k'⟩ := y
  cases steps_of_step hstep with
  | close => exact hserves.elim
  | enqueued | putBack | popped | requeued => rfl
  | _ => exact hopen

/-- A run that serves the job keeps its books. -/
theorem kept_of_run {id : String} {plan : Nat → Bool} {as : List (MemAct n)}
    {x : MemJobs n × Nat} (hrun : run (counted step (invokes id)) (init, 0) as = some x)
    (hserves : Along (counted step (invokes id)) (Serves id plan) (init, 0) as) :
    x.1.queue.closed = false ∧
      Kept 0 plan (acceptedAs id x) (life id x) := by
  refine hserves.invariant (I := fun x => x.1.queue.closed = false ∧
    Kept 0 plan (acceptedAs id x) (life id x)) ?_ ⟨rfl, .inl ⟨rfl, ?_⟩⟩ hrun
  · rintro x a y ⟨hopen, hkept⟩ hserve hstep
    exact ⟨open_stays hopen hserve hstep, hkept.step (step_life hopen hserve hstep)⟩
  · simp [life, copies, init, pile, MemoryQueue.new, WorkerPc.copies]

/-! ## At rest -/

/-- The job is neither in the queue nor in the hands of a worker. -/
def AtRest (id : String) (s : MemJobs n) : Prop :=
  id ∉ s.queue.items.map Job.id ∧ ∀ w, ¬ Holds id (s.pc w)

instance (id : String) (s : MemJobs n) : Decidable (AtRest id s) :=
  inferInstanceAs (Decidable (_ ∧ _))

/-- How many dead letters there are for the job. -/
def deadLetters (id : String) (s : MemJobs n) : Nat :=
  s.dead.countP fun d => decide (d.job.id = id)

theorem mem_copies {s : MemJobs n} {id : String} {y : Stage × Count String} :
    y ∈ s.copies id ↔ (∃ j ∈ s.queue.items, j.id = id ∧ y = (.queued, j.count)) ∨
      (∃ w, y ∈ (s.pc w).copies (· = id) fun _ => 0) ∨
      (∃ j ∈ s.completed, j.id = id ∧ y = (.completed, j.count)) ∨
      ∃ d ∈ s.dead, d.job.id = id ∧ y = (.dead, d.job.count) := by
  simp only [copies, mem_pile, mem_sum_map, Job.mem_copy, Multiset.mem_sum, Finset.mem_univ,
    true_and]

theorem holds_of_mem {id : String} {p : MemWorker} {y : Stage × Count String}
    (h : y ∈ p.copies (· = id) fun _ => 0) : Holds id p := by
  rcases WorkerPc.mem_copies h with ⟨_, _, h⟩ | ⟨j, rfl, hid, _⟩ | ⟨j, rfl, hid, _⟩ |
    ⟨j, err, rfl, hid, _⟩
  · exact absurd h (Multiset.notMem_zero y)
  · exact hid
  · exact hid
  · exact hid

theorem exists_mem_of_holds {id : String} {p : MemWorker} (h : Holds id p) :
    ∃ st c, (st, c) ∈ p.copies (· = id) (fun _ => 0) ∧ st ≠ .queued ∧ st ≠ .completed ∧
      st ≠ .dead := by
  have hcopy : ∀ {j : Job} {st : Stage}, j.id = id → (st, j.count) ∈ j.copy (· = id) st :=
    fun hid => Job.mem_copy.mpr ⟨hid, rfl⟩
  cases p with
  | got j => exact ⟨.taken, j.count, hcopy h, by simp, by simp, by simp⟩
  | handling j => exact ⟨.running, j.count, hcopy h, by simp, by simp, by simp⟩
  | failing j err => exact ⟨.failing, j.count, hcopy h, by simp, by simp, by simp⟩
  | top | dequeuing | inQueue _ | succeeded _ | returned => exact h.elim

/-- The job is at rest exactly if its life is. -/
theorem atRest_iff {id : String} {x : MemJobs n × Nat} :
    AtRest id x.1 ↔ (life id x).AtRest := by
  constructor
  · rintro ⟨hqueue, hhands⟩ y hy
    rcases mem_copies.mp hy with ⟨j, hj, hid, _⟩ | ⟨w, hw⟩ | ⟨_, _, _, rfl⟩ | ⟨_, _, _, rfl⟩
    · exact absurd (List.mem_map.mpr ⟨j, hj, hid⟩) hqueue
    · exact absurd (holds_of_mem hw) (hhands w)
    · exact .inl rfl
    · exact .inr rfl
  · intro hrest
    refine ⟨fun hmem => ?_, fun w hw => ?_⟩
    · obtain ⟨j, hj, hid⟩ := List.mem_map.mp hmem
      have := hrest _ (mem_copies.mpr (.inl ⟨j, hj, hid, rfl⟩))
      simp at this
    · obtain ⟨st, c, hmem, _, hcompleted, hdead⟩ := exists_mem_of_holds hw
      rcases hrest _ (mem_copies.mpr (.inr (.inl ⟨w, hmem⟩))) with h | h
      · exact hcompleted h
      · exact hdead h

theorem count_dead (id : String) (x : MemJobs n × Nat) :
    (life id x).count .dead = deadLetters id x.1 := by
  refine count_pile_dead (fun y hy => ?_) (fun y hy => ?_)
  · obtain ⟨j, _, hj⟩ := mem_sum_map.mp hy
    rw [(Job.mem_copy.mp hj).2]
    simp
  · obtain ⟨w, _, hw⟩ := Multiset.mem_sum.mp hy
    rcases WorkerPc.mem_copies hw with ⟨_, _, h⟩ | ⟨_, _, _, rfl⟩ | ⟨_, _, _, rfl⟩ |
      ⟨_, _, _, _, rfl⟩
    · exact absurd h (Multiset.notMem_zero y)
    · simp
    · simp
    · simp

/-! ## The job is brought to its end -/

/-- The steps by which it is. -/
def Goes (id : String) (plan : Nat → Bool) (x : MemJobs n × Nat) (a : MemAct n) : Prop :=
  Serves id plan x a ∧ a ≠ .cancel

/-- From `x` such steps lead to `P`. -/
abbrev CanGo (id : String) (plan : Nat → Bool) (P : MemJobs n × Nat → Prop)
    (x : MemJobs n × Nat) : Prop :=
  Can (counted step (invokes id)) (Goes id plan) P x

/-- The job has been accepted and has a handler, and the pool is running. -/
structure Live (id : String) (plan : Nat → Bool) (job : Job) (x : MemJobs n × Nat) : Prop where
  opened : x.1.queue.closed = false
  ctx : x.1.cancelled = false
  handler : job.type ∈ x.1.handlers
  accepted : acceptedAs id x = some job
  lawful : Lawful 0 plan job.type job.maxRetries (life id x)

theorem Live.step {id : String} {plan : Nat → Bool} {job : Job} (x : MemJobs n × Nat)
    (a : MemAct n) (y : MemJobs n × Nat) (hx : Live id plan job x) (hgo : Goes id plan x a)
    (h : counted MemJobs.step (invokes id) x a = some y) : Live id plan job y := by
  have hlife := step_life hx.opened hgo.1 h
  have hrest : y.1.cancelled = false ∧ job.type ∈ y.1.handlers := by
    obtain ⟨hstep, _⟩ := counted_eq_some.mp h
    obtain ⟨t, k'⟩ := y
    cases steps_of_step hstep with
    | cancel => exact absurd rfl hgo.2
    | register => exact ⟨hx.ctx, List.mem_cons_of_mem _ hx.handler⟩
    | _ => exact ⟨hx.ctx, hx.handler⟩
  have hopen := open_stays hx.opened hgo.1 h
  cases hlife with
  | same hb hL => exact ⟨hopen, hrest.1, hrest.2, hb.trans hx.accepted, hL ▸ hx.lawful⟩
  | moved hb hmove =>
    exact ⟨hopen, hrest.1, hrest.2, hb.trans hx.accepted, hx.lawful.move hmove⟩
  | born _ hb =>
    rw [hx.accepted] at hb
    cases hb

/-- A step in which the handler of the job is not invoked. -/
theorem CanGo.step {id : String} {plan : Nat → Bool} {P : MemJobs n × Nat → Prop} {s t : MemJobs n}
    {k : Nat} (a : MemAct n) (hgo : Goes id plan (s, k) a) (hstep : s.step a = some t)
    (hno : invokes id s a = false) (h : CanGo id plan P (t, k)) : CanGo id plan P (s, k) :=
  .next a hgo (counted_eq_some.mpr ⟨hstep, by simp [hno]⟩) h

/-- The same, with the pool running and the books kept. -/
theorem Live.go {id : String} {plan : Nat → Bool} {job : Job} {P : MemJobs n × Nat → Prop}
    {s t : MemJobs n} {k : Nat} (hlive : Live id plan job (s, k)) (a : MemAct n)
    (hgo : Goes id plan (s, k) a) (hstep : s.step a = some t) (hno : invokes id s a = false)
    (h : Live id plan job (t, k) → CanGo id plan P (t, k)) : CanGo id plan P (s, k) :=
  .step a hgo hstep hno
    (h (hlive.step _ a _ hgo (counted_eq_some.mpr ⟨hstep, by simp [hno]⟩)))

/-! ### A worker gets to its next poll -/

/-- The worker polls; nothing has been taken from the queue since it held
`items`, and the handler has been invoked `k` times. -/
def Polls (w : Fin n) (items : List Job) (k : Nat) (y : MemJobs n × Nat) : Prop :=
  y.1.pc w = .dequeuing ∧ y.2 = k ∧ ∃ more, y.1.queue.items = items ++ more

section Poll

variable {id : String} {plan : Nat → Bool} {s : MemJobs n} {k : Nat} {w : Fin n}

theorem can_poll_top (hctx : s.cancelled = false) (hpc : s.pc w = .top) :
    CanGo id plan (Polls w s.queue.items k) (s, k) := by
  refine .step (.loopHead w) ⟨trivial, by simp⟩ (by simp only [step, hpc, hctx]; rfl) rfl
    (.here ⟨Function.update_self .., rfl, [], ?_⟩)
  exact (List.append_nil _).symm

theorem can_poll_succeeded (hctx : s.cancelled = false) {job : Job}
    (hpc : s.pc w = .succeeded job) : CanGo id plan (Polls w s.queue.items k) (s, k) :=
  .step (.ack w) ⟨trivial, by simp⟩ (by simp only [step, hpc]) rfl
    (can_poll_top (s := s.setPc w .top) hctx (Function.update_self ..))

/-- After a failed attempt at another job. -/
theorem can_poll_failing (hctx : s.cancelled = false) (hopen : s.queue.closed = false) {job : Job}
    {err : String} (hpc : s.pc w = .failing job err) :
    CanGo id plan (Polls w s.queue.items k) (s, k) := by
  by_cases hup : job.GivenUp
  · exact .step (.settle w 0) ⟨trivial, by simp⟩ (by simp only [step, hpc, hup, ↓reduceIte]) rfl
      (can_poll_top (s := { s.setPc w .top with dead := s.dead ++ [.of job err] }) hctx
        (Function.update_self ..))
  · refine .step (.settle w 0) ⟨trivial, by simp⟩ (by simp only [step, hpc, hup, ↓reduceIte]) rfl
      ((can_poll_top (s := { s.setPc w .top with queue := (s.queue.nack 0 job err).1 }) hctx
        (Function.update_self ..)).mono ?_)
    rintro y ⟨hw, hk, more, hitems⟩
    have hup' : ¬ job.attempts > job.maxRetries := hup
    simp only [MemoryQueue.nack, hup', hopen, Bool.false_eq_true, ↓reduceIte,
      List.append_assoc] at hitems
    exact ⟨hw, hk, _, hitems⟩

theorem can_poll_handling (hctx : s.cancelled = false) {job : Job}
    (hpc : s.pc w = .handling job) (hid : job.id ≠ id) :
    CanGo id plan (Polls w s.queue.items k) (s, k) := by
  refine .step (.handled w none) ⟨fun j hj hjid => ?_, by simp⟩ (by simp only [step, hpc]) rfl
    (can_poll_succeeded (s := { s.setPc w (.succeeded job) with
      completed := s.completed ++ [job] }) hctx (Function.update_self ..))
  rw [hpc] at hj
  cases hj
  exact absurd hjid hid

theorem can_poll_got (hctx : s.cancelled = false) (hopen : s.queue.closed = false) {job : Job}
    (hpc : s.pc w = .got job) (hid : job.id ≠ id) :
    CanGo id plan (Polls w s.queue.items k) (s, k) := by
  have hgo : Goes id plan (s, k) (.findHandler w) := by
    refine ⟨fun j hj hjid => ?_, by simp⟩
    rw [hpc] at hj
    cases hj
    exact absurd hjid hid
  have hno : invokes id s (.findHandler w) = false := by simp [invokes, hpc, hid]
  by_cases hreg : job.type ∈ s.handlers
  · exact .step (.findHandler w) hgo (by simp only [step, hpc, hreg, ↓reduceIte]; rfl) hno
      (can_poll_handling (s := { s.setPc w (.handling job.attempt) with
        tried := s.tried ++ [(job.id, job.attempts + 1)] }) hctx (Function.update_self ..) hid)
  · exact .step (.findHandler w) hgo (by simp only [step, hpc, hreg, ↓reduceIte]; rfl) hno
      (can_poll_failing (s := { s.setPc w (.failing job.attempt (errNoHandler job.type)) with
        tried := s.tried ++ [(job.id, job.attempts + 1)]
        failed := s.failed ++ [(job.id, job.attempts + 1)] }) hctx hopen (Function.update_self ..))

/-- A worker that has not returned and does not hold the job. -/
theorem can_poll (hctx : s.cancelled = false) (hopen : s.queue.closed = false)
    (hw : s.pc w ≠ .returned) (hfree : ¬ Holds id (s.pc w)) :
    CanGo id plan (Polls w s.queue.items k) (s, k) := by
  cases hpc : s.pc w with
  | top => exact can_poll_top hctx hpc
  | dequeuing => exact .here ⟨hpc, rfl, [], (List.append_nil _).symm⟩
  | inQueue wakeAt =>
    have hstep : step s (.wake w wakeAt) = some (s.setPc w .dequeuing) := by
      simp only [step, hpc, Int.le_refl, ↓reduceIte]
    exact .step (.wake w wakeAt) ⟨trivial, by simp⟩ hstep rfl
      (.here ⟨Function.update_self .., rfl, [], (List.append_nil _).symm⟩)
  | got job => exact can_poll_got hctx hopen hpc (by rw [hpc] at hfree; exact hfree)
  | handling job => exact can_poll_handling hctx hpc (by rw [hpc] at hfree; exact hfree)
  | failing job err => exact can_poll_failing hctx hopen hpc
  | succeeded job => exact can_poll_succeeded hctx hpc
  | returned => exact absurd hpc hw

end Poll

/-! ### The job is attempted -/

/-- The job is in the queue. -/
def InQueue (id : String) (s : MemJobs n) : Prop := ∃ j ∈ s.queue.items, j.id = id

section Attempt

variable {id : String} {plan : Nat → Bool} {job : Job}

/-- A job that is completed or dead is at rest. -/
theorem Live.atRest {x : MemJobs n × Nat} (hx : Live id plan job x) {st : Stage}
    {c : Count String} (hmem : (st, c) ∈ x.1.copies id)
    (hst : st = .completed ∨ st = .dead) : AtRest id x.1 := by
  obtain ⟨hsingle, _⟩ := hx.lawful.of_mem hmem
  refine atRest_iff.mpr fun y hy => ?_
  rw [hsingle, Multiset.mem_singleton] at hy
  rwa [hy]

/-- A worker that polls gets to the job if that is in the queue: it completes
the jobs ahead of it. The measure is their number. -/
theorem can_take {w : Fin n} {x : MemJobs n × Nat} (hx : Live id plan job x)
    (hw : x.1.pc w = .dequeuing) (hq : InQueue id x.1) :
    CanGo id plan (fun y => Live id plan job y ∧ y.2 = x.2 ∧ ∃ j, y.1.pc w = .got j ∧ j.id = id)
      x := by
  refine Can.of_measure (I := fun y => Live id plan job y ∧ y.2 = x.2 ∧ y.1.pc w = .dequeuing ∧
    InQueue id y.1) (fun y => y.1.queue.items.findIdx fun j => decide (j.id = id)) ?_
    ⟨hx, rfl, hw, hq⟩
  rintro ⟨s, k⟩ ⟨hlive, hk, hpc, j, hj, hjid⟩
  simp only at hpc hj hk
  have hopen : s.queue.closed = false := hlive.opened
  cases hitems : s.queue.items with
  | nil => simp [hitems] at hj
  | cons head rest =>
    have hgo : Goes id plan (s, k) (.dequeue w head.runAfter) := ⟨trivial, by simp⟩
    have hstep : s.step (.dequeue w head.runAfter) =
        some { s.setPc w (.got head) with queue := ⟨rest, false⟩ } := by
      simp [step, hpc, MemoryQueue.dequeue, hopen, hitems, Registry.onDequeue, DequeueReply.found]
    refine hlive.go _ hgo hstep rfl fun hlive' => ?_
    by_cases hid : head.id = id
    · exact .here (.inl ⟨hlive', hk, head, Function.update_self .., hid⟩)
    · refine ((can_poll_got (s := { s.setPc w (.got head) with queue := ⟨rest, false⟩ })
        hlive.ctx rfl (Function.update_self ..) hid).invariant Live.step hlive').mono ?_
      rintro y ⟨⟨hw, hk', more, hitems'⟩, hlive''⟩
      have hrest : j ∈ rest := by
        rw [hitems] at hj
        rcases List.mem_cons.mp hj with rfl | hj
        · exact absurd hjid hid
        · exact hj
      refine .inr ⟨⟨hlive'', hk'.trans hk, hw, j, ?_, hjid⟩, ?_⟩
      · rw [hitems']
        exact List.mem_append_left _ hrest
      · have hfound : rest.findIdx (fun j => decide (j.id = id)) < rest.length :=
          List.findIdx_lt_length_of_exists ⟨j, hrest, by simpa using hjid⟩
        simp only [hitems', List.findIdx_append, hfound, ↓reduceIte, List.findIdx_cons,
          hid, decide_false, cond_false]
        omega

/-- What is so after an attempt: the job is at rest, or back in the queue. -/
def Settled (id : String) (plan : Nat → Bool) (job : Job) (w : Fin n) (k : Nat)
    (y : MemJobs n × Nat) : Prop :=
  AtRest id y.1 ∨ Live id plan job y ∧ InQueue id y.1 ∧ y.2 = k ∧ y.1.pc w ≠ .returned

theorem can_settle {s : MemJobs n} {k : Nat} {w : Fin n} {j : Job} {err : String}
    (hlive : Live id plan job (s, k)) (hpc : s.pc w = .failing j err) (hid : j.id = id) :
    CanGo id plan (Settled id plan job w k) (s, k) := by
  have hgo : Goes id plan (s, k) (.settle w 0) := ⟨trivial, by simp⟩
  by_cases hup : j.GivenUp
  · have hstep : s.step (.settle w 0) =
        some { s.setPc w .top with dead := s.dead ++ [.of j err] } := by
      simp only [step, hpc, hup, ↓reduceIte]
    refine hlive.go _ hgo hstep rfl fun hlive' =>
      .here (.inl (hlive'.atRest (c := j.count) ?_ (.inr rfl)))
    exact mem_copies.mpr (.inr (.inr (.inr ⟨.of j err, by simp, hid, rfl⟩)))
  · have hup' : ¬ j.attempts > j.maxRetries := hup
    have hopen : s.queue.closed = false := hlive.opened
    have hstep : s.step (.settle w 0) = some { s.setPc w .top with
        queue := ⟨s.queue.items ++
          [{ j with lastError := err, runAfter := 0 + backoff j.attempts }], false⟩ } := by
      simp only [step, hpc, hup, MemoryQueue.nack, hup', hopen, Bool.false_eq_true, ↓reduceIte]
    refine hlive.go _ hgo hstep rfl fun hlive' => .here (.inr ⟨hlive', ?_, rfl, by simp⟩)
    exact ⟨_, List.mem_append_right _ (List.mem_singleton_self _), hid⟩

theorem can_handle {s : MemJobs n} {k : Nat} {w : Fin n} {j : Job}
    (hlive : Live id plan job (s, k)) (hpc : s.pc w = .handling j) (hid : j.id = id) :
    CanGo id plan (Settled id plan job w k) (s, k) := by
  have hgo : ∀ err : Option String, err.isNone = plan k →
      Goes id plan (s, k) (.handled w err) := fun err herr => ⟨fun _ _ _ => herr, by simp⟩
  cases hplan : plan k with
  | true =>
    have hgo := hgo none hplan.symm
    have hstep : s.step (.handled w none) =
        some { s.setPc w (.succeeded j) with completed := s.completed ++ [j] } := by
      simp only [step, hpc]
    refine hlive.go _ hgo hstep rfl fun hlive' =>
      .here (.inl (hlive'.atRest (c := j.count) ?_ (.inl rfl)))
    exact mem_copies.mpr (.inr (.inr (.inl ⟨j, by simp, hid, rfl⟩)))
  | false =>
    have hgo := hgo (some "") hplan.symm
    have hstep : s.step (.handled w (some "")) = some { s.setPc w (.failing j "") with
        failed := s.failed ++ [(j.id, j.attempts)] } := by
      simp only [step, hpc]
    exact hlive.go _ hgo hstep rfl fun hlive' => can_settle hlive' (Function.update_self ..) hid

/-- A job that waits has the type it was accepted with. -/
theorem Live.type_eq {x : MemJobs n × Nat} (hx : Live id plan job x) {st : Stage} {j : Job}
    (hmem : (st, j.count) ∈ x.1.copies id) (hst : st = .queued ∨ st = .taken) :
    j.type = job.type := by
  obtain ⟨_, hfits⟩ := hx.lawful.of_mem hmem
  rcases hst with rfl | rfl
  · exact hfits.kind_eq
  · exact hfits.kind_eq

theorem can_attempt {s : MemJobs n} {k : Nat} {w : Fin n} {j : Job}
    (hlive : Live id plan job (s, k)) (hpc : s.pc w = .got j) (hid : j.id = id) :
    CanGo id plan (Settled id plan job w (k + 1)) (s, k) := by
  have hmem : (Stage.taken, j.count) ∈ s.copies id := by
    refine mem_copies.mpr (.inr (.inl ⟨w, ?_⟩))
    rw [hpc, WorkerPc.copies, Job.mem_copy]
    exact ⟨hid, rfl⟩
  have hreg : j.type ∈ s.handlers := by
    rw [hlive.type_eq hmem (.inr rfl)]
    exact hlive.handler
  have hgo : Goes id plan (s, k) (.findHandler w) := by
    refine ⟨fun j' hj' _ => ?_, by simp⟩
    rw [hpc] at hj'
    cases hj'
    exact hreg
  have hstep : counted step (invokes id) (s, k) (.findHandler w) =
      some ({ s.setPc w (.handling j.attempt) with
        tried := s.tried ++ [(j.id, j.attempts + 1)] }, k + 1) := by
    refine counted_eq_some.mpr ⟨?_, ?_⟩
    · simp only [step, hpc, hreg, ↓reduceIte]
      rfl
    · simp [invokes, hpc, hid, hreg]
  exact .next _ hgo hstep (can_handle (hlive.step _ _ _ hgo hstep) (Function.update_self ..) hid)

/-- A worker that has not returned brings the queued job to its end. The
measure is the number of attempts that are left. -/
theorem can_rest_queued {m : Nat} (hm : job.maxRetries = m) {x : MemJobs n × Nat}
    (hx : Live id plan job x) (hq : InQueue id x.1) (hw : ∃ w, x.1.pc w ≠ .returned) :
    CanGo id plan (fun y => AtRest id y.1) x := by
  refine Can.of_measure (I := fun y => Live id plan job y ∧ InQueue id y.1 ∧
    ∃ w, y.1.pc w ≠ .returned) (fun y => m + 1 - y.2) ?_ ⟨hx, hq, hw⟩
  rintro ⟨s, k⟩ ⟨hlive, ⟨j, hj, hjid⟩, w, hw⟩
  obtain ⟨hsingle, hfits⟩ :=
    hlive.lawful.of_mem (L := life id (s, k)) (mem_copies.mpr (.inl ⟨j, hj, hjid, rfl⟩))
  have hk : k ≤ m := by
    rw [hm] at hfits
    exact hfits.le_budget
  have hfree : ¬ Holds id (s.pc w) := by
    intro hholds
    obtain ⟨st, c, hmem, hqueued, _⟩ := exists_mem_of_holds hholds
    have hmem : (st, c) ∈ s.copies id := mem_copies.mpr (.inr (.inl ⟨w, hmem⟩))
    simp only [life] at hsingle
    rw [hsingle, Multiset.mem_singleton] at hmem
    cases hmem
    exact hqueued rfl
  refine ((can_poll hlive.ctx hlive.opened hw hfree).invariant Live.step hlive).trans ?_
  rintro y ⟨⟨hpolls, hy, more, hitems⟩, hlive'⟩
  refine (can_take hlive' hpolls ⟨j, ?_, hjid⟩).trans ?_
  · rw [hitems]
    exact List.mem_append_left _ hj
  · rintro ⟨t, k'⟩ ⟨hlive'', hk', j', hpc, hid⟩
    refine (can_attempt hlive'' hpc hid).mono ?_
    rintro z (hrest | ⟨hliveZ, hqueued, hz, hreturned⟩)
    · exact .inl hrest
    · refine .inr ⟨⟨hliveZ, hqueued, w, hreturned⟩, ?_⟩
      have : k' = k := hk'.trans hy
      omega

/-- **Progress.** As long as there is a worker, the job is brought to its
end. -/
theorem can_rest {m : Nat} (hm : job.maxRetries = m) {x : MemJobs n × Nat}
    (hx : Live id plan job x) (hw : ∃ w, x.1.pc w ≠ .returned) :
    CanGo id plan (fun y => AtRest id y.1) x := by
  have hsettled : ∀ (w : Fin n) k y, Settled id plan job w k y →
      CanGo id plan (fun y => AtRest id y.1) y := by
    rintro w k y (hrest | ⟨hlive, hq, _, hw⟩)
    · exact .here hrest
    · exact can_rest_queued hm hlive hq ⟨w, hw⟩
  by_cases hq : InQueue id x.1
  · exact can_rest_queued hm hx hq hw
  by_cases hholds : ∃ w, Holds id (x.1.pc w)
  · obtain ⟨w, hw⟩ := hholds
    obtain ⟨s, k⟩ := x
    cases hpc : s.pc w with
    | got j =>
      simp only [hpc] at hw
      exact (can_attempt hx hpc hw).trans (hsettled w _)
    | handling j =>
      simp only [hpc] at hw
      exact (can_handle hx hpc hw).trans (hsettled w _)
    | failing j err =>
      simp only [hpc] at hw
      exact (can_settle hx hpc hw).trans (hsettled w _)
    | top | dequeuing | inQueue _ | succeeded _ | returned =>
      simp only [hpc] at hw
      exact hw.elim
  · refine .here ⟨fun hmem => ?_, fun w hw => hholds ⟨w, hw⟩⟩
    obtain ⟨j, hj, hid⟩ := List.mem_map.mp hmem
    exact hq ⟨j, hj, hid⟩

end Attempt

end MemJobs

end GoRestApi.Jobs
