/-
GoRestApi.Jobs.RedisPending — what is on the pending list of the consumer
group.

An entry is put on the list when it is handed to a worker, and taken off by
`XACK`: after a success, inside `Nack`, and for an entry that does not decode.
`runJob` gives a job up, after its last attempt or for want of a handler, with
`dead.Add` alone. Its entry stays on the list; nothing in the program ever
looks at it again.

`Balanced` is the account of the list: with multiplicities, it is what the
workers have in hand and what was given up, and no ID is on it twice.
`pending_iff_processing` reads it off: the list is the jobs in progress as long
as no job has been given up.
-/
import GoRestApi.Jobs.RedisTheorems
import Mathlib.Algebra.BigOperators.Group.Finset.Basic
import Mathlib.Data.Fintype.Basic

namespace GoRestApi.Jobs

open Go Lts

namespace RedisJobs

variable {n : Nat} {π : Type}

/-! ## Jobs in progress -/

/-- The entry whose job a worker is processing: from its delivery until the
job is settled. The first thing `Nack` does is to acknowledge it. -/
def processing : RedisWorker π → Option String
  | .inQueue (.delivered e) => some e.id
  | .got job | .handling job | .failing job _ | .succeeded job => some job.id
  | .inQueue (.readding _ _) | .top | .dequeuing | .returned => none

/-- The entry as a multiset of at most one. -/
def inHand (p : RedisWorker π) : Multiset String := (processing p).toFinset.val

@[simp] theorem mem_inHand {p : RedisWorker π} {id : String} :
    id ∈ inHand p ↔ processing p = some id := by
  simp [inHand]

theorem inHand_of_some {p : RedisWorker π} {id : String} (h : processing p = some id) :
    inHand p = {id} := by
  simp [inHand, h]

theorem inHand_of_none {p : RedisWorker π} (h : processing p = none) : inHand p = 0 := by
  simp [inHand, h]

/-- The entries in the hands of all workers, of all but one, and of those that
were given up. -/
def inHands (s : RedisJobs n π) : Multiset String := ∑ w, inHand (s.pc w)

def inOtherHands (s : RedisJobs n π) (w : Fin n) : Multiset String :=
  ∑ w' ∈ Finset.univ.erase w, inHand (s.pc w')

def givenUp (s : RedisJobs n π) : List String := s.dead.map fun d => d.job.id

theorem inHands_move {s t : RedisJobs n π} {w : Fin n} {p : RedisWorker π}
    (hpc : t.pc = (s.setPc w p).pc) : t.inHands = inHand p + s.inOtherHands w := by
  rw [inHands, hpc, ← Finset.add_sum_erase _ _ (Finset.mem_univ w), setPc_pc, Function.update_self]
  congr 1
  refine Finset.sum_congr rfl fun w' hw' => ?_
  rw [setPc_pc, Function.update_of_ne (Finset.ne_of_mem_erase hw')]

theorem inHands_at {s : RedisJobs n π} {w : Fin n} {p : RedisWorker π} (hpc : s.pc w = p) :
    s.inHands = inHand p + s.inOtherHands w :=
  inHands_move (by rw [setPc, ← hpc, Function.update_eq_self])

theorem mem_inHands {s : RedisJobs n π} {id : String} :
    id ∈ s.inHands ↔ ∃ w, processing (s.pc w) = some id := by
  simp [inHands, Multiset.mem_sum]

/-! ## The account of the pending list -/

/-- The pending list is what is in hand and what was given up. -/
structure Balanced (s : RedisJobs n π) : Prop where
  ids : s.stream.ids.Nodup
  delivered : s.stream.pending ⊆ s.stream.delivered.map Entry.id
  nodup : s.stream.pending.Nodup
  pending : (s.stream.pending : Multiset String) = s.inHands + s.givenUp

theorem balanced_init {st : Stream π} (hids : st.ids.Nodup) (hpending : st.pending = []) :
    Balanced (init st : RedisJobs n π) where
  ids := hids
  delivered := by simp [init, hpending]
  nodup := by simp [init, hpending]
  pending := by simp [init, hpending, inHands, inHand, processing, givenUp]

theorem nodup_ids_xadd {st : Stream π} (h : st.ids.Nodup) {id : String} (hid : id ∉ st.ids)
    (v : Values π) : (st.xadd id v).ids.Nodup := by
  have heq : (st.xadd id v).ids = st.ids ++ [id] := by simp [Stream.ids, Stream.xadd]
  rw [heq, ← List.concat_eq_append, List.nodup_concat]
  exact ⟨hid, h⟩

/-- A step that leaves the list, the hands and the dead letters. -/
theorem Balanced.keep {s t : RedisJobs n π} (h : Balanced s) (hids : t.stream.ids.Nodup)
    (hdelivered : t.stream.delivered = s.stream.delivered)
    (hpending : t.stream.pending = s.stream.pending) (hhands : t.inHands = s.inHands)
    (hdead : t.dead = s.dead) : Balanced t where
  ids := hids
  delivered := by rw [hpending, hdelivered]; exact h.delivered
  nodup := by rw [hpending]; exact h.nodup
  pending := by rw [hpending, h.pending, hhands, givenUp, givenUp, hdead]

/-- A worker goes on with what it has in hand. -/
theorem Balanced.move {s : RedisJobs n π} (h : Balanced s) {w : Fin n} {p q : RedisWorker π}
    (hpc : s.pc w = p) (hsame : processing q = processing p) : Balanced (s.setPc w q) := by
  refine h.keep h.ids rfl rfl ?_ rfl
  rw [inHands_move rfl, inHands_at hpc, inHand, inHand, hsame]

/-- An entry is handed to a worker. -/
theorem Balanced.read {s t : RedisJobs n π} (h : Balanced s) {w : Fin n} {p p' : RedisWorker π}
    {e : Entry π} {rest : List (Entry π)} (hpc : s.pc w = p) (hfree : processing p = none)
    (hu : s.stream.undelivered = e :: rest) (hid : processing p' = some e.id)
    (ht : t.pc = (s.setPc w p').pc)
    (hstream : t.stream = ⟨s.stream.delivered ++ [e], rest, s.stream.pending ++ [e.id]⟩)
    (hdead : t.dead = s.dead) : Balanced t where
  ids := by simpa [hstream, Stream.ids, hu] using h.ids
  delivered := by
    rw [hstream, List.map_append]
    exact List.append_subset.mpr ⟨List.subset_append_of_subset_left _ h.delivered,
      List.subset_append_right _ _⟩
  nodup := by
    -- the entry was not delivered before, so it was not pending
    have hnew : e.id ∉ s.stream.delivered.map Entry.id := by
      have hids := h.ids
      rw [Stream.ids, hu, List.map_append, List.map_cons, List.nodup_append] at hids
      exact fun hmem => hids.2.2 _ hmem _ List.mem_cons_self rfl
    rw [hstream]
    show (s.stream.pending ++ [e.id]).Nodup
    rw [← List.concat_eq_append, List.nodup_concat]
    exact ⟨fun hmem => hnew (h.delivered hmem), h.nodup⟩
  pending := by
    have hbefore := h.pending
    rw [inHands_at hpc, inHand_of_none hfree, zero_add] at hbefore
    have hlist : ((s.stream.pending ++ [e.id] : List String) : Multiset String) =
        s.inOtherHands w + s.givenUp + {e.id} := by
      rw [← hbefore]
      rfl
    rw [hstream, hlist, inHands_move ht, inHand_of_some hid, givenUp, givenUp, hdead,
      add_comm, add_assoc]

/-- `XACK` of an entry that is on the list once takes it off. -/
theorem pending_xack {st : Stream π} (hnodup : st.pending.Nodup) {id : String}
    {rest : Multiset String} (h : (st.pending : Multiset String) = {id} + rest) :
    ((st.xack id).pending : Multiset String) = rest := by
  have hrest : id ∉ rest := by
    have hcount : ({id} + rest : Multiset String).Nodup := h ▸ Multiset.coe_nodup.mpr hnodup
    exact (Multiset.nodup_cons.mp hcount).1
  have hfilter : ((st.xack id).pending : Multiset String) =
      Multiset.filter (· ≠ id) ({id} + rest) := by
    rw [← h, Multiset.filter_coe]
    rfl
  have hkeep : Multiset.filter (· ≠ id) rest = rest := by
    refine Multiset.filter_eq_self.mpr fun a ha heq => hrest ?_
    rw [← heq]
    exact ha
  rw [hfilter, Multiset.filter_add, Multiset.filter_singleton, if_neg (by simp), hkeep]
  exact zero_add _

/-- A worker acknowledges what it has in hand. -/
theorem Balanced.ack {s t : RedisJobs n π} (h : Balanced s) {w : Fin n} {p p' : RedisWorker π}
    {id : String} (hpc : s.pc w = p) (hid : processing p = some id)
    (hfree : processing p' = none) (ht : t.pc = (s.setPc w p').pc)
    (hstream : t.stream = s.stream.xack id) (hdead : t.dead = s.dead) : Balanced t where
  ids := by rw [hstream]; exact h.ids
  delivered := by
    rw [hstream]
    exact fun x hx => h.delivered (List.mem_filter.mp hx).1
  nodup := by rw [hstream]; exact h.nodup.filter _
  pending := by
    have hbefore := h.pending
    rw [inHands_at hpc, inHand_of_some hid, add_assoc] at hbefore
    rw [hstream, pending_xack h.nodup hbefore, inHands_move ht, inHand_of_none hfree, zero_add,
      givenUp, givenUp, hdead]

/-- A worker gives up what it has in hand. -/
theorem Balanced.giveUp {s t : RedisJobs n π} (h : Balanced s) {w : Fin n} {p p' : RedisWorker π}
    {job : Job} {err : String} (hpc : s.pc w = p) (hid : processing p = some job.id)
    (hfree : processing p' = none) (ht : t.pc = (s.setPc w p').pc) (hstream : t.stream = s.stream)
    (hdead : t.dead = s.dead ++ [.of job err]) : Balanced t where
  ids := by rw [hstream]; exact h.ids
  delivered := by rw [hstream]; exact h.delivered
  nodup := by rw [hstream]; exact h.nodup
  pending := by
    have hbefore := h.pending
    rw [inHands_at hpc, inHand_of_some hid] at hbefore
    have hlist : (t.givenUp : Multiset String) = s.givenUp + {job.id} := by
      rw [givenUp, hdead, List.map_append, ← Multiset.coe_add]
      rfl
    rw [hstream, hbefore, hlist, inHands_move ht, inHand_of_none hfree, zero_add, add_assoc,
      add_comm, add_assoc]

/-- The command of the step does not fail. -/
def Succeeds : RedisAct n π → Prop
  | .enqueue _ _ redis _ | .decode _ redis | .ack _ redis | .settle _ _ _ redis
  | .readd _ redis _ => redis = none
  | .read _ reply => ∀ err, reply ≠ .failed err
  | _ => True

theorem step_balanced {c : JobCodec π} {s s' : RedisJobs n π} {a : RedisAct n π}
    (hs : Balanced s) (hok : Succeeds a) (h : s.step c a = some s') : Balanced s' := by
  cases steps_of_step h with
  | refused | register | cancel | close => exact hs.keep hs.ids rfl rfl rfl rfl
  | enqueued _ hid | produced hid =>
    exact hs.keep (nodup_ids_xadd hs.ids hid _) rfl rfl rfl rfl
  | headCancelled hpc _ | headGoes hpc _ | readNil hpc _ | readFailed hpc
  | decoded hpc _ | handlerFound hpc _ | handlerMissing hpc _ | failed hpc | readdFailed hpc =>
    exact hs.move hpc rfl
  | succeeded hpc =>
    refine (hs.move hpc (q := .succeeded _) rfl).keep hs.ids rfl rfl rfl rfl
  | readEntry hpc hu => exact hs.read hpc rfl hu rfl rfl rfl rfl
  | malformed hpc _ | acked hpc | forgotten hpc _ _ | nacked hpc _ _ _ =>
    cases hok
    exact hs.ack hpc rfl rfl rfl rfl rfl
  | givenUp hpc _ => exact hs.giveUp hpc rfl rfl rfl rfl rfl
  | readded hpc hid =>
    exact (hs.move hpc (q := .top) rfl).keep (nodup_ids_xadd hs.ids hid _) rfl rfl rfl rfl

/-! ## The pending list -/

/-- **The pending list is the jobs in progress and those given up.** Over any
stream with nothing pending, for every run in which no command fails: an entry
is pending exactly if a worker is processing its job, or its job was given up.
So the pending entries are those in progress exactly if no job has been given
up. -/
theorem pending_iff_processing {c : JobCodec π} {st : Stream π} {as : List (RedisAct n π)}
    {s : RedisJobs n π} (hids : st.ids.Nodup) (hpending : st.pending = [])
    (hok : ∀ a ∈ as, Succeeds a) (hrun : run (step c) (init st) as = some s) :
    (∀ id, id ∈ s.stream.pending ↔
      (∃ w, processing (s.pc w) = some id) ∨ ∃ d ∈ s.dead, d.job.id = id) ∧
    ((∀ id, id ∈ s.stream.pending ↔ ∃ w, processing (s.pc w) = some id) ↔ s.dead = []) := by
  have hbal : Balanced s :=
    (Along.of_forall_mem hok _).invariant (fun _ _ _ hs ha h => step_balanced hs ha h)
      (balanced_init hids hpending) hrun
  have hmem : ∀ id, id ∈ s.stream.pending ↔
      (∃ w, processing (s.pc w) = some id) ∨ ∃ d ∈ s.dead, d.job.id = id := by
    intro id
    rw [← Multiset.mem_coe, hbal.pending, Multiset.mem_add, mem_inHands, Multiset.mem_coe,
      givenUp, List.mem_map]
  refine ⟨hmem, fun h => ?_, fun hdead id => by rw [hmem, hdead]; simp⟩
  by_contra hne
  obtain ⟨d, hd⟩ := List.exists_mem_of_ne_nil _ hne
  have hdisjoint : Disjoint s.inHands (s.givenUp : Multiset String) := by
    have hnodup := Multiset.coe_nodup.mpr hbal.nodup
    rw [hbal.pending] at hnodup
    exact (Multiset.nodup_add.mp hnodup).2.2
  have hheld : d.job.id ∈ s.inHands := mem_inHands.mpr ((h _).mp ((hmem _).mpr (.inr ⟨d, hd, rfl⟩)))
  exact Multiset.disjoint_left.mp hdisjoint hheld (Multiset.mem_coe.mpr (List.mem_map_of_mem hd))

/-- A job that is run by one worker while another one waits: its entry is the
one that is pending. -/
theorem pending_while_handling :
    ∃ s : RedisJobs 2 Encoding.Document, run (step JobCodec.json) (init .empty)
        [.register "mail", .enqueue (sampleJob 3) 0 none "1-0", .loopHead 0, .read 0 .entry,
          .decode 0 none, .findHandler 0, .loopHead 1] = some s ∧
      s.stream.pending = ["1-0"] ∧
      ∀ id, id ∈ s.stream.pending ↔ ∃ w, processing (s.pc w) = some id := by
  obtain ⟨s, hrun, hpending, hdead⟩ : ∃ s : RedisJobs 2 Encoding.Document,
      run (step JobCodec.json) (init .empty)
        [.register "mail", .enqueue (sampleJob 3) 0 none "1-0", .loopHead 0, .read 0 .entry,
          .decode 0 none, .findHandler 0, .loopHead 1] = some s ∧
      s.stream.pending = ["1-0"] ∧ s.dead = [] := exists_run_of_any (by decide +kernel)
  refine ⟨s, hrun, hpending, ?_⟩
  refine (pending_iff_processing (by simp [Stream.empty, Stream.ids]) rfl ?_ hrun).2.mpr hdead
  simp [Succeeds]

/-- A job without retries has no handler, and the handler of another fails.
Both are given up; no command failed, no worker is processing anything, and both entries are
pending. -/
theorem pending_after_give_up :
    ∃ s : RedisJobs 1 Encoding.Document, run (step JobCodec.json) (init .empty)
        [.enqueue (sampleJob 0) 0 none "1-0", .enqueue (sampleJob 0) 0 none "2-0", .loopHead 0,
          .read 0 .entry, .decode 0 none, .findHandler 0, .settle 0 0 0 none, .register "mail",
          .loopHead 0, .read 0 .entry, .decode 0 none, .findHandler 0,
          .handled 0 (some "timeout"), .settle 0 0 0 none] = some s ∧
      s.pc 0 = .top ∧ s.dead.length = 2 ∧ s.stream.pending = ["1-0", "2-0"] ∧
      ¬ ∀ id, id ∈ s.stream.pending ↔ ∃ w, processing (s.pc w) = some id := by
  obtain ⟨s, hrun, hpc, hdead, hpending⟩ : ∃ s : RedisJobs 1 Encoding.Document,
      run (step JobCodec.json) (init .empty)
        [.enqueue (sampleJob 0) 0 none "1-0", .enqueue (sampleJob 0) 0 none "2-0", .loopHead 0,
          .read 0 .entry, .decode 0 none, .findHandler 0, .settle 0 0 0 none, .register "mail",
          .loopHead 0, .read 0 .entry, .decode 0 none, .findHandler 0,
          .handled 0 (some "timeout"), .settle 0 0 0 none] = some s ∧
      s.pc 0 = .top ∧ s.dead.length = 2 ∧ s.stream.pending = ["1-0", "2-0"] :=
    exists_run_of_any (by decide +kernel)
  refine ⟨s, hrun, hpc, hdead, hpending, fun h => ?_⟩
  obtain ⟨w, hw⟩ := (h "1-0").mp (by simp [hpending])
  rw [Subsingleton.elim w 0, hpc] at hw
  cases hw

end RedisJobs

end GoRestApi.Jobs
