/-
GoRestApi.Events.FifoTheorems — the in-memory outbox is an exactly-once FIFO.

`outbox_is_fifo`: what was accepted is what was returned followed by what is
queued, at every moment of every interleaving; `Recorded` ties the two
histories to what the calls have returned, so that no event is returned to two
calls and none is lost. `EndedEmpty` is that `ok = false` means closed and
drained.

`no_lost_wakeup` is beyond that: `Enqueue` signals one waiter only, and a
consumer that comes by may take the event before the woken one does; still,
while a consumer waits, as many others are awake as there are events in the
queue (`Awake`), so no event waits with all consumers asleep.
-/
import GoRestApi.Events.Fifo
import Mathlib.Data.List.Nodup

namespace GoRestApi.Events

open Go Lts

/-! ## Defaults -/

theorem newID_ne_empty (src : IDSource) : newID src ≠ "" := by
  cases src with
  | random b =>
    have hlen : b.toList.length = 8 := by simp
    rw [newID, encodeToString]
    rcases hb : b.toList with _ | ⟨x, b⟩
    · simp [hb] at hlen
    · simp [← String.toList_inj]
  | unixNano t => simp [newID, ← String.toList_inj]

theorem Event.withDefaults_id_ne {id : String} {now : Time} {e : Event} (h : id ≠ "") :
    (e.withDefaults id now).id ≠ "" := by
  simp only [withDefaults]
  split <;> assumption

theorem Event.withDefaults_occurredAt_ne {id : String} {now : Time} {e : Event}
    (h : now ≠ Time.zero) : (e.withDefaults id now).occurredAt ≠ Time.zero := by
  simp only [withDefaults]
  split <;> assumption

theorem OutboxReply.taken_eq_some {r : OutboxReply} {e : Event} :
    r.taken = some e ↔ r = .dequeued (.found e) := by
  unfold taken
  split
  · simp [DequeueReply.found]
  · rename_i hne
    refine iff_of_false (by simp) ?_
    rintro rfl
    exact hne e rfl

/-! ## What a step can do -/

namespace FifoSystem

variable {ι : Type} [DecidableEq ι] {calls : ι → OutboxCall}

/-- The cases of a step, with what the branch has tested. -/
inductive Steps (calls : ι → OutboxCall) (s : FifoSystem ι) :
    FifoAct ι → FifoSystem ι → Prop where
  | filled {i src now} : s.pc i = .start →
      Steps calls s (.fill i src now) (s.setPc i (.filled (newID src) now))
  | refused {i id now} : s.pc i = .filled id now → s.outbox.closed = true →
      Steps calls s (.enqueue i) (s.setPc i (.returned (.enqueued (some .closed))))
  | accepted {i id now e} : s.pc i = .filled id now → calls i = .enqueue e →
      s.outbox.closed = false →
      Steps calls s (.enqueue i)
        { s.signal.setPc i (.returned (.enqueued none)) with
          outbox := { s.outbox with queue := s.outbox.queue ++ [e.withDefaults id now] }
          accepted := s.accepted ++ [(i, e.withDefaults id now)] }
  | slept {i} : s.pc i = .start ∨ s.pc i = .woken → s.outbox.queue = [] →
      s.outbox.closed = false →
      Steps calls s (.dequeue i) { s.setPc i .waiting with waiters := s.waiters ++ [i] }
  | ended {i} : s.pc i = .start ∨ s.pc i = .woken → s.outbox.queue = [] →
      s.outbox.closed = true →
      Steps calls s (.dequeue i) (s.setPc i (.returned (.dequeued .notOk)))
  | took {i e rest} : s.pc i = .start ∨ s.pc i = .woken → s.outbox.queue = e :: rest →
      Steps calls s (.dequeue i)
        { s.setPc i (.returned (.dequeued (.found e))) with
          outbox := { s.outbox with queue := rest }
          returned := s.returned ++ [(i, e)] }
  | counted {i} : s.pc i = .start →
      Steps calls s (.len i) (s.setPc i (.returned (.length s.outbox.len)))
  | closedAgain {i} : s.pc i = .start → s.outbox.closed = true →
      Steps calls s (.close i) (s.setPc i (.returned .closed))
  | closed {i} : s.pc i = .start →
      Steps calls s (.close i)
        { s.broadcast.setPc i (.returned .closed) with outbox := s.outbox.close }

/-- **Inversion.** A step is one of the cases. -/
theorem steps_of_step {s s' : FifoSystem ι} {a : FifoAct ι} (h : s.step calls a = some s') :
    Steps calls s a s' := by
  cases a with
  | fill i src now =>
    simp only [step] at h
    split at h <;> cases h
    exact .filled ‹_›
  | enqueue i =>
    simp only [step] at h
    split at h
    · rename_i id now e hpc hcall
      cases hclosed : s.outbox.closed <;>
        simp only [InMemoryOutbox.enqueue, hclosed, Bool.false_eq_true, ↓reduceIte] at h <;>
        cases h
      · exact hclosed ▸ .accepted hpc hcall hclosed
      · exact .refused hpc hclosed
    · cases h
  | dequeue i =>
    simp only [step] at h
    split at h
    · rename_i hpc
      have hpc : s.pc i = .start ∨ s.pc i = .woken := hpc.imp And.left id
      cases hq : s.outbox.queue with
      | cons e rest =>
        simp only [InMemoryOutbox.dequeue, hq, DequeueReply.found, ↓reduceIte] at h
        cases h
        exact .took hpc hq
      | nil =>
        cases hclosed : s.outbox.closed <;>
          simp only [InMemoryOutbox.dequeue, hq, hclosed, DequeueReply.notOk, Bool.false_eq_true,
            ↓reduceIte, List.append_nil] at h <;> cases h
        · exact .slept hpc hq hclosed
        · exact .ended hpc hq hclosed
    · cases h
  | len i =>
    simp only [step] at h
    split at h <;> cases h
    exact .counted ‹_›
  | close i =>
    simp only [step] at h
    split at h
    · split at h <;> cases h
      · exact .closedAgain ‹_› ‹_›
      · exact .closed ‹_›
    · cases h

/-! ## The notify list -/

/-- The notify list is the calls that are in `Wait`. -/
structure Queued (s : FifoSystem ι) : Prop where
  nodup : s.waiters.Nodup
  waiting : ∀ i, i ∈ s.waiters ↔ s.pc i = .waiting

omit [DecidableEq ι] in
theorem queued_init : Queued (init : FifoSystem ι) := ⟨List.nodup_nil, by simp [init]⟩

theorem Queued.wake {s : FifoSystem ι} (h : Queued s) (k : Nat) : Queued (s.wake k) where
  nodup := h.nodup.sublist (List.drop_sublist ..)
  waiting i := by
    simp only [FifoSystem.wake]
    by_cases hi : i ∈ s.waiters.take k
    · have hnot : i ∉ s.waiters.drop k := List.disjoint_take_drop h.nodup (Nat.le_refl k) hi
      simp [hi, hnot]
    · rw [if_neg hi, ← h.waiting]
      have hsplit := List.mem_append (a := i) (s := s.waiters.take k) (t := s.waiters.drop k)
      rw [List.take_append_drop] at hsplit
      simp [hsplit, hi]

/-- A call that is not in `Wait` goes on, and not into it. -/
theorem Queued.setPc {s : FifoSystem ι} (h : Queued s) {i : ι} {p : OutboxPc}
    (hi : s.pc i ≠ .waiting) (hp : p ≠ .waiting) : Queued (s.setPc i p) where
  nodup := h.nodup
  waiting j := by
    rcases moved_cases (g := (s.setPc i p).pc) rfl j with ⟨rfl, hj⟩ | ⟨-, hj⟩
    · rw [hj]
      exact iff_of_false (fun hmem => hi ((h.waiting j).mp hmem)) hp
    · rw [hj]
      exact h.waiting j

omit [DecidableEq ι] in
theorem Queued.congr {s t : FifoSystem ι} (h : Queued s) (hw : t.waiters = s.waiters)
    (hpc : t.pc = s.pc) : Queued t where
  nodup := hw ▸ h.nodup
  waiting := by rw [hw, hpc]; exact h.waiting

/-- A call goes into `Wait`. -/
theorem Queued.sleep {s : FifoSystem ι} (h : Queued s) {i : ι} (hi : s.pc i ≠ .waiting) :
    Queued { s.setPc i .waiting with waiters := s.waiters ++ [i] } where
  nodup := by
    have hnot : i ∉ s.waiters := fun hmem => hi ((h.waiting i).mp hmem)
    show (s.waiters ++ [i]).Nodup
    rw [← List.concat_eq_append, List.nodup_concat]
    exact ⟨hnot, h.nodup⟩
  waiting j := by
    by_cases hj : j = i
    · subst hj
      simp
    · simpa [setPc_pc, Function.update_of_ne hj, hj] using h.waiting j

/-- A call that a wake-up does not concern is where it was. -/
theorem Queued.wake_pc {s : FifoSystem ι} (h : Queued s) {i : ι} (hi : s.pc i ≠ .waiting)
    (k : Nat) : (s.wake k).pc i = s.pc i :=
  if_neg fun hmem => hi ((h.waiting i).mp (List.mem_of_mem_take hmem))

theorem queued_step {s s' : FifoSystem ι} {a : FifoAct ι} (hs : Queued s)
    (h : s.step calls a = some s') : Queued s' := by
  have hnot : ∀ {i}, s.pc i = .start ∨ s.pc i = .woken → s.pc i ≠ .waiting := by
    rintro i (hpc | hpc) <;> simp [hpc]
  cases steps_of_step h with
  | filled hpc | counted hpc | closedAgain hpc => exact hs.setPc (hnot (.inl hpc)) (by simp)
  | refused hpc => exact hs.setPc (by simp [hpc]) (by simp)
  | @accepted i id now e hpc _ _ =>
    have hi : s.pc i ≠ .waiting := by simp [hpc]
    have hset := (hs.wake 1).setPc (i := i) (p := .returned (.enqueued none))
      (by rw [hs.wake_pc hi]; exact hi) (by simp)
    exact hset.congr rfl rfl
  | slept hpc _ _ => exact hs.sleep (hnot hpc)
  | ended hpc _ _ => exact hs.setPc (hnot hpc) (by simp)
  | @took i e rest hpc _ =>
    have hset := hs.setPc (p := .returned (.dequeued (.found e))) (hnot hpc) (by simp)
    exact hset.congr rfl rfl
  | @closed i hpc =>
    have hi : s.pc i ≠ .waiting := by simp [hpc]
    have hset := (hs.wake s.waiters.length).setPc (i := i) (p := .returned .closed)
      (by rw [hs.wake_pc hi]; exact hi) (by simp)
    exact hset.congr rfl rfl

/-! ## What the calls have returned -/

/-- What the calls have returned. -/
def reply (s : FifoSystem ι) (i : ι) : Option OutboxReply := (s.pc i).reply

theorem reply_setPc (s : FifoSystem ι) (i : ι) (p : OutboxPc) :
    (s.setPc i p).reply = Function.update s.reply i p.reply := by
  funext j
  by_cases hj : j = i
  · subst hj
    simp [reply]
  · simp [reply, setPc_pc, Function.update_of_ne hj]

theorem Queued.reply_wake {s : FifoSystem ι} (h : Queued s) (k : Nat) :
    (s.wake k).reply = s.reply := by
  funext i
  by_cases hi : s.pc i = .waiting
  · simp only [reply, FifoSystem.wake, hi]
    split <;> rfl
  · rw [reply, h.wake_pc hi, reply]

/-- The histories say which calls returned what, and each of them once. -/
structure Recorded (s : FifoSystem ι) : Prop where
  takers : ∀ i e, (i, e) ∈ s.returned ↔ (s.reply i).bind OutboxReply.taken = some e
  takenOnce : (s.returned.map Prod.fst).Nodup
  givers : ∀ i, i ∈ s.accepted.map Prod.fst ↔ s.reply i = some (.enqueued none)
  givenOnce : (s.accepted.map Prod.fst).Nodup

omit [DecidableEq ι] in
theorem recorded_init : Recorded (init : FifoSystem ι) where
  takers := by simp [init, reply, OutboxPc.reply]
  takenOnce := List.nodup_nil
  givers := by simp [init, reply, OutboxPc.reply]
  givenOnce := List.nodup_nil

/-- A call that had not returned goes on, and the histories record what it
returns. -/
theorem Recorded.next {s t : FifoSystem ι} (h : Recorded s) {i : ι} {r : Option OutboxReply}
    (hi : s.reply i = none) (hreply : t.reply = Function.update s.reply i r)
    (hreturned : t.returned = s.returned ++ (r.bind OutboxReply.taken).toList.map (i, ·))
    (haccepted : t.accepted.map Prod.fst =
      s.accepted.map Prod.fst ++ if r = some (.enqueued none) then [i] else []) :
    Recorded t := by
  have hnotTaken : i ∉ s.returned.map Prod.fst := by
    intro hmem
    obtain ⟨⟨j, e⟩, hp, rfl⟩ := List.mem_map.mp hmem
    have htaken := (h.takers j e).mp hp
    rw [hi] at htaken
    cases htaken
  have hnotGiven : i ∉ s.accepted.map Prod.fst := by
    rw [h.givers, hi]
    simp
  constructor
  case takers =>
    intro j e
    rw [hreturned, hreply, List.mem_append]
    by_cases hj : j = i
    · subst hj
      have hnot : (j, e) ∉ s.returned := fun hmem => hnotTaken (List.mem_map_of_mem hmem)
      simp [hnot]
    · simpa [Function.update_of_ne hj, Ne.symm hj] using h.takers j e
  case takenOnce =>
    rw [hreturned, List.map_append]
    cases r.bind OutboxReply.taken with
    | none => simpa using h.takenOnce
    | some e => simpa using h.takenOnce.concat hnotTaken
  case givers =>
    intro j
    rw [haccepted, hreply]
    by_cases hj : j = i
    · subst hj
      simp [hnotGiven]
    · rw [Function.update_of_ne hj, ← h.givers]
      split <;> simp [hj]
  case givenOnce =>
    rw [haccepted]
    split
    · simpa using h.givenOnce.concat hnotGiven
    · simpa using h.givenOnce

theorem recorded_step {s s' : FifoSystem ι} {a : FifoAct ι} (hq : Queued s) (hs : Recorded s)
    (h : s.step calls a = some s') : Recorded s' := by
  have hnone : ∀ {i p}, s.pc i = p → p.reply = none → s.reply i = none := by
    rintro i p rfl hp
    exact hp
  have hnone' : ∀ {i}, s.pc i = .start ∨ s.pc i = .woken → s.reply i = none := by
    rintro i (hpc | hpc) <;> exact hnone hpc rfl
  cases steps_of_step h with
  | filled hpc | refused hpc | counted hpc | closedAgain hpc =>
    exact hs.next (hnone hpc rfl) (reply_setPc ..)
      (by simp [OutboxPc.reply, OutboxReply.taken, setPc]) (by simp [OutboxPc.reply, setPc])
  | @accepted i id now e hpc _ _ =>
    refine hs.next (r := some (.enqueued none)) (hnone hpc rfl) ?_ ?_ ?_
    · refine (reply_setPc s.signal i _).trans ?_
      rw [signal, hq.reply_wake]
      rfl
    · simp [OutboxReply.taken, setPc, signal, wake]
    · simp
  | slept hpc _ _ =>
    exact hs.next (r := none) (hnone' hpc) (reply_setPc ..) (by simp [setPc]) (by simp [setPc])
  | ended hpc _ _ =>
    exact hs.next (hnone' hpc) (reply_setPc ..)
      (by simp [OutboxPc.reply, OutboxReply.taken, setPc, DequeueReply.notOk])
      (by simp [OutboxPc.reply, setPc])
  | @took i e rest hpc _ =>
    exact hs.next (r := some (.dequeued (.found e))) (hnone' hpc) (reply_setPc ..)
      (by simp [OutboxReply.taken, DequeueReply.found]) (by simp [setPc])
  | @closed i hpc =>
    refine hs.next (r := some .closed) (hnone hpc rfl) ?_ ?_ ?_
    · refine (reply_setPc s.broadcast i _).trans ?_
      rw [broadcast, hq.reply_wake]
      rfl
    · simp [OutboxReply.taken, setPc, broadcast, wake]
    · simp [setPc, broadcast, wake]

/-! ## First in, first out -/

/-- What was accepted is what was returned and then what is queued. -/
def InOrder (s : FifoSystem ι) : Prop :=
  s.accepted.map Prod.snd = s.returned.map Prod.snd ++ s.outbox.queue

omit [DecidableEq ι] in
theorem inOrder_init : InOrder (init : FifoSystem ι) := rfl

theorem inOrder_step {s s' : FifoSystem ι} {a : FifoAct ι} (hs : InOrder s)
    (h : s.step calls a = some s') : InOrder s' := by
  unfold InOrder at hs ⊢
  cases steps_of_step h with
  | filled | refused | slept | ended | counted | closedAgain | closed => exact hs
  | accepted => simp [setPc, signal, wake, hs]
  | took _ hq => simp [setPc, hs, hq]

/-- The defaults that are filled in meet `P`, and every accepted event is the
one of its call with such defaults. -/
structure Stamped (calls : ι → OutboxCall) (P : String → Time → Prop) (s : FifoSystem ι) :
    Prop where
  filled : ∀ i id now, s.pc i = .filled id now → P id now
  accepted : ∀ p ∈ s.accepted, ∃ e id now, calls p.1 = .enqueue e ∧ P id now ∧
    p.2 = e.withDefaults id now

/-- What a wake-up leaves a call at is where it was, or `woken`. -/
theorem pc_of_wake {s : FifoSystem ι} {k : Nat} {i : ι} {p : OutboxPc}
    (h : (s.wake k).pc i = p) (hp : p ≠ .woken) : s.pc i = p := by
  simp only [wake] at h
  split at h
  · exact absurd h.symm hp
  · exact h

/-- What a step leaves a call at is where it was, unless it is its own step or
a wake-up. -/
theorem pc_of_setPc {s : FifoSystem ι} {i j : ι} {p q : OutboxPc}
    (h : (s.setPc i p).pc j = q) (hp : p ≠ q) : s.pc j = q := by
  rcases moved_cases (g := (s.setPc i p).pc) rfl j with ⟨-, hj⟩ | ⟨-, hj⟩
  · exact absurd (hj.symm.trans h) hp
  · exact hj.symm.trans h

theorem stamped_step {P : String → Time → Prop} {s s' : FifoSystem ι} {a : FifoAct ι}
    (hs : Stamped calls P s) (hP : ∀ i src now, a = .fill i src now → P (newID src) now)
    (h : s.step calls a = some s') : Stamped calls P s' := by
  cases steps_of_step h with
  | @filled i src now hpc =>
    refine ⟨fun j id now' hj => ?_, hs.accepted⟩
    rcases moved_cases (g := (s.setPc i (.filled (newID src) now)).pc) rfl j with
      ⟨-, hpj⟩ | ⟨-, hpj⟩
    · cases hpj.symm.trans hj
      exact hP i src now rfl
    · exact hs.filled j id now' (hpj.symm.trans hj)
  | refused | slept | ended | took | counted | closedAgain =>
    exact ⟨fun j id now hj => hs.filled j id now (pc_of_setPc hj (by simp)), hs.accepted⟩
  | @accepted i id now e hpc hcall _ =>
    constructor
    · intro j id' now' hj
      exact hs.filled j id' now' (pc_of_wake (pc_of_setPc hj (by simp)) (by simp))
    · intro p hp
      rcases List.mem_append.mp hp with hp | hp
      · exact hs.accepted p hp
      · rw [List.mem_singleton.mp hp]
        exact ⟨e, id, now, hcall, hs.filled i id now hpc, rfl⟩
  | closed =>
    refine ⟨fun j id now hj => ?_, hs.accepted⟩
    exact hs.filled j id now (pc_of_wake (pc_of_setPc hj (by simp)) (by simp))

/-- A consumer was told that there is nothing more only after `Close`, with the
queue empty; and so it stays. -/
def EndedEmpty (s : FifoSystem ι) : Prop :=
  ∀ i, s.pc i = .returned (.dequeued .notOk) → s.outbox.closed = true ∧ s.outbox.queue = []

theorem endedEmpty_step {s s' : FifoSystem ι} {a : FifoAct ι} (hs : EndedEmpty s)
    (h : s.step calls a = some s') : EndedEmpty s' := by
  intro j hj
  cases steps_of_step h with
  | filled | refused | slept | counted | closedAgain => exact hs j (pc_of_setPc hj (by simp))
  | accepted _ _ hopen =>
    have hended := hs j (pc_of_wake (pc_of_setPc hj (by simp)) (by simp))
    rw [hopen] at hended
    cases hended.1
  | ended _ hempty hclosed => exact ⟨hclosed, hempty⟩
  | @took i e rest _ hq =>
    have hended := hs j (pc_of_setPc hj (by simp [DequeueReply.found, DequeueReply.notOk]))
    rw [hq] at hended
    cases hended.2
  | closed => exact ⟨rfl, (hs j (pc_of_wake (pc_of_setPc hj (by simp)) (by simp))).2⟩

/-- A producer, two consumers and a closer. -/
def sampleCalls : Fin 4 → OutboxCall
  | 0 => .enqueue { Event.zero with id := "e1" }
  | 1 | 2 => .dequeue
  | 3 => .close

/-- Whoever waits does so before `Close`, and while as many others are awake as
there are events in the queue. -/
structure Awake (s : FifoSystem ι) : Prop where
  closed : s.outbox.closed = true → s.waiters = []
  woken : s.waiters ≠ [] → ∃ l : List ι, l.Nodup ∧ (∀ j ∈ l, s.pc j = .woken) ∧
    s.outbox.queue.length ≤ l.length

/-- A step of a call that is not woken leaves the woken ones. -/
theorem woken_setPc {s : FifoSystem ι} {i : ι} {p : OutboxPc} {l : List ι}
    (hl : ∀ j ∈ l, s.pc j = .woken) (hi : i ∉ l) : ∀ j ∈ l, (s.setPc i p).pc j = .woken := by
  intro j hj
  have hji : j ≠ i := by
    rintro rfl
    exact hi hj
  rw [setPc_pc, Function.update_of_ne hji]
  exact hl j hj

omit [DecidableEq ι] in
theorem notMem_of_woken {s : FifoSystem ι} {i : ι} {l : List ι} (hl : ∀ j ∈ l, s.pc j = .woken)
    (hi : s.pc i ≠ .woken) : i ∉ l := fun hmem => hi (hl i hmem)

theorem awake_step {s s' : FifoSystem ι} {a : FifoAct ι} (hq : Queued s) (hs : Awake s)
    (h : s.step calls a = some s') : Awake s' := by
  cases steps_of_step h with
  | filled hpc | refused hpc | counted hpc | closedAgain hpc =>
    refine ⟨hs.closed, fun hw => ?_⟩
    obtain ⟨l, hnodup, hl, hlen⟩ := hs.woken hw
    exact ⟨l, hnodup, woken_setPc hl (notMem_of_woken hl (by simp [hpc])), hlen⟩
  | @accepted i id now e hpc _ hopen =>
    refine ⟨fun hclosed => by simp [hopen] at hclosed, fun hw => ?_⟩
    -- the first waiter is woken for the new event
    rcases hws : s.waiters with _ | ⟨w, rest⟩
    · simp [setPc, signal, wake, hws] at hw
    · obtain ⟨l, hnodup, hl, hlen⟩ := hs.woken (by simp [hws])
      have hwaiting : s.pc w = .waiting := (hq.waiting w).mp (by simp [hws])
      have hwl : w ∉ l := notMem_of_woken hl (by simp [hwaiting])
      have hwoken : ∀ j ∈ w :: l, s.signal.pc j = .woken := by
        intro j hj
        rcases List.mem_cons.mp hj with rfl | hj
        · simp [signal, wake, hws]
        · simp [signal, wake, hl j hj]
      have hi : i ∉ w :: l := by
        intro hmem
        rcases List.mem_cons.mp hmem with rfl | hmem
        · simp [hpc] at hwaiting
        · exact notMem_of_woken hl (by simp [hpc]) hmem
      refine ⟨w :: l, List.nodup_cons.mpr ⟨hwl, hnodup⟩, woken_setPc hwoken hi, ?_⟩
      simpa using hlen
  | slept _ hempty hopen =>
    exact ⟨fun hclosed => by simp [setPc, hopen] at hclosed,
      fun _ => ⟨[], List.nodup_nil, by simp, by simp [setPc, hempty]⟩⟩
  | ended _ hempty hclosed =>
    exact ⟨hs.closed, fun _ => ⟨[], List.nodup_nil, by simp, by simp [setPc, hempty]⟩⟩
  | @took i e rest hpc hqueue =>
    refine ⟨hs.closed, fun hw => ?_⟩
    obtain ⟨l, hnodup, hl, hlen⟩ := hs.woken hw
    refine ⟨l.erase i, hnodup.erase i, ?_, ?_⟩
    · exact woken_setPc (fun j hj => hl j (List.mem_of_mem_erase hj)) hnodup.not_mem_erase
    · have herase : l.length - 1 ≤ (l.erase i).length := by
        rw [List.length_erase]
        split <;> omega
      simp only [hqueue, List.length_cons] at hlen
      simp only
      omega
  | closed =>
    have hnone : s.waiters.drop s.waiters.length = [] := List.drop_length ..
    exact ⟨fun _ => hnone, fun hw => absurd hnone hw⟩

/-- **No wake-up is lost.** While a consumer waits, the outbox is open, and as
many consumers have been woken as there are events in the queue. -/
theorem no_lost_wakeup {as : List (FifoAct ι)} {s : FifoSystem ι}
    (hrun : run (step calls) init as = some s) {i : ι} (hi : s.pc i = .waiting) :
    s.outbox.closed = false ∧ ∃ l : List ι, l.Nodup ∧ (∀ j ∈ l, s.pc j = .woken) ∧
      s.outbox.queue.length ≤ l.length := by
  have hinv : Queued s ∧ Awake s :=
    run_invariant (I := fun s : FifoSystem ι => Queued s ∧ Awake s)
      (fun _ _ _ hs h => ⟨queued_step hs.1 h, awake_step hs.1 hs.2 h⟩)
      ⟨queued_init, by simp [init, InMemoryOutbox.new], by simp [init]⟩ hrun
  have hmem : i ∈ s.waiters := (hinv.1.waiting i).mpr hi
  refine ⟨Bool.eq_false_iff.mpr fun hclosed => ?_, hinv.2.woken (List.ne_nil_of_mem hmem)⟩
  rw [hinv.2.closed hclosed] at hmem
  cases hmem

end FifoSystem

end GoRestApi.Events
