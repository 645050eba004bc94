/-
GoRestApi.Events.DispatchTheorems — when a dispatcher loop is left.

`Dispatcher.Run` is written against the `Outbox` interface, and its two
implementations mean different things by `ok = false`: the in-memory one that
it is closed and drained, the database one that the table is empty at this
moment. The loop returns on both, and it returns on an error, also on the one
for a malformed row. `Dequeue` deletes such a row by the id it has by then, which
is the row's unless the payload was decoded far enough to give another. So over
the database a dispatcher survives an idle moment or a bad row never, and over
memory always: `loop_left_iff_poll_misses` says both, the first exactly.

`DBSystem.Steps` lists once what a step of the database system can do; the
invariants of this file and of `DeliveryTheorems` are case distinctions over
it.
-/
import GoRestApi.Events.Dispatch

namespace GoRestApi.Events

open Go Lts

/-! ## Replies of `Dequeue` -/

/-- The loop is left on any error, whichever of the two error branches it
takes. -/
@[simp] theorem Dispatcher.onDequeue_failed (now : Time) (err : OutboxError) :
    Dispatcher.onDequeue now (.failed err) = none := by
  cases err <;> rfl

@[simp] theorem Pc.afterDequeue_failed {π : Type} (row : Option (Row π)) (now : Time)
    (err : OutboxError) : Pc.afterDequeue row now (.failed err) = .returned := by
  cases row <;> simp [Pc.afterDequeue]

/-! ## What a step can do -/

namespace DBSystem

variable {n : Nat} {π : Type}

@[simp] theorem setPc_accepted (s : DBSystem n π) (d : Fin n) (p : Pc π) :
    (s.setPc d p).accepted = s.accepted := rfl

@[simp] theorem setPc_published (s : DBSystem n π) (d : Fin n) (p : Pc π) :
    (s.setPc d p).published = s.published := rfl

/-- The cases of a step, one per branch of the code, with what the branch has
tested. -/
inductive Steps (c : EventCodec π) (s : DBSystem n π) : DBAct n π → DBSystem n π → Prop where
  | refused {newID now e sql err} :
      DBOutbox.enqueue c s.table newID now e sql = .error err →
      Steps c s (.enqueue newID now e sql) s
  | enqueued {newID now e sql t} :
      DBOutbox.enqueue c s.table newID now e sql = .ok t →
      Steps c s (.enqueue newID now e sql)
        { s with table := t, accepted := s.accepted ++ [e.withDefaults newID now] }
  | cancel {d} :
      Steps c s (.cancel d) { s with cancelled := Function.update s.cancelled d true }
  | headCancelled {d} : s.pc d = .top → s.cancelled d = true →
      Steps c s (.loopHead d) (s.setPc d .returned)
  | headGoes {d} : s.pc d = .top → s.cancelled d = false →
      Steps c s (.loopHead d) (s.setPc d .dequeuing)
  | selectFails {d now pick err} : s.pc d = .dequeuing →
      Steps c s (.dequeueBegin d now pick (some err)) (s.setPc d .returned)
  | selectEmpty {d now} : s.pc d = .dequeuing → s.table.Selects s.locked none →
      Steps c s (.dequeueBegin d now none none) (s.setPc d .returned)
  | selectRow {d now row} : s.pc d = .dequeuing → s.table.Selects s.locked (some row) →
      Steps c s (.dequeueBegin d now (some row) none) (s.setPc d (.inTx row))
  | malformed {d now sql row e msg} : s.pc d = .inTx row →
      c.unmarshal row.payload row.scan = (e, some msg) →
      Steps c s (.dequeueEnd d now sql)
        { s.setPc d .returned with
          table := if sql.isNone then s.table.deleteWhereID e.id else s.table }
  | commitFails {d now err row e} : s.pc d = .inTx row →
      c.unmarshal row.payload row.scan = (e, none) →
      Steps c s (.dequeueEnd d now (some err)) (s.setPc d .returned)
  | dequeued {d now row e} : s.pc d = .inTx row →
      c.unmarshal row.payload row.scan = (e, none) →
      Steps c s (.dequeueEnd d now none)
        (s.setPc d (.publishing row { e with publishedAt := now }))
  | published {d row e} : s.pc d = .publishing row e →
      Steps c s (.publish d true)
        { s.setPc d (.marking row e) with published := s.published ++ [e] }
  | rejected {d row e} : s.pc d = .publishing row e →
      Steps c s (.publish d false) (s.setPc d .top)
  | marked {d row e} : s.pc d = .marking row e → s.lockedByOther d e.id = false →
      Steps c s (.markPublished d none)
        { s.setPc d .top with table := s.table.deleteWhereID e.id }
  | markFails {d err row e} : s.pc d = .marking row e →
      Steps c s (.markPublished d (some err)) (s.setPc d .top)
  | crash {d} : Steps c s (.crash d) (s.setPc d .crashed)
  | restart {d} :
      Steps c s (.restart d)
        { s.setPc d .top with cancelled := Function.update s.cancelled d false }

/-- **Inversion.** A step is one of the cases. -/
theorem steps_of_step [DecidableEq π] {c : EventCodec π} {s s' : DBSystem n π} {a : DBAct n π}
    (h : s.step c a = some s') : Steps c s a s' := by
  cases a with
  | enqueue newID now e sql =>
    simp only [step] at h
    split at h <;> cases h
    · exact .refused ‹_›
    · exact .enqueued ‹_›
  | cancel d => cases h; exact .cancel
  | loopHead d =>
    simp only [step] at h
    split at h
    · cases hc : s.cancelled d <;> simp only [hc, Bool.false_eq_true, ↓reduceIte] at h <;> cases h
      · exact .headGoes ‹_› hc
      · exact .headCancelled ‹_› hc
    · cases h
  | dequeueBegin d now pick sql =>
    simp only [step] at h
    split at h
    · split at h
      · cases h; exact .selectFails ‹_›
      · split at h
        · split at h <;> cases h
          · exact .selectEmpty ‹_› ‹_›
          · exact .selectRow ‹_› ‹_›
        · cases h
    · cases h
  | dequeueEnd d now sql =>
    simp only [step] at h
    split at h
    · rename_i row hpc
      split at h
      · cases h
      · cases hu : c.unmarshal row.payload row.scan with
        | mk e err =>
          cases err with
          | some msg =>
            simp only [DBOutbox.dequeueRow, hu] at h
            cases h
            exact .malformed hpc hu
          | none =>
            cases sql with
            | some err =>
              simp only [DBOutbox.dequeueRow, hu, Pc.afterDequeue_failed] at h
              cases h
              exact .commitFails hpc hu
            | none =>
              simp only [DBOutbox.dequeueRow, hu] at h
              cases h
              exact .dequeued hpc hu
    · cases h
  | publish d accepts =>
    simp only [step] at h
    split at h
    · cases accepts <;> cases h
      · exact .rejected ‹_›
      · exact .published ‹_›
    · cases h
  | markPublished d sql =>
    simp only [step] at h
    split at h
    · rename_i row e hpc
      split at h
      · cases h
      · rename_i hfree
        cases sql with
        | some err => cases h; exact .markFails hpc
        | none => cases h; exact .marked hpc (by simpa using hfree)
    · cases h
  | crash d => cases h; exact .crash
  | restart d => cases h; exact .restart

/-! ## The loop over the database -/

/-- The dispatcher `d` is left alone: its statements succeed and its process
does not die. What the others do is not restricted. -/
def Undisturbed (d : Fin n) : DBAct n π ⊕ EventsOutbox π → Prop
  | .inl (.dequeueBegin d' _ _ sql) => d' = d → sql = none
  | .inl (.dequeueEnd d' _ sql) => d' = d → sql = none
  | .inl (.crash d') => d' ≠ d
  | .inl (.restart d') => d' ≠ d
  | _ => True

instance (d : Fin n) : (a : DBAct n π ⊕ EventsOutbox π) → Decidable (Undisturbed d a)
  | .inl (.dequeueBegin d' _ _ sql) => inferInstanceAs (Decidable (d' = d → sql = none))
  | .inl (.dequeueEnd d' _ sql) => inferInstanceAs (Decidable (d' = d → sql = none))
  | .inl (.crash d') => inferInstanceAs (Decidable (d' ≠ d))
  | .inl (.restart d') => inferInstanceAs (Decidable (d' ≠ d))
  | .inl (.enqueue ..) | .inl (.cancel _) | .inl (.loopHead _) | .inl (.publish ..)
  | .inl (.markPublished ..) | .inr _ => isTrue trivial

/-- When `d` polls the table, an unpublished row that no open transaction has
locked is there; and the row it was given decodes. -/
def PollFindsRow (c : EventCodec π) (d : Fin n) (s : DBSystem n π) :
    DBAct n π ⊕ EventsOutbox π → Prop
  | .inl (.dequeueBegin d' _ _ _) =>
      d' = d → ∃ r ∈ s.table.rows, EventsOutbox.Selectable s.locked r
  | .inl (.dequeueEnd d' _ _) => d' = d → ∀ row, s.pc d = .inTx row → DBOutbox.Decodes c row
  | _ => True

/-- A step of another dispatcher leaves `d` where it is. -/
theorem setPc_pc_returned_iff {s : DBSystem n π} {d d' : Fin n} {p : Pc π} :
    (s.setPc d' p).pc d = .returned ↔
      (d' = d ∧ p = .returned) ∨ (d' ≠ d ∧ s.pc d = .returned) := by
  by_cases h : d' = d
  · subst h; simp
  · rw [setPc_pc, Function.update_of_ne (Ne.symm h)]
    simp [h]

variable [DecidableEq π] {c : EventCodec π} {d : Fin n}

/-- A dispatcher that has returned stays so. -/
theorem returned_stays (s : DBSystem n π) (a : DBAct n π ⊕ EventsOutbox π) (s' : DBSystem n π)
    (hr : s.pc d = .returned) (hd : Undisturbed d a) (h : s.stepShared c a = some s') :
    s'.pc d = .returned := by
  cases a with
  | inr t =>
    simp only [stepShared] at h
    split at h <;> cases h
    exact hr
  | inl a =>
    -- every step of `d` itself needs `d` to be somewhere else
    cases steps_of_step h with
    | refused _ | enqueued _ | cancel => exact hr
    | crash | restart => rw [setPc_pc_returned_iff]; exact Or.inr ⟨hd, hr⟩
    | headCancelled hpc | headGoes hpc | selectFails hpc | selectEmpty hpc | selectRow hpc
    | malformed hpc | commitFails hpc | dequeued hpc | published hpc | rejected hpc | marked hpc
    | markFails hpc =>
      rw [setPc_pc_returned_iff]
      refine Or.inr ⟨fun he => ?_, hr⟩
      subst he
      rw [hr] at hpc
      cases hpc

/-- A cancelled context stays cancelled. -/
theorem cancelled_stays (s : DBSystem n π) (a : DBAct n π ⊕ EventsOutbox π) (s' : DBSystem n π)
    (hr : s.cancelled d = true) (hd : Undisturbed d a) (h : s.stepShared c a = some s') :
    s'.cancelled d = true := by
  cases a with
  | inr t =>
    simp only [stepShared] at h
    split at h <;> cases h
    exact hr
  | inl a =>
    cases steps_of_step h with
    | @cancel d' =>
      by_cases he : d = d'
      · subst he; simp
      · simpa [Function.update_of_ne he] using hr
    | restart => exact (Function.update_of_ne (Ne.symm hd) ..).trans hr
    | _ => exact hr

/-- While its context is live, a step makes `d` return exactly if it is a
poll of `d` that finds no row, or the end of one whose row does not decode. -/
theorem returns_iff_poll_misses (s : DBSystem n π) (a : DBAct n π ⊕ EventsOutbox π)
    (s' : DBSystem n π) (hr : ¬ s.pc d = .returned)
    (hd : Undisturbed d a ∧ ¬ s.cancelled d = true) (h : s.stepShared c a = some s') :
    ¬ s'.pc d = .returned ↔ PollFindsRow c d s a := by
  cases a with
  | inr t =>
    simp only [stepShared] at h
    split at h <;> cases h
    exact iff_of_true hr trivial
  | inl a =>
    cases steps_of_step h with
    | refused _ | enqueued _ | cancel => exact iff_of_true hr trivial
    | headCancelled _ hc =>
      refine iff_of_true ?_ trivial
      rw [setPc_pc_returned_iff]
      rintro (⟨rfl, _⟩ | ⟨_, hr'⟩)
      · exact hd.2 hc
      · exact hr hr'
    | @selectFails d' =>
      have hne : d' ≠ d := fun he => by simpa using hd.1 he
      rw [setPc_pc_returned_iff]
      exact iff_of_true (by simp [hne, hr]) (fun he => absurd he hne)
    | @selectEmpty d' _ _ hsel =>
      rw [setPc_pc_returned_iff]
      by_cases he : d' = d
      · -- the table showed `d` no row: `Dequeue` answers `ok = false`
        refine iff_of_false (by simp [he]) (fun hp => ?_)
        obtain ⟨r, hr', hsr⟩ := hp he
        exact hsel r hr' hsr
      · exact iff_of_true (by simp [he, hr]) (fun he' => absurd he' he)
    | selectRow _ hsel =>
      rw [setPc_pc_returned_iff]
      exact iff_of_true (by simp [hr]) (fun _ => ⟨_, hsel.1, hsel.2.1⟩)
    | @malformed d' _ _ row e msg hpc hu =>
      rw [setPc_pc_returned_iff]
      by_cases he : d' = d
      · subst he
        refine iff_of_false (by simp) (fun hp => ?_)
        have := hp rfl row hpc
        simp [DBOutbox.Decodes, hu] at this
      · exact iff_of_true (by simp [he, hr]) (fun he' => absurd he' he)
    | @commitFails d' =>
      have hne : d' ≠ d := fun he => by simpa using hd.1 he
      rw [setPc_pc_returned_iff]
      exact iff_of_true (by simp [hne, hr]) (fun he => absurd he hne)
    | @dequeued d' _ row e hpc hu =>
      rw [setPc_pc_returned_iff]
      refine iff_of_true (by simp [hr]) (fun he row' hrow => ?_)
      subst he
      rw [hpc] at hrow
      cases hrow
      simp [DBOutbox.Decodes, hu]
    | headGoes _ _ | published _ | rejected _ | marked _ _ | markFails _ | crash | restart =>
      rw [setPc_pc_returned_iff]
      exact iff_of_true (by simp [hr]) trivial

/-- **The loop over the database, exactly.** In a run in which nothing else
disturbs `d` and its context is not cancelled, `d` is still in its loop at
the end if and only if each of its polls found a row and each row decoded. -/
theorem running_iff_polls_find_rows (t : EventsOutbox π)
    {as : List (DBAct n π ⊕ EventsOutbox π)} {s : DBSystem n π}
    (hrun : run (stepShared c) (init t) as = some s)
    (hd : Along (stepShared c) (fun _ => Undisturbed d) (init t) as)
    (hctx : s.cancelled d = false) :
    s.pc d ≠ .returned ↔ Along (stepShared c) (PollFindsRow c d) (init t) as := by
  have hlive := along_not_trapped (T := fun s : DBSystem n π => s.cancelled d = true)
    cancelled_stays hd hrun (by simp [hctx])
  refine not_trapped_iff_along (T := fun s : DBSystem n π => s.pc d = .returned)
    (fun s a s' hr hC => returned_stays s a s' hr hC.1) returns_iff_poll_misses
    (hd.and hlive) ?_ hrun
  simp [init]

end DBSystem

/-! ## The loop over the in-memory outbox -/

namespace MemSystem

variable {n : Nat}

/-- A dispatcher that has returned was told to. -/
def ReturnedWasTold (s : MemSystem n) : Prop :=
  ∀ d, s.pc d = .returned → s.cancelled d = true ∨ s.outbox.closed = true

/-- Moving `d` keeps `ReturnedWasTold`, if `d` does not return untold. -/
theorem ReturnedWasTold.setPc {s : MemSystem n} (hs : s.ReturnedWasTold) (d : Fin n)
    (p : MemPc) (o : InMemoryOutbox) (ho : o.closed = s.outbox.closed)
    (hp : p = .returned → s.cancelled d = true ∨ s.outbox.closed = true) :
    ReturnedWasTold { s.setPc d p with outbox := o } := by
  intro d' hr
  simp only [ho]
  by_cases h : d' = d
  · subst h
    exact hp (by simpa [MemSystem.setPc] using hr)
  · exact hs d' (by simpa [MemSystem.setPc, Function.update_of_ne h] using hr)

theorem step_returnedWasTold (s : MemSystem n) (a : MemAct n) (s' : MemSystem n)
    (hs : s.ReturnedWasTold) (h : s.step a = some s') : s'.ReturnedWasTold := by
  cases a with
  | enqueue newID now e =>
    cases h
    intro d hr
    have hclosed : (s.outbox.enqueue newID now e).1.closed = s.outbox.closed := by
      unfold InMemoryOutbox.enqueue
      split <;> rfl
    simp only [hclosed]
    exact hs d hr
  | close => cases h; exact fun d _ => Or.inr rfl
  | cancel d =>
    cases h
    intro d' hr
    rcases hs d' hr with hc | hc
    · refine Or.inl ?_
      by_cases he : d' = d
      · subst he; simp
      · simpa [Function.update_of_ne he] using hc
    · exact Or.inr hc
  | loopHead d =>
    simp only [step] at h
    split at h
    · cases h
      refine hs.setPc d _ s.outbox rfl (fun hp => Or.inl ?_)
      by_contra hc
      simp [hc] at hp
    · cases h
  | dequeue d now =>
    simp only [step] at h
    split at h
    · -- `Dequeue` answers `ok = false` only once the outbox is closed
      cases hq : s.outbox.queue with
      | cons e rest =>
        simp only [InMemoryOutbox.dequeue, hq] at h
        cases h
        refine hs.setPc d _ _ rfl fun hp => ?_
        simp [Dispatcher.onDequeue, DequeueReply.found] at hp
      | nil =>
        cases hc : s.outbox.closed with
        | true =>
          simp only [InMemoryOutbox.dequeue, hq, hc, if_true] at h
          cases h
          exact hs.setPc d _ _ rfl (fun _ => Or.inr hc)
        | false => simp [InMemoryOutbox.dequeue, hq, hc] at h
    · cases h
  | publish d accepts =>
    simp only [step] at h
    split at h
    · cases h
      exact hs.setPc d _ s.outbox rfl (fun hp => by cases accepts <;> simp at hp)
    · cases h
  | markPublished d =>
    simp only [step] at h
    split at h
    · cases h
      exact hs.setPc d _ s.outbox rfl (fun hp => by cases hp)
    · cases h

end MemSystem

/-! ## Both -/

/-- **A dispatcher stops only when told to: over memory always, over the
database exactly while its polls find rows.** Over a `DBOutbox`, with any
number of dispatchers, other sessions rewriting the table, and any answers of
the publisher, a dispatcher whose context is not cancelled is still in its
loop if and only if each of its polls met a selectable row and each row
decoded. Over an `inMemoryOutbox` a dispatcher has returned only if its
context is cancelled or the outbox closed. -/
theorem loop_left_iff_poll_misses {π : Type} [DecidableEq π] (c : EventCodec π) (n : Nat)
    (d : Fin n) :
    (∀ (t : EventsOutbox π) (as : List (DBAct n π ⊕ EventsOutbox π)) (s : DBSystem n π),
      run (DBSystem.stepShared c) (.init t) as = some s →
      Along (DBSystem.stepShared c) (fun _ => DBSystem.Undisturbed d) (.init t) as →
      s.cancelled d = false →
      (s.pc d ≠ .returned ↔
        Along (DBSystem.stepShared c) (DBSystem.PollFindsRow c d) (.init t) as)) ∧
    (∀ (as : List (MemAct n)) (s : MemSystem n), run MemSystem.step .init as = some s →
      s.cancelled d = false → s.outbox.closed = false → s.pc d ≠ .returned) := by
  refine ⟨fun t as s hrun hd hctx => DBSystem.running_iff_polls_find_rows t hrun hd hctx, ?_⟩
  intro as s hrun hctx hopen hr
  have hinv : s.ReturnedWasTold := by
    refine run_invariant MemSystem.step_returnedWasTold ?_ hrun
    intro d hd
    simp [MemSystem.init] at hd
  rcases hinv d hr with h | h
  · simp [hctx] at h
  · simp [hopen] at h

/-! One dispatcher, with an event and without. -/

section OneDispatcher

open Encoding

/-- The event that `Enqueue` makes of an empty one, and its row. -/
def sampleEvent : Event := Event.zero.withDefaults "e1" 0

def sampleRow : Row Document :=
  .ofEvent sampleEvent (.object (marshal EventCodec.fields sampleEvent))

/-- A dispatcher that finds an event, publishes and marks it is in its loop. -/
theorem loop_kept_by_found_event :
    let as : List (DBAct 1 Document ⊕ EventsOutbox Document) :=
      [.inl (.enqueue "e1" 0 Event.zero none), .inl (.loopHead 0),
        .inl (.dequeueBegin 0 0 (some sampleRow) none), .inl (.dequeueEnd 0 0 none),
        .inl (.publish 0 true), .inl (.markPublished 0 none)]
    ∃ s, run (DBSystem.stepShared EventCodec.json) (.init .empty) as = some s ∧
      s.pc 0 = .top ∧ s.table.rows = [] ∧
      Along (DBSystem.stepShared EventCodec.json) (DBSystem.PollFindsRow EventCodec.json 0)
        (.init .empty) as := by
  intro as
  have hends : ∃ s, run (DBSystem.stepShared EventCodec.json) (.init .empty) as = some s ∧
      s.pc 0 = .top ∧ s.table.rows = [] ∧ s.cancelled 0 = false ∧ s.pc 0 ≠ .returned :=
    exists_run_of_any (by decide +kernel)
  obtain ⟨s, hrun, htop, hrows, hctx, hpc⟩ := hends
  have h := (loop_left_iff_poll_misses EventCodec.json 1 0).1 .empty as s hrun
    (by decide +kernel) hctx
  exact ⟨s, hrun, htop, hrows, h.mp hpc⟩

/-- A dispatcher that polls an empty table has left its loop, though nothing
failed and its context is live; the event of the next moment stays. -/
theorem idle_poll_leaves_loop :
    let as : List (DBAct 1 Document ⊕ EventsOutbox Document) :=
      [.inl (.loopHead 0), .inl (.dequeueBegin 0 0 none none),
        .inl (.enqueue "e1" 0 Event.zero none)]
    Along (DBSystem.stepShared EventCodec.json) (fun _ => DBSystem.Undisturbed 0)
      (.init .empty) as ∧
    ∃ s, run (DBSystem.stepShared EventCodec.json) (.init .empty) as = some s ∧
      s.cancelled 0 = false ∧ s.pc 0 = .returned ∧ s.table.rows = [sampleRow] :=
  ⟨by decide +kernel, exists_run_of_any (by decide +kernel)⟩

end OneDispatcher

end GoRestApi.Events
