/-
GoRestApi.Events.DeliveryTheorems — what the database outbox delivers.

* `accepted_event_kept_or_published`: no accepted event is lost, by any
  number of dispatchers in any interleaving, with any failures of the
  publisher and of the statements, and with a crash at any point. The
  invariant `Kept` ties together the rows, the events in flight and the
  published events: a row is deleted by `MarkPublished` alone, and only after
  its event was published. The malformed-row branch, the other `DELETE`, is
  never reached by a row that `Enqueue` inserted.
* `held_rows_distinct`: two dispatchers hold the same row only if one of them
  polled while the other was holding the oldest row. The lock of
  `FOR UPDATE SKIP LOCKED` ends with the transaction of `Dequeue`, before the
  event is published, so that is all that keeps them apart.
-/
import GoRestApi.Events.DispatchTheorems

namespace GoRestApi.Events

open Go Lts

variable {n : Nat} {π : Type}

/-! ## Rows and events -/

/-- The row was inserted for the event. -/
def Row.StoredFor (c : EventCodec π) (r : Row π) (e : Event) : Prop :=
  ∃ p, c.marshal e = .ok p ∧ r = Row.ofEvent e p

theorem Row.StoredFor.id_eq {c : EventCodec π} {r : Row π} {e : Event} (h : r.StoredFor c e) :
    r.id = e.id := by
  obtain ⟨p, _, rfl⟩ := h
  rfl

/-- A row that `Enqueue` inserted decodes to the event it was inserted for:
the columns that `Scan` read are overwritten by equal values, and the key of
the column stands in for one that `omitempty` left out. -/
theorem Row.StoredFor.unmarshal {c : EventCodec π} (hc : c.RoundTrips) {r : Row π} {e : Event}
    (h : r.StoredFor c e) : c.unmarshal r.payload r.scan = (e, none) := by
  obtain ⟨p, hp, rfl⟩ := h
  exact hc.unmarshal_marshal e p _ hp rfl

theorem DBOutbox.enqueue_ok {c : EventCodec π} {t t' : EventsOutbox π} {newID : String}
    {now : Time} {e : Event} {sql : Option OutboxError}
    (h : DBOutbox.enqueue c t newID now e sql = .ok t') :
    ∃ r, r.StoredFor c (e.withDefaults newID now) ∧ t'.rows = t.rows ++ [r] := by
  simp only [DBOutbox.enqueue] at h
  split at h
  · cases h
  · rename_i p hp
    cases sql with
    | some err => cases h
    | none =>
      simp only [EventsOutbox.insert] at h
      split at h
      · cases h
      · cases h
        exact ⟨_, ⟨p, hp, rfl⟩, rfl⟩

theorem EventsOutbox.mem_deleteWhereID {t : EventsOutbox π} {id : String} {r : Row π} :
    r ∈ (t.deleteWhereID id).rows ↔ r ∈ t.rows ∧ r.id ≠ id := by
  simp [EventsOutbox.deleteWhereID]

/-! ## No event is lost -/

namespace DBSystem

/-- What is known of the event a dispatcher has in hand: it was accepted, and
by the time it is to be marked it has been published. -/
def PcKept (c : EventCodec π) (accepted published : List Event) : Pc π → Prop
  | .inTx row => ∃ a ∈ accepted, row.StoredFor c a
  | .publishing row e => ∃ a ∈ accepted, row.StoredFor c a ∧ a.SameAs e
  | .marking row e =>
      ∃ a ∈ accepted, row.StoredFor c a ∧ a.SameAs e ∧ ∃ p ∈ published, a.SameAs p
  | _ => True

theorem PcKept.mono {c : EventCodec π} {A A' P P' : List Event} (hA : A ⊆ A') (hP : P ⊆ P')
    {p : Pc π} (h : PcKept c A P p) : PcKept c A' P' p := by
  cases p with
  | inTx row =>
    obtain ⟨a, ha, hrow⟩ := h
    exact ⟨a, hA ha, hrow⟩
  | publishing row e =>
    obtain ⟨a, ha, hrow⟩ := h
    exact ⟨a, hA ha, hrow⟩
  | marking row e =>
    obtain ⟨a, ha, hrow, hsame, p, hp, hpub⟩ := h
    exact ⟨a, hA ha, hrow, hsame, p, hP hp, hpub⟩
  | _ => trivial

/-- The invariant of delivery. -/
structure Kept (c : EventCodec π) (s : DBSystem n π) : Prop where
  ids : (s.accepted.map Event.id).Nodup
  rows : ∀ r ∈ s.table.rows, ∃ a ∈ s.accepted, r.StoredFor c a
  inHand : ∀ d, PcKept c s.accepted s.published (s.pc d)
  kept : ∀ a ∈ s.accepted,
    (∃ r ∈ s.table.rows, r.StoredFor c a) ∨ ∃ p ∈ s.published, a.SameAs p

/-- The event an `Enqueue` is called with has an id that no accepted event
has. -/
def FreshID (s : DBSystem n π) : DBAct n π → Prop
  | .enqueue newID now e _ => (e.withDefaults newID now).id ∉ s.accepted.map Event.id
  | _ => True

instance (s : DBSystem n π) : (a : DBAct n π) → Decidable (FreshID s a)
  | .enqueue newID now e _ =>
      inferInstanceAs (Decidable ((e.withDefaults newID now).id ∉ s.accepted.map Event.id))
  | .cancel _ | .loopHead _ | .dequeueBegin .. | .dequeueEnd .. | .publish .. | .markPublished ..
  | .crash _ | .restart _ => isTrue trivial

/-- Moving a dispatcher keeps the invariant if what it then has in hand is
known. -/
theorem Kept.setPc {c : EventCodec π} {s : DBSystem n π} (hs : s.Kept c) (d : Fin n) {p : Pc π}
    (hp : PcKept c s.accepted s.published p) : (s.setPc d p).Kept c where
  ids := hs.ids
  rows := hs.rows
  inHand := by
    intro d'
    rcases moved_cases (g := (s.setPc d p).pc) rfl d' with ⟨-, h⟩ | ⟨-, h⟩
    · rw [h]
      exact hp
    · rw [h]
      exact hs.inHand d'
  kept := hs.kept

/-- The context flags are no part of the invariant. -/
theorem Kept.setCancelled {c : EventCodec π} {s : DBSystem n π} (hs : s.Kept c)
    (f : Fin n → Bool) : Kept c { s with cancelled := f } :=
  ⟨hs.ids, hs.rows, hs.inHand, hs.kept⟩

theorem Kept.enqueued {c : EventCodec π} {s : DBSystem n π} (hs : s.Kept c) {r : Row π}
    {e : Event} {t : EventsOutbox π} (hr : r.StoredFor c e) (ht : t.rows = s.table.rows ++ [r])
    (hfresh : e.id ∉ s.accepted.map Event.id) :
    Kept c { s with table := t, accepted := s.accepted ++ [e] } where
  ids := by
    rw [List.map_append, List.map_singleton, ← List.concat_eq_append, List.nodup_concat]
    exact ⟨hfresh, hs.ids⟩
  rows := by
    intro r' hr'
    rw [ht, List.mem_append, List.mem_singleton] at hr'
    rcases hr' with hr' | rfl
    · obtain ⟨a, ha, hst⟩ := hs.rows r' hr'
      exact ⟨a, List.mem_append_left _ ha, hst⟩
    · exact ⟨e, List.mem_append_right _ (List.mem_singleton_self e), hr⟩
  inHand := fun d =>
    (hs.inHand d).mono (List.subset_append_left _ _) (List.Subset.refl _)
  kept := by
    intro a ha
    simp only [ht]
    rcases List.mem_append.mp ha with ha | ha
    · rcases hs.kept a ha with ⟨r', hr', hst⟩ | hpub
      · exact Or.inl ⟨r', List.mem_append_left _ hr', hst⟩
      · exact Or.inr hpub
    · rw [List.mem_singleton.mp ha]
      exact Or.inl ⟨r, List.mem_append_right _ (List.mem_singleton_self r), hr⟩

/-- Publishing adds to what is published. -/
theorem Kept.published {c : EventCodec π} {s : DBSystem n π} (hs : s.Kept c) (e : Event) :
    Kept c { s with published := s.published ++ [e] } where
  ids := hs.ids
  rows := hs.rows
  inHand := fun d =>
    (hs.inHand d).mono (List.Subset.refl _) (List.subset_append_left _ _)
  kept := by
    intro a ha
    rcases hs.kept a ha with hrow | ⟨p, hp, hsame⟩
    · exact Or.inl hrow
    · exact Or.inr ⟨p, List.mem_append_left _ hp, hsame⟩

/-- Deleting the row of an event that has been published loses nothing: ids
are distinct, so no other event's row goes with it. -/
theorem Kept.deleted {c : EventCodec π} {s : DBSystem n π} (hs : s.Kept c) {id : String}
    (hpub : ∃ a ∈ s.accepted, a.id = id ∧ ∃ p ∈ s.published, a.SameAs p) :
    Kept c { s with table := s.table.deleteWhereID id } where
  ids := hs.ids
  rows := fun r hr => hs.rows r (EventsOutbox.mem_deleteWhereID.mp hr).1
  inHand := hs.inHand
  kept := by
    intro a' ha'
    obtain ⟨a, ha, hid, hsame⟩ := hpub
    rcases hs.kept a' ha' with ⟨r, hr, hst⟩ | hp
    · by_cases hrid : r.id = id
      · have : a' = a :=
          List.inj_on_of_nodup_map hs.ids ha' ha (by rw [← hst.id_eq, hrid, hid])
        subst this
        exact Or.inr hsame
      · exact Or.inl ⟨r, EventsOutbox.mem_deleteWhereID.mpr ⟨hr, hrid⟩, hst⟩
    · exact Or.inr hp

variable [DecidableEq π]

theorem step_kept {c : EventCodec π} (hc : c.RoundTrips) (s : DBSystem n π) (a : DBAct n π)
    (s' : DBSystem n π) (hs : s.Kept c) (hfresh : s.FreshID a) (h : s.step c a = some s') :
    s'.Kept c := by
  cases steps_of_step h with
  | refused _ => exact hs
  | enqueued hok =>
    obtain ⟨r, hr, ht⟩ := DBOutbox.enqueue_ok hok
    exact hs.enqueued hr ht hfresh
  | cancel => exact hs.setCancelled _
  | headCancelled _ _ | headGoes _ _ | selectFails _ | selectEmpty _ _ | commitFails _ _
  | rejected _ | markFails _ | crash => exact hs.setPc _ trivial
  | @restart d => exact (hs.setPc d (p := .top) trivial).setCancelled _
  | selectRow _ hsel => exact hs.setPc _ (hs.rows _ hsel.1)
  | @malformed d _ _ row e msg hpc hu =>
    -- not a row of the model: `Enqueue` inserted it, so it decodes
    obtain ⟨a, _, hst⟩ : PcKept c s.accepted s.published (.inTx row) := hpc ▸ hs.inHand d
    rw [hst.unmarshal hc] at hu
    cases hu
  | @dequeued d now row e hpc hu =>
    obtain ⟨a, ha, hst⟩ : PcKept c s.accepted s.published (.inTx row) := hpc ▸ hs.inHand d
    rw [hst.unmarshal hc] at hu
    cases hu
    exact hs.setPc _ ⟨_, ha, hst, rfl, rfl, rfl, rfl, rfl, rfl⟩
  | @published d row e hpc =>
    obtain ⟨a, ha, hst, hsame⟩ : PcKept c s.accepted s.published (.publishing row e) :=
      hpc ▸ hs.inHand d
    exact (hs.published e).setPc d
      ⟨a, ha, hst, hsame, e, List.mem_append_right _ (List.mem_singleton_self e), hsame⟩
  | @marked d row e hpc _ =>
    obtain ⟨a, ha, _, hsame, hpub⟩ : PcKept c s.accepted s.published (.marking row e) :=
      hpc ▸ hs.inHand d
    exact (hs.deleted ⟨a, ha, hsame.1, hpub⟩).setPc d trivial

/-- **The database outbox never loses an event.** In every state of every run
on a fresh table, each event whose `Enqueue` returned nil is still a row of
`events_outbox` or has been accepted by `Publish`; and an event that is being
handed to `Publish` is, in the six fields, an event that was accepted. -/
theorem accepted_event_kept_or_published (c : EventCodec π) (hc : c.RoundTrips)
    (as : List (DBAct n π)) (s : DBSystem n π)
    (hrun : run (step c) (init .empty) as = some s)
    (hids : Along (step c) FreshID (init .empty) as) :
    (∀ a ∈ s.accepted,
      (∃ r ∈ s.table.rows, r.StoredFor c a) ∨ ∃ p ∈ s.published, a.SameAs p) ∧
    ∀ d row e, s.pc d = .publishing row e → ∃ a ∈ s.accepted, row.StoredFor c a ∧ a.SameAs e := by
  have hinit : Kept c (init .empty : DBSystem n π) :=
    ⟨List.nodup_nil, by simp [init, EventsOutbox.empty], fun _ => trivial, by simp [init]⟩
  have hs : s.Kept c := hids.invariant (step_kept hc) hinit hrun
  refine ⟨hs.kept, fun d row e hpc => ?_⟩
  have hin := hs.inHand d
  rwa [hpc] at hin

/-- A dispatcher dies before it has published the event it was given: the
event is still a row, and a restarted one is given it again. -/
theorem event_kept_across_crash :
    let as : List (DBAct 1 Encoding.Document) :=
      [.enqueue "e1" 0 Event.zero none, .loopHead 0, .dequeueBegin 0 0 (some sampleRow) none,
        .dequeueEnd 0 0 none, .crash 0, .restart 0, .loopHead 0,
        .dequeueBegin 0 0 (some sampleRow) none, .dequeueEnd 0 0 none]
    ∃ s, run (step EventCodec.json) (init .empty) as = some s ∧ s.accepted = [sampleEvent] ∧
      s.published = [] ∧ (∃ r ∈ s.table.rows, r.StoredFor EventCodec.json sampleEvent) ∧
      ∃ e, s.pc 0 = .publishing sampleRow e ∧ sampleEvent.SameAs e := by
  intro as
  have hends : ∃ s, run (step EventCodec.json) (init .empty) as = some s ∧
      s.accepted = [sampleEvent] ∧ s.published = [] ∧
      s.pc 0 = .publishing sampleRow { sampleEvent with publishedAt := 0 } :=
    exists_run_of_any (by decide +kernel)
  obtain ⟨s, hrun, hacc, hpub, hpc⟩ := hends
  have h := accepted_event_kept_or_published EventCodec.json EventCodec.roundTrips_json as s hrun
    (by decide +kernel)
  refine ⟨s, hrun, hacc, hpub, ?_, _, hpc, ?_⟩
  · rcases h.1 sampleEvent (by simp [hacc]) with hrow | ⟨p, hp, _⟩
    · exact hrow
    · simp [hpub] at hp
  · obtain ⟨a, ha, _, hsame⟩ := h.2 0 _ _ hpc
    rw [hacc, List.mem_singleton] at ha
    exact ha ▸ hsame

/-! ## Who holds which row -/

omit [DecidableEq π]

/-- The id of the row a dispatcher has locked or holds. -/
def rowInHand (s : DBSystem n π) (d : Fin n) : Option String :=
  match s.pc d with
  | .inTx row => some row.id
  | .publishing row _ => some row.id
  | .marking row _ => some row.id
  | _ => none

/-- When a dispatcher polls, no row that another one still holds is the
oldest of the selectable rows: it has been deleted, or an older unpublished
row stands before it. -/
def HeldRowsNotOldest (s : DBSystem n π) : DBAct n π → Prop
  | .dequeueBegin _ _ _ _ => ∀ d, ∀ row ∈ (s.pc d).holds,
      ∀ r ∈ s.table.rows, EventsOutbox.Selectable s.locked r → r.id = row.id →
        ∃ r' ∈ s.table.rows, EventsOutbox.Selectable s.locked r' ∧ r'.occurredAt < r.occurredAt
  | _ => True

instance (s : DBSystem n π) : (a : DBAct n π) → Decidable (HeldRowsNotOldest s a)
  | .dequeueBegin _ _ _ _ => inferInstanceAs (Decidable (∀ d, ∀ row ∈ (s.pc d).holds,
      ∀ r ∈ s.table.rows, EventsOutbox.Selectable s.locked r → r.id = row.id →
        ∃ r' ∈ s.table.rows, EventsOutbox.Selectable s.locked r' ∧
          r'.occurredAt < r.occurredAt))
  | .enqueue .. | .cancel _ | .loopHead _ | .dequeueEnd .. | .publish .. | .markPublished ..
  | .crash _ | .restart _ => isTrue trivial

/-- No row is in the hands of two dispatchers. -/
def Exclusive (s : DBSystem n π) : Prop :=
  ∀ d d' id, s.rowInHand d = some id → s.rowInHand d' = some id → d = d'

theorem rowInHand_setPc (s : DBSystem n π) (d : Fin n) (p : Pc π) {d' : Fin n} (h : d' ≠ d) :
    (s.setPc d p).rowInHand d' = s.rowInHand d' := by
  simp only [rowInHand, setPc_pc, Function.update_of_ne h]

/-- A step of `d` keeps `Exclusive` if the row `d` ends with is one it had, or
one nobody has. -/
theorem Exclusive.setPc {s : DBSystem n π} (hs : s.Exclusive) (d : Fin n) (p : Pc π)
    (hp : ∀ id, (s.setPc d p).rowInHand d = some id →
      s.rowInHand d = some id ∨ ∀ d', d' ≠ d → s.rowInHand d' ≠ some id) :
    (s.setPc d p).Exclusive := by
  -- whoever else has the row of `d` in the new state had it before
  have key : ∀ d' id, d' ≠ d → (s.setPc d p).rowInHand d = some id →
      (s.setPc d p).rowInHand d' = some id → False := by
    intro d' id hne hd hd'
    rw [rowInHand_setPc s d p hne] at hd'
    rcases hp id hd with hown | hnone
    · exact hne (hs d' d id hd' hown)
    · exact hnone d' hne hd'
  intro d₁ d₂ id h₁ h₂
  by_cases e₁ : d₁ = d <;> by_cases e₂ : d₂ = d
  · rw [e₁, e₂]
  · subst e₁; exact (key d₂ id e₂ h₁ h₂).elim
  · subst e₂; exact (key d₁ id e₁ h₂ h₁).elim
  · rw [rowInHand_setPc s d p e₁] at h₁
    rw [rowInHand_setPc s d p e₂] at h₂
    exact hs d₁ d₂ id h₁ h₂

/-- `Exclusive` is about where the dispatchers are. -/
theorem Exclusive.of_pc {s s' : DBSystem n π} (hs : s.Exclusive) (h : s'.pc = s.pc) :
    s'.Exclusive := by
  intro d d' id hd hd'
  simp only [rowInHand, h] at hd hd'
  exact hs d d' id hd hd'

/-- A row the `SELECT` answers with is in nobody's hands: a locked one is
skipped, and a held one is not the oldest. -/
theorem selected_row_free {s : DBSystem n π} {row : Row π} {d₀ : Fin n} {now : Time}
    (hcond : s.HeldRowsNotOldest (.dequeueBegin d₀ now (some row) none))
    (hsel : s.table.Selects s.locked (some row)) (d : Fin n) : s.rowInHand d ≠ some row.id := by
  obtain ⟨hmem, hselectable, holdest⟩ := hsel
  intro hd
  have hheld : ∀ row', (s.pc d).holds = some row' → row'.id = row.id → False := by
    intro row' hrow' hid
    obtain ⟨r', hr', hsr', hlt⟩ := hcond d row' hrow' row hmem hselectable hid.symm
    exact Int.not_le.mpr hlt (holdest r' hr' hsr')
  cases hpc : s.pc d with
  | inTx row' =>
    have hlocked : s.locked row.id = true := by
      simp only [rowInHand, hpc] at hd
      simpa [locked] using ⟨d, by simpa [hpc, Pc.locks] using hd⟩
    rw [hselectable.2] at hlocked
    cases hlocked
  | publishing row' e =>
    simp only [rowInHand, hpc, Option.some.injEq] at hd
    exact hheld row' (by simp [hpc, Pc.holds]) hd
  | marking row' e =>
    simp only [rowInHand, hpc, Option.some.injEq] at hd
    exact hheld row' (by simp [hpc, Pc.holds]) hd
  | _ => simp [rowInHand, hpc] at hd

theorem step_exclusive [DecidableEq π] {c : EventCodec π} (s : DBSystem n π) (a : DBAct n π)
    (s' : DBSystem n π) (hs : s.Exclusive) (hcond : s.HeldRowsNotOldest a)
    (h : s.step c a = some s') : s'.Exclusive := by
  cases steps_of_step h with
  | refused _ => exact hs
  | enqueued _ | cancel => exact hs.of_pc rfl
  | selectRow _ hsel =>
    refine hs.setPc _ _ (fun id hid => Or.inr (fun d' _ => ?_))
    simp only [rowInHand, setPc_pc, Function.update_self, Option.some.injEq] at hid
    exact hid ▸ selected_row_free hcond hsel d'
  | dequeued hpc _ | published hpc =>
    -- the row stays in the same hands
    refine Exclusive.of_pc (hs.setPc _ _ (fun id hid => Or.inl ?_)) rfl
    simpa only [rowInHand, setPc_pc, Function.update_self, hpc] using hid
  | headCancelled _ _ | headGoes _ _ | selectFails _ | selectEmpty _ _ | commitFails _ _
  | rejected _ | markFails _ | crash | restart | malformed _ _ | marked _ _ =>
    -- the dispatcher ends with no row
    refine Exclusive.of_pc (hs.setPc _ _ (fun id hid => ?_)) rfl
    simp [rowInHand] at hid

/-- Two dispatchers hold the rows of two events. -/
def HoldDistinct (s : DBSystem n π) : Prop :=
  ∀ d d' row row', d ≠ d' → (s.pc d).holds = some row → (s.pc d').holds = some row' →
    row.id ≠ row'.id

theorem Exclusive.holdDistinct {s : DBSystem n π} (hs : s.Exclusive) : s.HoldDistinct := by
  have hinHand : ∀ d row, (s.pc d).holds = some row → s.rowInHand d = some row.id := by
    intro d row hrow
    cases hpc : s.pc d <;> simp_all [rowInHand, Pc.holds]
  intro d d' row row' hne hrow hrow' hid
  exact hne (hs d d' row.id (hinHand d row hrow) (hid ▸ hinHand d' row' hrow'))

/-- A poll at which a held row is the oldest may be answered with that row. -/
theorem exists_poll_of_held_oldest [DecidableEq π] {c : EventCodec π} {s : DBSystem n π}
    {d : Fin n} {now : Time} {pick : Option (Row π)} (hpc : s.pc d = .dequeuing)
    (hrows : ∀ r ∈ s.table.rows, DBOutbox.Decodes c r)
    (hheld : ¬ s.HeldRowsNotOldest (.dequeueBegin d now pick none)) :
    ∃ r s', run (step c) s [.dequeueBegin d now (some r) none, .dequeueEnd d now none] = some s' ∧
      ¬ s'.HoldDistinct := by
  simp only [HeldRowsNotOldest, not_forall] at hheld
  obtain ⟨d', row, hrow, r, hr, hsel, hid, hold⟩ := hheld
  have hne : d' ≠ d := by
    rintro rfl
    rw [hpc] at hrow
    cases hrow
  have hselects : s.table.Selects s.locked (some r) := by
    refine ⟨hr, hsel, fun r' hr' hsel' => Int.not_lt.mp fun hlt => hold ⟨r', hr', hsel', hlt⟩⟩
  obtain ⟨e, he⟩ : ∃ e, c.unmarshal r.payload r.scan = (e, none) :=
    ⟨_, Prod.ext rfl (hrows r hr)⟩
  have hbegin : s.step c (.dequeueBegin d now (some r) none) = some (s.setPc d (.inTx r)) := by
    simp only [step, hpc, hselects, ↓reduceIte]
  have hend : (s.setPc d (.inTx r)).step c (.dequeueEnd d now none) =
      some ((s.setPc d (.inTx r)).setPc d (.publishing r { e with publishedAt := now })) := by
    have hfree : deleteWaits c (s.setPc d (.inTx r)) d r = false := by
      simp [deleteWaits, DBOutbox.Decodes, he]
    simp only [step, setPc_pc, Function.update_self, hfree, DBOutbox.dequeueRow, he]
    rfl
  refine ⟨r, _, run_cons_eq_some.mpr ⟨_, hbegin, run_cons_eq_some.mpr ⟨_, hend, rfl⟩⟩,
    fun hdistinct => ?_⟩
  refine hdistinct d' d row r hne ?_ (by simp [Pc.holds]) hid.symm
  rw [setPc_pc, Function.update_of_ne hne, setPc_pc, Function.update_of_ne hne]
  exact hrow

/-- **Two dispatchers do not hold the same row, as long as nobody polls while
a held row is the oldest.** In every run on any table in which that condition
holds at each poll, from the moment `Dequeue` returns a row to one dispatcher
until that dispatcher has marked it, failed to publish it or died, no other
dispatcher holds it. Where a dispatcher is about to poll and the condition
does not hold, the `SELECT` may answer so that two dispatchers hold one row. -/
theorem held_rows_distinct [DecidableEq π] (c : EventCodec π) (t : EventsOutbox π)
    (as : List (DBAct n π)) (s : DBSystem n π) (hrun : run (step c) (init t) as = some s) :
    (Along (step c) HeldRowsNotOldest (init t) as → s.HoldDistinct) ∧
    ∀ d now pick, s.pc d = .dequeuing → (∀ r ∈ s.table.rows, DBOutbox.Decodes c r) →
      ¬ s.HeldRowsNotOldest (.dequeueBegin d now pick none) →
      ∃ r s', run (step c) s [.dequeueBegin d now (some r) none, .dequeueEnd d now none] =
        some s' ∧ ¬ s'.HoldDistinct := by
  refine ⟨fun hpolls => ?_, fun d now pick => exists_poll_of_held_oldest⟩
  have hinit : Exclusive (init t : DBSystem n π) := by
    intro d d' id hd
    simp [rowInHand, init] at hd
  exact (hpolls.invariant step_exclusive hinit hrun).holdDistinct

/-- The first dispatcher takes an event and the second one that occurred
earlier and was enqueued later: they hold two rows. -/
theorem later_older_event_held_apart :
    let older : Event := { Event.zero with id := "e0", occurredAt := -1 }
    let olderRow : Row Encoding.Document :=
      .ofEvent older (.object (Encoding.marshal EventCodec.fields older))
    let as : List (DBAct 2 Encoding.Document) :=
      [.enqueue "e1" 0 Event.zero none, .loopHead 0, .dequeueBegin 0 0 (some sampleRow) none,
        .dequeueEnd 0 0 none, .enqueue "" 0 older none, .loopHead 1,
        .dequeueBegin 1 0 (some olderRow) none, .dequeueEnd 1 0 none]
    ∃ s, run (step EventCodec.json) (init .empty) as = some s ∧
      (s.pc 0).holds.map Row.id = some "e1" ∧ (s.pc 1).holds.map Row.id = some "e0" ∧
      s.HoldDistinct := by
  intro older olderRow as
  have hends : ∃ s, run (step EventCodec.json) (init .empty) as = some s ∧
      (s.pc 0).holds.map Row.id = some "e1" ∧ (s.pc 1).holds.map Row.id = some "e0" :=
    exists_run_of_any (by decide +kernel)
  obtain ⟨s, hrun, h0, h1⟩ := hends
  have h := held_rows_distinct EventCodec.json .empty as s hrun
  exact ⟨s, hrun, h0, h1, h.1 (by decide +kernel)⟩

/-- The lock on a row ends with the transaction of `Dequeue`, so a second
dispatcher that polls while the first one publishes is given the same row. -/
theorem row_held_twice :
    let as : List (DBAct 2 Encoding.Document) :=
      [.enqueue "e1" 0 Event.zero none, .loopHead 0, .dequeueBegin 0 0 (some sampleRow) none,
        .dequeueEnd 0 0 none, .loopHead 1, .dequeueBegin 1 0 (some sampleRow) none,
        .dequeueEnd 1 0 none]
    ∃ s, run (step EventCodec.json) (init .empty) as = some s ∧
      (s.pc 0).holds.map Row.id = some "e1" ∧ (s.pc 1).holds.map Row.id = some "e1" :=
  exists_run_of_any (by decide +kernel)

end DBSystem

end GoRestApi.Events
