/-
GoRestApi.Events.Blocked — one dispatcher, and an event that its publisher
always rejects.

A failed `Publish` leaves the row where it is and the loop goes on: the next
`Dequeue` answers with the oldest unpublished row, which may be that row
again. A malformed row is worse, as `Dequeue` deletes it and returns an error,
on which the loop is left. So both kinds of row hold back every event that is
not older than they are, and `others_published_iff` says that nothing else
does. `ORDER BY occurred_at` does not decide between equal timestamps; hence
its two halves, for whatever the database answers and for the best it can
answer.

`iteration` is one pass through the loop of `Dispatcher.Run` as a function of
the table. `alone_run` shows that the dispatcher of `DBSystem`, left to
itself, takes the same passes step by step.
-/
import GoRestApi.Events.DeliveryTheorems
import Mathlib.Data.Finset.Max

namespace GoRestApi.Events

open Go Lts

variable {π : Type}

/-! ## The loop, pass by pass -/

/-- A dispatcher between two passes through its loop. -/
structure Loop (π : Type) where
  table : EventsOutbox π
  published : List Event
  returned : Bool

namespace Loop

def start (t : EventsOutbox π) : Loop π := ⟨t, [], false⟩

/-- One pass, in which no statement fails. `pick` is the answer of the
`SELECT`, `accepts` the publisher and `now` the reading for `PublishedAt`. -/
def iteration (c : EventCodec π) (accepts : Event → Bool) (s : Loop π) (pick : Option (Row π))
    (now : Time) : Loop π :=
  match pick with
  | none => { s with returned := true } -- sql.ErrNoRows
  | some row =>
    let r := DBOutbox.dequeueRow c s.table row none
    match Dispatcher.onDequeue now r.2 with
    | none => { s with table := r.1, returned := true }
    | some e =>
      if accepts e then
        { s with
          table := (DBOutbox.markPublished r.1 e none).1, published := s.published ++ [e] }
      else { s with table := r.1 } -- continue

/-- The passes the database may lead the loop through: no other transaction
is open, so no row is locked. A loop that has been left stays as it is. -/
def step [DecidableEq π] (c : EventCodec π) (accepts : Event → Bool) (s : Loop π)
    (poll : Option (Row π) × Time) : Option (Loop π) :=
  if s.returned then some s
  else if s.table.Selects (fun _ => false) poll.1 then
    some (s.iteration c accepts poll.1 poll.2)
  else none

end Loop

/-- The publisher that rejects the event with id `x` and no other. -/
def rejectsOnly (x : String) (e : Event) : Bool := !decide (e.id = x)

/-- The event `Dequeue` makes of the row. -/
def Row.event (c : EventCodec π) (r : Row π) : Event := (c.unmarshal r.payload r.scan).1

/-- The row holds an event other than `x`. -/
def Row.Waits (c : EventCodec π) (x : String) (r : Row π) : Prop :=
  DBOutbox.Decodes c r ∧ r.id ≠ x

instance (c : EventCodec π) (x : String) (r : Row π) : Decidable (r.Waits c x) :=
  inferInstanceAs (Decidable (_ ∧ _))

/-- No row is marked as published, which no statement of the program does,
and a row that decodes does so to an event with its id. -/
structure EventsOutbox.Filled (c : EventCodec π) (t : EventsOutbox π) : Prop where
  unpublished : ∀ r ∈ t.rows, r.publishedAt = none
  ownID : ∀ r ∈ t.rows, DBOutbox.Decodes c r → (r.event c).id = r.id

/-- Every event of `t` other than `x` has been published, and its row is
deleted. -/
def Loop.OthersPublished (c : EventCodec π) (x : String) (t : EventsOutbox π) (s : Loop π) : Prop :=
  ∀ r ∈ t.rows, r.Waits c x →
    (∀ r' ∈ s.table.rows, r'.id ≠ r.id) ∧ ∃ p ∈ s.published, (r.event c).SameAs p

/-! ## Tables and rows -/

/-- Rows that `Enqueue` inserted are such rows. -/
theorem EventsOutbox.filled_of_storedFor {c : EventCodec π} (hc : c.RoundTrips)
    {t : EventsOutbox π} (ht : ∀ r ∈ t.rows, ∃ e, r.StoredFor c e) : t.Filled c := by
  constructor
  · intro r hr
    obtain ⟨e, p, _, rfl⟩ := ht r hr
    rfl
  · intro r hr _
    obtain ⟨e, he⟩ := ht r hr
    rw [Row.event, he.unmarshal hc, he.id_eq]

/-- `id` is the primary key. -/
theorem EventsOutbox.eq_of_id_eq (t : EventsOutbox π) {r r' : Row π} (hr : r ∈ t.rows)
    (hr' : r' ∈ t.rows) (hid : r.id = r'.id) : r = r' :=
  List.inj_on_of_nodup_map t.primaryKey hr hr' hid

/-- Among the rows with `P` there is an oldest one. -/
theorem EventsOutbox.exists_oldest [DecidableEq π] (t : EventsOutbox π) (P : Row π → Prop)
    [DecidablePred P] {r : Row π} (hr : r ∈ t.rows) (hP : P r) :
    ∃ m ∈ t.rows, P m ∧ ∀ q ∈ t.rows, P q → m.occurredAt ≤ q.occurredAt := by
  obtain ⟨m, hm, hmin⟩ := (t.rows.filter (fun q => P q)).toFinset.exists_min_image Row.occurredAt
    ⟨r, by simp [hr, hP]⟩
  simp only [List.mem_toFinset, List.mem_filter, decide_eq_true_eq] at hm hmin
  exact ⟨m, hm.1, hm.2, fun q hq hPq => hmin q ⟨hq, hPq⟩⟩

/-- Where nothing is locked and nothing marked as published, the `SELECT`
answers with an oldest row. -/
theorem EventsOutbox.selects_some_iff {t : EventsOutbox π}
    (ht : ∀ r ∈ t.rows, r.publishedAt = none) {row : Row π} :
    t.Selects (fun _ => false) (some row) ↔
      row ∈ t.rows ∧ ∀ r ∈ t.rows, row.occurredAt ≤ r.occurredAt := by
  constructor
  · rintro ⟨hrow, _, hmin⟩
    exact ⟨hrow, fun r hr => hmin r hr ⟨ht r hr, rfl⟩⟩
  · rintro ⟨hrow, hmin⟩
    exact ⟨hrow, ⟨ht row hrow, rfl⟩, fun r hr _ => hmin r hr⟩

namespace Loop

variable {c : EventCodec π} {x : String} {t : EventsOutbox π}

/-! ## What a pass can do -/

/-- The cases of a pass, one per way through the body of the loop. -/
inductive Steps (c : EventCodec π) (x : String) (s : Loop π) :
    Option (Row π) × Time → Loop π → Prop where
  | left {poll} : s.returned = true → Steps c x s poll s
  | empty {now} : s.returned = false → s.table.Selects (fun _ => false) none →
      Steps c x s (none, now) { s with returned := true }
  | malformed {row now} : s.returned = false → s.table.Selects (fun _ => false) (some row) →
      ¬ DBOutbox.Decodes c row →
      Steps c x s (some row, now)
        { s with table := s.table.deleteWhereID (row.event c).id, returned := true }
  | rejected {row now} : s.returned = false → s.table.Selects (fun _ => false) (some row) →
      DBOutbox.Decodes c row → (row.event c).id = x → Steps c x s (some row, now) s
  | published {row now} : s.returned = false → s.table.Selects (fun _ => false) (some row) →
      DBOutbox.Decodes c row → (row.event c).id ≠ x →
      Steps c x s (some row, now)
        { s with
          table := s.table.deleteWhereID (row.event c).id
          published := s.published ++ [{ row.event c with publishedAt := now }] }

/-- **Inversion.** A pass is one of the cases. -/
theorem steps_of_step [DecidableEq π] {s s' : Loop π} {poll : Option (Row π) × Time}
    (h : s.step c (rejectsOnly x) poll = some s') : Steps c x s poll s' := by
  obtain ⟨pick, now⟩ := poll
  simp only [step] at h
  split at h
  · cases h
    exact .left ‹_›
  · rename_i hret
    rw [Bool.not_eq_true] at hret
    split at h
    · rename_i hsel
      cases h
      cases pick with
      | none => exact .empty hret hsel
      | some row =>
        cases hu : c.unmarshal row.payload row.scan with
        | mk e err =>
          have he : row.event c = e := by rw [Row.event, hu]
          cases err with
          | some msg =>
            simp only [iteration, DBOutbox.dequeueRow, hu, Dispatcher.onDequeue_failed]
            rw [← he]
            exact .malformed hret hsel (by simp [DBOutbox.Decodes, hu])
          | none =>
            have hdec : DBOutbox.Decodes c row := by simp [DBOutbox.Decodes, hu]
            simp only [iteration, DBOutbox.dequeueRow, hu, Dispatcher.onDequeue,
              DequeueReply.found, rejectsOnly, ↓reduceIte, Bool.not_eq_true',
              decide_eq_false_iff_not]
            rw [← he]
            split
            · exact .published hret hsel hdec ‹_›
            · exact .rejected hret hsel hdec (not_not.mp ‹_›)
    · cases h

/-- Rows are deleted, never added. -/
theorem Steps.rows_subset {s s' : Loop π} {poll : Option (Row π) × Time}
    (h : Steps c x s poll s') : s'.table.rows ⊆ s.table.rows := by
  cases h with
  | left _ | empty _ _ | rejected _ _ _ _ => exact List.Subset.refl _
  | malformed _ _ _ | published _ _ _ _ =>
    exact fun r hr => (EventsOutbox.mem_deleteWhereID.mp hr).1

/-! ## The blocked event -/

/-- `r` has not been published, and either the loop has been left or it is
still behind `b`. -/
structure Behind (t : EventsOutbox π) (b r : Row π) (s : Loop π) : Prop where
  rows : s.table.rows ⊆ t.rows
  unpublished : ∀ p ∈ s.published, p.id ≠ r.id
  waiting : s.returned = false → r ∈ s.table.rows ∧ b ∈ s.table.rows

theorem behind_start {b r : Row π} (hr : r ∈ t.rows) (hb : b ∈ t.rows) :
    Behind t b r (start t) :=
  ⟨List.Subset.refl _, by simp [start], fun _ => ⟨hr, hb⟩⟩

/-- As long as the database does not answer with `r` itself, `r` stays behind
a row that is never published. -/
theorem Behind.step [DecidableEq π] (ht : t.Filled c) {b r : Row π} (hb : ¬ b.Waits c x)
    {s s' : Loop π} (hs : Behind t b r s) {poll : Option (Row π) × Time} (hpoll : poll.1 ≠ some r)
    (h : s.step c (rejectsOnly x) poll = some s') : Behind t b r s' := by
  have hsteps := steps_of_step h
  have hrows : s'.table.rows ⊆ t.rows := fun q hq => hs.rows (hsteps.rows_subset hq)
  cases hsteps with
  | left _ | rejected _ _ _ _ => exact hs
  | empty _ _ | malformed _ _ _ =>
    exact ⟨hrows, hs.unpublished, fun hret => by cases hret⟩
  | @published row now hret hsel hdec hx =>
    obtain ⟨hr, hb'⟩ := hs.waiting hret
    have hrow : row ∈ t.rows := hs.rows hsel.1
    have hid : (row.event c).id = row.id := ht.ownID row hrow hdec
    -- the published row is neither `r`, by the answer, nor `b`, which is not published
    have hr_ne : r.id ≠ row.id := by
      intro he
      exact hpoll (congrArg some (t.eq_of_id_eq hrow (hs.rows hr) he.symm))
    have hb_ne : b.id ≠ row.id := by
      intro he
      rw [t.eq_of_id_eq (hs.rows hb') hrow he] at hb
      exact hb ⟨hdec, hid ▸ hx⟩
    refine ⟨hrows, ?_, fun _ => ?_⟩
    · simp only [List.mem_append, List.mem_singleton]
      rintro p (hp | rfl)
      · exact hs.unpublished p hp
      · exact fun he => hr_ne (he.symm.trans hid)
    · rw [hid]
      exact ⟨EventsOutbox.mem_deleteWhereID.mpr ⟨hr, hr_ne⟩,
        EventsOutbox.mem_deleteWhereID.mpr ⟨hb', hb_ne⟩⟩

theorem Behind.not_othersPublished (ht : t.Filled c) {b r : Row π} (hr : r ∈ t.rows)
    (hwait : r.Waits c x) {s : Loop π} (hs : Behind t b r s) : ¬ OthersPublished c x t s := by
  intro hdone
  obtain ⟨_, p, hp, hsame⟩ := hdone r hr hwait
  exact hs.unpublished p hp (hsame.1.symm.trans (ht.ownID r hr hwait.1))

/-- Behind an older row there is no way out. -/
theorem never_published_of_older [DecidableEq π] (ht : t.Filled c) {b r : Row π}
    (hr : r ∈ t.rows) (hwait : r.Waits c x) (hb : b ∈ t.rows) (hblock : ¬ b.Waits c x)
    (hlt : b.occurredAt < r.occurredAt) {polls : List (Option (Row π) × Time)} {s : Loop π}
    (hrun : run (step c (rejectsOnly x)) (start t) polls = some s) :
    ¬ OthersPublished c x t s := by
  refine Behind.not_othersPublished ht hr hwait (b := b) ?_
  refine run_invariant (fun u poll u' hu h => ?_) (behind_start hr hb) hrun
  by_cases hret : u.returned = true
  · rw [Loop.step, if_pos hret] at h
    cases h
    exact hu
  · refine hu.step ht hblock ?_ h
    rintro hpoll
    rw [Loop.step, if_neg hret, hpoll] at h
    split at h
    · rename_i hsel
      -- `r` cannot be the answer while the older `b` is there
      have hb' := (hu.waiting (by simpa using hret)).2
      have hle := ((EventsOutbox.selects_some_iff
        (fun q hq => ht.unpublished q (hu.rows hq))).mp hsel).2 b hb'
      exact absurd hle (not_le.mpr hlt)
    · cases h

/-- Behind a row of the same age, the database may leave it forever. -/
theorem exists_run_behind [DecidableEq π] (ht : t.Filled c) {b r : Row π} (hr : r ∈ t.rows)
    (hb : b ∈ t.rows) (hblock : ¬ b.Waits c x) (hne : b ≠ r)
    (hle : b.occurredAt ≤ r.occurredAt) (k : Nat) :
    ∃ polls s, polls.length = k ∧ run (step c (rejectsOnly x)) (start t) polls = some s ∧
      Behind t b r s := by
  induction k with
  | zero => exact ⟨[], start t, rfl, rfl, behind_start hr hb⟩
  | succ k ih =>
    obtain ⟨polls, s, hlen, hrun, hs⟩ := ih
    have hpoll : ∃ pick u, pick ≠ some r ∧ s.step c (rejectsOnly x) (pick, 0) = some u := by
      by_cases hret : s.returned = true
      · exact ⟨none, s, by simp, if_pos hret⟩
      · obtain ⟨hr', hb'⟩ := hs.waiting (by simpa using hret)
        obtain ⟨m, hm, hmr, hmin⟩ := s.table.exists_oldest (· ≠ r) hb' hne
        refine ⟨some m, _, by simpa using hmr, (if_neg hret).trans (if_pos ?_)⟩
        refine (EventsOutbox.selects_some_iff
          (fun q hq => ht.unpublished q (hs.rows hq))).mpr ⟨hm, fun q hq => ?_⟩
        by_cases hq' : q = r
        · subst hq'
          exact le_trans (hmin b hb' hne) hle
        · exact hmin q hq hq'
    obtain ⟨pick, u, hpick, hu⟩ := hpoll
    refine ⟨polls ++ [(pick, 0)], u, by simp [hlen], ?_, hs.step ht hblock hpick hu⟩
    exact run_append_eq_some.mpr ⟨s, hrun, by rw [run_singleton]; exact hu⟩

/-! ## Progress -/

/-- The events other than `x` that are still to be published. -/
def waiting (c : EventCodec π) (x : String) (s : Loop π) : List (Row π) :=
  s.table.rows.filter (fun r => r.Waits c x)

theorem mem_waiting {s : Loop π} {r : Row π} :
    r ∈ s.waiting c x ↔ r ∈ s.table.rows ∧ r.Waits c x := by
  simp [waiting]

/-- Each event other than `x` is still a row or has been published, and the
loop is not left before the last of them. -/
structure Served (c : EventCodec π) (x : String) (t : EventsOutbox π) (s : Loop π) : Prop where
  rows : s.table.rows ⊆ t.rows
  served : ∀ r ∈ t.rows, r.Waits c x → r ∈ s.table.rows ∨ ∃ p ∈ s.published, (r.event c).SameAs p
  returned : s.returned = true → s.waiting c x = []

theorem served_start : Served c x t (start t) :=
  ⟨List.Subset.refl _, fun _ hr _ => Or.inl hr, fun h => by cases h⟩

theorem Served.othersPublished {s : Loop π} (hs : Served c x t s) (hw : s.waiting c x = []) :
    OthersPublished c x t s := by
  have hnone : ∀ r ∈ s.table.rows, ¬ r.Waits c x := by
    intro r hr hwait
    have hmem := mem_waiting.mpr ⟨hr, hwait⟩
    rw [hw] at hmem
    cases hmem
  intro r hr hwait
  refine ⟨fun r' hr' hid => ?_, (hs.served r hr hwait).resolve_left (fun h => hnone r h hwait)⟩
  rw [t.eq_of_id_eq (hs.rows hr') hr hid] at hr'
  exact hnone r hr' hwait

theorem waiting_eq_nil_of_subset {s s' : Loop π} (hsub : s'.table.rows ⊆ s.table.rows)
    (hw : s.waiting c x = []) : s'.waiting c x = [] := by
  rw [List.eq_nil_iff_forall_not_mem] at hw ⊢
  intro q hq
  obtain ⟨hq, hqw⟩ := mem_waiting.mp hq
  exact hw q (mem_waiting.mpr ⟨hsub hq, hqw⟩)

/-- With no event left there is nothing to lose. -/
theorem Served.idle {s s' : Loop π} (hs : Served c x t s) (hw : s.waiting c x = [])
    (hsub : s'.table.rows ⊆ s.table.rows) (hpub : s'.published = s.published) :
    Served c x t s' ∧ s'.waiting c x = [] := by
  have hw' := waiting_eq_nil_of_subset hsub hw
  refine ⟨⟨fun q hq => hs.rows (hsub hq), fun r hr hwait => Or.inr ?_, fun _ => hw'⟩, hw'⟩
  rw [hpub]
  exact (hs.othersPublished hw r hr hwait).2

/-- An event is published for its row. -/
theorem Served.publish (ht : t.Filled c) {s : Loop π} (hs : Served c x t s)
    (hret : s.returned = false) {row : Row π} (hrow : row ∈ s.table.rows)
    (hdec : DBOutbox.Decodes c row) (now : Time) :
    Served c x t { s with
      table := s.table.deleteWhereID (row.event c).id
      published := s.published ++ [{ row.event c with publishedAt := now }] } := by
  refine ⟨fun q hq => hs.rows (EventsOutbox.mem_deleteWhereID.mp hq).1, fun r hr hwait => ?_,
    fun h => ?_⟩
  · by_cases he : r = row
    · subst he
      exact Or.inr ⟨_, List.mem_append_right _ (List.mem_singleton_self _),
        rfl, rfl, rfl, rfl, rfl, rfl⟩
    · rcases hs.served r hr hwait with hin | ⟨p, hp, hsame⟩
      · refine Or.inl (EventsOutbox.mem_deleteWhereID.mpr ⟨hin, fun hid => he ?_⟩)
        exact t.eq_of_id_eq hr (hs.rows hrow) (hid.trans (ht.ownID row (hs.rows hrow) hdec))
      · exact Or.inr ⟨p, List.mem_append_left _ hp, hsame⟩
  · rw [hret] at h
    cases h

theorem length_waiting_lt {s s' : Loop π} {row : Row π} (hrow : row ∈ s.waiting c x)
    (hs' : s'.table = s.table.deleteWhereID row.id) :
    (s'.waiting c x).length < (s.waiting c x).length := by
  have hfilter : s'.waiting c x = (s.waiting c x).filter (fun r => r.id ≠ row.id) := by
    simp only [waiting, hs', EventsOutbox.deleteWhereID, List.filter_filter, Bool.and_comm]
  rw [hfilter]
  exact List.length_filter_lt_length_iff_exists.mpr ⟨row, hrow, by simp⟩

/-- A pass that is given an event other than `x`, if there is one, publishes
it and deletes its row. -/
theorem Served.step [DecidableEq π] (ht : t.Filled c) {s s' : Loop π} (hs : Served c x t s)
    {poll : Option (Row π) × Time}
    (hpoll : s.waiting c x ≠ [] → ∃ row, poll.1 = some row ∧ row.Waits c x)
    (h : s.step c (rejectsOnly x) poll = some s') :
    Served c x t s' ∧ (s'.waiting c x = [] ∨ (s'.waiting c x).length < (s.waiting c x).length) := by
  have hsteps := steps_of_step h
  have hsub := hsteps.rows_subset
  -- a pass that publishes nothing was given no such event
  have hidle : s.waiting c x = [] → s'.published = s.published → Served c x t s' ∧
      (s'.waiting c x = [] ∨ (s'.waiting c x).length < (s.waiting c x).length) :=
    fun hw hpub => (hs.idle hw hsub hpub).imp_right Or.inl
  cases hsteps with
  | left hret => exact hidle (hs.returned hret) rfl
  | empty _ _ =>
    refine hidle (by_contra fun hw => ?_) rfl
    obtain ⟨row, he, _⟩ := hpoll hw
    cases he
  | @malformed row now _ _ hdec =>
    refine hidle (by_contra fun hw => ?_) rfl
    obtain ⟨row', he, hwait⟩ := hpoll hw
    cases he
    exact hdec hwait.1
  | @rejected row now _ hsel hdec hx =>
    refine hidle (by_contra fun hw => ?_) rfl
    obtain ⟨row', he, hwait⟩ := hpoll hw
    cases he
    exact hwait.2 ((ht.ownID row (hs.rows hsel.1) hdec).symm.trans hx)
  | @published row now hret hsel hdec hx =>
    have hid : (row.event c).id = row.id := ht.ownID row (hs.rows hsel.1) hdec
    have hmem : row ∈ s.waiting c x := mem_waiting.mpr ⟨hsel.1, hdec, hid ▸ hx⟩
    refine ⟨hs.publish ht hret hsel.1 hdec now, Or.inr (length_waiting_lt hmem ?_)⟩
    exact congrArg s.table.deleteWhereID hid

/-- When every other event is older than `x` and than every malformed row,
each pass publishes one of them until none is left. -/
theorem othersPublished_of_older [DecidableEq π] (ht : t.Filled c)
    (hold : ∀ r ∈ t.rows, r.Waits c x → ∀ b ∈ t.rows, ¬ b.Waits c x → r.occurredAt < b.occurredAt)
    {polls : List (Option (Row π) × Time)} {s : Loop π}
    (hlen : polls.length = ((start t).waiting c x).length)
    (hrun : run (step c (rejectsOnly x)) (start t) polls = some s) : OthersPublished c x t s := by
  have h : Served c x t s ∧ (s.waiting c x = [] ∨
      (s.waiting c x).length + polls.length ≤ ((start t).waiting c x).length) := by
    refine run_history (I := fun polls s => Served c x t s ∧ (s.waiting c x = [] ∨
      (s.waiting c x).length + polls.length ≤ ((start t).waiting c x).length))
      ⟨served_start, Or.inr le_rfl⟩ ?_ hrun
    intro polls u poll u' _ ⟨hu, hcount⟩ hstep
    have hpoll : u.waiting c x ≠ [] → ∃ row, poll.1 = some row ∧ row.Waits c x := by
      intro hw
      obtain ⟨r, hr⟩ := List.exists_mem_of_ne_nil _ hw
      obtain ⟨hr, hwait⟩ := mem_waiting.mp hr
      -- an answer that is no such event would be older than `r`
      cases steps_of_step hstep with
      | left hret => exact absurd (hu.returned hret) hw
      | empty _ hsel => exact absurd ⟨ht.unpublished r (hu.rows hr), rfl⟩ (hsel r hr)
      | @malformed row _ _ hsel _ | @rejected row _ _ hsel _ _ | @published row _ _ hsel _ _ =>
        refine ⟨row, rfl, by_contra fun hb => ?_⟩
        have hle := hsel.2.2 r hr ⟨ht.unpublished r (hu.rows hr), rfl⟩
        exact absurd hle (not_le.mpr (hold r (hu.rows hr) hwait row (hu.rows hsel.1) hb))
    obtain ⟨hu', hdone | hlt⟩ := hu.step ht hpoll hstep
    · exact ⟨hu', Or.inl hdone⟩
    · refine ⟨hu', Or.inr ?_⟩
      rcases hcount with hnil | hcount
      · simp [hnil] at hlt
      · rw [List.length_append, List.length_singleton]
        omega
  obtain ⟨hs, hnil | hcount⟩ := h
  · exact hs.othersPublished hnil
  · exact hs.othersPublished (List.length_eq_zero_iff.mp (by omega))

/-- When no other event is younger than `x` or than a malformed row, the
database can answer with the other events first. -/
theorem exists_run_othersPublished [DecidableEq π] (ht : t.Filled c)
    (hold : ∀ r ∈ t.rows, r.Waits c x → ∀ b ∈ t.rows, ¬ b.Waits c x →
      r.occurredAt ≤ b.occurredAt) :
    ∃ polls s, run (step c (rejectsOnly x)) (start t) polls = some s ∧
      OthersPublished c x t s := by
  have hcan : Can (step c (rejectsOnly x)) (fun _ _ => True) (OthersPublished c x t) (start t) := by
    refine Can.of_measure (I := Served c x t) (fun s => (s.waiting c x).length) ?_ served_start
    intro s hs
    by_cases hw : s.waiting c x = []
    · exact .here (Or.inl (hs.othersPublished hw))
    have hret : ¬ s.returned = true := fun h => hw (hs.returned h)
    obtain ⟨r, hr⟩ := List.exists_mem_of_ne_nil _ hw
    obtain ⟨hr, hwait⟩ := mem_waiting.mp hr
    obtain ⟨m, hm, hmwait, hmin⟩ := s.table.exists_oldest (fun q => q.Waits c x) hr hwait
    have hsel : s.table.Selects (fun _ => false) (some m) := by
      refine (EventsOutbox.selects_some_iff
        (fun q hq => ht.unpublished q (hs.rows hq))).mpr ⟨hm, fun q hq => ?_⟩
      by_cases hq' : q.Waits c x
      · exact hmin q hq hq'
      · exact hold m (hs.rows hm) hmwait q (hs.rows hq) hq'
    have hstep : s.step c (rejectsOnly x) (some m, 0) =
        some (s.iteration c (rejectsOnly x) (some m) 0) := (if_neg hret).trans (if_pos hsel)
    obtain ⟨hs', hnil | hlt⟩ := hs.step ht (fun _ => ⟨m, rfl, hmwait⟩) hstep
    · exact .next _ trivial hstep (.here (Or.inl (hs'.othersPublished hnil)))
    · exact .next _ trivial hstep (.here (Or.inr ⟨hs', hlt⟩))
  obtain ⟨polls, s, hrun, _, hdone⟩ := hcan.exists_run
  exact ⟨polls, s, hrun, hdone⟩

/-! ## When the rest gets through -/

/-- **A rejected event blocks the rest unless it is the youngest.** However
the database breaks ties, finitely many passes publish every event other than
`x` and delete its row, exactly if each of them is older than `x` and than
every malformed row. The database can break ties so that they are all
published exactly if none of them is younger. -/
theorem others_published_iff [DecidableEq π] (c : EventCodec π) (x : String) (t : EventsOutbox π)
    (ht : t.Filled c) :
    ((∃ k, ∀ polls s, polls.length = k →
        run (step c (rejectsOnly x)) (start t) polls = some s → OthersPublished c x t s) ↔
      ∀ r ∈ t.rows, r.Waits c x → ∀ b ∈ t.rows, ¬ b.Waits c x → r.occurredAt < b.occurredAt) ∧
    ((∃ polls s, run (step c (rejectsOnly x)) (start t) polls = some s ∧
        OthersPublished c x t s) ↔
      ∀ r ∈ t.rows, r.Waits c x → ∀ b ∈ t.rows, ¬ b.Waits c x →
        r.occurredAt ≤ b.occurredAt) := by
  refine ⟨⟨?_, fun hold => ⟨_, fun polls s => othersPublished_of_older ht hold⟩⟩,
    ⟨?_, exists_run_othersPublished ht⟩⟩
  · rintro ⟨k, hk⟩ r hr hwait b hb hblock
    refine not_le.mp fun hle => ?_
    have hne : b ≠ r := by
      rintro rfl
      exact hblock hwait
    obtain ⟨polls, s, hlen, hrun, hs⟩ := exists_run_behind ht hr hb hblock hne hle k
    exact hs.not_othersPublished ht hr hwait (hk polls s hlen hrun)
  · rintro ⟨polls, s, hrun, hdone⟩ r hr hwait b hb hblock
    refine not_lt.mp fun hlt => ?_
    exact never_published_of_older ht hr hwait hb hblock hlt hrun hdone

/-- An event as `Enqueue` fills it in, and the row it inserts for it. -/
def eventAt (id : String) (occurredAt : Time) : Event :=
  { Event.zero with id := id, occurredAt := occurredAt }

def rowAt (id : String) (occurredAt : Time) : Row Encoding.Document :=
  .ofEvent (eventAt id occurredAt)
    (.object (Encoding.marshal EventCodec.fields (eventAt id occurredAt)))

/-- Two events, a second apart. -/
def twoRows : EventsOutbox Encoding.Document where
  rows := [rowAt "e1" 0, rowAt "e2" Time.second]
  primaryKey := by decide

theorem filled_twoRows : twoRows.Filled EventCodec.json := by
  refine EventsOutbox.filled_of_storedFor EventCodec.roundTrips_json ?_
  simp only [twoRows, List.forall_mem_cons, List.not_mem_nil, false_implies, implies_true, and_true]
  exact ⟨⟨eventAt "e1" 0, _, rfl, rfl⟩, ⟨eventAt "e2" Time.second, _, rfl, rfl⟩⟩

/-- The younger of two events is rejected: the older one gets through. -/
theorem older_published_before_rejected :
    ∃ k, ∀ polls s, polls.length = k →
      run (step EventCodec.json (rejectsOnly "e2")) (start twoRows) polls = some s →
      OthersPublished EventCodec.json "e2" twoRows s :=
  (others_published_iff EventCodec.json "e2" twoRows filled_twoRows).1.mpr (by decide +kernel)

/-- The older of two events is rejected: three passes are given it three
times, and no number of passes gets the other one published. -/
theorem younger_never_published :
    (∃ s, run (step EventCodec.json (rejectsOnly "e1")) (start twoRows)
        [(some (rowAt "e1" 0), 0), (some (rowAt "e1" 0), 1), (some (rowAt "e1" 0), 2)] = some s ∧
      s.table.rows = twoRows.rows ∧ s.published = [] ∧ s.returned = false) ∧
    ∀ polls s, run (step EventCodec.json (rejectsOnly "e1")) (start twoRows) polls = some s →
      ¬ OthersPublished EventCodec.json "e1" twoRows s := by
  refine ⟨exists_run_of_any (by decide +kernel), fun polls s hrun => ?_⟩
  exact never_published_of_older (b := rowAt "e1" 0) (r := rowAt "e2" Time.second) filled_twoRows
    (by simp [twoRows]) (by decide +kernel) (by simp [twoRows]) (by decide +kernel)
    (by decide) hrun

end Loop

/-! ## The same passes step by step -/

namespace DBSystem

/-- The only dispatcher stands where the loop does between two passes. -/
structure Matches (l : Loop π) (s : DBSystem 1 π) : Prop where
  table : s.table = l.table
  published : s.published = l.published
  live : s.cancelled 0 = false
  pc : s.pc 0 = if l.returned then .returned else .top

theorem setPc_setPc {n : Nat} (s : DBSystem n π) (d : Fin n) (p q : Pc π) :
    (s.setPc d p).setPc d q = s.setPc d q := by
  simp [setPc]

theorem lockedByOther_alone (s : DBSystem 1 π) (id : String) : s.lockedByOther 0 id = false := by
  simp [lockedByOther, Subsingleton.elim _ (0 : Fin 1)]

variable [DecidableEq π] {c : EventCodec π}

/-- A dispatcher that is live at the head of its loop polls; nothing is
locked. -/
theorem run_poll {s s' : DBSystem 1 π} (hpc : s.pc 0 = .top) (hlive : s.cancelled 0 = false)
    {pick : Option (Row π)} (hsel : s.table.Selects (fun _ => false) pick) (now : Time)
    (h : s' = s.setPc 0 (pick.elim .returned .inTx)) :
    run (step c) s [.loopHead 0, .dequeueBegin 0 now pick none] = some s' := by
  have hhead : s.step c (.loopHead 0) = some (s.setPc 0 .dequeuing) := by
    simp [step, hpc, hlive]
  have hfree : (s.setPc 0 .dequeuing).locked = fun _ => false := by
    funext id
    simp [locked, Pc.locks]
  have hsel' : (s.setPc 0 .dequeuing).table.Selects (s.setPc 0 .dequeuing).locked pick := by
    rw [hfree]
    exact hsel
  subst h
  rw [run_cons_of_step hhead, run_singleton]
  simp only [step, setPc_pc, Function.update_self, if_pos hsel', setPc_setPc]
  cases pick <;> rfl

/-- The end of the transaction, for the only dispatcher. -/
theorem step_dequeueEnd_alone (c : EventCodec π) (s : DBSystem 1 π) (row : Row π) (now : Time) :
    (s.setPc 0 (.inTx row)).step c (.dequeueEnd 0 now none) =
      some
        { s.setPc 0 (.afterDequeue (some row) now (DBOutbox.dequeueRow c s.table row none).2) with
          table := (DBOutbox.dequeueRow c s.table row none).1 } := by
  simp only [step, setPc_pc, Function.update_self, deleteWaits, lockedByOther_alone, Bool.and_false,
    Bool.false_eq_true, if_false, setPc_setPc]
  rfl

/-- From `Publish` on, to the head of the loop again. -/
theorem run_publish {s : DBSystem 1 π} {row : Row π} {e : Event} (hpc : s.pc 0 = .publishing row e)
    (ok : Bool) :
    ∃ as s', run (step c) s as = some s' ∧ s'.pc 0 = .top ∧ s'.cancelled = s.cancelled ∧
      s'.table = (if ok then (DBOutbox.markPublished s.table e none).1 else s.table) ∧
      s'.published = if ok then s.published ++ [e] else s.published := by
  cases ok with
  | false =>
    refine ⟨[.publish 0 false], s.setPc 0 .top, ?_, rfl, rfl, rfl, rfl⟩
    simp [run_singleton, step, hpc]
  | true =>
    let u : DBSystem 1 π := { s.setPc 0 (.marking row e) with published := s.published ++ [e] }
    let u' : DBSystem 1 π :=
      { u.setPc 0 .top with table := (DBOutbox.markPublished s.table e none).1 }
    have hpub : s.step c (.publish 0 true) = some u := by simp [step, hpc, u]
    have hmark : u.step c (.markPublished 0 none) = some u' := by
      simp only [step, u, setPc_pc, Function.update_self, lockedByOther_alone,
        Bool.false_eq_true, if_false]
      rfl
    refine ⟨[.publish 0 true, .markPublished 0 none], u', ?_, rfl, rfl, rfl, rfl⟩
    rw [run_cons_of_step hpub, run_singleton, hmark]

/-- **A pass through the loop is a run of the dispatcher.** -/
theorem alone_step {accepts : Event → Bool} {l l' : Loop π} {s : DBSystem 1 π} (hs : Matches l s)
    {poll : Option (Row π) × Time} (h : l.step c accepts poll = some l') :
    ∃ as s', run (step c) s as = some s' ∧ Matches l' s' := by
  obtain ⟨pick, now⟩ := poll
  by_cases hret : l.returned = true
  · rw [Loop.step, if_pos hret] at h
    cases h
    exact ⟨[], s, rfl, hs⟩
  rw [Loop.step, if_neg hret] at h
  split at h
  swap
  · cases h
  rename_i hsel
  cases h
  have hpc : s.pc 0 = .top := by rw [hs.pc, if_neg hret]
  have hpoll := run_poll (c := c) hpc hs.live (hs.table ▸ hsel) now rfl
  cases pick with
  | none =>
    exact ⟨_, _, hpoll, ⟨hs.table, hs.published, hs.live, by simp [Loop.iteration]⟩⟩
  | some row =>
    have hend := step_dequeueEnd_alone c s row now
    rw [hs.table] at hend
    have hdeq := run_append_eq_some.mpr ⟨_, hpoll, (run_singleton ..).trans hend⟩
    cases he : Dispatcher.onDequeue now (DBOutbox.dequeueRow c l.table row none).2 with
    | none =>
      simp only [Loop.iteration, he]
      exact ⟨_, _, hdeq, ⟨rfl, hs.published, hs.live, by simp [Pc.afterDequeue, he]⟩⟩
    | some e =>
      simp only [Pc.afterDequeue, he] at hdeq
      obtain ⟨as, s', hrun, htop, hlive, htable, hpub⟩ :=
        run_publish (c := c) (s := { s.setPc 0 (.publishing row e) with
          table := (DBOutbox.dequeueRow c l.table row none).1 }) rfl (accepts e)
      refine ⟨_, s', run_append_eq_some.mpr ⟨_, hdeq, hrun⟩, ?_⟩
      simp only [Loop.iteration, he]
      have hlive' : s'.cancelled 0 = false := by rw [hlive]; exact hs.live
      rw [setPc_published, hs.published] at hpub
      cases hacc : accepts e <;> rw [hacc] at htable hpub
      · exact ⟨htable, hpub, hlive', by rw [htop]; exact (if_neg hret).symm⟩
      · exact ⟨htable, hpub, hlive', by rw [htop]; exact (if_neg hret).symm⟩

/-- Every sequence of passes is a run of the system with one dispatcher. -/
theorem alone_run {accepts : Event → Bool} {t : EventsOutbox π} {l : Loop π}
    {polls : List (Option (Row π) × Time)}
    (h : run (Loop.step c accepts) (Loop.start t) polls = some l) :
    ∃ as s, run (step c) (init t) as = some s ∧ Matches l s :=
  run_of_simulates (fun _ _ _ _ hs hstep => alone_step hs hstep) ⟨rfl, rfl, rfl, rfl⟩ h

end DBSystem

end GoRestApi.Events
