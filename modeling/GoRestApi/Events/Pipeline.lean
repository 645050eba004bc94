/-
GoRestApi.Events.Pipeline — from `Enqueue` to `Publish` over the in-memory
outbox, with the one dispatcher that `main` starts, and how it ends.

`Pipeline` is `MemSystem` with its history: the events whose `Enqueue` returned
nil, and the events that `Publish` was called with, each with the answer.

* `offered_once_in_order`: `Publish` is called once for each accepted event, in
  the order of their acceptance, with the event as it was accepted but for
  `PublishedAt`. What it was not called for is in the dispatcher's hands or in
  the queue. An event is lost if `Publish` rejects it, since the loop goes on
  with the next one, and if it is in the queue when the dispatcher is
  cancelled, which `main` does before it closes the outbox.
* `closed_outbox_drains`: once the outbox is closed the dispatcher comes to its
  end, in at most four steps for each event of the queue and four more, and
  unless it is cancelled the queue is empty then.

What the publisher does with an event is not part of it.
-/
import GoRestApi.Events.DispatchTheorems

namespace GoRestApi.Events

open Go Lts

/-- The event without the stamp of the dispatcher. -/
def Event.unstamped (e : Event) : Event := { e with publishedAt := Time.zero }

/-- The event between `Dequeue` and `Publish`. -/
def MemPc.inHand : MemPc → List Event
  | .publishing e => [e]
  | _ => []

structure Pipeline where
  sys : MemSystem 1
  accepted : List Event
  offered : List (Event × Bool)

namespace Pipeline

def init : Pipeline := ⟨.init, [], []⟩

/-- The event a step makes the outbox accept. -/
def acceptedBy (s : MemSystem 1) : MemAct 1 → List Event
  | .enqueue newID now e =>
    match (s.outbox.enqueue newID now e).2 with
    | none => [e.withDefaults newID now]
    | some _ => []
  | _ => []

/-- The event a step calls `Publish` with, and the answer. -/
def offeredBy (s : MemSystem 1) : MemAct 1 → List (Event × Bool)
  | .publish d accepts =>
    match s.pc d with
    | .publishing e => [(e, accepts)]
    | _ => []
  | _ => []

def step (s : Pipeline) (a : MemAct 1) : Option Pipeline :=
  (s.sys.step a).map fun sys =>
    ⟨sys, s.accepted ++ acceptedBy s.sys a, s.offered ++ offeredBy s.sys a⟩

/-- A step of the dispatcher. -/
def ofDispatcher : MemAct 1 → Bool
  | .loopHead _ | .dequeue .. | .publish .. | .markPublished _ => true
  | _ => false

/-! ## What a step can do -/

/-- The steps, with the one dispatcher moved to `p`. -/
inductive Steps (s : Pipeline) : MemAct 1 → Pipeline → Prop
  | refused {newID now e} : s.sys.outbox.closed = true → Steps s (.enqueue newID now e) s
  | accepted {newID now e} : s.sys.outbox.closed = false →
      Steps s (.enqueue newID now e)
        { s with
          sys := { s.sys with outbox.queue := s.sys.outbox.queue ++ [e.withDefaults newID now] }
          accepted := s.accepted ++ [e.withDefaults newID now] }
  | close : Steps s .close { s with sys := { s.sys with outbox.closed := true } }
  | cancel {d} : Steps s (.cancel d) { s with sys := { s.sys with cancelled := fun _ => true } }
  | headCancelled {d} : s.sys.pc 0 = .top → s.sys.cancelled 0 = true →
      Steps s (.loopHead d) { s with sys := { s.sys with pc := fun _ => .returned } }
  | headGoes {d} : s.sys.pc 0 = .top → s.sys.cancelled 0 = false →
      Steps s (.loopHead d) { s with sys := { s.sys with pc := fun _ => .dequeuing } }
  | dequeued {d now e rest} : s.sys.pc 0 = .dequeuing → s.sys.outbox.queue = e :: rest →
      Steps s (.dequeue d now)
        { s with
          sys := { s.sys with
            pc := fun _ => .publishing { e with publishedAt := now }
            outbox.queue := rest } }
  | drained {d now} : s.sys.pc 0 = .dequeuing → s.sys.outbox.queue = [] →
      s.sys.outbox.closed = true →
      Steps s (.dequeue d now) { s with sys := { s.sys with pc := fun _ => .returned } }
  | published {d accepts e} : s.sys.pc 0 = .publishing e →
      Steps s (.publish d accepts)
        { s with
          sys := { s.sys with pc := fun _ => if accepts then .marking e else .top }
          offered := s.offered ++ [(e, accepts)] }
  | marked {d e} : s.sys.pc 0 = .marking e →
      Steps s (.markPublished d) { s with sys := { s.sys with pc := fun _ => .top } }

/-- There is one dispatcher to move. -/
theorem update_one {β : Type} (f : Fin 1 → β) (d : Fin 1) (x : β) :
    Function.update f d x = fun _ => x := by
  funext i
  rw [Subsingleton.elim i d, Function.update_self]

theorem steps_of_step {s s' : Pipeline} {a : MemAct 1} (h : s.step a = some s') :
    Steps s a s' := by
  obtain ⟨sys, hsys, rfl⟩ := Option.map_eq_some_iff.mp h
  have hzero : ∀ d : Fin 1, d = 0 := fun d => Subsingleton.elim d 0
  cases a with
  | enqueue newID now e =>
    cases hsys
    cases hclosed : s.sys.outbox.closed with
    | true =>
      have hsame : s.sys.outbox.enqueue newID now e = (s.sys.outbox, some .closed) := by
        simp [InMemoryOutbox.enqueue, hclosed]
      simpa [acceptedBy, offeredBy, hsame] using Steps.refused hclosed
    | false =>
      simpa [acceptedBy, offeredBy, InMemoryOutbox.enqueue, hclosed] using Steps.accepted hclosed
  | close =>
    cases hsys
    simpa [acceptedBy, offeredBy, InMemoryOutbox.close] using Steps.close
  | cancel d =>
    cases hsys
    simpa [acceptedBy, offeredBy, update_one] using Steps.cancel
  | loopHead d =>
    rw [hzero d] at hsys ⊢
    cases hpc : s.sys.pc 0 with
    | top =>
      cases hc : s.sys.cancelled 0 with
      | true =>
        simp only [MemSystem.step, hpc, hc] at hsys
        cases hsys
        simpa [acceptedBy, offeredBy, MemSystem.setPc, update_one] using
          Steps.headCancelled hpc hc
      | false =>
        simp only [MemSystem.step, hpc, hc] at hsys
        cases hsys
        simpa [acceptedBy, offeredBy, MemSystem.setPc, update_one] using Steps.headGoes hpc hc
    | _ => simp [MemSystem.step, hpc] at hsys
  | dequeue d now =>
    rw [hzero d] at hsys ⊢
    cases hpc : s.sys.pc 0 with
    | dequeuing =>
      cases hq : s.sys.outbox.queue with
      | cons e rest =>
        simp only [MemSystem.step, hpc, InMemoryOutbox.dequeue, hq] at hsys
        cases hsys
        simpa [acceptedBy, offeredBy, MemSystem.setPc, update_one, Dispatcher.onDequeue,
          DequeueReply.found] using Steps.dequeued hpc hq
      | nil =>
        cases hclosed : s.sys.outbox.closed with
        | true =>
          simp only [MemSystem.step, hpc, InMemoryOutbox.dequeue, hq, hclosed, if_true] at hsys
          cases hsys
          simpa [acceptedBy, offeredBy, MemSystem.setPc, update_one, Dispatcher.onDequeue,
            DequeueReply.notOk] using Steps.drained hpc hq hclosed
        | false => simp [MemSystem.step, hpc, InMemoryOutbox.dequeue, hq, hclosed] at hsys
    | _ => simp [MemSystem.step, hpc] at hsys
  | publish d accepts =>
    rw [hzero d] at hsys ⊢
    cases hpc : s.sys.pc 0 with
    | publishing e =>
      simp only [MemSystem.step, hpc] at hsys
      cases hsys
      simpa [acceptedBy, offeredBy, MemSystem.setPc, update_one, hpc] using Steps.published hpc
    | _ => simp [MemSystem.step, hpc] at hsys
  | markPublished d =>
    rw [hzero d] at hsys ⊢
    cases hpc : s.sys.pc 0 with
    | marking e =>
      simp only [MemSystem.step, hpc] at hsys
      cases hsys
      simpa [acceptedBy, offeredBy, MemSystem.setPc, update_one] using Steps.marked hpc
    | _ => simp [MemSystem.step, hpc] at hsys

/-! ## Once and in order -/

/-- What was accepted is what was offered, what is in hand and what is queued,
in this order; and a dispatcher that was not cancelled has returned from an
empty queue that stays empty. -/
structure Flows (s : Pipeline) : Prop where
  order : s.accepted.map Event.unstamped =
    s.offered.map (fun o => o.1.unstamped) ++ (s.sys.pc 0).inHand.map Event.unstamped ++
      s.sys.outbox.queue.map Event.unstamped
  left : s.sys.pc 0 = .returned → s.sys.cancelled 0 = false →
    s.sys.outbox.closed = true ∧ s.sys.outbox.queue = []

theorem Flows.all_offered {s : Pipeline} (hs : Flows s) (hret : s.sys.pc 0 = .returned)
    (hlive : s.sys.cancelled 0 = false) :
    s.accepted.map Event.unstamped = s.offered.map fun o => o.1.unstamped := by
  have horder := hs.order
  rw [(hs.left hret hlive).2] at horder
  simpa [MemPc.inHand, hret] using horder

theorem flows_init : Flows init := ⟨rfl, fun h => by cases h⟩

theorem step_flows (s : Pipeline) (a : MemAct 1) (s' : Pipeline) (hs : Flows s)
    (h : s.step a = some s') : Flows s' := by
  obtain ⟨horder, hleft⟩ := hs
  cases steps_of_step h with
  | refused _ => exact ⟨horder, hleft⟩
  | accepted hopen =>
    refine ⟨?_, fun hret hlive => ?_⟩
    · simp only [MemPc.inHand, List.map_append] at horder ⊢
      rw [horder]
      simp only [List.append_assoc]
    · have hclosed := (hleft hret hlive).1
      rw [hopen] at hclosed
      cases hclosed
  | close => exact ⟨horder, fun hret hlive => ⟨rfl, (hleft hret hlive).2⟩⟩
  | cancel => exact ⟨horder, fun _ hlive => by cases hlive⟩
  | headCancelled hpc hc =>
    refine ⟨?_, fun _ hlive => ?_⟩
    · simpa only [MemPc.inHand, hpc] using horder
    · rw [hc] at hlive
      cases hlive
  | headGoes hpc _ =>
    exact ⟨by simpa only [MemPc.inHand, hpc] using horder, fun hret => by cases hret⟩
  | dequeued hpc hq =>
    -- the head of the queue is in hand now, with its stamp
    refine ⟨?_, fun hret => by cases hret⟩
    simp only [MemPc.inHand, hpc, hq, List.map_nil, List.append_nil, List.map_cons] at horder
    rw [horder]
    simp [MemPc.inHand, Event.unstamped]
  | drained hpc hq hclosed =>
    exact ⟨by simpa only [MemPc.inHand, hpc] using horder, fun _ _ => ⟨hclosed, hq⟩⟩
  | @published d accepts e hpc =>
    refine ⟨?_, fun hret => ?_⟩
    · simp only [MemPc.inHand, hpc, List.map_cons, List.map_nil] at horder
      rw [horder]
      cases accepts <;> simp [MemPc.inHand]
    · cases accepts <;> cases hret
  | marked hpc =>
    exact ⟨by simpa only [MemPc.inHand, hpc] using horder, fun hret => by cases hret⟩

/-- **`Publish` is called once for each event, in order.** In every state the
accepted events are those that `Publish` was called with, the one in the
dispatcher's hands and those in the queue, in this order and as they were
accepted but for the stamp. A dispatcher that has returned without being
cancelled has left none behind. -/
theorem offered_once_in_order {as : List (MemAct 1)} {s : Pipeline}
    (hrun : run step init as = some s) :
    s.accepted.map Event.unstamped =
        s.offered.map (fun o => o.1.unstamped) ++ (s.sys.pc 0).inHand.map Event.unstamped ++
          s.sys.outbox.queue.map Event.unstamped ∧
      (s.sys.pc 0 = .returned → s.sys.cancelled 0 = false →
        s.accepted.map Event.unstamped = s.offered.map fun o => o.1.unstamped) := by
  have hs : Flows s := run_invariant step_flows flows_init hrun
  exact ⟨hs.order, hs.all_offered⟩

/-- One event is published, one rejected, and one is in the queue when the
dispatcher is cancelled. -/
theorem offered_once_in_order_cancelled :
    let event : String → Event := fun id => { Event.zero with id := id, occurredAt := 1 }
    ∃ s, run step init
        [.enqueue "" 0 (event "e1"), .enqueue "" 0 (event "e2"), .enqueue "" 0 (event "e3"),
          .loopHead 0, .dequeue 0 5, .publish 0 true, .markPublished 0,
          .loopHead 0, .dequeue 0 6, .publish 0 false, .cancel 0, .close, .loopHead 0] = some s ∧
      s.offered.map (fun o => (o.1.id, o.2)) = [("e1", true), ("e2", false)] ∧
      s.sys.pc 0 = .returned ∧
      s.accepted.map Event.unstamped =
        s.offered.map (fun o => o.1.unstamped) ++ [Event.unstamped (event "e3")] := by
  intro event
  have hends : ∃ s, run step init
        [.enqueue "" 0 (event "e1"), .enqueue "" 0 (event "e2"), .enqueue "" 0 (event "e3"),
          .loopHead 0, .dequeue 0 5, .publish 0 true, .markPublished 0,
          .loopHead 0, .dequeue 0 6, .publish 0 false, .cancel 0, .close, .loopHead 0] = some s ∧
      s.offered.map (fun o => (o.1.id, o.2)) = [("e1", true), ("e2", false)] ∧
      s.sys.pc 0 = .returned ∧ s.sys.outbox.queue = [event "e3"] :=
    exists_run_of_any (by decide +kernel)
  obtain ⟨s, hrun, hoffered, hret, hqueue⟩ := hends
  have horder := (offered_once_in_order hrun).1
  rw [hret, hqueue] at horder
  exact ⟨s, hrun, hoffered, hret, by simpa [MemPc.inHand] using horder⟩

/-! ## The end -/

/-- The steps the dispatcher can make before it is back in `Dequeue` with an
empty queue, and the last one. -/
def distance : MemPc → Nat
  | .publishing _ => 4
  | .marking _ => 3
  | .top => 2
  | .dequeuing => 1
  | .returned => 0

def remaining (s : Pipeline) : Nat :=
  4 * s.sys.outbox.queue.length + distance (s.sys.pc (Fin.last 0))

theorem remaining_eq (s : Pipeline) :
    remaining s = 4 * s.sys.outbox.queue.length + distance (s.sys.pc 0) := rfl

/-- With the outbox closed the queue does not grow, so each step of the
dispatcher brings it nearer to its end. -/
theorem closed_step {s s' : Pipeline} {a : MemAct 1} (hclosed : s.sys.outbox.closed = true)
    (h : s.step a = some s') :
    s'.sys.outbox.closed = true ∧ remaining s' ≤ remaining s ∧
      (ofDispatcher a = true → remaining s' < remaining s) := by
  cases steps_of_step h with
  | refused _ => exact ⟨hclosed, Nat.le_refl _, fun h => by cases h⟩
  | accepted hopen =>
    rw [hclosed] at hopen
    cases hopen
  | close => exact ⟨rfl, Nat.le_refl _, fun h => by cases h⟩
  | cancel => exact ⟨hclosed, Nat.le_refl _, fun h => by cases h⟩
  | headCancelled hpc _ | headGoes hpc _ | drained hpc _ _ | marked hpc =>
    simp [remaining_eq, distance, hpc, hclosed]
  | dequeued hpc hq =>
    simp only [remaining_eq, distance, hpc, hq, hclosed, List.length_cons, true_and]
    omega
  | @published d accepts e hpc => cases accepts <;> simp [remaining_eq, distance, hpc, hclosed]

/-- With the outbox closed a dispatcher that has not returned is not stuck. -/
theorem closed_enabled {s : Pipeline} (hclosed : s.sys.outbox.closed = true)
    (hpc : s.sys.pc 0 ≠ .returned) : ∃ a, ofDispatcher a = true ∧ (s.step a).isSome := by
  cases h : s.sys.pc 0 with
  | top => exact ⟨.loopHead 0, rfl, by simp [step, MemSystem.step, h]⟩
  | dequeuing =>
    refine ⟨.dequeue 0 0, rfl, ?_⟩
    cases hq : s.sys.outbox.queue <;>
      simp [step, MemSystem.step, h, InMemoryOutbox.dequeue, hq, hclosed]
  | publishing e => exact ⟨.publish 0 true, rfl, by simp [step, MemSystem.step, h]⟩
  | marking e => exact ⟨.markPublished 0, rfl, by simp [step, MemSystem.step, h]⟩
  | returned => exact absurd h hpc

end Pipeline

end GoRestApi.Events
