/-
GoRestApi.Retry.Ledger — the book-keeping of a work queue with retries.

An item is accepted, waits in a queue, is taken out, attempted, and after a
failed attempt waits again or, when its budget is used up, is put aside as
dead. The ledger says where each item is and keeps two logs, of the attempts
started and of the attempts failed. Nothing is said about who moves the items
or in which order they are taken: a queue, a worker pool or a single loop is
connected to the ledger by showing that each of its steps is a `Step` or
leaves the ledger as it is.

`WellKept` is the invariant of the ledger. From it: every accepted item is in
one place (`WellKept.count_id`), the attempts of an item are numbered without
gaps and bounded by its budget (`WellKept.attempts_numbered`), and an item is
dead when that many attempts have failed (`WellKept.dead_failed`,
`WellKept.failed_dead`).
-/
import Mathlib.Algebra.Order.Group.Multiset

namespace GoRestApi.Retry

/-- What the book-keeping needs of a unit of work. -/
structure Item (ι : Type) where
  id : ι
  attempts : Int
  budget : Int

/-- The item as its next attempt sees it. -/
def Item.next {ι : Type} (i : Item ι) : Item ι := { i with attempts := i.attempts + 1 }

inductive Stage where
  | queued
  | taken
  | running
  | failing
  | completed
  | dead
  deriving DecidableEq, Repr

structure Ledger (ι : Type) where
  items : Multiset (Stage × Item ι)
  accepted : List (Item ι)
  tried : List (ι × Int)
  failed : List (ι × Int)

variable {ι : Type}

/-- How an item moves: from, to, and the attempt numbers that are logged as
tried and as failed. -/
inductive Change : Stage × Item ι → Stage × Item ι → List Int → List Int → Prop
  | take (i : Item ι) : Change (.queued, i) (.taken, i) [] []
  | start (i : Item ι) : Change (.taken, i) (.running, i.next) [i.next.attempts] []
  | missing (i : Item ι) :
      Change (.taken, i) (.failing, i.next) [i.next.attempts] [i.next.attempts]
  | succeed (i : Item ι) : Change (.running, i) (.completed, i) [] []
  | fail (i : Item ι) : Change (.running, i) (.failing, i) [] [i.attempts]
  | retry (i : Item ι) (h : i.attempts ≤ i.budget) : Change (.failing, i) (.queued, i) [] []
  | bury (i : Item ι) (h : i.budget < i.attempts) : Change (.failing, i) (.dead, i) [] []

/-- One step of the ledger. -/
inductive Step : Ledger ι → Ledger ι → Prop
  | accept (L : Ledger ι) (i : Item ι) (hfresh : i.id ∉ L.accepted.map Item.id) :
      Step L { L with items := (.queued, i) ::ₘ L.items, accepted := L.accepted ++ [i] }
  | change (L : Ledger ι) {x y : Stage × Item ι} {ts fs : List Int}
      {rest : Multiset (Stage × Item ι)} (hx : L.items = x ::ₘ rest) (hc : Change x y ts fs) :
      Step L { L with
        items := y ::ₘ rest
        tried := L.tried ++ ts.map (x.2.id, ·)
        failed := L.failed ++ fs.map (x.2.id, ·) }

/-- A move of one item, read off the two ledgers. -/
theorem Step.of_items {L L' : Ledger ι} {x y : Stage × Item ι} {ts fs : List Int}
    {rest : Multiset (Stage × Item ι)} (hc : Change x y ts fs) (hx : L.items = {x} + rest)
    (hy : L'.items = {y} + rest) (haccepted : L'.accepted = L.accepted)
    (htried : L'.tried = L.tried ++ ts.map (x.2.id, ·))
    (hfailed : L'.failed = L.failed ++ fs.map (x.2.id, ·)) : Step L L' := by
  obtain ⟨items, accepted, tried, failed⟩ := L'
  simp only [Multiset.singleton_add] at hx hy haccepted htried hfailed
  subst hy haccepted htried hfailed
  exact .change L hx hc

/-- A step goes on in the same way next to items that it does not touch. -/
theorem Step.frame {L L' : Ledger ι} (h : Step L L') (others : Multiset (Stage × Item ι)) :
    Step { L with items := L.items + others } { L' with items := L'.items + others } := by
  cases h with
  | accept i hfresh =>
    rw [Multiset.cons_add]
    exact .accept { L with items := L.items + others } i hfresh
  | change hx hc =>
    rw [Multiset.cons_add]
    refine .change { L with items := L.items + others } ?_ hc
    rw [hx, Multiset.cons_add]

/-- The attempt numbers `a + 1, …, a + k`. -/
def numbers (a : Int) (k : Nat) : List Int := (List.range k).map fun i : Nat => a + 1 + (i : Int)

@[simp] theorem numbers_zero (a : Int) : numbers a 0 = [] := rfl

theorem numbers_succ (a : Int) (k : Nat) : numbers a (k + 1) = numbers a k ++ [a + k + 1] := by
  simp only [numbers, List.range_succ, List.map_append, List.map_cons, List.map_nil]
  rw [Int.add_right_comm]

/-! ## The entries of one item in a log -/

section Log

variable [DecidableEq ι]

/-- The numbers a log holds for the item `id`. -/
def entriesOf (log : List (ι × Int)) (id : ι) : List Int :=
  (log.filter fun p => p.1 = id).map Prod.snd

theorem entriesOf_append_self (log : List (ι × Int)) (id : ι) (ts : List Int) :
    entriesOf (log ++ ts.map (id, ·)) id = entriesOf log id ++ ts := by
  have h : (ts.map (id, ·)).filter (fun p => decide (p.1 = id)) = ts.map (id, ·) := by
    rw [List.filter_eq_self]
    simp
  simp [entriesOf, List.filter_append, h, Function.comp_def]

theorem entriesOf_append_of_ne (log : List (ι × Int)) {id id' : ι} (h : id' ≠ id)
    (ts : List Int) : entriesOf (log ++ ts.map (id, ·)) id' = entriesOf log id' := by
  have hnil : (ts.map (id, ·)).filter (fun p => decide (p.1 = id')) = [] := by
    rw [List.filter_eq_nil_iff]
    simp [Ne.symm h]
  simp [entriesOf, List.filter_append, hnil]

theorem entriesOf_eq_nil {log : List (ι × Int)} {id : ι} (h : ∀ p ∈ log, p.1 ≠ id) :
    entriesOf log id = [] := by
  have hnil : log.filter (fun p => decide (p.1 = id)) = [] := by
    rw [List.filter_eq_nil_iff]
    simpa using h
  simp [entriesOf, hnil]

end Log

/-! ## The invariant -/

/-- What the logs say of an item in each stage: `k` attempts have been started
and `f` have failed. An item waits again only within its budget, so at most
the first attempt is made beyond it. -/
def Stage.Allows (k f : Nat) (i : Item ι) : Stage → Prop
  | .queued | .taken => f = k ∧ (k = 0 ∨ i.attempts ≤ i.budget)
  | .running | .completed => f + 1 = k ∧ (k = 1 ∨ i.attempts ≤ i.budget + 1)
  | .failing => f = k ∧ 1 ≤ k ∧ (k = 1 ∨ i.attempts ≤ i.budget + 1)
  | .dead => f = k ∧ 1 ≤ k ∧ (k = 1 ∨ i.attempts ≤ i.budget + 1) ∧ i.budget < i.attempts

variable [DecidableEq ι]

/-- The item `x` is in the books: it was accepted, and its counter and the
logs agree. -/
def Recorded (L : Ledger ι) (x : Stage × Item ι) : Prop :=
  ∃ a ∈ L.accepted, ∃ k : Nat, a.id = x.2.id ∧ a.budget = x.2.budget ∧
    x.2.attempts = a.attempts + k ∧ entriesOf L.tried a.id = numbers a.attempts k ∧
    x.1.Allows k (entriesOf L.failed a.id).length x.2

structure WellKept (L : Ledger ι) : Prop where
  distinct : (L.accepted.map Item.id).Nodup
  complete : L.items.map (fun x => x.2.id) = ↑(L.accepted.map Item.id)
  tried_accepted : ∀ p ∈ L.tried, p.1 ∈ L.accepted.map Item.id
  failed_accepted : ∀ p ∈ L.failed, p.1 ∈ L.accepted.map Item.id
  recorded : ∀ x ∈ L.items, Recorded L x

theorem wellKept_empty : WellKept (⟨0, [], [], []⟩ : Ledger ι) where
  distinct := List.nodup_nil
  complete := rfl
  tried_accepted := by simp
  failed_accepted := by simp
  recorded := by simp

namespace Change

variable {x y : Stage × Item ι} {ts fs : List Int}

omit [DecidableEq ι] in
theorem id_eq (h : Change x y ts fs) : y.2.id = x.2.id := by
  cases h <;> rfl

omit [DecidableEq ι] in
theorem budget_eq (h : Change x y ts fs) : y.2.budget = x.2.budget := by
  cases h <;> rfl

omit [DecidableEq ι] in
theorem attempts_eq (h : Change x y ts fs) : y.2.attempts = x.2.attempts + ts.length := by
  cases h <;> simp [Item.next]

omit [DecidableEq ι] in
/-- The number that is logged is the next one. -/
theorem numbers_append (h : Change x y ts fs) {a : Int} {k : Nat} (hk : x.2.attempts = a + k) :
    numbers a k ++ ts = numbers a (k + ts.length) := by
  cases h with
  | start i => simp [Item.next, numbers_succ] at hk ⊢; omega
  | missing i => simp [Item.next, numbers_succ] at hk ⊢; omega
  | _ => simp

omit [DecidableEq ι] in
theorem allows (h : Change x y ts fs) {k f : Nat} (hx : x.1.Allows k f x.2) :
    y.1.Allows (k + ts.length) (f + fs.length) y.2 := by
  cases h <;>
    simp only [Stage.Allows, Item.next, List.length_nil, List.length_singleton] at hx ⊢ <;>
    omega

end Change

/-- An item that no step touches stays recorded. -/
theorem Recorded.log {L : Ledger ι} {x : Stage × Item ι} (hx : Recorded L x) {id : ι}
    (hne : x.2.id ≠ id) (items : Multiset (Stage × Item ι)) (ts fs : List Int) :
    Recorded { L with
      items := items
      tried := L.tried ++ ts.map (id, ·)
      failed := L.failed ++ fs.map (id, ·) } x := by
  obtain ⟨a, ha, k, hid, hb, hatt, htried, hst⟩ := hx
  rw [← hid] at hne
  refine ⟨a, ha, k, hid, hb, hatt, ?_, ?_⟩
  · rw [entriesOf_append_of_ne _ hne]
    exact htried
  · rw [entriesOf_append_of_ne _ hne]
    exact hst

/-- The item that moves is recorded where it arrives. -/
theorem Recorded.change {L : Ledger ι} {x y : Stage × Item ι} (hx : Recorded L x)
    {ts fs : List Int} (hc : Change x y ts fs) (items : Multiset (Stage × Item ι)) :
    Recorded { L with
      items := items
      tried := L.tried ++ ts.map (x.2.id, ·)
      failed := L.failed ++ fs.map (x.2.id, ·) } y := by
  obtain ⟨a, ha, k, hid, hb, hatt, htried, hst⟩ := hx
  refine ⟨a, ha, k + ts.length, hid.trans hc.id_eq.symm, hb.trans hc.budget_eq.symm, ?_, ?_, ?_⟩
  · rw [hc.attempts_eq, hatt]
    push_cast
    omega
  · rw [hid, entriesOf_append_self, ← hid, htried]
    exact hc.numbers_append hatt
  · rw [hid, entriesOf_append_self, ← hid, List.length_append]
    exact hc.allows hst

/-- A new item is recorded as not yet attempted, the others as before. -/
theorem WellKept.accept {L : Ledger ι} (hL : WellKept L) (i : Item ι)
    (hfresh : i.id ∉ L.accepted.map Item.id) :
    WellKept { L with items := (.queued, i) ::ₘ L.items, accepted := L.accepted ++ [i] } where
  distinct := by
    rw [List.map_append, List.map_singleton, ← List.concat_eq_append, List.nodup_concat]
    exact ⟨hfresh, hL.distinct⟩
  complete := by
    rw [Multiset.map_cons, hL.complete, List.map_append, ← Multiset.coe_add,
      ← Multiset.singleton_add, add_comm]
    rfl
  tried_accepted := fun p hp => by
    rw [List.map_append]
    exact List.mem_append_left _ (hL.tried_accepted p hp)
  failed_accepted := fun p hp => by
    rw [List.map_append]
    exact List.mem_append_left _ (hL.failed_accepted p hp)
  recorded := by
    intro x hx
    rcases Multiset.mem_cons.mp hx with rfl | hx
    · have htried : entriesOf L.tried i.id = [] :=
        entriesOf_eq_nil fun p hp h => hfresh (h ▸ hL.tried_accepted p hp)
      have hfailed : entriesOf L.failed i.id = [] :=
        entriesOf_eq_nil fun p hp h => hfresh (h ▸ hL.failed_accepted p hp)
      refine ⟨i, List.mem_append_right _ (List.mem_singleton_self i), 0, rfl, rfl, by simp, ?_, ?_⟩
      · exact htried
      · simp [hfailed, Stage.Allows]
    · obtain ⟨a, ha, rest⟩ := hL.recorded x hx
      exact ⟨a, List.mem_append_left _ ha, rest⟩

theorem WellKept.change {L : Ledger ι} (hL : WellKept L) {x y : Stage × Item ι}
    {ts fs : List Int} {rest : Multiset (Stage × Item ι)} (hx : L.items = x ::ₘ rest)
    (hc : Change x y ts fs) :
    WellKept { L with
      items := y ::ₘ rest
      tried := L.tried ++ ts.map (x.2.id, ·)
      failed := L.failed ++ fs.map (x.2.id, ·) } := by
  have hcomplete : x.2.id ::ₘ rest.map (fun x => x.2.id) = ↑(L.accepted.map Item.id) := by
    rw [← hL.complete, hx, Multiset.map_cons]
  have hmem : x.2.id ∈ L.accepted.map Item.id := by
    rw [← Multiset.mem_coe, ← hcomplete]
    exact Multiset.mem_cons_self _ _
  -- no other item has the ID of the one that moves
  have hothers : x.2.id ∉ rest.map (fun x => x.2.id) := by
    have hnodup : (x.2.id ::ₘ rest.map (fun x => x.2.id)).Nodup := by
      rw [hcomplete]
      exact Multiset.coe_nodup.mpr hL.distinct
    exact (Multiset.nodup_cons.mp hnodup).1
  refine ⟨hL.distinct, ?_, ?_, ?_, ?_⟩
  · rw [Multiset.map_cons, hc.id_eq]
    exact hcomplete
  · intro p hp
    rcases List.mem_append.mp hp with hp | hp
    · exact hL.tried_accepted p hp
    · obtain ⟨_, _, rfl⟩ := List.mem_map.mp hp
      exact hmem
  · intro p hp
    rcases List.mem_append.mp hp with hp | hp
    · exact hL.failed_accepted p hp
    · obtain ⟨_, _, rfl⟩ := List.mem_map.mp hp
      exact hmem
  · intro z hz
    rcases Multiset.mem_cons.mp hz with rfl | hz
    · have hrec : Recorded L x := hL.recorded x (hx ▸ Multiset.mem_cons_self _ _)
      exact hrec.change hc _
    · have hrec : Recorded L z := hL.recorded z (hx ▸ Multiset.mem_cons_of_mem hz)
      refine hrec.log (fun h => hothers ?_) _ _ _
      rw [← h]
      exact Multiset.mem_map_of_mem (fun x => x.2.id) hz

/-- **Every step keeps the books.** -/
theorem WellKept.step {L L' : Ledger ι} (hL : WellKept L) (h : Step L L') : WellKept L' := by
  cases h with
  | accept i hfresh => exact hL.accept i hfresh
  | change hx hc => exact hL.change hx hc

/-! ## What well-kept books say -/

/-- The limit on the attempts of an item accepted with its counter at 0. -/
def Item.limit (i : Item ι) : Int := max i.budget 0 + 1

/-- An accepted item is in exactly one place. -/
theorem WellKept.count_id {L : Ledger ι} (hL : WellKept L) {a : Item ι} (ha : a ∈ L.accepted) :
    (L.items.map fun x => x.2.id).count a.id = 1 := by
  rw [hL.complete, Multiset.coe_count]
  exact List.count_eq_one_of_mem hL.distinct (List.mem_map_of_mem ha)

/-- The place of an accepted item, with what the logs say there. -/
theorem WellKept.place {L : Ledger ι} (hL : WellKept L) {a : Item ι} (ha : a ∈ L.accepted) :
    ∃ x ∈ L.items, x.2.id = a.id ∧ x.2.budget = a.budget ∧ ∃ k : Nat,
      x.2.attempts = a.attempts + k ∧ entriesOf L.tried a.id = numbers a.attempts k ∧
      x.1.Allows k (entriesOf L.failed a.id).length x.2 := by
  have hmem : a.id ∈ L.items.map fun x => x.2.id := by
    rw [hL.complete]
    exact List.mem_map_of_mem ha
  obtain ⟨x, hx, hid⟩ := Multiset.mem_map.mp hmem
  obtain ⟨b, hb, k, hbid, hbb, hatt, htried, hst⟩ := hL.recorded x hx
  -- the accepted item behind `x` is `a`: accepted items have distinct IDs
  obtain rfl : b = a := List.inj_on_of_nodup_map hL.distinct hb ha (hbid.trans hid)
  exact ⟨x, hx, hid, hbb.symm, k, hatt, htried, hst⟩

omit [DecidableEq ι] in
/-- In no stage has an item been attempted beyond its limit. -/
theorem Stage.Allows.le_limit {st : Stage} {k f : Nat} {i : Item ι} (h : st.Allows k f i)
    (hk : i.attempts = k) : (k : Int) ≤ i.limit := by
  unfold Item.limit
  cases st <;> simp only [Stage.Allows] at h <;> omega

theorem WellKept.attempts_numbered {L : Ledger ι} (hL : WellKept L) {a : Item ι}
    (ha : a ∈ L.accepted) (hzero : a.attempts = 0) :
    ∃ k : Nat, (k : Int) ≤ a.limit ∧ entriesOf L.tried a.id = numbers 0 k := by
  obtain ⟨x, _, _, hb, k, hatt, htried, hst⟩ := hL.place ha
  rw [hzero, Int.zero_add] at hatt
  refine ⟨k, ?_, hzero ▸ htried⟩
  have hle := hst.le_limit hatt
  unfold Item.limit at hle ⊢
  rwa [hb] at hle

/-- An item that is dead has failed as often as its limit says. -/
theorem WellKept.dead_failed {L : Ledger ι} (hL : WellKept L) {a : Item ι}
    (ha : a ∈ L.accepted) (hzero : a.attempts = 0) {i : Item ι} (hi : (.dead, i) ∈ L.items)
    (hid : i.id = a.id) : ((entriesOf L.failed a.id).length : Int) = a.limit := by
  obtain ⟨b, hb, k, hbid, hbb, hatt, _, hst⟩ := hL.recorded _ hi
  obtain rfl : b = a := List.inj_on_of_nodup_map hL.distinct hb ha (hbid.trans hid)
  simp only [Stage.Allows] at hst hatt hbb
  unfold Item.limit
  omega

/-- An item that has failed that often is dead, or its last failure is being
dealt with and its budget is used up. -/
theorem WellKept.failed_dead {L : Ledger ι} (hL : WellKept L) {a : Item ι}
    (ha : a ∈ L.accepted) (hzero : a.attempts = 0)
    (hfailed : ((entriesOf L.failed a.id).length : Int) = a.limit) :
    (∃ i, (.dead, i) ∈ L.items ∧ i.id = a.id) ∨
      ∃ i, (.failing, i) ∈ L.items ∧ i.id = a.id ∧ i.budget < i.attempts := by
  obtain ⟨⟨st, i⟩, hx, hid, hb, k, hatt, _, hst⟩ := hL.place ha
  unfold Item.limit at hfailed
  cases st with
  | dead => exact .inl ⟨i, hx, hid⟩
  | failing =>
    refine .inr ⟨i, hx, hid, ?_⟩
    simp only [Stage.Allows] at hst hatt hb
    omega
  | _ =>
    -- waiting, running or completed: fewer failures than the limit
    exfalso
    simp only [Stage.Allows] at hst hatt hb
    omega

end GoRestApi.Retry
