/-
GoRestApi.Process.UserEventsTheorems — what a consumer of `user.created` can
rely on, over any number of replicas and dispatchers.

`user_created_accounted`: no event without an account; one event ID for all the
repetitions of an event, and for nothing else; and an event for exactly those
accounts whose second statement was committed. The last part is the price of
writing the account and the event without a transaction: nothing in the
database, and nothing in the answer to the client, tells an account whose event
was lost from the others.

`Kept` carries it. It attributes every accepted event to the request that
enqueued it, and keeps the accounts of the requests apart by the numbers of the
sequence. That an accepted event is not lost is the invariant of
`DeliveryTheorems`.

An account can be deleted before its event is published, and an update does not
change an event; so an event says what the account was created with, not what
it is.
-/
import GoRestApi.Events.DeliveryTheorems
import GoRestApi.Process.UserEvents
import GoRestApi.Store.PostgresRefinement

namespace GoRestApi.Events.DBSystem

open Lts

variable {n : Nat} {π : Type} [DecidableEq π] {c : EventCodec π} {s s' : DBSystem n π}
  {a : DBAct n π}

/-- What was published had been accepted. -/
def Sourced (s : DBSystem n π) : Prop := ∀ p ∈ s.published, ∃ a ∈ s.accepted, a.SameAs p

theorem Sourced.step (hs : s.Sourced) (hkept : s.Kept c) (h : s.step c a = some s') :
    s'.Sourced := by
  cases steps_of_step h with
  | @published d row e hpc =>
    obtain ⟨a, ha, -, hsame⟩ : PcKept c s.accepted s.published (.publishing row e) :=
      hpc ▸ hkept.inHand d
    intro p hp
    rcases List.mem_append.mp hp with hp | hp
    · exact hs p hp
    · rw [List.mem_singleton.mp hp]
      exact ⟨a, ha, hsame⟩
  | enqueued _ =>
    intro p hp
    obtain ⟨a, ha, hsame⟩ := hs p hp
    exact ⟨a, List.mem_append_left _ ha, hsame⟩
  | _ => exact hs

theorem accepted_of_dispatchersOwn (ha : dispatchersOwn a = true) (h : s.step c a = some s') :
    s'.accepted = s.accepted := by
  cases steps_of_step h with
  | enqueued _ => cases ha
  | _ => rfl

end GoRestApi.Events.DBSystem

namespace GoRestApi.Process.UserEvents

open Go Store Events Handler Lts

variable {ι : Type} {n : Nat} {π : Type}

/-! ## Accounts and events -/

/-- The event about a new account. -/
def IsFor (h : UserHandler) (user : User) (e : Event) : Prop :=
  ∃ now newID now', e = (h.createdEvent now user).withDefaults newID now'

/-- The key of the events about an account. -/
def accountKey (user : User) : String := Strconv.formatInt (Int64.ofInt user.id)

theorem IsFor.key_eq {h : UserHandler} {user : User} {e : Event} (hfor : IsFor h user e) :
    e.key = accountKey user := by
  obtain ⟨now, newID, now', rfl⟩ := hfor
  rfl

/-- The sequence of a `SERIAL` column stays within 32 bits. -/
theorem accountKey_inj {u v : User} (hu : 1 ≤ u.id ∧ u.id < 2 ^ 31)
    (hv : 1 ≤ v.id ∧ v.id < 2 ^ 31) (hkey : accountKey u = accountKey v) : u.id = v.id := by
  have hparse := congrArg Strconv.parseInt hkey
  rw [accountKey, accountKey, Strconv.parseInt_formatInt, Strconv.parseInt_formatInt,
    Option.some.injEq] at hparse
  have hint := congrArg Int64.toInt hparse
  rwa [Int64.toInt_ofInt_of_le (by omega) (by omega), Int64.toInt_ofInt_of_le (by omega) (by omega)]
    at hint

/-- The publisher has an event about the account, or is still to get one. -/
def Told (s : UserEvents ι n π) (user : User) : Prop :=
  (∃ r ∈ s.outbox.table.rows, r.key = accountKey user) ∨
    ∃ p ∈ s.outbox.published, p.key = accountKey user

/-- What ties the requests to the two tables; `first` is where the sequence
started. -/
structure Kept (h : UserHandler) (c : EventCodec π) (first : Int) (s : UserEvents ι n π) :
    Prop where
  delivery : s.outbox.Kept c
  sourced : s.outbox.Sourced
  attributed : ∀ a ∈ s.outbox.accepted, ∃ i user, s.pc i = .announced user a
  announced : ∀ i user e, s.pc i = .announced user e → e ∈ s.outbox.accepted ∧ IsFor h user e
  started : first ≤ s.users.nextval
  numbered : ∀ i, ∀ user ∈ (s.pc i).account, first ≤ user.id ∧ user.id < s.users.nextval
  distinct : ∀ i j, ∀ u ∈ (s.pc i).account, ∀ v ∈ (s.pc j).account, u.id = v.id → i = j

/-! ## Every step keeps the ties -/

section Invariant

variable {env : Env} {h : UserHandler} {c : EventCodec π}
  {reqs : ι → Request CreateUserRequest} {first : Int} {s s' : UserEvents ι n π} {i : ι}

theorem nextval_le_answer (d : Database) (sql : Option SqlError) (call : StoreCall) :
    d.nextval ≤ (d.answer sql call).1.nextval := by
  cases sql with
  | some e => rw [(d.answer_failed e call).1]
  | none =>
    by_cases hcall : ∃ input, call = .create input
    · obtain ⟨input, rfl⟩ := hcall
      rw [d.nextval_create input]
      omega
    · rw [d.nextval_answer fun input heq => hcall ⟨input, heq⟩]

theorem nextval_le_create {d d' : Database} {sql : Option SqlError} {input : CreateUserRequest}
    {r : Except PostgresError User} (hcreate : PostgresUserStore.create d sql input = (d', r)) :
    d.nextval ≤ d'.nextval := by
  have hle := nextval_le_answer d sql (.create input)
  rwa [Database.answer, hcreate] at hle

/-- The number of a new account is the next one of the sequence. -/
theorem create_ok_id {d d' : Database} {sql : Option SqlError} {input : CreateUserRequest}
    {user : User} (hcreate : PostgresUserStore.create d sql input = (d', .ok user)) :
    user.id = d.nextval ∧ d.nextval < d'.nextval := by
  cases sql with
  | some e => cases hcreate
  | none =>
    simp only [PostgresUserStore.create, Option.elim_none, Database.insert] at hcreate
    split at hcreate
    · rename_i hinsert
      split at hinsert <;> cases hinsert
      cases hcreate
      exact ⟨rfl, Int.lt_succ _⟩
    · cases hcreate

namespace Kept

/-- Other writes to the users only take numbers of the sequence. -/
theorem setUsers (hs : Kept h c first s) {d : Database} (hle : s.users.nextval ≤ d.nextval) :
    Kept h c first { s with users := d } where
  delivery := hs.delivery
  sourced := hs.sourced
  attributed := hs.attributed
  announced := hs.announced
  started := Int.le_trans hs.started hle
  numbered := fun i user huser =>
    ⟨(hs.numbered i user huser).1, Int.lt_of_lt_of_le (hs.numbered i user huser).2 hle⟩
  distinct := hs.distinct

/-- The dispatchers accept nothing. -/
theorem dispatched [DecidableEq π] (hc : c.RoundTrips) (hs : Kept h c first s) {a : DBAct n π}
    {outbox : DBSystem n π} (ha : DBSystem.dispatchersOwn a = true)
    (hstep : s.outbox.step c a = some outbox) : Kept h c first { s with outbox := outbox } := by
  have hfresh : s.outbox.FreshID a := by
    cases a with
    | enqueue newID now e sql => cases ha
    | _ => trivial
  have haccepted := DBSystem.accepted_of_dispatchersOwn ha hstep
  refine ⟨DBSystem.step_kept hc _ _ _ hs.delivery hfresh hstep, hs.sourced.step hs.delivery hstep,
    ?_, ?_, hs.started, hs.numbered, hs.distinct⟩
  · show ∀ a ∈ outbox.accepted, _
    rw [haccepted]
    exact hs.attributed
  · show ∀ i user e, _ → e ∈ outbox.accepted ∧ _
    rw [haccepted]
    exact hs.announced

variable [DecidableEq ι]

/-- A request moves on, with the account it has, and has nothing to do with
the outbox. -/
theorem move (hs : Kept h c first s) {p : CreatePc} (haccount : p.account = (s.pc i).account)
    (hbefore : ∀ user e, s.pc i ≠ .announced user e) (hafter : ∀ user e, p ≠ .announced user e) :
    Kept h c first (s.setPc i p) := by
  have hsame : ∀ j, ((s.setPc i p).pc j).account = (s.pc j).account := by
    intro j
    rcases moved_cases (g := (s.setPc i p).pc) rfl j with ⟨rfl, hj⟩ | ⟨-, hj⟩
    · rw [hj, haccount]
    · rw [hj]
  have hann : ∀ j user e, (s.setPc i p).pc j = .announced user e ↔ s.pc j = .announced user e := by
    intro j user e
    rcases moved_cases (g := (s.setPc i p).pc) rfl j with ⟨rfl, hj⟩ | ⟨-, hj⟩
    · rw [hj]
      exact iff_of_false (hafter user e) (hbefore user e)
    · rw [hj]
  refine ⟨hs.delivery, hs.sourced, fun a ha => ?_, fun j user e hj => ?_, hs.started, fun j => ?_,
    fun j k => ?_⟩
  · obtain ⟨j, user, hj⟩ := hs.attributed a ha
    exact ⟨j, user, (hann j user a).mpr hj⟩
  · exact hs.announced j user e ((hann j user e).mp hj)
  · rw [hsame]
    exact hs.numbered j
  · rw [hsame, hsame]
    exact hs.distinct j k

/-- A new account has the number that the sequence has just given out. -/
theorem created (hs : Kept h c first s) (hpc : s.pc i = .start) {d : Database} {user : User}
    (hid : user.id = s.users.nextval) (hnext : s.users.nextval < d.nextval) {p : CreatePc}
    (hp : p.account = some user) (hafter : ∀ user e, p ≠ .announced user e) :
    Kept h c first { s.setPc i p with users := d } := by
  have hnone : (s.pc i).account = none := by rw [hpc]; rfl
  -- every other account is older
  have hcases : ∀ j, ∀ u ∈ ((s.setPc i p).pc j).account,
      (j = i ∧ u = user) ∨ (j ≠ i ∧ u ∈ (s.pc j).account ∧ first ≤ u.id ∧ u.id < user.id) := by
    intro j u hu
    rcases moved_cases (g := (s.setPc i p).pc) rfl j with ⟨rfl, hj⟩ | ⟨hne, hj⟩
    · rw [hj, hp, Option.mem_some_iff] at hu
      exact .inl ⟨rfl, hu.symm⟩
    · rw [hj] at hu
      rw [hid]
      exact .inr ⟨hne, hu, hs.numbered j u hu⟩
  have hann : ∀ j u e, (s.setPc i p).pc j = .announced u e ↔ s.pc j = .announced u e := by
    intro j u e
    rcases moved_cases (g := (s.setPc i p).pc) rfl j with ⟨rfl, hj⟩ | ⟨-, hj⟩
    · rw [hj, hpc]
      exact iff_of_false (hafter u e) (by simp)
    · rw [hj]
  refine ⟨hs.delivery, hs.sourced, fun a ha => ?_, fun j u e hj => ?_, ?_, fun j u hu => ?_,
    fun j k u hu v hv heq => ?_⟩
  · obtain ⟨j, u, hj⟩ := hs.attributed a ha
    exact ⟨j, u, (hann j u a).mpr hj⟩
  · exact hs.announced j u e ((hann j u e).mp hj)
  · exact Int.le_trans hs.started (Int.le_of_lt hnext)
  · have hstarted := hs.started
    show first ≤ u.id ∧ u.id < d.nextval
    rcases hcases j u hu with ⟨-, rfl⟩ | ⟨-, -, hrange⟩ <;> omega
  · rcases hcases j u hu with ⟨rfl, rfl⟩ | ⟨-, hu', hlt⟩ <;>
    rcases hcases k v hv with ⟨rfl, rfl⟩ | ⟨-, hv', hlt'⟩
    · rfl
    · omega
    · omega
    · exact hs.distinct j k u hu' v hv' heq

/-- An event that the outbox takes belongs to the request that enqueued it. -/
theorem enqueued [DecidableEq π] (hc : c.RoundTrips) (hs : Kept h c first s) {user : User}
    {now : Time} {newID : String} {now' : Time} {sql : Option OutboxError} {outbox : DBSystem n π}
    (hpc : s.pc i = .created user) (hfresh : newID ∉ s.outbox.accepted.map Event.id)
    (hstep : s.outbox.step c (.enqueue newID now' (h.createdEvent now user) sql) = some outbox)
    (haccepted : outbox.accepted =
      s.outbox.accepted ++ [(h.createdEvent now user).withDefaults newID now']) :
    Kept h c first
      { s.setPc i (.announced user ((h.createdEvent now user).withDefaults newID now')) with
        outbox := outbox } := by
  generalize he : (h.createdEvent now user).withDefaults newID now' = e at *
  have hid : e.id = newID := by rw [← he]; rfl
  have hfresh' : s.outbox.FreshID (.enqueue newID now' (h.createdEvent now user) sql) := by
    show ((h.createdEvent now user).withDefaults newID now').id ∉ _
    rw [he, hid]
    exact hfresh
  have hsame : ∀ j, ((s.setPc i (.announced user e)).pc j).account = (s.pc j).account := by
    intro j
    rcases moved_cases (g := (s.setPc i (.announced user e)).pc) rfl j with ⟨rfl, hj⟩ | ⟨-, hj⟩
    · rw [hj, hpc]
      rfl
    · rw [hj]
  refine ⟨DBSystem.step_kept hc _ _ _ hs.delivery hfresh' hstep, hs.sourced.step hs.delivery hstep,
    ?_, ?_, hs.started, fun j => ?_, fun j k => ?_⟩
  · show ∀ a ∈ outbox.accepted, _
    rw [haccepted]
    intro a ha
    rcases List.mem_append.mp ha with ha | ha
    · obtain ⟨j, u, hj⟩ := hs.attributed a ha
      have hne : j ≠ i := by
        rintro rfl
        rw [hpc] at hj
        cases hj
      exact ⟨j, u, (Function.update_of_ne hne ..).trans hj⟩
    · rw [List.mem_singleton.mp ha]
      exact ⟨i, user, Function.update_self ..⟩
  · show ∀ j u a, _ → a ∈ outbox.accepted ∧ _
    rw [haccepted]
    intro j u a hj
    rcases moved_cases (g := (s.setPc i (.announced user e)).pc) rfl j with ⟨rfl, hj'⟩ | ⟨-, hj'⟩
    · cases hj.symm.trans hj'
      exact ⟨List.mem_append_right _ (List.mem_singleton_self e), now, newID, now', he.symm⟩
    · obtain ⟨ha, hfor⟩ := hs.announced j u a (hj'.symm.trans hj)
      exact ⟨List.mem_append_left _ ha, hfor⟩
  · rw [hsame]
    exact hs.numbered j
  · rw [hsame, hsame]
    exact hs.distinct j k

end Kept

/-- `newID` gives no id twice. -/
def FreshID (s : UserEvents ι n π) : UserEventsAct ι n π → Prop
  | .enqueue _ _ newID _ _ => newID ∉ s.outbox.accepted.map Event.id
  | _ => True

instance (s : UserEvents ι n π) : (a : UserEventsAct ι n π) → Decidable (FreshID s a)
  | .enqueue _ _ newID _ _ =>
      inferInstanceAs (Decidable (newID ∉ s.outbox.accepted.map Event.id))
  | .create .. | .die _ | .store .. | .dispatcher _ => isTrue trivial

theorem step_kept [DecidableEq ι] [DecidableEq π] (hc : c.RoundTrips) (s : UserEvents ι n π)
    (a : UserEventsAct ι n π) (s' : UserEvents ι n π) (hs : Kept h c first s) (hfresh : s.FreshID a)
    (hstep : s.step env h c reqs a = some s') : Kept h c first s' := by
  cases steps_of_step hstep with
  | rejected hpc _ => exact hs.move (by rw [hpc]; rfl) (by simp [hpc]) (by simp)
  | notCreated hpc _ hcreate =>
    exact Kept.setUsers (hs.move (by rw [hpc]; rfl) (by simp [hpc]) (by simp))
      (nextval_le_create hcreate)
  | created hpc _ hcreate =>
    obtain ⟨hid, hnext⟩ := create_ok_id hcreate
    exact hs.created hpc hid hnext (account_afterCreate ..) (afterCreate_ne_announced h _)
  | notEnqueued hpc _ => exact hs.move (by rw [hpc]; rfl) (by simp [hpc]) (by simp)
  | enqueued hpc houtbox haccepted => exact hs.enqueued hc hpc hfresh houtbox haccepted
  | died hpc => exact hs.move (by rw [hpc]; rfl) (by simp [hpc]) (by simp)
  | store => exact hs.setUsers (nextval_le_answer ..)
  | dispatcher ha houtbox => exact hs.dispatched hc ha houtbox

theorem kept_init (d : Database) : Kept h c d.nextval (init d : UserEvents ι n π) where
  delivery := ⟨List.nodup_nil, by simp [init, DBSystem.init, EventsOutbox.empty],
    fun _ => trivial, by simp [init, DBSystem.init]⟩
  sourced := by simp [init, DBSystem.Sourced, DBSystem.init]
  attributed := by simp [init, DBSystem.init]
  announced := by simp [init]
  started := Int.le_refl _
  numbered := by simp [init, CreatePc.account]
  distinct := by simp [init, CreatePc.account]

/-! ## What the consumer can rely on -/

/-- Two requests whose accounts have the same key are one. -/
theorem Kept.eq_of_key (hs : Kept h c first s) (hfirst : 1 ≤ first)
    (hrange : s.users.nextval ≤ 2 ^ 31) {i j : ι} {u v : User} (hu : u ∈ (s.pc i).account)
    (hv : v ∈ (s.pc j).account) (hkey : accountKey u = accountKey v) : i = j := by
  have hui := hs.numbered i u hu
  have hvj := hs.numbered j v hv
  exact hs.distinct i j u hu v hv (accountKey_inj (by omega) (by omega) hkey)

/-- The request that an accepted event with this key comes from. -/
theorem Kept.announced_of_key (hs : Kept h c first s) (hfirst : 1 ≤ first)
    (hrange : s.users.nextval ≤ 2 ^ 31) {i : ι} {user : User} (huser : user ∈ (s.pc i).account)
    {a : Event} (ha : a ∈ s.outbox.accepted) (hkey : a.key = accountKey user) :
    s.pc i = .announced user a := by
  obtain ⟨j, v, hj⟩ := hs.attributed a ha
  have hv : v ∈ (s.pc j).account := by rw [hj]; rfl
  have hkeys : accountKey user = accountKey v :=
    hkey.symm.trans (hs.announced j v a hj).2.key_eq
  obtain rfl := hs.eq_of_key hfirst hrange huser hv hkeys
  rw [Option.mem_unique huser hv]
  exact hj

theorem Kept.told_iff (hs : Kept h c first s) (hfirst : 1 ≤ first)
    (hrange : s.users.nextval ≤ 2 ^ 31) {i : ι} {user : User} (huser : user ∈ (s.pc i).account) :
    s.Told user ↔ ∃ e, s.pc i = .announced user e := by
  constructor
  · rintro (⟨r, hr, hkey⟩ | ⟨p, hp, hkey⟩)
    · obtain ⟨a, ha, p, -, rfl⟩ := hs.delivery.rows r hr
      exact ⟨a, hs.announced_of_key hfirst hrange huser ha hkey⟩
    · obtain ⟨a, ha, hsame⟩ := hs.sourced p hp
      exact ⟨a, hs.announced_of_key hfirst hrange huser ha (hsame.2.2.2.1.trans hkey)⟩
  · rintro ⟨e, he⟩
    obtain ⟨haccepted, hfor⟩ := hs.announced i user e he
    rcases hs.delivery.kept e haccepted with ⟨r, hr, p, -, rfl⟩ | ⟨p, hp, hsame⟩
    · exact .inl ⟨_, hr, hfor.key_eq⟩
    · exact .inr ⟨p, hp, hsame.2.2.2.1.symm.trans hfor.key_eq⟩

/-- Events about one account have one ID, and others have others. -/
theorem Kept.key_eq_iff (hs : Kept h c first s) (hfirst : 1 ≤ first)
    (hrange : s.users.nextval ≤ 2 ^ 31) {p q : Event} (hp : p ∈ s.outbox.published)
    (hq : q ∈ s.outbox.published) : p.key = q.key ↔ p.id = q.id := by
  obtain ⟨a, ha, hap⟩ := hs.sourced p hp
  obtain ⟨b, hb, hbq⟩ := hs.sourced q hq
  rw [← hap.2.2.2.1, ← hbq.2.2.2.1, ← hap.1, ← hbq.1]
  constructor
  · intro hkey
    obtain ⟨i, user, hi⟩ := hs.attributed a ha
    have huser : user ∈ (s.pc i).account := by rw [hi]; rfl
    have hb' := hs.announced_of_key hfirst hrange huser hb
      (hkey.symm.trans (hs.announced i user a hi).2.key_eq)
    cases hi.symm.trans hb'
    rfl
  · intro hid
    rw [List.inj_on_of_nodup_map hs.delivery.ids ha hb hid]

/-- **What the events say of the accounts.** On any number of replicas, with
any number of dispatchers and every interleaving, failure and crash: an event
is published only for an account that was created, with what it was created
with; two published events have the same key exactly if they have the same ID,
so that a consumer who keeps one of each ID keeps one for each account; and an
account has an event, published or still to be published, exactly if the second
statement of its request was committed. -/
theorem user_created_accounted [DecidableEq ι] [DecidableEq π] (hc : c.RoundTrips) {d : Database}
    (hserial : 1 ≤ d.nextval) {as : List (UserEventsAct ι n π)}
    (hrun : run (step env h c reqs) (init d) as = some s)
    (hids : Along (step env h c reqs) FreshID (init d) as) (hrange : s.users.nextval ≤ 2 ^ 31) :
    (∀ p ∈ s.outbox.published, ∃ i user e, s.pc i = .announced user e ∧ IsFor h user e ∧
      e.SameAs p) ∧
    (∀ p ∈ s.outbox.published, ∀ q ∈ s.outbox.published, p.key = q.key ↔ p.id = q.id) ∧
    ∀ i, ∀ user ∈ (s.pc i).account, s.Told user ↔ ∃ e, s.pc i = .announced user e := by
  have hs : Kept h c d.nextval s := hids.invariant (step_kept hc) (kept_init d) hrun
  refine ⟨fun p hp => ?_, fun p hp q hq => hs.key_eq_iff hserial hrange hp hq,
    fun i user huser => hs.told_iff hserial hrange huser⟩
  obtain ⟨a, ha, hsame⟩ := hs.sourced p hp
  obtain ⟨i, user, hi⟩ := hs.attributed a ha
  exact ⟨i, user, a, hi, (hs.announced i user a hi).2, hsame⟩

/-- Two requests; the process of the one dies between its two statements. The
other one's event is published twice, by a dispatcher that dies after the first
time and the one that is started in its place. -/
theorem user_created_accounted_died :
    let h : UserHandler := ⟨10, true, fun _ _ _ => []⟩
    let reqs : Bool → Request CreateUserRequest := fun b => ⟨"POST", "application/json",
      .ok (if b then ⟨"Ada", "ada", "secret"⟩ else ⟨"Bob", "bob", "word"⟩)⟩
    let ada : User := ⟨1, "Ada", "ada", "hash of secret"⟩
    let bob : User := ⟨2, "Bob", "bob", "hash of word"⟩
    let e := (h.createdEvent 0 bob).withDefaults "e1" 0
    let row : Row Encoding.Document :=
      .ofEvent e (.object (Encoding.marshal EventCodec.fields e))
    let poll : List (UserEventsAct Bool 1 Encoding.Document) :=
      [.dispatcher (.loopHead 0), .dispatcher (.dequeueBegin 0 0 (some row) none),
        .dispatcher (.dequeueEnd 0 0 none), .dispatcher (.publish 0 true)]
    let as := [.create true none, .die true, .create false none, .enqueue false 0 "e1" 0 none] ++
      poll ++ [.dispatcher (.crash 0), .dispatcher (.restart 0)] ++ poll
    ∃ s, run (step (Sample.env []) h EventCodec.json reqs) (init .empty) as = some s ∧
      s.outbox.published.map Event.id = ["e1", "e1"] ∧ ¬ s.Told ada ∧ s.Told bob := by
  intro h reqs ada bob e row poll as
  have hends : ∃ s, run (step (Sample.env []) h EventCodec.json reqs) (init .empty) as = some s ∧
      s.outbox.published.map Event.id = ["e1", "e1"] ∧ s.pc true = .died ada ∧
      s.pc false = .announced bob e ∧ s.users.nextval = 3 :=
    exists_run_of_any (by decide +kernel)
  obtain ⟨s, hrun, hpublished, hada, hbob, hnextval⟩ := hends
  have hids : Along (step (Sample.env []) h EventCodec.json reqs) FreshID (init .empty) as := by
    decide +kernel
  have htold := (user_created_accounted EventCodec.roundTrips_json (by decide) hrun hids
    (by omega)).2.2
  refine ⟨s, hrun, hpublished, ?_, ?_⟩
  · rw [htold true ada (by rw [hada]; rfl), hada]
    rintro ⟨_, ⟨⟩⟩
  · rw [htold false bob (by rw [hbob]; rfl), hbob]
    exact ⟨e, rfl⟩

end Invariant

end GoRestApi.Process.UserEvents
