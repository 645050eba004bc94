/-
GoRestApi.Store.PostgresRefinement — how far the Postgres store can be told
from the in-memory store over a whole run.

The database numbers its rows by a sequence, and a number that a failed
`INSERT` has taken is lost; the in-memory store counts the users it has
created. So the two give out different ids, and a client sees the same of both
only up to the names of its accounts. `Twin` runs the two side by side: each
call is made on the in-memory store with the ids that it gave out, and on the
database with the ids that the database gave out for the same users. An id
that nobody has been given is `0` in the database.

`stores_agree` says that a call then has the same result, unless it is an
`Update` that the two decide differently, which is known exactly
(`SeenByScan`).

The comparison goes by way of a third store: the in-memory one under the ids
of the database. The scans commute with the renaming, since none of them
computes with ids, and under the same ids `answer_bridge` compares it with the
table.
-/
import GoRestApi.Store.PostgresDatabase
import Mathlib.Data.List.GetD

namespace GoRestApi.Store

open Lts MemoryUserStore

/-! ## Other names for the users -/

def User.rename (f : Int → Int) (u : User) : User := { u with id := f u.id }

def StoreCall.rename (f : Int → Int) : StoreCall → StoreCall
  | .getByID id => .getByID (f id)
  | .update id input => .update (f id) input
  | .updatePassword id hash => .updatePassword (f id) hash
  | .delete id => .delete (f id)
  | c => c

def StoreValue.rename (f : Int → Int) : StoreValue → StoreValue
  | .users us => .users (us.map (User.rename f))
  | .user u => .user (u.rename f)
  | .done => .done

/-- The users under their other names, and the next name. -/
def MemoryUserStore.rename (s : MemoryUserStore) (f : Int → Int) (next : Int) : MemoryUserStore :=
  ⟨s.users.map (User.rename f), next⟩

/-- Nobody else has the other name of `id`. -/
def Separates (f : Int → Int) (id : Int) (us : List User) : Prop :=
  ∀ u ∈ us, f u.id = f id → u.id = id

section Rename

variable {f : Int → Int} {id : Int} {us : List User} {s : MemoryUserStore}

theorem Separates.head {u : User} (h : Separates f id (u :: us)) : f u.id = f id ↔ u.id = id :=
  ⟨h u List.mem_cons_self, fun heq => by rw [heq]⟩

theorem Separates.tail {u : User} (h : Separates f id (u :: us)) : Separates f id us :=
  fun v hv => h v (List.mem_cons_of_mem u hv)

theorem getByIDScan_rename (h : Separates f id us) :
    getByIDScan (f id) (us.map (User.rename f)) = (getByIDScan id us).map (User.rename f) := by
  induction us with
  | nil => rfl
  | cons u us ih =>
    simp only [List.map_cons, getByIDScan, User.rename, h.head]
    split
    · rfl
    · exact ih h.tail

theorem getByEmailScan_rename (email : String) (us : List User) :
    getByEmailScan email (us.map (User.rename f)) =
      (getByEmailScan email us).map (User.rename f) := by
  induction us with
  | nil => rfl
  | cons u us ih =>
    simp only [List.map_cons, getByEmailScan, User.rename]
    split
    · rfl
    · exact ih

theorem updateScan_rename (h : Separates f id us) (input : UpdateUserRequest) :
    updateScan (f id) input (us.map (User.rename f)) =
      (updateScan id input us).map fun r => (r.1.map (User.rename f), r.2.rename f) := by
  induction us with
  | nil => rfl
  | cons u us ih =>
    simp only [List.map_cons, updateScan, User.rename, ne_eq, h.head]
    split
    · rfl
    · split
      · rfl
      · have ih := ih h.tail
        simp only [User.rename] at ih
        rw [ih]
        cases updateScan id input us <;> rfl

/-- The two scans that return only the list. -/
theorem scan_rename (scan scan' : List User → Except StoreError (List User))
    (put : User → List User) (hput : ∀ u, put (u.rename f) = (put u).map (User.rename f))
    (hnil : scan [] = .error .userNotFound) (hnil' : scan' [] = .error .userNotFound)
    (hcons : ∀ u us, scan (u :: us) =
      if u.id = id then .ok (put u ++ us) else (scan us).map (u :: ·))
    (hcons' : ∀ u us, scan' (u :: us) =
      if u.id = f id then .ok (put u ++ us) else (scan' us).map (u :: ·))
    (h : Separates f id us) :
    scan' (us.map (User.rename f)) = (scan us).map fun us' => us'.map (User.rename f) := by
  induction us with
  | nil => rw [List.map_nil, hnil, hnil']; rfl
  | cons u us ih =>
    have hid : (u.rename f).id = f id ↔ u.id = id := h.head
    simp only [List.map_cons, hcons, hcons', hid]
    split
    · simp [hput, Except.map]
    · rw [ih h.tail]
      cases scan us <;> rfl

theorem usersBehind_rename (h : Separates f id us) :
    usersBehind (f id) (us.map (User.rename f)) = (usersBehind id us).map (User.rename f) := by
  induction us with
  | nil => rfl
  | cons u us ih =>
    have hid : (u.rename f).id = f id ↔ u.id = id := h.head
    have ih := ih h.tail
    simp only [usersBehind] at ih ⊢
    by_cases hu : u.id = id
    · simp [hid, hu]
    · simpa [hid, hu] using ih

theorem seenByScan_rename (h : Separates f id us) (input : UpdateUserRequest) :
    SeenByScan (us.map (User.rename f)) (f id) input ↔ SeenByScan us id input := by
  have hid : ∀ u ∈ us, f u.id = f id ↔ u.id = id := fun u hu => ⟨h u hu, fun heq => by rw [heq]⟩
  have habsent : (∀ u ∈ us, f u.id ≠ f id) ↔ ∀ u ∈ us, u.id ≠ id :=
    forall₂_congr fun u hu => not_congr (hid u hu)
  simp only [SeenByScan, usersBehind_rename h, List.forall_mem_map, User.rename, habsent]

theorem StoreCall.seen_rename (h : ∀ id, Separates f id us) (c : StoreCall) :
    (c.rename f).Seen (us.map (User.rename f)) ↔ c.Seen us := by
  cases c with
  | update id input => exact seenByScan_rename (h id) input
  | _ => exact Iff.rfl

/-- **No method computes with ids.** Under other names a call returns the same
under those names. `Create` needs that the next name is the name of the next
id. -/
theorem answer_rename (h : ∀ id, Separates f id s.users) (next : Int) (c : StoreCall)
    (hnext : ∀ input, c = .create input → f s.nextID = next) :
    ((s.rename f next).answer (c.rename f)).2 = (s.answer c).2.map (StoreValue.rename f) ∧
      ((s.rename f next).answer (c.rename f)).1.users =
        (s.answer c).1.users.map (User.rename f) := by
  cases c with
  | list => exact ⟨rfl, rfl⟩
  | getByID id =>
    refine ⟨?_, rfl⟩
    show (getByIDScan (f id) (s.users.map (User.rename f))).map StoreValue.user = _
    rw [getByIDScan_rename (h id)]
    show _ = ((getByIDScan id s.users).map StoreValue.user).map _
    cases getByIDScan id s.users <;> rfl
  | getByEmail email =>
    refine ⟨?_, rfl⟩
    show (getByEmailScan email (s.users.map (User.rename f))).map StoreValue.user = _
    rw [getByEmailScan_rename]
    show _ = ((getByEmailScan email s.users).map StoreValue.user).map _
    cases getByEmailScan email s.users <;> rfl
  | create input =>
    have hany : (s.users.map (User.rename f)).any (fun u => u.email = input.email) =
        s.users.any fun u => u.email = input.email := by
      rw [List.any_map]
      rfl
    have hid := hnext input rfl
    simp only [StoreCall.rename, MemoryUserStore.answer, MemoryUserStore.rename,
      MemoryUserStore.create, hany]
    split
    · exact ⟨rfl, rfl⟩
    · simp [Except.map, StoreValue.rename, User.rename, hid]
  | update id input =>
    simp only [StoreCall.rename, MemoryUserStore.answer, MemoryUserStore.rename,
      MemoryUserStore.update, updateScan_rename (h id) input]
    cases updateScan id input s.users <;> exact ⟨rfl, rfl⟩
  | updatePassword id hash =>
    have hscan : updatePasswordScan (f id) hash (s.users.map (User.rename f)) = _ :=
      scan_rename (updatePasswordScan id hash) _ (fun u => [UsersTable.setPassword hash u])
        (fun _ => rfl) rfl rfl (fun _ _ => rfl) (fun _ _ => rfl) (h id)
    simp only [StoreCall.rename, MemoryUserStore.answer, MemoryUserStore.rename,
      MemoryUserStore.updatePassword, hscan]
    cases updatePasswordScan id hash s.users <;> exact ⟨rfl, rfl⟩
  | delete id =>
    have hscan : deleteScan (f id) (s.users.map (User.rename f)) = _ :=
      scan_rename (deleteScan id) _ (fun _ => []) (fun _ => rfl) rfl rfl (fun _ _ => rfl)
        (fun _ _ => rfl) (h id)
    simp only [StoreCall.rename, MemoryUserStore.answer, MemoryUserStore.rename,
      MemoryUserStore.delete, hscan]
    cases deleteScan id s.users <;> exact ⟨rfl, rfl⟩

end Rename

/-! ## What a call does to the ids -/

/-- A call that gives out no id leaves the ids that there are, or fewer. -/
theorem ids_sublist_of_nextID {s : MemoryUserStore} {op : Op}
    (h : (s.apply op).nextID = s.nextID) :
    ((s.apply op).users.map User.id).Sublist (s.users.map User.id) := by
  rcases ids_apply s op with ⟨hids, -⟩ | ⟨user, -, heq⟩
  · exact hids
  · rw [heq] at h
    exact absurd h (Int.ne_of_gt (Int.lt_succ _))

theorem ids_answer (s : MemoryUserStore) {c : StoreCall} (hc : ∀ input, c ≠ .create input) :
    (s.answer c).1.nextID = s.nextID ∧
      ((s.answer c).1.users.map User.id).Sublist (s.users.map User.id) := by
  cases c with
  | list => exact ⟨rfl, List.Sublist.refl _⟩
  | getByID id => exact ⟨rfl, List.Sublist.refl _⟩
  | getByEmail email => exact ⟨rfl, List.Sublist.refl _⟩
  | create input => exact absurd rfl (hc input)
  | update id input =>
    have hnext : (s.apply (.update id input)).nextID = s.nextID := by
      simp only [apply, update]
      split <;> rfl
    exact ⟨hnext, ids_sublist_of_nextID hnext⟩
  | updatePassword id hash =>
    have hnext : (s.apply (.updatePassword id hash)).nextID = s.nextID := by
      simp only [apply, updatePassword]
      split <;> rfl
    exact ⟨hnext, ids_sublist_of_nextID hnext⟩
  | delete id =>
    have hnext : (s.apply (.delete id)).nextID = s.nextID := by
      simp only [apply, delete]
      split <;> rfl
    exact ⟨hnext, ids_sublist_of_nextID hnext⟩

theorem Database.nextval_answer (d : Database) {c : StoreCall} (hc : ∀ input, c ≠ .create input) :
    (d.answer none c).1.nextval = d.nextval := by
  cases c with
  | create input => exact absurd rfl (hc input)
  | _ => rfl

theorem Database.nextval_create (d : Database) (input : CreateUserRequest) :
    (d.answer none (.create input)).1.nextval = d.nextval + 1 := by
  by_cases hmem : input.email ∈ d.users.rows.map User.email
  · simp [Database.answer, PostgresUserStore.create, Database.insert, hmem, Database.skip]
  · simp [Database.answer, PostgresUserStore.create, Database.insert, hmem]

theorem StoreCall.rename_ne_create {f : Int → Int} {c : StoreCall}
    (hc : ∀ input, c ≠ .create input) : ∀ input, c.rename f ≠ .create input := by
  intro input heq
  cases c with
  | create input' => exact hc input' rfl
  | _ => cases heq

/-! ## Side by side -/

/-- The id in the database of the user that the in-memory store has given
`id`: `ids` are those that the database gave out, in the order of creation. -/
def named (ids : List Int) (id : Int) : Int :=
  if 1 ≤ id then ids.getD (id - 1).toNat 0 else 0

structure Twin where
  mem : MemoryUserStore
  db : Database
  ids : List Int

inductive TwinAct where
  /-- A call, on both. -/
  | call (c : StoreCall)
  /-- A call that fails in the database, and is not made on the other. -/
  | failed (c : StoreCall) (e : SqlError)
  /-- A number of the sequence is lost. -/
  | skip
  deriving DecidableEq, Repr

namespace Twin

def init : Twin := ⟨newMemoryUserStore, Database.empty, []⟩

/-- The id that a call has given out. -/
def given : StoreCall → Except PostgresError StoreValue → List Int
  | .create _, .ok (.user u) => [u.id]
  | _, _ => []

def step (t : Twin) : TwinAct → Option Twin
  | .call c =>
    let answered := t.db.answer none (c.rename (named t.ids))
    some ⟨(t.mem.answer c).1, answered.1, t.ids ++ given c answered.2⟩
  | .failed c e => some { t with db := (t.db.answer (some e) (c.rename (named t.ids))).1 }
  | .skip => some { t with db := t.db.skip }

/-- The calls that both decide alike. -/
def Seen (t : Twin) : TwinAct → Prop
  | .call c => c.Seen t.mem.users
  | _ => True

/-- The ids of the one store are the places in the list of those of the
other, and under the ids of the database both have the same users. -/
structure Kept (t : Twin) : Prop where
  ordered : Ordered t.mem
  positive : ∀ u ∈ t.mem.users, 1 ≤ u.id
  counted : t.mem.nextID = t.ids.length + 1
  increasing : t.ids.Pairwise (· < ·)
  range : ∀ id ∈ t.ids, 1 ≤ id ∧ id < t.db.nextval
  nextval_pos : 1 ≤ t.db.nextval
  rows : t.db.users.rows.Perm (t.mem.users.map (User.rename (named t.ids)))

section Names

variable {ids : List Int} {i j : Int}

theorem named_eq (hi : 1 ≤ i) (hlen : i ≤ ids.length) :
    ∃ h : (i - 1).toNat < ids.length, named ids i = ids[(i - 1).toNat] := by
  have h : (i - 1).toNat < ids.length := by omega
  refine ⟨h, ?_⟩
  rw [named, if_pos hi, List.getD_eq_getElem _ _ h]

theorem named_of_not_given (h : ¬ (1 ≤ i ∧ i ≤ ids.length)) : named ids i = 0 := by
  unfold named
  split
  · exact List.getD_eq_default _ _ (by omega)
  · rfl

theorem named_mem (hi : 1 ≤ i) (hlen : i ≤ ids.length) : named ids i ∈ ids := by
  obtain ⟨h, heq⟩ := named_eq hi hlen
  exact heq ▸ List.getElem_mem h

theorem named_lt (hinc : ids.Pairwise (· < ·)) (hi : 1 ≤ i) (hij : i < j)
    (hlen : j ≤ ids.length) : named ids i < named ids j := by
  obtain ⟨hi', hieq⟩ := named_eq hi (by omega : i ≤ ids.length)
  obtain ⟨hj', hjeq⟩ := named_eq (by omega : 1 ≤ j) hlen
  rw [hieq, hjeq]
  exact List.pairwise_iff_getElem.mp hinc _ _ hi' hj' (by omega)

/-- A name that was given stays. -/
theorem named_append (more : List Int) (hi : 1 ≤ i) (hlen : i ≤ ids.length) :
    named (ids ++ more) i = named ids i := by
  simp only [named, if_pos hi]
  exact List.getD_append _ _ _ _ (by omega)

theorem named_last (id : Int) : named (ids ++ [id]) (ids.length + 1) = id := by
  have hlen : ((ids.length : Int) + 1) ≤ (ids ++ [id]).length := by simp
  obtain ⟨h, heq⟩ := named_eq (by omega) hlen
  rw [heq]
  simp

end Names

namespace Kept

variable {t t' : Twin}

theorem given_of_mem (h : Kept t) {u : User} (hu : u ∈ t.mem.users) :
    1 ≤ u.id ∧ u.id ≤ t.ids.length := by
  have hlt := (ordered_iff.mp h.ordered).2 u hu
  have hcounted := h.counted
  exact ⟨h.positive u hu, by omega⟩

/-- An id that was not given out is `0` there, which is nobody's. -/
theorem separates (h : Kept t) (id : Int) : Separates (named t.ids) id t.mem.users := by
  intro u hu heq
  obtain ⟨hpos, hlen⟩ := h.given_of_mem hu
  by_cases hgiven : 1 ≤ id ∧ id ≤ t.ids.length
  · rcases Int.lt_trichotomy u.id id with hlt | heq' | hgt
    · exact absurd heq (Int.ne_of_lt (named_lt h.increasing hpos hlt hgiven.2))
    · exact heq'
    · exact absurd heq.symm (Int.ne_of_lt (named_lt h.increasing hgiven.1 hgt hlen))
  · have hrange := h.range _ (named_mem hpos hlen)
    rw [heq, named_of_not_given hgiven] at hrange
    omega

/-- The in-memory store under the ids of the database keeps its order. -/
theorem ordered_rename (h : Kept t) :
    Ordered (t.mem.rename (named t.ids) t.db.nextval) := by
  rw [ordered_iff]
  constructor
  · show ((t.mem.users.map (User.rename (named t.ids))).map User.id).Pairwise (· < ·)
    have hold := List.pairwise_map.mp (ordered_iff.mp h.ordered).1
    rw [List.map_map, List.pairwise_map]
    refine hold.imp_of_mem fun {u v} hu hv huv => ?_
    exact named_lt h.increasing (h.given_of_mem hu).1 huv (h.given_of_mem hv).2
  · intro u hu
    obtain ⟨v, hv, rfl⟩ := List.mem_map.mp hu
    exact (h.range _ (named_mem (h.given_of_mem hv).1 (h.given_of_mem hv).2)).2

/-- The users that there are keep their names. -/
theorem rename_append (h : Kept t) (more : List Int) :
    t.mem.users.map (User.rename (named (t.ids ++ more))) =
      t.mem.users.map (User.rename (named t.ids)) := by
  refine List.map_congr_left fun u hu => ?_
  obtain ⟨hpos, hlen⟩ := h.given_of_mem hu
  rw [User.rename, User.rename, named_append more hpos hlen]

/-- The next number of the sequence is taken and the next id given, to nobody
yet. -/
theorem reserve (h : Kept t) :
    Kept ⟨⟨t.mem.users, t.mem.nextID + 1⟩, t.db.skip, t.ids ++ [t.db.nextval]⟩ := by
  have hcounted := h.counted
  have hpos : 1 ≤ t.db.nextval := h.nextval_pos
  refine ⟨?_, h.positive, ?_, ?_, ?_, Int.le_trans hpos (Int.le_of_lt (Int.lt_succ _)), ?_⟩
  · rw [ordered_iff]
    obtain ⟨hinc, hlt⟩ := ordered_iff.mp h.ordered
    exact ⟨hinc, fun u hu => Int.lt_trans (hlt u hu) (Int.lt_succ _)⟩
  · simp only [List.length_append, List.length_singleton]
    omega
  · rw [List.pairwise_append]
    refine ⟨h.increasing, List.pairwise_singleton .., fun id hid next hnext => ?_⟩
    rw [List.mem_singleton.mp hnext]
    exact (h.range id hid).2
  · intro id hid
    show 1 ≤ id ∧ id < t.db.nextval + 1
    rcases List.mem_append.mp hid with hid | hid
    · have hrange := h.range id hid
      omega
    · rw [List.mem_singleton.mp hid]
      omega
  · show t.db.users.rows.Perm (t.mem.users.map (User.rename (named (t.ids ++ [t.db.nextval]))))
    rw [h.rename_append]
    exact h.rows

/-- The next id will be the next number. -/
theorem name_next (h : Kept t) : named (t.ids ++ [t.db.nextval]) t.mem.nextID = t.db.nextval := by
  rw [h.counted, named_last]

theorem skip (h : Kept t) : Kept { t with db := t.db.skip } := by
  refine ⟨h.ordered, h.positive, h.counted, h.increasing, fun id hid => ?_,
    Int.le_trans h.nextval_pos (Int.le_of_lt (Int.lt_succ _)), h.rows⟩
  exact ⟨(h.range id hid).1, Int.lt_trans (h.range id hid).2 (Int.lt_succ _)⟩

/-- A call other than `Create` gives out no id and no number. -/
theorem other (h : Kept t) {c : StoreCall} (hc : ∀ input, c ≠ .create input) :
    (c.Seen t.mem.users ↔ (t.db.answer none (c.rename (named t.ids))).2 =
        ((t.mem.answer c).2.map (StoreValue.rename (named t.ids))).mapError PostgresError.store) ∧
      (c.Seen t.mem.users →
        Kept ⟨(t.mem.answer c).1, (t.db.answer none (c.rename (named t.ids))).1, t.ids⟩) := by
  obtain ⟨hresult, husers⟩ := answer_rename h.separates t.db.nextval c
    fun input heq => absurd heq (hc input)
  obtain ⟨hsame, hrows⟩ :=
    answer_bridge h.rows h.ordered_rename rfl (c.rename (named t.ids))
  have hseen : (c.rename (named t.ids)).Seen _ ↔ _ := StoreCall.seen_rename h.separates c
  rw [hresult] at hsame
  refine ⟨hseen.symm.trans hsame, fun hs => ?_⟩
  obtain ⟨hnext, hids⟩ := ids_answer t.mem hc
  have hnextval := t.db.nextval_answer (StoreCall.rename_ne_create (f := named t.ids) hc)
  refine ⟨?ordered, ?positive, hnext.trans h.counted, h.increasing, ?range, ?pos, ?rows⟩
  case ordered =>
    show ((t.mem.answer c).1.users.map User.id ++ [(t.mem.answer c).1.nextID]).Pairwise (· < ·)
    rw [hnext]
    exact h.ordered.sublist (hids.append_right _)
  case positive =>
    intro u hu
    obtain ⟨v, hv, hvu⟩ := List.mem_map.mp (hids.subset (List.mem_map_of_mem hu))
    exact hvu ▸ h.positive v hv
  case range => exact hnextval.symm ▸ h.range
  case pos => exact hnextval.symm ▸ h.nextval_pos
  case rows =>
    show (t.db.answer none (c.rename (named t.ids))).1.users.rows.Perm _
    rw [← husers]
    exact hrows (hseen.mpr hs)

/-- `Create` under the names that there will be if it succeeds. -/
theorem create_answers (h : Kept t) (input : CreateUserRequest) :
    (t.db.answer none (.create input)).2 = ((t.mem.answer (.create input)).2.map
        (StoreValue.rename (named (t.ids ++ [t.db.nextval])))).mapError PostgresError.store ∧
      (t.db.answer none (.create input)).1.users.rows.Perm
        ((t.mem.answer (.create input)).1.users.map
          (User.rename (named (t.ids ++ [t.db.nextval])))) := by
  have hordered : Ordered (t.mem.rename (named (t.ids ++ [t.db.nextval])) t.db.nextval) := by
    rw [MemoryUserStore.rename, h.rename_append]
    exact h.ordered_rename
  have hrows : t.db.users.rows.Perm
      (t.mem.rename (named (t.ids ++ [t.db.nextval])) t.db.nextval).users := h.reserve.rows
  obtain ⟨hresult, husers⟩ := answer_rename (s := t.mem) h.reserve.separates t.db.nextval
    (.create input) fun _ _ => h.name_next
  obtain ⟨hsame, hperm⟩ := answer_bridge hrows hordered rfl (.create input)
  refine ⟨(hsame.mp trivial).trans (congrArg _ hresult), ?_⟩
  rw [← husers]
  exact hperm trivial

/-- A `Create` that fails takes a number all the same. -/
theorem create_failed (h : Kept t) (input : CreateUserRequest)
    (hperm : (t.db.answer none (.create input)).1.users.rows.Perm
      (t.mem.users.map (User.rename (named t.ids)))) :
    Kept ⟨t.mem, (t.db.answer none (.create input)).1, t.ids⟩ := by
  have hnextval := t.db.nextval_create input
  refine ⟨h.ordered, h.positive, h.counted, h.increasing, fun id hid => ?_, ?_, hperm⟩
  · have hrange := h.range id hid
    show 1 ≤ id ∧ id < (t.db.answer none (.create input)).1.nextval
    omega
  · show 1 ≤ (t.db.answer none (.create input)).1.nextval
    have hpos := h.nextval_pos
    omega

/-- A new user has the number that was taken. -/
theorem create_succeeded (h : Kept t) {input : CreateUserRequest} {mem' : MemoryUserStore}
    {user : User} (hcreate : t.mem.create input = (mem', .ok user))
    (hperm : (t.db.answer none (.create input)).1.users.rows.Perm
      (mem'.users.map (User.rename (named (t.ids ++ [t.db.nextval]))))) :
    Kept ⟨mem', (t.db.answer none (.create input)).1, t.ids ++ [t.db.nextval]⟩ := by
  obtain ⟨huser, hmem'⟩ := create_ok hcreate
  have hnextval := t.db.nextval_create input
  refine ⟨?_, fun u hu => ?_, ?_, h.reserve.increasing, ?_, ?_, hperm⟩
  · have happly : t.mem.apply (.create input) = mem' := by simp only [apply, hcreate]
    exact happly ▸ h.ordered.apply _
  · have hu : u ∈ t.mem.users ++ [user] := by simpa only [hmem'] using hu
    rcases List.mem_append.mp hu with hu | hu
    · exact h.positive u hu
    · rw [List.mem_singleton.mp hu, huser]
      show 1 ≤ t.mem.nextID
      have hcounted := h.counted
      omega
  · show mem'.nextID = _
    rw [hmem']
    exact h.reserve.counted
  · show ∀ id ∈ _, 1 ≤ id ∧ id < (t.db.answer none (.create input)).1.nextval
    rw [hnextval]
    exact h.reserve.range
  · show 1 ≤ (t.db.answer none (.create input)).1.nextval
    rw [hnextval]
    exact h.reserve.nextval_pos

/-- `Create` takes a number of the sequence, and gives it to the new user if
there is one. -/
theorem create (h : Kept t) (input : CreateUserRequest)
    (hstep : t.step (.call (.create input)) = some t') :
    (t.db.answer none (.create input)).2 =
        ((t.mem.answer (.create input)).2.map (StoreValue.rename (named t'.ids))).mapError
          PostgresError.store ∧ Kept t' := by
  obtain ⟨hanswer, hperm⟩ := h.create_answers input
  simp only [step, StoreCall.rename, Option.some.injEq] at hstep
  cases hcreate : t.mem.create input with
  | mk mem' r =>
    have hmem : t.mem.answer (.create input) = (mem', r.map .user) := by
      simp only [MemoryUserStore.answer, hcreate]
    rw [hmem] at hanswer hperm hstep ⊢
    cases r with
    | error e =>
      rw [create_error hcreate] at hperm hstep
      have hids : t.ids ++ given (.create input) (t.db.answer none (.create input)).2 = t.ids := by
        rw [hanswer]
        exact List.append_nil _
      rw [hids] at hstep
      subst hstep
      exact ⟨hanswer, h.create_failed input (h.rename_append _ ▸ hperm)⟩
    | ok user =>
      have hid : (user.rename (named (t.ids ++ [t.db.nextval]))).id = t.db.nextval := by
        rw [(create_ok hcreate).1]
        exact h.name_next
      have hids : t.ids ++ given (.create input) (t.db.answer none (.create input)).2 =
          t.ids ++ [t.db.nextval] := by
        rw [hanswer]
        exact congrArg (fun id => t.ids ++ [id]) hid
      rw [hids] at hstep
      subst hstep
      exact ⟨hanswer, h.create_succeeded hcreate hperm⟩

end Kept

theorem kept_init : Kept init := by
  refine ⟨ordered_new, ?_, rfl, List.Pairwise.nil, ?_, Int.le_refl 1, List.Perm.nil⟩
  · intro u hu
    cases hu
  · intro id hid
    cases hid

variable {t t' : Twin}

theorem given_of_ne_create {c : StoreCall} (hc : ∀ input, c ≠ .create input)
    (r : Except PostgresError StoreValue) : given c r = [] := by
  cases c with
  | create input => exact absurd rfl (hc input)
  | _ => rfl

/-- One call from a kept state: the results, and what is kept. -/
theorem Kept.call (h : Kept t) {c : StoreCall} (hstep : t.step (.call c) = some t') :
    (c.Seen t.mem.users ↔ (t.db.answer none (c.rename (named t.ids))).2 =
        ((t.mem.answer c).2.map (StoreValue.rename (named t'.ids))).mapError
          PostgresError.store) ∧
      (c.Seen t.mem.users → Kept t') := by
  by_cases hc : ∃ input, c = .create input
  · obtain ⟨input, rfl⟩ := hc
    obtain ⟨hresult, hkept⟩ := h.create input hstep
    exact ⟨iff_of_true trivial hresult, fun _ => hkept⟩
  · push Not at hc
    have hsame := h.other hc
    simp only [step, given_of_ne_create hc, List.append_nil, Option.some.injEq] at hstep
    subst hstep
    exact hsame

theorem Kept.step {a : TwinAct} (h : Kept t) (hseen : Seen t a) (hstep : t.step a = some t') :
    Kept t' := by
  cases a with
  | call c => exact (h.call hstep).2 hseen
  | failed c e =>
    simp only [Twin.step, (t.db.answer_failed e _).1, Option.some.injEq] at hstep
    exact hstep ▸ h
  | skip =>
    simp only [Twin.step, Option.some.injEq] at hstep
    exact hstep ▸ h.skip

end Twin

end GoRestApi.Store
