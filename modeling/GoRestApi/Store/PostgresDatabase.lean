/-
GoRestApi.Store.PostgresDatabase — the rest of
`internal/store/postgres_user_store.go`, over the table of `PostgresUserStore`
and the sequence of its `SERIAL` column.

Both stores implement `UserStore`; `answer` is a call of either. The rows of a
table are a list of users with distinct ids and emails up to their order, so
each statement is compared with the scan that does its work in the in-memory
store (the bridge lemmas), and `answer_bridge` puts them together: on the same
users the two return the same and leave the same users, except for an `Update`
that the scan decides otherwise.

Left out: the two timestamps of a user, which only the database fills in; a
statement that was committed although its reply was lost; and a sequence at
the end of its column's range.
-/
import GoRestApi.Store.PostgresUserStore
import Mathlib.Data.List.Sort

namespace GoRestApi.Store

open MemoryUserStore

/-! ## Statements -/

namespace UsersTable

/-- `SELECT … FROM users ORDER BY id`. -/
def selectAll (t : UsersTable) : List User := t.rows.mergeSort fun u v => decide (u.id ≤ v.id)

/-- `SELECT … FROM users WHERE id = $1`. -/
def selectWhereID (t : UsersTable) (id : Int) : List User := t.rows.filter fun u => u.id = id

/-- `SELECT … FROM users WHERE email = $1`. -/
def selectWhereEmail (t : UsersTable) (email : String) : List User :=
  t.rows.filter fun u => u.email = email

/-- `SET password_hash = $1`. -/
def setPassword (hash : String) (u : User) : User := { u with passwordHash := hash }

theorem fields_setPassword (id : Int) (hash : String) (us : List User) :
    (mapUser id (setPassword hash) us).map User.id = us.map User.id ∧
      (mapUser id (setPassword hash) us).map User.email = us.map User.email := by
  simp only [mapUser, List.map_map]
  constructor <;>
  · refine List.map_congr_left fun u _ => ?_
    simp only [Function.comp_apply]
    split <;> rfl

/-- `UPDATE users SET password_hash = $1 WHERE id = $2`, with `RowsAffected`. -/
def updatePasswordWhereID (t : UsersTable) (id : Int) (hash : String) : UsersTable × Nat :=
  (⟨mapUser id (setPassword hash) t.rows,
      by rw [(fields_setPassword id hash t.rows).1]; exact t.primaryKey,
      by rw [(fields_setPassword id hash t.rows).2]; exact t.emailUnique⟩,
    (t.selectWhereID id).length)

/-- `DELETE FROM users WHERE id = $1`, with `RowsAffected`. -/
def deleteWhereID (t : UsersTable) (id : Int) : UsersTable × Nat :=
  (⟨t.rows.filter fun u => u.id ≠ id, t.primaryKey.sublist (List.filter_sublist.map _),
      t.emailUnique.sublist (List.filter_sublist.map _)⟩,
    (t.selectWhereID id).length)

end UsersTable

/-- The table with the sequence of its `SERIAL` column. -/
structure Database where
  users : UsersTable
  nextval : Int
  below : ∀ u ∈ users.rows, u.id < nextval

namespace Database

def empty : Database := ⟨⟨[], List.nodup_nil, List.nodup_nil⟩, 1, by simp⟩

/-- A number of the sequence that does not become a row. -/
def skip (d : Database) : Database :=
  { d with
    nextval := d.nextval + 1
    below := fun u hu => Int.lt_trans (d.below u hu) (Int.lt_succ _) }

/-- `INSERT INTO users (name, email, password_hash) VALUES … RETURNING …`. The
number is taken before the index is checked. -/
def insert (d : Database) (input : CreateUserRequest) : Database × Except SqlError User :=
  let user : User := ⟨d.nextval, input.name, input.email, input.password⟩
  if h : input.email ∈ d.users.rows.map User.email then (d.skip, .error (.pg "23505"))
  else
    ({ users :=
        { rows := d.users.rows ++ [user]
          primaryKey := by
            rw [List.map_append, List.map_singleton]
            refine List.nodup_append.mpr ⟨d.users.primaryKey, List.nodup_singleton _, ?_⟩
            intro id hid id' hid' heq
            obtain ⟨u, hu, rfl⟩ := List.mem_map.mp hid
            rw [List.mem_singleton.mp hid'] at heq
            exact absurd heq (Int.ne_of_lt (d.below u hu))
          emailUnique := by
            rw [List.map_append, List.map_singleton]
            refine List.nodup_append.mpr ⟨d.users.emailUnique, List.nodup_singleton _, ?_⟩
            intro email hemail email' hemail' heq
            rw [heq, List.mem_singleton.mp hemail'] at hemail
            exact h hemail }
       nextval := d.nextval + 1
       below := by
        intro u hu
        rcases List.mem_append.mp hu with hu | hu
        · exact Int.lt_trans (d.below u hu) (Int.lt_succ _)
        · rw [List.mem_singleton.mp hu]
          exact Int.lt_succ _ },
      .ok user)

end Database

/-! ## The methods

`sql` is a failure of the statement that is not its own, as for `Update`. -/

namespace PostgresUserStore

/-- `Scan` of `QueryRow` reads the first row, and `sql.ErrNoRows` stands for
none. -/
def scanRow (rows : List User) : Except PostgresError User :=
  match rows with
  | user :: _ => .ok user
  | [] => .error (.store .userNotFound)

def list (d : Database) (sql : Option SqlError) : Except PostgresError (List User) :=
  sql.elim (.ok d.users.selectAll) fun e => .error (.sql e)

def getByID (d : Database) (sql : Option SqlError) (id : Int) : Except PostgresError User :=
  sql.elim (scanRow (d.users.selectWhereID id)) fun e => .error (.sql e)

def getByEmail (d : Database) (sql : Option SqlError) (email : String) :
    Except PostgresError User :=
  sql.elim (scanRow (d.users.selectWhereEmail email)) fun e => .error (.sql e)

def create (d : Database) (sql : Option SqlError) (input : CreateUserRequest) :
    Database × Except PostgresError User :=
  match sql.elim (d.insert input) fun e => (d, .error e) with
  | (d', .ok user) => (d', .ok user)
  | (d', .error e) =>
    (d', .error (if isUniqueViolation e then .store .emailAlreadyExists else .sql e))

/-- `ErrUserNotFound` for a statement that has met no row. -/
def exec (t : UsersTable) (sql : Option SqlError) (statement : UsersTable × Nat) :
    UsersTable × Except PostgresError Unit :=
  match sql with
  | some e => (t, .error (.sql e))
  | none => (statement.1, if statement.2 = 0 then .error (.store .userNotFound) else .ok ())

def updatePassword (t : UsersTable) (sql : Option SqlError) (id : Int) (passwordHash : String) :
    UsersTable × Except PostgresError Unit :=
  exec t sql (t.updatePasswordWhereID id passwordHash)

def delete (t : UsersTable) (sql : Option SqlError) (id : Int) :
    UsersTable × Except PostgresError Unit :=
  exec t sql (t.deleteWhereID id)

/-- `Update` changes the rows if it succeeds, and only then. -/
theorem rows_update (t : UsersTable) (sql : Option SqlError) (id : Int)
    (input : UpdateUserRequest) :
    (∃ user, (update t sql id input).2 = .ok user ∧
        (update t sql id input).1.rows = mapUser id (UsersTable.setRow input) t.rows) ∨
      ∃ e, (update t sql id input).2 = .error e ∧ (update t sql id input).1.rows = t.rows := by
  cases sql with
  | some e => exact .inr ⟨_, rfl, rfl⟩
  | none =>
    by_cases hex : ∃ target ∈ t.rows, target.id = id
    · obtain ⟨target, hmem, hid⟩ := hex
      obtain ⟨before, after, hrows⟩ := List.append_of_mem hmem
      by_cases hconf : ∃ u ∈ before ++ after, u.email = input.email
      · have hupdate := UsersTable.updateWhereID_of_conflict hrows hid hconf
        exact .inr ⟨.store .emailAlreadyExists, by simp [update, hupdate, isUniqueViolation],
          by simp [update, hupdate]⟩
      · push Not at hconf
        obtain ⟨t', hupdate, hrows'⟩ := UsersTable.updateWhereID_of_free hrows hid hconf
        refine .inl ⟨UsersTable.setRow input target, by simp [update, hupdate], ?_⟩
        rw [UsersTable.mapUser_rows hrows hid, ← hrows']
        simp [update, hupdate]
    · push Not at hex
      have hupdate : t.updateWhereID id input = _ := UsersTable.updateWhereID_of_absent hex
      exact .inr ⟨.store .userNotFound, by simp [update, hupdate], by simp [update, hupdate]⟩

theorem ids_update (t : UsersTable) (sql : Option SqlError) (id : Int)
    (input : UpdateUserRequest) :
    (update t sql id input).1.rows.map User.id = t.rows.map User.id := by
  rcases rows_update t sql id input with ⟨-, -, hrows⟩ | ⟨-, -, hrows⟩
  · rw [hrows, UsersTable.ids_mapUser]
  · rw [hrows]

theorem ids_updatePassword (t : UsersTable) (sql : Option SqlError) (id : Int) (hash : String) :
    (updatePassword t sql id hash).1.rows.map User.id = t.rows.map User.id := by
  cases sql with
  | some e => rfl
  | none => exact (UsersTable.fields_setPassword id hash t.rows).1

theorem ids_delete (t : UsersTable) (sql : Option SqlError) (id : Int) :
    (delete t sql id).1.rows.map User.id ⊆ t.rows.map User.id := by
  cases sql with
  | some e => exact List.Subset.refl _
  | none => exact (List.filter_sublist.map _).subset

end PostgresUserStore

/-- Rows without a new id. -/
def Database.setUsers (d : Database) (t : UsersTable)
    (hids : t.rows.map User.id ⊆ d.users.rows.map User.id) : Database where
  users := t
  nextval := d.nextval
  below := by
    intro u hu
    obtain ⟨v, hv, hid⟩ := List.mem_map.mp (hids (List.mem_map_of_mem hu))
    exact hid ▸ d.below v hv

/-! ## The interface -/

/-- A call of a method of `UserStore`. -/
inductive StoreCall where
  | list
  | getByID (id : Int)
  | getByEmail (email : String)
  | create (input : CreateUserRequest)
  | update (id : Int) (input : UpdateUserRequest)
  | updatePassword (id : Int) (passwordHash : String)
  | delete (id : Int)
  deriving DecidableEq, Repr

/-- What a call returns beside a nil error. -/
inductive StoreValue where
  | users (us : List User)
  | user (u : User)
  | done
  deriving DecidableEq, Repr

def MemoryUserStore.answer (s : MemoryUserStore) :
    StoreCall → MemoryUserStore × Except StoreError StoreValue
  | .list => (s, .ok (.users s.list))
  | .getByID id => (s, (s.getByID id).map .user)
  | .getByEmail email => (s, (s.getByEmail email).map .user)
  | .create input => ((s.create input).1, (s.create input).2.map .user)
  | .update id input => ((s.update id input).1, (s.update id input).2.map .user)
  | .updatePassword id hash =>
    ((s.updatePassword id hash).1, (s.updatePassword id hash).2.map fun _ => .done)
  | .delete id => ((s.delete id).1, (s.delete id).2.map fun _ => .done)

open PostgresUserStore in
def Database.answer (d : Database) (sql : Option SqlError) :
    StoreCall → Database × Except PostgresError StoreValue
  | .list => (d, (list d sql).map .users)
  | .getByID id => (d, (getByID d sql id).map .user)
  | .getByEmail email => (d, (getByEmail d sql email).map .user)
  | .create input => ((create d sql input).1, (create d sql input).2.map .user)
  | .update id input =>
    (d.setUsers (update d.users sql id input).1 (fun _ h => ids_update d.users sql id input ▸ h),
      (update d.users sql id input).2.map .user)
  | .updatePassword id hash =>
    (d.setUsers (updatePassword d.users sql id hash).1
        (fun _ h => ids_updatePassword d.users sql id hash ▸ h),
      (updatePassword d.users sql id hash).2.map fun _ => .done)
  | .delete id =>
    (d.setUsers (delete d.users sql id).1 (ids_delete d.users sql id),
      (delete d.users sql id).2.map fun _ => .done)

/-- A failure that is not the statement's own leaves the rows as they are, and
the call returns an error. -/
theorem Database.answer_failed (d : Database) (e : SqlError) (c : StoreCall) :
    (d.answer (some e) c).1 = d ∧ ∃ e', (d.answer (some e) c).2 = .error e' := by
  cases c <;> exact ⟨rfl, _, rfl⟩

/-! ## Statements and scans

The rows of a table are a list of users with distinct ids and emails, up to
their order. -/

section Bridge

variable {d : Database} {us : List User} {id : Int}

/-- One user at most passes the test, so it is the one of both orders. -/
theorem head?_filter_of_perm {l us : List User} {p : User → Bool} (hperm : l.Perm us)
    (hone : ∀ u ∈ us, ∀ v ∈ us, p u → p v → u = v) : (l.filter p).head? = us.find? p := by
  cases hfind : us.find? p with
  | none =>
    have hnone : ∀ u ∈ us, ¬ p u := List.find?_eq_none.mp hfind
    rw [List.filter_eq_nil_iff.mpr fun u hu => hnone u (hperm.mem_iff.mp hu), List.head?_nil]
  | some u =>
    have hu : u ∈ us := List.mem_of_find?_eq_some hfind
    have hpu : p u := List.find?_some hfind
    cases hfilter : l.filter p with
    | nil => exact absurd hpu (List.filter_eq_nil_iff.mp hfilter u (hperm.mem_iff.mpr hu))
    | cons v vs =>
      have hv : v ∈ l.filter p := hfilter ▸ List.mem_cons_self
      rw [List.mem_filter] at hv
      rw [List.head?_cons, hone v (hperm.mem_iff.mp hv.1) u hu hv.2 hpu]

theorem scanRow_eq (rows : List User) :
    PostgresUserStore.scanRow rows =
      rows.head?.elim (.error (.store .userNotFound)) Except.ok := by
  cases rows <;> rfl

/-- Distinct values of a field tell the users apart. -/
theorem eq_of_field {β : Type} {f : User → β} (hnodup : (us.map f).Nodup) :
    ∀ u ∈ us, ∀ v ∈ us, f u = f v → u = v :=
  fun _ hu _ hv heq => List.inj_on_of_nodup_map hnodup hu hv heq

theorem getByEmailScan_eq_find? (email : String) (us : List User) :
    getByEmailScan email us =
      (us.find? fun u => u.email = email).elim (.error .userNotFound) Except.ok := by
  induction us with
  | nil => rfl
  | cons u us ih =>
    by_cases hemail : u.email = email
    · simp [getByEmailScan, hemail]
    · simp [getByEmailScan, hemail, ih]

/-- A statement that selects by a field whose values are distinct. -/
theorem scanRow_bridge {β : Type} [DecidableEq β] {f : User → β} (hperm : d.users.rows.Perm us)
    (hnodup : (us.map f).Nodup) (x : β) :
    PostgresUserStore.scanRow (d.users.rows.filter fun u => f u = x) =
      (us.find? fun u => f u = x).elim (.error (.store .userNotFound)) Except.ok := by
  rw [scanRow_eq, head?_filter_of_perm hperm fun u hu v hv hpu hpv => ?_]
  simp only [decide_eq_true_eq] at hpu hpv
  exact eq_of_field hnodup u hu v hv (hpu.trans hpv.symm)

theorem getByID_bridge (hperm : d.users.rows.Perm us) :
    PostgresUserStore.getByID d none id =
      (getByIDScan id us).mapError PostgresError.store := by
  have hids : (us.map User.id).Nodup := (hperm.map User.id).nodup_iff.mp d.users.primaryKey
  rw [getByIDScan_eq_find?]
  refine (scanRow_bridge hperm hids id).trans ?_
  cases us.find? fun u => u.id = id <;> rfl

theorem getByEmail_bridge (hperm : d.users.rows.Perm us) (email : String) :
    PostgresUserStore.getByEmail d none email =
      (getByEmailScan email us).mapError PostgresError.store := by
  have hemails : (us.map User.email).Nodup :=
    (hperm.map User.email).nodup_iff.mp d.users.emailUnique
  rw [getByEmailScan_eq_find?]
  refine (scanRow_bridge hperm hemails email).trans ?_
  cases us.find? fun u => u.email = email <;> rfl

/-- `ORDER BY id` is the order of creation. -/
theorem selectAll_bridge (hperm : d.users.rows.Perm us)
    (hsorted : (us.map User.id).Pairwise (· < ·)) : d.users.selectAll = us := by
  have hids : (us.map User.id).Nodup := (hperm.map User.id).nodup_iff.mp d.users.primaryKey
  have hmerge : d.users.selectAll.Perm d.users.rows := List.mergeSort_perm ..
  have hleast : d.users.selectAll.Pairwise fun u v => u.id ≤ v.id := by
    have htrans : ∀ u v w : User, decide (u.id ≤ v.id) → decide (v.id ≤ w.id) →
        decide (u.id ≤ w.id) := fun u v w huv hvw => by
      simp only [decide_eq_true_eq] at *
      exact Int.le_trans huv hvw
    have htotal : ∀ u v : User, decide (u.id ≤ v.id) || decide (v.id ≤ u.id) := fun u v => by
      simpa using Int.le_total u.id v.id
    exact (List.pairwise_mergeSort htrans htotal d.users.rows).imp of_decide_eq_true
  have hcreated : us.Pairwise fun u v => u.id ≤ v.id :=
    (List.pairwise_map.mp hsorted).imp Int.le_of_lt
  refine List.Perm.eq_of_pairwise (fun u v hu hv huv hvu => ?_) hleast hcreated
    (hmerge.trans hperm)
  exact eq_of_field hids u ((hmerge.trans hperm).mem_iff.mp hu) v hv (Int.le_antisymm huv hvu)

/-- A scan that looks for the first user with the id, where no two have it. -/
theorem scan_eq {id : Int} (put : User → List User)
    {scan : List User → Except StoreError (List User)}
    (hnil : scan [] = .error .userNotFound)
    (hcons : ∀ u us, scan (u :: us) =
      if u.id = id then .ok (put u ++ us) else (scan us).map (u :: ·))
    (hids : (us.map User.id).Nodup) :
    scan us = if id ∈ us.map User.id then
        .ok (us.flatMap fun u => if u.id = id then put u else [u])
      else .error .userNotFound := by
  induction us with
  | nil => simp [hnil]
  | cons u us ih =>
    rw [List.map_cons, List.nodup_cons] at hids
    by_cases hid : u.id = id
    · have hrest : (us.flatMap fun u => if u.id = id then put u else [u]) = us := by
        have hsame : ∀ v ∈ us, (if v.id = id then put v else [v]) = [v] := fun v hv =>
          if_neg fun hv' => hids.1 (List.mem_map.mpr ⟨v, hv, hv'.trans hid.symm⟩)
        rw [List.flatMap_congr hsame, List.flatMap_singleton']
      simp [hcons, hid, hrest]
    · have hid' : id ≠ u.id := fun h => hid h.symm
      rw [hcons, if_neg hid, ih hids.2]
      by_cases hmem : id ∈ us.map User.id
      · simp [hmem, hid, Except.map]
      · simp only [hmem, List.map_cons, List.mem_cons, hid', false_or, ↓reduceIte]
        rfl

/-- `RowsAffected` is not zero if the id has a row. -/
theorem selectWhereID_length (hperm : d.users.rows.Perm us) :
    (d.users.selectWhereID id).length = 0 ↔ id ∉ us.map User.id := by
  rw [UsersTable.selectWhereID, List.length_eq_zero_iff, List.filter_eq_nil_iff,
    ← (hperm.map User.id).mem_iff]
  simp

/-- A statement and a scan that put the same in the place of the user with the
id. -/
theorem exec_bridge {s : MemoryUserStore} (hperm : d.users.rows.Perm s.users) {id : Int}
    (put : User → List User) (scan : List User → Except StoreError (List User))
    (statement : UsersTable × Nat) (hnil : scan [] = .error .userNotFound)
    (hcons : ∀ u us, scan (u :: us) =
      if u.id = id then .ok (put u ++ us) else (scan us).map (u :: ·))
    (hcount : statement.2 = (d.users.selectWhereID id).length)
    (hrows : statement.1.rows =
      d.users.rows.flatMap fun u => if u.id = id then put u else [u]) :
    (∃ us', scan s.users = .ok us' ∧ statement.1.rows.Perm us' ∧
        (PostgresUserStore.exec d.users none statement).2 = .ok ()) ∨
      scan s.users = .error .userNotFound ∧ statement.1.rows.Perm s.users ∧
        (PostgresUserStore.exec d.users none statement).2 =
          .error (.store .userNotFound) := by
  have hids := (hperm.map User.id).nodup_iff.mp d.users.primaryKey
  have hscan := scan_eq put hnil hcons hids
  have hresult : (PostgresUserStore.exec d.users none statement).2 =
      if id ∉ s.users.map User.id then .error (.store .userNotFound) else .ok () := by
    simp only [PostgresUserStore.exec, hcount, selectWhereID_length hperm]
  rw [hrows]
  by_cases hmem : id ∈ s.users.map User.id
  · rw [if_pos hmem] at hscan
    exact .inl ⟨_, hscan, hperm.flatMap_right _, by rw [hresult, if_neg (not_not_intro hmem)]⟩
  · rw [if_neg hmem] at hscan
    refine .inr ⟨hscan, ?_, by rw [hresult, if_pos hmem]⟩
    have hsame : ∀ u ∈ d.users.rows, (if u.id = id then put u else [u]) = [u] := fun u hu =>
      if_neg fun hid => hmem (List.mem_map.mpr ⟨u, hperm.mem_iff.mp hu, hid⟩)
    rw [List.flatMap_congr hsame, List.flatMap_singleton']
    exact hperm

theorem updatePassword_bridge {s : MemoryUserStore} (hperm : d.users.rows.Perm s.users)
    (id : Int) (hash : String) :
    (PostgresUserStore.updatePassword d.users none id hash).2 =
        (s.updatePassword id hash).2.mapError PostgresError.store ∧
      (PostgresUserStore.updatePassword d.users none id hash).1.rows.Perm
        (s.updatePassword id hash).1.users := by
  have hrows : (d.users.updatePasswordWhereID id hash).1.rows = d.users.rows.flatMap
      fun u => if u.id = id then [UsersTable.setPassword hash u] else [u] := by
    show mapUser id (UsersTable.setPassword hash) d.users.rows = _
    rw [mapUser, List.map_eq_flatMap]
    exact List.flatMap_congr fun u _ => by by_cases h : u.id = id <;> simp [h]
  rw [MemoryUserStore.updatePassword]
  rcases exec_bridge hperm (fun u => [UsersTable.setPassword hash u]) (updatePasswordScan id hash)
    (d.users.updatePasswordWhereID id hash) rfl (fun _ _ => rfl) rfl hrows
    with ⟨us', hscan, hperm', hok⟩ | ⟨hscan, hperm', herror⟩
  · rw [hscan]
    exact ⟨hok, hperm'⟩
  · rw [hscan]
    exact ⟨herror, hperm'⟩

theorem delete_bridge {s : MemoryUserStore} (hperm : d.users.rows.Perm s.users) (id : Int) :
    (PostgresUserStore.delete d.users none id).2 =
        (s.delete id).2.mapError PostgresError.store ∧
      (PostgresUserStore.delete d.users none id).1.rows.Perm (s.delete id).1.users := by
  have hfilter : ∀ us : List User, (us.filter fun u => u.id ≠ id) =
      us.flatMap fun u => if u.id = id then [] else [u] := by
    intro us
    induction us with
    | nil => rfl
    | cons u us ih => by_cases h : u.id = id <;> simp [h, ← ih]
  rw [MemoryUserStore.delete]
  rcases exec_bridge hperm (fun _ => []) (deleteScan id) (d.users.deleteWhereID id) rfl
    (fun _ _ => rfl) rfl (hfilter d.users.rows)
    with ⟨us', hscan, hperm', hok⟩ | ⟨hscan, hperm', herror⟩
  · rw [hscan]
    exact ⟨hok, hperm'⟩
  · rw [hscan]
    exact ⟨herror, hperm'⟩

theorem create_bridge {s : MemoryUserStore} (hperm : d.users.rows.Perm s.users)
    (hnext : s.nextID = d.nextval) (input : CreateUserRequest) :
    (PostgresUserStore.create d none input).2 =
        (s.create input).2.mapError PostgresError.store ∧
      (PostgresUserStore.create d none input).1.users.rows.Perm (s.create input).1.users := by
  have hany : s.users.any (fun u => u.email = input.email) ↔
      input.email ∈ d.users.rows.map User.email := by
    rw [(hperm.map User.email).mem_iff]
    simp
  by_cases hmem : input.email ∈ d.users.rows.map User.email
  · have hinsert : d.insert input = (d.skip, .error (.pg "23505")) := by
      simp only [Database.insert, dif_pos hmem]
    simp only [PostgresUserStore.create, Option.elim_none, hinsert, MemoryUserStore.create,
      if_pos (hany.mpr hmem)]
    exact ⟨rfl, hperm⟩
  · have hfree : ¬ s.users.any (fun u => u.email = input.email) := fun h => hmem (hany.mp h)
    simp only [PostgresUserStore.create, Option.elim_none, Database.insert, dif_neg hmem,
      MemoryUserStore.create, if_neg hfree, hnext]
    exact ⟨rfl, hperm.append_right _⟩

/-- `Update` returns the same on both exactly if the scan decides as the
database does, and then leaves the same users. -/
theorem update_bridge {s : MemoryUserStore} (hperm : d.users.rows.Perm s.users)
    (hordered : Ordered s) (id : Int) (input : UpdateUserRequest) :
    (SeenByScan s.users id input ↔ (PostgresUserStore.update d.users none id input).2 =
        (s.update id input).2.mapError PostgresError.store) ∧
      (SeenByScan s.users id input →
        (PostgresUserStore.update d.users none id input).1.rows.Perm
          (s.update id input).1.users) := by
  rcases PostgresUserStore.compare hperm with ⟨hseen, heq⟩ | ⟨hseen, hne⟩
  · refine ⟨iff_of_true hseen heq.symm, fun _ => ?_⟩
    -- both succeed, or neither does
    cases hupdate : s.update id input with
    | mk s' r =>
      rw [hupdate] at heq
      rcases PostgresUserStore.rows_update d.users none id input with
        ⟨user, hok, hrows⟩ | ⟨e, herror, hrows⟩
      · cases r with
        | error e => rw [hok] at heq; cases heq
        | ok user' =>
          obtain ⟨-, -, hs'⟩ := hordered.update_frame hupdate
          rw [hrows, hs']
          exact hperm.map _
      · cases r with
        | error e' => rw [hrows, update_error hupdate]; exact hperm
        | ok user' => rw [herror] at heq; cases heq
  · refine ⟨iff_of_false hseen fun heq => hne ?_, fun h => absurd h hseen⟩
    rw [heq]
    cases (s.update id input).2 <;> rfl

/-- What a call needs to have the same result on both. -/
def StoreCall.Seen (us : List User) : StoreCall → Prop
  | .update id input => SeenByScan us id input
  | _ => True

theorem mapError_map {α β ε ε' : Type} (g : α → β) (h : ε → ε') (r : Except ε α) :
    (r.map g).mapError h = (r.mapError h).map g := by
  cases r <;> rfl

theorem map_user_inj {r r' : Except PostgresError User}
    (h : r.map StoreValue.user = r'.map StoreValue.user) : r = r' := by
  cases r <;> cases r' <;> simp_all [Except.map]

/-- **Under the same ids** the two stores return the same, but for an `Update`
that the scan decides otherwise, and then have the same users. -/
theorem answer_bridge {s : MemoryUserStore} (hperm : d.users.rows.Perm s.users)
    (hordered : Ordered s) (hnext : s.nextID = d.nextval) (c : StoreCall) :
    (c.Seen s.users ↔ (d.answer none c).2 = (s.answer c).2.mapError PostgresError.store) ∧
      (c.Seen s.users → (d.answer none c).1.users.rows.Perm (s.answer c).1.users) := by
  cases c with
  | list =>
    refine ⟨iff_of_true trivial ?_, fun _ => hperm⟩
    show Except.ok (StoreValue.users d.users.selectAll) = .ok (.users s.users)
    rw [selectAll_bridge hperm (ordered_iff.mp hordered).1]
  | getByID id =>
    refine ⟨iff_of_true trivial ?_, fun _ => hperm⟩
    show (PostgresUserStore.getByID d none id).map StoreValue.user = _
    rw [getByID_bridge hperm, ← mapError_map]
    rfl
  | getByEmail email =>
    refine ⟨iff_of_true trivial ?_, fun _ => hperm⟩
    show (PostgresUserStore.getByEmail d none email).map StoreValue.user = _
    rw [getByEmail_bridge hperm, ← mapError_map]
    rfl
  | create input =>
    obtain ⟨hresult, husers⟩ := create_bridge hperm hnext input
    refine ⟨iff_of_true trivial ?_, fun _ => husers⟩
    simp only [Database.answer, MemoryUserStore.answer, mapError_map, hresult]
  | update id input =>
    obtain ⟨hresult, husers⟩ := update_bridge hperm hordered id input
    refine ⟨hresult.trans ?_, husers⟩
    simp only [Database.answer, MemoryUserStore.answer, mapError_map]
    exact ⟨fun h => by rw [h], map_user_inj⟩
  | updatePassword id hash =>
    obtain ⟨hresult, husers⟩ := updatePassword_bridge hperm id hash
    refine ⟨iff_of_true trivial ?_, fun _ => husers⟩
    simp only [Database.answer, MemoryUserStore.answer, mapError_map, hresult]
  | delete id =>
    obtain ⟨hresult, husers⟩ := delete_bridge hperm id
    refine ⟨iff_of_true trivial ?_, fun _ => husers⟩
    simp only [Database.answer, MemoryUserStore.answer, mapError_map, hresult]

end Bridge

end GoRestApi.Store
