/-
GoRestApi.Store.PostgresUserStore — `Update` of
`internal/store/postgres_user_store.go`, and how `Update` of the in-memory
store compares with it.

`UsersTable` is the table `users` of `internal/database/migrate.go` with its
primary key and its unique index on the email as fields of the type. A
statement that would leave two rows with one email fails with the code 23505
and changes nothing. Other failures of a statement (a lost connection, an id
that does not fit the column) are the argument `sql`.

The database decides by two questions, whether the id has a row and whether
another row has the email. The in-memory `Update` decides in one pass and
returns at the target or at a conflict, whichever comes first: it does not
see a conflict behind the target, and it reports one where there is no target
at all. The two agree exactly in the other cases:
`update_decides_as_database_iff`.
-/
import GoRestApi.Store.UserIdentity

namespace GoRestApi.Store

/-! ## The table -/

/-- `users`. The order of the rows means nothing. -/
structure UsersTable where
  rows : List User
  primaryKey : (rows.map User.id).Nodup
  emailUnique : (rows.map User.email).Nodup

def isUniqueViolation : SqlError → Bool
  | .pg code => code = "23505"
  | .other _ => false

namespace UsersTable

open MemoryUserStore

/-- What `SET name = $1, email = $2` makes of a row. -/
def setRow (input : UpdateUserRequest) (u : User) : User :=
  { u with name := input.name, email := input.email }

theorem ids_mapUser (id : Int) (input : UpdateUserRequest) (us : List User) :
    (mapUser id (setRow input) us).map User.id = us.map User.id := by
  simp only [mapUser, List.map_map]
  refine List.map_congr_left fun u _ => ?_
  simp only [Function.comp_apply]
  split <;> rfl

/-- `UPDATE users SET name = $1, email = $2 WHERE id = $3 RETURNING …`: the
table and the rows that are returned. -/
def updateWhereID (t : UsersTable) (id : Int) (input : UpdateUserRequest) :
    Except SqlError (UsersTable × List User) :=
  let rows := mapUser id (setRow input) t.rows
  if h : (rows.map User.email).Nodup then
    .ok (⟨rows, by rw [ids_mapUser]; exact t.primaryKey, h⟩, rows.filter fun u => u.id = id)
  else .error (.pg "23505")

end UsersTable

/-! ## The store -/

namespace PostgresUserStore

/-- `Update`. `sql` is a failure of the statement that is not its own. -/
def update (t : UsersTable) (sql : Option SqlError) (id : Int) (input : UpdateUserRequest) :
    UsersTable × Except PostgresError User :=
  match sql.elim (t.updateWhereID id input) .error with
  -- `Scan` reads the first row, and `sql.ErrNoRows` stands for none
  | .ok (t', user :: _) => (t', .ok user)
  | .ok (t', []) => (t', .error (.store .userNotFound))
  | .error e =>
    (t, .error (if isUniqueViolation e then .store .emailAlreadyExists else .sql e))

end PostgresUserStore

/-! ## What the database decides -/

namespace UsersTable

open MemoryUserStore

variable {t : UsersTable} {id : Int} {input : UpdateUserRequest}

/-- The rows other than the target keep their emails, so the index holds
exactly if none of them has the new one. -/
theorem nodup_emails_iff {before after : List User} {target : User}
    (hrows : t.rows = before ++ target :: after) :
    ((before ++ setRow input target :: after).map User.email).Nodup ↔
      ∀ u ∈ before ++ after, u.email ≠ input.email := by
  have hold := t.emailUnique
  rw [hrows, List.map_append, List.map_cons, List.nodup_middle, List.nodup_cons,
    ← List.map_append] at hold
  rw [List.map_append, List.map_cons, List.nodup_middle, List.nodup_cons, ← List.map_append,
    and_iff_left hold.2]
  simp only [setRow, List.mem_map, not_exists, not_and]

/-- With distinct ids the rows around the target have other ids. -/
theorem ids_ne_of_rows {before after : List User} {target : User}
    (hrows : t.rows = before ++ target :: after) : ∀ u ∈ before ++ after, u.id ≠ target.id := by
  have hids := t.primaryKey
  rw [hrows, List.map_append, List.map_cons, List.nodup_middle, List.nodup_cons,
    ← List.map_append] at hids
  exact fun u hu heq => hids.1 (List.mem_map.mpr ⟨u, hu, heq⟩)

theorem updateWhereID_of_absent (h : ∀ u ∈ t.rows, u.id ≠ id) :
    t.updateWhereID id input = .ok (t, []) := by
  have hsame : mapUser id (setRow input) t.rows = t.rows := mapUser_of_ne h
  have hnone : t.rows.filter (fun u => u.id = id) = [] := by simpa using h
  unfold updateWhereID
  simp only [hsame, t.emailUnique, ↓reduceDIte, hnone]

/-- What the statement makes of the rows, if one of them is the target. -/
theorem mapUser_rows {before after : List User} {target : User}
    (hrows : t.rows = before ++ target :: after) (hid : target.id = id) :
    mapUser id (setRow input) t.rows = before ++ setRow input target :: after := by
  have hne := hid ▸ ids_ne_of_rows hrows
  rw [hrows]
  exact mapUser_append (fun u hu => hne u (List.mem_append_left _ hu)) hid
    fun u hu => hne u (List.mem_append_right _ hu)

theorem updateWhereID_of_conflict {before after : List User} {target : User}
    (hrows : t.rows = before ++ target :: after) (hid : target.id = id)
    (h : ∃ u ∈ before ++ after, u.email = input.email) :
    t.updateWhereID id input = .error (.pg "23505") := by
  have hviolated : ¬ ((mapUser id (setRow input) t.rows).map User.email).Nodup := by
    rw [mapUser_rows hrows hid, nodup_emails_iff hrows]
    push Not
    exact h
  unfold updateWhereID
  simp only [hviolated, ↓reduceDIte]

theorem updateWhereID_of_free {before after : List User} {target : User}
    (hrows : t.rows = before ++ target :: after) (hid : target.id = id)
    (h : ∀ u ∈ before ++ after, u.email ≠ input.email) :
    ∃ t', t.updateWhereID id input = .ok (t', [setRow input target]) ∧
      t'.rows = before ++ setRow input target :: after := by
  have hmap : mapUser id (setRow input) t.rows = _ := mapUser_rows hrows hid
  have hkept : ((mapUser id (setRow input) t.rows).map User.email).Nodup := by
    rw [hmap, nodup_emails_iff hrows]
    exact h
  have hreturned : (mapUser id (setRow input) t.rows).filter (fun u => u.id = id) =
      [setRow input target] := by
    have hnone : ∀ us ⊆ before ++ after, us.filter (fun u => u.id = id) = [] := by
      intro us hus
      simpa using fun u hu => hid ▸ ids_ne_of_rows hrows u (hus hu)
    have htarget : decide ((setRow input target).id = id) = true := decide_eq_true hid
    rw [hmap, List.filter_append, List.filter_cons, if_pos htarget,
      hnone before (List.subset_append_left ..), hnone after (List.subset_append_right ..)]
    rfl
  refine ⟨⟨mapUser id (setRow input) t.rows, by rw [ids_mapUser]; exact t.primaryKey, hkept⟩, ?_,
    hmap⟩
  unfold updateWhereID
  simp only [hkept, ↓reduceDIte, hreturned]

end UsersTable

namespace PostgresUserStore

open MemoryUserStore UsersTable

variable {t : UsersTable} {id : Int} {input : UpdateUserRequest}

/-- **The database** answers by the id first, and then by the emails of the
other rows. -/
theorem update_cases (t : UsersTable) (id : Int) (input : UpdateUserRequest) :
    (∀ u ∈ t.rows, u.id ≠ id) ∧ (update t none id input).2 = .error (.store .userNotFound) ∨
    (∃ target ∈ t.rows, target.id = id) ∧ (∃ u ∈ t.rows, u.id ≠ id ∧ u.email = input.email) ∧
      (update t none id input).2 = .error (.store .emailAlreadyExists) ∨
    ∃ target ∈ t.rows, target.id = id ∧ (∀ u ∈ t.rows, u.id ≠ id → u.email ≠ input.email) ∧
      (update t none id input).2 = .ok (setRow input target) := by
  by_cases hex : ∃ target ∈ t.rows, target.id = id
  · obtain ⟨target, hmem, hid⟩ := hex
    obtain ⟨before, after, hrows⟩ := List.append_of_mem hmem
    have hothers : ∀ u ∈ before ++ after, u ∈ t.rows ∧ u.id ≠ id := by
      intro u hu
      refine ⟨?_, hid ▸ ids_ne_of_rows hrows u hu⟩
      rw [hrows]
      rcases List.mem_append.mp hu with hu | hu <;> simp [hu]
    by_cases hconf : ∃ u ∈ before ++ after, u.email = input.email
    · refine .inr (.inl ⟨⟨target, hmem, hid⟩, ?_, ?_⟩)
      · obtain ⟨u, hu, hemail⟩ := hconf
        exact ⟨u, (hothers u hu).1, (hothers u hu).2, hemail⟩
      · simp [update, updateWhereID_of_conflict hrows hid hconf, isUniqueViolation]
    · push Not at hconf
      obtain ⟨t', hupdate, -⟩ := updateWhereID_of_free hrows hid hconf
      refine .inr (.inr ⟨target, hmem, hid, fun u hu hne => ?_, by simp [update, hupdate]⟩)
      rw [hrows, List.mem_append, List.mem_cons] at hu
      refine hconf u (List.mem_append.mpr ?_)
      rcases hu with hu | rfl | hu
      · exact .inl hu
      · exact absurd hid hne
      · exact .inr hu
  · push Not at hex
    exact .inl ⟨hex, by simp [update, updateWhereID_of_absent hex]⟩

end PostgresUserStore

/-! ## What the scan decides -/

namespace MemoryUserStore

variable {id : Int} {input : UpdateUserRequest} {us before after : List User} {target : User}

/-- Without a target the scan reports a conflict if anybody has the email. -/
theorem updateScan_of_absent (h : ∀ u ∈ us, u.id ≠ id) :
    updateScan id input us =
      .error (if ∃ u ∈ us, u.email = input.email then .emailAlreadyExists else .userNotFound) := by
  induction us with
  | nil => simp [updateScan]
  | cons u us ih =>
    have hu : u.id ≠ id := h u List.mem_cons_self
    have ih := ih fun v hv => h v (List.mem_cons_of_mem u hv)
    by_cases hemail : u.email = input.email
    · simp [updateScan, hu, hemail]
    · simp [updateScan, hu, hemail, ih, Except.map]

/-- A conflict before the target ends the scan. -/
theorem updateScan_of_conflict (hbefore : ∀ u ∈ before, u.id ≠ id)
    (h : ∃ u ∈ before, u.email = input.email) :
    updateScan id input (before ++ us) = .error .emailAlreadyExists := by
  induction before with
  | nil => simp at h
  | cons u before ih =>
    have hu : u.id ≠ id := hbefore u List.mem_cons_self
    by_cases hemail : u.email = input.email
    · simp [updateScan, hu, hemail]
    · have hrest : ∃ v ∈ before, v.email = input.email := by simpa [hemail] using h
      have ih := ih (fun v hv => hbefore v (List.mem_cons_of_mem u hv)) hrest
      simp [updateScan, hu, hemail, ih, Except.map]

theorem update_snd (s : MemoryUserStore) (id : Int) (input : UpdateUserRequest) :
    (s.update id input).2 = (updateScan id input s.users).map Prod.snd := by
  unfold update
  split <;> rename_i hscan <;> rw [hscan] <;> rfl

end MemoryUserStore

/-! ## The two side by side -/

/-- The error of a result, if it is one. -/
def errorOf {ε α : Type} : Except ε α → Option ε
  | .error e => some e
  | .ok _ => none

/-- What `Update` is to decide: an id that nobody has is not found, an email
that another user has is a conflict. It does not depend on the order. -/
def updateDecision (us : List User) (id : Int) (input : UpdateUserRequest) : Option StoreError :=
  if ∀ u ∈ us, u.id ≠ id then some .userNotFound
  else if ∃ u ∈ us, u.id ≠ id ∧ u.email = input.email then some .emailAlreadyExists
  else none

/-- What the scan of `Update` does not find out: no user behind the target
has the email, and if there is no target nobody has it. -/
def SeenByScan (us : List User) (id : Int) (input : UpdateUserRequest) : Prop :=
  (∀ u ∈ MemoryUserStore.usersBehind id us, u.email ≠ input.email) ∧
    ((∀ u ∈ us, u.id ≠ id) → ∀ u ∈ us, u.email ≠ input.email)

namespace PostgresUserStore

open MemoryUserStore UsersTable

variable {s : MemoryUserStore} {t : UsersTable} {id : Int} {input : UpdateUserRequest}

theorem errorOf_update (hrows : t.rows.Perm s.users) :
    errorOf (update t none id input).2 = (updateDecision s.users id input).map .store := by
  have hmem : ∀ u, u ∈ t.rows ↔ u ∈ s.users := fun u => hrows.mem_iff
  unfold updateDecision
  obtain ⟨habsent, hpg⟩ | ⟨⟨target, htarget, hid⟩, hconf, hpg⟩ |
    ⟨target, htarget, hid, hfree, hpg⟩ := update_cases t id input <;> simp only [hmem] at * <;>
    rw [hpg]
  · rw [if_pos habsent]
    rfl
  · rw [if_neg (fun h => h target htarget hid), if_pos hconf]
    rfl
  · rw [if_neg (fun h => h target htarget hid), if_neg (by push Not; exact hfree)]
    rfl

/-- Where there is no target, the scan must not meet the email. -/
theorem compare_of_absent (input : UpdateUserRequest) (habsent : ∀ u ∈ s.users, u.id ≠ id) :
    SeenByScan s.users id input ∧ (s.update id input).2 = .error .userNotFound ∨
      ¬ SeenByScan s.users id input ∧ (s.update id input).2 = .error .emailAlreadyExists := by
  have hbehind : usersBehind id s.users = [] := by
    rcases usersBehind_cases id s.users with hnil | ⟨before, target, hus, -, htarget⟩
    · exact hnil
    · exact absurd htarget (habsent target (by rw [hus]; simp))
  rw [update_snd, updateScan_of_absent habsent, SeenByScan, hbehind]
  by_cases hex : ∃ u ∈ s.users, u.email = input.email
  · rw [if_pos hex]
    refine .inr ⟨fun h => ?_, rfl⟩
    obtain ⟨u, hu, hemail⟩ := hex
    exact h.2 habsent u hu hemail
  · rw [if_neg hex]
    push Not at hex
    exact .inl ⟨⟨by simp, fun _ => hex⟩, rfl⟩

/-- Where there is a target, the scan must meet the other user with the email
before it. -/
theorem compare_of_target (input : UpdateUserRequest)
    (hemails : (s.users.map User.email).Nodup) {before after : List User} {target : User}
    (hus : s.users = before ++ target :: after)
    (hothers : ∀ u ∈ before ++ after, u.id ≠ target.id) :
    (∀ u ∈ before ++ after, u.email ≠ input.email) ∧ SeenByScan s.users target.id input ∧
        (s.update target.id input).2 = .ok (setRow input target) ∨
    (∃ u ∈ before ++ after, u.email = input.email) ∧
      (SeenByScan s.users target.id input ∧
          (s.update target.id input).2 = .error .emailAlreadyExists ∨
        ¬ SeenByScan s.users target.id input ∧
          (s.update target.id input).2 = .ok (setRow input target)) := by
  have hbefore : ∀ u ∈ before, u.id ≠ target.id :=
    fun u hu => hothers u (List.mem_append_left _ hu)
  have hpresent : ¬ ∀ u ∈ s.users, u.id ≠ target.id := fun h => h target (by simp [hus]) rfl
  have hseen : SeenByScan s.users target.id input ↔ ∀ u ∈ after, u.email ≠ input.email := by
    rw [SeenByScan, hus, usersBehind_append hbefore rfl, ← hus]
    exact and_iff_left fun h => absurd h hpresent
  rw [hus, List.map_append, List.map_cons, List.nodup_append] at hemails
  have hapart : ∀ u ∈ before, ∀ v ∈ after, u.email ≠ v.email := fun u hu v hv =>
    hemails.2.2 u.email (List.mem_map_of_mem hu) v.email
      (List.mem_cons_of_mem _ (List.mem_map_of_mem hv))
  rw [hseen, update_snd, hus]
  by_cases hmet : ∃ u ∈ before, u.email = input.email
  · obtain ⟨u, hu, hemail⟩ := hmet
    refine .inr ⟨⟨u, List.mem_append_left _ hu, hemail⟩, .inl ⟨fun v hv heq => ?_, ?_⟩⟩
    · exact hapart u hu v hv (hemail.trans heq.symm)
    · rw [updateScan_of_conflict hbefore ⟨u, hu, hemail⟩]
      rfl
  · push Not at hmet
    have hok : updateScan target.id input (before ++ target :: after) = _ :=
      updateScan_append (fun u hu => ⟨hbefore u hu, hmet u hu⟩) rfl
    rw [hok]
    by_cases hbehind : ∀ u ∈ after, u.email ≠ input.email
    · refine .inl ⟨fun u hu => ?_, hbehind, rfl⟩
      exact (List.mem_append.mp hu).elim (hmet u) (hbehind u)
    · push Not at hbehind
      obtain ⟨u, hu, hemail⟩ := hbehind
      exact .inr ⟨⟨u, List.mem_append_right _ hu, hemail⟩,
        .inr ⟨fun h => h u hu hemail, rfl⟩⟩

/-- The two stores return the same, or different errors. -/
theorem compare (hrows : t.rows.Perm s.users) :
    SeenByScan s.users id input ∧
        (s.update id input).2.mapError PostgresError.store = (update t none id input).2 ∨
      ¬ SeenByScan s.users id input ∧
        (errorOf (s.update id input).2).map .store ≠ errorOf (update t none id input).2 := by
  have hmem : ∀ u, u ∈ t.rows ↔ u ∈ s.users := fun u => hrows.mem_iff
  obtain ⟨habsent, hpg⟩ | ⟨⟨target, htarget, rfl⟩, hconf, hpg⟩ |
    ⟨target, htarget, rfl, hfree, hpg⟩ := update_cases t id input <;>
    simp only [hmem] at * <;> rw [hpg]
  · rcases compare_of_absent input habsent with ⟨hseen, hupd⟩ | ⟨hseen, hupd⟩
    · exact .inl ⟨hseen, by rw [hupd]; rfl⟩
    · exact .inr ⟨hseen, by rw [hupd]; simp [errorOf]⟩
  all_goals
    have hemails : (s.users.map User.email).Nodup :=
      (hrows.map User.email).nodup_iff.mp t.emailUnique
    obtain ⟨before, after, hus⟩ := List.append_of_mem htarget
    have hothers : ∀ u ∈ before ++ after, u ∈ s.users ∧ u.id ≠ target.id := by
      have hids := (hrows.map User.id).nodup_iff.mp t.primaryKey
      rw [hus, List.map_append, List.map_cons, List.nodup_middle, List.nodup_cons,
        ← List.map_append] at hids
      refine fun u hu => ⟨?_, fun heq => hids.1 (List.mem_map.mpr ⟨u, hu, heq⟩)⟩
      rw [hus]
      rcases List.mem_append.mp hu with hu | hu <;> simp [hu]
    have hcompare := compare_of_target input hemails hus fun u hu => (hothers u hu).2
  · rcases hcompare with ⟨hfree, -⟩ | ⟨-, ⟨hseen, hupd⟩ | ⟨hseen, hupd⟩⟩
    · obtain ⟨u, hu, hne, hemail⟩ := hconf
      rw [hus, List.mem_append, List.mem_cons] at hu
      refine absurd hemail (hfree u (List.mem_append.mpr ?_))
      rcases hu with hu | rfl | hu
      · exact .inl hu
      · exact absurd rfl hne
      · exact .inr hu
    · exact .inl ⟨hseen, by rw [hupd]; rfl⟩
    · exact .inr ⟨hseen, by rw [hupd]; simp [errorOf]⟩
  · rcases hcompare with ⟨-, hseen, hupd⟩ | ⟨⟨u, hu, hemail⟩, -⟩
    · exact .inl ⟨hseen, by rw [hupd]; rfl⟩
    · exact absurd hemail (hfree u (hothers u hu).1 (hothers u hu).2)

/-- **When `Update` decides as the database does.** On the same rows, in any
order, the database decides by the rule. The in-memory store does, and returns
the same as the database, exactly if nobody behind the target has the new
email and, where there is no target, nobody at all has it. -/
theorem update_decides_as_database_iff (hrows : t.rows.Perm s.users) (id : Int)
    (input : UpdateUserRequest) :
    errorOf (update t none id input).2 = (updateDecision s.users id input).map .store ∧
    (errorOf (s.update id input).2 = updateDecision s.users id input ↔
      SeenByScan s.users id input) ∧
    ((s.update id input).2.mapError PostgresError.store = (update t none id input).2 ↔
      SeenByScan s.users id input) := by
  have hpg : errorOf (update t none id input).2 = (updateDecision s.users id input).map .store :=
    errorOf_update hrows
  have hinj : Function.Injective (Option.map PostgresError.store) :=
    Option.map_injective fun _ _ h => PostgresError.store.inj h
  have herror : ∀ r : Except StoreError User,
      errorOf (r.mapError PostgresError.store) = (errorOf r).map .store := fun r => by
    cases r <;> rfl
  rw [← hinj.eq_iff (b := updateDecision s.users id input), ← hpg]
  rcases compare hrows with ⟨hseen, heq⟩ | ⟨hseen, hne⟩
  · exact ⟨rfl, iff_of_true (by rw [← heq, herror]) hseen, iff_of_true heq hseen⟩
  · refine ⟨rfl, iff_of_false hne hseen, iff_of_false (fun heq => hne ?_) hseen⟩
    rw [← heq, herror]

/-- Two rows for concrete updates. -/
def sampleTable : UsersTable where
  rows := [⟨1, "ada", "ada@x", "h1"⟩, ⟨2, "bob", "bob@x", "h2"⟩]
  primaryKey := by decide
  emailUnique := by decide

/-- The second user asks for the email of the first: both stores refuse. -/
theorem update_decides_as_database_refused :
    let s : MemoryUserStore := ⟨sampleTable.rows, 3⟩
    (s.update 2 ⟨"bob", "ada@x"⟩).2 = .error .emailAlreadyExists ∧
    (update sampleTable none 2 ⟨"bob", "ada@x"⟩).2 = .error (.store .emailAlreadyExists) := by
  intro s
  have hupd : (s.update 2 ⟨"bob", "ada@x"⟩).2 = .error .emailAlreadyExists := by decide
  have hseen : SeenByScan s.users 2 ⟨"bob", "ada@x"⟩ :=
    ⟨by decide, fun h => absurd (h ⟨2, "bob", "bob@x", "h2"⟩ (by decide)) (by decide)⟩
  refine ⟨hupd, ?_⟩
  rw [← (update_decides_as_database_iff (s := s) (List.Perm.refl _) 2 _).2.2.mpr hseen, hupd]
  rfl

/-- The first user asks for the email of the second, and is given it; an
update of a user that does not exist is refused as a conflict. The database
answers the other way round. -/
theorem update_decides_otherwise :
    let s : MemoryUserStore := ⟨sampleTable.rows, 3⟩
    (s.update 1 ⟨"ada", "bob@x"⟩).2 = .ok ⟨1, "ada", "bob@x", "h1"⟩ ∧
    (update sampleTable none 1 ⟨"ada", "bob@x"⟩).2 = .error (.store .emailAlreadyExists) ∧
    (s.update 9 ⟨"eve", "bob@x"⟩).2 = .error .emailAlreadyExists ∧
    (update sampleTable none 9 ⟨"eve", "bob@x"⟩).2 = .error (.store .userNotFound) := by
  decide

end PostgresUserStore

end GoRestApi.Store
