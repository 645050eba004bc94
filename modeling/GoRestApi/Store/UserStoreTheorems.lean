/-
GoRestApi.Store.UserStoreTheorems — email uniqueness of the in-memory store
over whole runs.

Postgres keeps emails unique with an index; `MemoryUserStore` has to keep
them unique by hand, and `GetByEmail` relies on it. `Create` does: it looks
at every user. `Update` returns at the user it updates, so the users AFTER
the target are never compared with the new email. The exact account of that
is `emails_unique_iff_new_email_free_behind`: along a run the emails stay
unique if and only if no `Update` gives its target the email of a user
further down the list.

The scans are characterised once (`updateScan_ok`, `updateScan_error`), by
where in the list they stop; the invariant proofs use only these. The last
sections say what `GetByID` and `GetByEmail` find after each write, and that
ids stay distinct.
-/
import GoRestApi.Store.UserStore
import Mathlib.Data.List.Nodup

namespace GoRestApi.Store.MemoryUserStore

open Lts

/-! ## The scans -/

/-- Where a successful `Update` stops: at the first user with the id, having
met no other user with the new email before it. -/
theorem updateScan_ok {id : Int} {input : UpdateUserRequest} {us us' : List User} {r : User}
    (h : updateScan id input us = .ok (us', r)) :
    ∃ before target after, us = before ++ target :: after ∧
      (∀ u ∈ before, u.id ≠ id ∧ u.email ≠ input.email) ∧ target.id = id ∧
      r = { target with name := input.name, email := input.email } ∧
      us' = before ++ r :: after := by
  induction us generalizing us' with
  | nil => simp [updateScan] at h
  | cons u us ih =>
    simp only [updateScan] at h
    split at h
    · cases h
    · rename_i hconf
      split at h
      · rename_i hid
        cases h
        exact ⟨[], u, us, rfl, by simp, hid, rfl, rfl⟩
      · rename_i hid
        cases hrec : updateScan id input us with
        | error e => simp [hrec, Except.map] at h
        | ok p =>
          obtain ⟨vs, v⟩ := p
          simp only [hrec, Except.map, Except.ok.injEq, Prod.mk.injEq] at h
          obtain ⟨rfl, rfl⟩ := h
          obtain ⟨before, target, after, rfl, hbefore, htarget, hr, rfl⟩ := ih hrec
          refine ⟨u :: before, target, after, rfl, ?_, htarget, hr, rfl⟩
          intro x hx
          rcases List.mem_cons.mp hx with rfl | hx
          · exact ⟨hid, fun he => hconf ⟨hid, he⟩⟩
          · exact hbefore x hx

/-- A scan that passes the users of `before` and meets the target after them
succeeds, whatever follows. -/
theorem updateScan_append {id : Int} {input : UpdateUserRequest} {before after : List User}
    {target : User} (hbefore : ∀ u ∈ before, u.id ≠ id ∧ u.email ≠ input.email)
    (htarget : target.id = id) :
    updateScan id input (before ++ target :: after) =
      .ok (before ++ { target with name := input.name, email := input.email } :: after,
        { target with name := input.name, email := input.email }) := by
  induction before with
  | nil => simp [updateScan, htarget]
  | cons u us ih =>
    have hu := hbefore u (List.mem_cons_self ..)
    have ih := ih fun x hx => hbefore x (List.mem_cons_of_mem _ hx)
    simp [updateScan, hu.1, hu.2, ih, Except.map]

/-- A loop that looks for the first user with the id, and puts `put target` in
the place of that user. -/
theorem scan_ok {id : Int} (put : User → List User)
    {scan : List User → Except StoreError (List User)}
    (hnil : scan [] = .error .userNotFound)
    (hcons : ∀ u us, scan (u :: us) =
      if u.id = id then .ok (put u ++ us) else (scan us).map (u :: ·))
    {us us' : List User} (h : scan us = .ok us') :
    ∃ before target after, us = before ++ target :: after ∧ (∀ u ∈ before, u.id ≠ id) ∧
      target.id = id ∧ us' = before ++ (put target ++ after) := by
  induction us generalizing us' with
  | nil => simp [hnil] at h
  | cons u us ih =>
    rw [hcons] at h
    split at h
    · rename_i hid
      cases h
      exact ⟨[], u, us, rfl, by simp, hid, rfl⟩
    · rename_i hid
      cases hrec : scan us with
      | error e => simp [hrec, Except.map] at h
      | ok vs =>
        simp only [hrec, Except.map, Except.ok.injEq] at h
        subst h
        obtain ⟨before, target, after, rfl, hbefore, htarget, rfl⟩ := ih hrec
        refine ⟨u :: before, target, after, rfl, ?_, htarget, rfl⟩
        intro x hx
        rcases List.mem_cons.mp hx with rfl | hx
        · exact hid
        · exact hbefore x hx

/-- `Delete` removes one user and keeps the order of the others. -/
theorem deleteScan_ok {id : Int} {us us' : List User} (h : deleteScan id us = .ok us') :
    ∃ before target after, us = before ++ target :: after ∧ (∀ u ∈ before, u.id ≠ id) ∧
      target.id = id ∧ us' = before ++ after :=
  scan_ok (fun _ => []) rfl (fun _ _ => rfl) h

/-- `UpdatePassword` rewrites the hash of one user in place. -/
theorem updatePasswordScan_ok {id : Int} {hash : String} {us us' : List User}
    (h : updatePasswordScan id hash us = .ok us') :
    ∃ before target after, us = before ++ target :: after ∧ (∀ u ∈ before, u.id ≠ id) ∧
      target.id = id ∧ us' = before ++ { target with passwordHash := hash } :: after :=
  scan_ok (fun u => [{ u with passwordHash := hash }]) rfl (fun _ _ => rfl) h

/-! ## Email uniqueness -/

/-- No two users of the list have the same email. -/
def EmailsUnique (s : MemoryUserStore) : Prop :=
  (s.users.map User.email).Nodup

instance (s : MemoryUserStore) : Decidable (EmailsUnique s) :=
  inferInstanceAs (Decidable (s.users.map User.email).Nodup)

/-- The users the loop of `Update` never looks at: those behind the first
user with the id. -/
def usersBehind (id : Int) (us : List User) : List User :=
  (us.dropWhile fun u => u.id ≠ id).tail

/-- What `Update` does not check: no user behind the target has the new
email. The other calls need nothing. -/
def NewEmailFreeBehind (s : MemoryUserStore) : Op → Prop
  | .update id input => ∀ u ∈ usersBehind id s.users, u.email ≠ input.email
  | _ => True

theorem usersBehind_append {id : Int} {before after : List User} {target : User}
    (hbefore : ∀ u ∈ before, u.id ≠ id) (htarget : target.id = id) :
    usersBehind id (before ++ target :: after) = after := by
  unfold usersBehind
  rw [List.dropWhile_append_of_pos (by simpa using hbefore)]
  simp [htarget]

/-- `usersBehind` is a part of the list, with the target before it. -/
theorem usersBehind_cases (id : Int) (us : List User) :
    usersBehind id us = [] ∨ ∃ before target, us = before ++ target :: usersBehind id us ∧
      (∀ u ∈ before, u.id ≠ id) ∧ target.id = id := by
  induction us with
  | nil => exact Or.inl rfl
  | cons u us ih =>
    by_cases hid : u.id = id
    · refine Or.inr ⟨[], u, ?_, by simp, hid⟩
      simp [usersBehind, hid]
    · have hskip : usersBehind id (u :: us) = usersBehind id us := by
        simp [usersBehind, hid]
      rw [hskip]
      rcases ih with hnil | ⟨before, target, heq, hbefore, htarget⟩
      · exact Or.inl hnil
      · refine Or.inr ⟨u :: before, target, ?_, ?_, htarget⟩
        · rw [List.cons_append, ← heq]
        · intro x hx
          rcases List.mem_cons.mp hx with rfl | hx
          · exact hid
          · exact hbefore x hx

/-- Replacing one entry of a duplicate-free list leaves it duplicate-free
exactly if the new entry is none of the others. -/
theorem nodup_replace_iff {before after : List String} {old new : String}
    (h : (before ++ old :: after).Nodup) (hnew : new ∉ before) :
    (before ++ new :: after).Nodup ↔ new ∉ after := by
  simp only [List.nodup_append, List.nodup_cons, List.mem_cons] at h ⊢
  constructor
  · rintro ⟨_, ⟨hnot, _⟩, _⟩
    exact hnot
  · intro hnot
    refine ⟨h.1, ⟨hnot, h.2.1.2⟩, ?_⟩
    rintro x hx y (rfl | hy)
    · exact fun hxy => hnew (hxy ▸ hx)
    · exact h.2.2 x hx y (Or.inr hy)

theorem create_emailsUnique {s : MemoryUserStore} (input : CreateUserRequest)
    (hs : EmailsUnique s) : EmailsUnique (s.create input).1 := by
  unfold create
  split
  · exact hs
  · rename_i hfree
    simp only [List.any_eq_true, decide_eq_true_eq, not_exists, not_and] at hfree
    rw [EmailsUnique, List.map_append, List.map_singleton, ← List.concat_eq_append,
      List.nodup_concat]
    refine ⟨fun hmem => ?_, hs⟩
    obtain ⟨u, hu, hemail⟩ := List.mem_map.mp hmem
    exact hfree u hu hemail

theorem delete_emailsUnique {s : MemoryUserStore} (id : Int) (hs : EmailsUnique s) :
    EmailsUnique (s.delete id).1 := by
  unfold delete
  split
  · rename_i us hscan
    obtain ⟨before, target, after, hus, _, _, rfl⟩ := deleteScan_ok hscan
    simp only [EmailsUnique, hus, List.map_append, List.map_cons] at hs ⊢
    exact hs.sublist (List.Sublist.append_left (List.sublist_cons_self _ _) _)
  · exact hs

theorem updatePassword_emailsUnique {s : MemoryUserStore} (id : Int) (hash : String)
    (hs : EmailsUnique s) : EmailsUnique (s.updatePassword id hash).1 := by
  unfold updatePassword
  split
  · rename_i us hscan
    obtain ⟨before, target, after, hus, _, _, rfl⟩ := updatePasswordScan_ok hscan
    simpa [EmailsUnique, hus] using hs
  · exact hs

/-- When `Update` fails, no user behind the target has the new email: the
only failure a unique-email store can show at a list that HAS a target is a
user with that email before it. -/
theorem updateScan_error {s : MemoryUserStore} {id : Int} {input : UpdateUserRequest}
    {e : StoreError} (hs : EmailsUnique s) (h : updateScan id input s.users = .error e) :
    ∀ u ∈ usersBehind id s.users, u.email ≠ input.email := by
  intro u hu heq
  rcases usersBehind_cases id s.users with hnil | ⟨before, target, hus, hbefore, htarget⟩
  · simp [hnil] at hu
  · -- `u` has the new email, so by uniqueness nobody before the target has it
    have hfree : ∀ x ∈ before, x.id ≠ id ∧ x.email ≠ input.email := by
      intro x hx
      refine ⟨hbefore x hx, fun hxe => ?_⟩
      unfold EmailsUnique at hs
      rw [hus, List.map_append, List.map_cons, List.nodup_append] at hs
      exact hs.2.2 x.email (List.mem_map_of_mem hx) u.email
        (List.mem_cons_of_mem _ (List.mem_map_of_mem hu)) (hxe.trans heq.symm)
    rw [hus, updateScan_append hfree htarget] at h
    cases h

/-- From a store with unique emails, `Update` keeps them unique exactly if
nobody behind the target has the new email. -/
theorem update_emailsUnique_iff {s : MemoryUserStore} (id : Int) (input : UpdateUserRequest)
    (hs : EmailsUnique s) :
    EmailsUnique (s.update id input).1 ↔
      ∀ u ∈ usersBehind id s.users, u.email ≠ input.email := by
  unfold update
  split
  · rename_i us r hscan
    obtain ⟨before, target, after, hus, hbefore, htarget, hr, rfl⟩ := updateScan_ok hscan
    rw [hus, usersBehind_append (fun u hu => (hbefore u hu).1) htarget]
    simp only [EmailsUnique, hus, List.map_append, List.map_cons] at hs ⊢
    rw [nodup_replace_iff hs, hr]
    · simp only [List.mem_map, not_exists, not_and]
    · intro hmem
      obtain ⟨u, hu, hue⟩ := List.mem_map.mp hmem
      rw [hr] at hue
      exact (hbefore u hu).2 hue
  · rename_i e hscan
    exact ⟨fun _ => updateScan_error hs hscan, fun _ => hs⟩

/-- One call, from a store with unique emails: they stay unique exactly if
the call is not an `Update` that takes the email of a later user. -/
theorem apply_emailsUnique_iff {s : MemoryUserStore} (op : Op) (hs : EmailsUnique s) :
    EmailsUnique (s.apply op) ↔ NewEmailFreeBehind s op := by
  cases op with
  | create input => exact iff_of_true (create_emailsUnique input hs) trivial
  | update id input => exact update_emailsUnique_iff id input hs
  | updatePassword id hash => exact iff_of_true (updatePassword_emailsUnique id hash hs) trivial
  | delete id => exact iff_of_true (delete_emailsUnique id hs) trivial

/-- **Email uniqueness, exactly.** Along a run of calls on a store that starts
empty, no two users have the same email in any state reached if and only if
every `Update` of the run is one whose new email belongs to no user behind
its target. -/
theorem emails_unique_iff_new_email_free_behind (ops : List Op) :
    Always step EmailsUnique newMemoryUserStore ops ↔
      Along step NewEmailFreeBehind newMemoryUserStore ops := by
  refine always_iff_along (J := fun _ => True) ?_ (fun _ _ _ _ _ => trivial) ?_ trivial
    List.nodup_nil
  · intro s op s' _ hs hstep
    cases hstep
    exact apply_emailsUnique_iff op hs
  · intro s op hnone
    cases hnone

/-- Two users, then the FIRST takes the email of the second: `Update` stops
at its target and both end with the same email. -/
theorem update_takes_later_email :
    ¬ ∀ (ops : List Op) (s : MemoryUserStore),
      run step newMemoryUserStore ops = some s → EmailsUnique s := by
  intro h
  have hrun := h
    [.create ⟨"Ada", "ada@example.com", "h1"⟩, .create ⟨"Bob", "bob@example.com", "h2"⟩,
      .update 1 ⟨"Ada", "bob@example.com"⟩]
    { users := [⟨1, "Ada", "bob@example.com", "h1"⟩, ⟨2, "Bob", "bob@example.com", "h2"⟩]
      nextID := 3 }
    (by decide)
  revert hrun
  decide

/-! ## Looking a user up -/

theorem getByIDScan_eq_find? (id : Int) (us : List User) :
    getByIDScan id us =
      (us.find? fun u => u.id = id).elim (.error .userNotFound) Except.ok := by
  induction us with
  | nil => rfl
  | cons u us ih =>
    by_cases hid : u.id = id
    · simp [getByIDScan, hid]
    · simp [getByIDScan, hid, ih]

/-- Putting other users with another id, or none, in the place of one does not
change what is found. -/
theorem getByIDScan_replace {id : Int} (before mid mid' after : List User)
    (hmid : ∀ u ∈ mid, u.id ≠ id) (hmid' : ∀ u ∈ mid', u.id ≠ id) :
    getByIDScan id (before ++ (mid ++ after)) = getByIDScan id (before ++ (mid' ++ after)) := by
  have hnone : ∀ us : List User, (∀ u ∈ us, u.id ≠ id) →
      us.find? (fun u => u.id = id) = none := by
    intro us hus
    simpa [List.find?_eq_none] using hus
  simp only [getByIDScan_eq_find?, List.find?_append, hnone mid hmid, hnone mid' hmid',
    Option.none_or]

theorem getByID_update {s : MemoryUserStore} {id id' : Int} {input : UpdateUserRequest}
    (h : id' ≠ id) : (s.update id input).1.getByID id' = s.getByID id' := by
  unfold update getByID
  split
  · rename_i users user hscan
    obtain ⟨before, target, after, hus, -, rfl, rfl, rfl⟩ := updateScan_ok hscan
    rw [hus]
    exact getByIDScan_replace before [_] [_] after (by simpa using h.symm)
      (by simpa using h.symm)
  · rfl

theorem getByID_updatePassword {s : MemoryUserStore} {id id' : Int} {hash : String}
    (h : id' ≠ id) : (s.updatePassword id hash).1.getByID id' = s.getByID id' := by
  unfold updatePassword getByID
  split
  · rename_i users hscan
    obtain ⟨before, target, after, hus, -, rfl, rfl⟩ := updatePasswordScan_ok hscan
    rw [hus]
    exact getByIDScan_replace before [_] [_] after (by simpa using h.symm)
      (by simpa using h.symm)
  · rfl

theorem getByID_delete {s : MemoryUserStore} {id id' : Int} (h : id' ≠ id) :
    (s.delete id).1.getByID id' = s.getByID id' := by
  unfold delete getByID
  split
  · rename_i users hscan
    obtain ⟨before, target, after, hus, -, rfl, rfl⟩ := deleteScan_ok hscan
    rw [hus]
    exact getByIDScan_replace before [] [_] after (by simp) (by simpa using h.symm)
  · rfl

theorem getByID_create {s : MemoryUserStore} {input : CreateUserRequest} {id' : Int}
    (h : id' ≠ s.nextID) : (s.create input).1.getByID id' = s.getByID id' := by
  unfold create getByID
  split
  · rfl
  · simpa using getByIDScan_replace s.users [_] [] [] (by simpa using h.symm) (by simp)

theorem getByIDScan_append {id : Int} {before after : List User} {target : User}
    (hbefore : ∀ u ∈ before, u.id ≠ id) (htarget : target.id = id) :
    getByIDScan id (before ++ target :: after) = .ok target := by
  have hnone : before.find? (fun u => u.id = id) = none := by
    simpa [List.find?_eq_none] using hbefore
  rw [getByIDScan_eq_find?, List.find?_append, hnone, Option.none_or,
    List.find?_cons_of_pos (by simpa using htarget)]
  rfl

theorem mem_of_getByID {s : MemoryUserStore} {id : Int} {user : User}
    (h : s.getByID id = .ok user) : user ∈ s.users ∧ user.id = id := by
  rw [getByID, getByIDScan_eq_find?] at h
  cases hfind : s.users.find? (fun u => u.id = id) with
  | none => simp [hfind] at h
  | some found =>
    rw [hfind] at h
    cases h
    exact ⟨List.mem_of_find?_eq_some hfind, by simpa using List.find?_some hfind⟩

/-- `GetByEmail` returns the first user with the email. -/
theorem getByEmailScan_ok_iff {email : String} {us : List User} {user : User} :
    getByEmailScan email us = .ok user ↔
      ∃ before after, us = before ++ user :: after ∧ user.email = email ∧
        ∀ v ∈ before, v.email ≠ email := by
  constructor
  · intro h
    induction us with
    | nil => cases h
    | cons u us ih =>
      unfold getByEmailScan at h
      split at h
      · rename_i heq
        cases h
        exact ⟨[], us, rfl, heq, by simp⟩
      · rename_i hne
        obtain ⟨before, after, rfl, hemail, hbefore⟩ := ih h
        exact ⟨u :: before, after, rfl, hemail, by simpa using ⟨hne, hbefore⟩⟩
  · rintro ⟨before, after, rfl, hemail, hbefore⟩
    induction before with
    | nil => simp [getByEmailScan, hemail]
    | cons u before ih =>
      have hu : u.email ≠ email := hbefore u List.mem_cons_self
      have hrest := ih fun v hv => hbefore v (List.mem_cons_of_mem u hv)
      simpa [getByEmailScan, hu] using hrest

/-! ## What a write leaves -/

theorem create_error {s s' : MemoryUserStore} {input : CreateUserRequest} {e : StoreError}
    (h : s.create input = (s', .error e)) : s' = s := by
  unfold create at h
  split at h <;> cases h
  rfl

theorem update_error {s s' : MemoryUserStore} {id : Int} {input : UpdateUserRequest}
    {e : StoreError} (h : s.update id input = (s', .error e)) : s' = s := by
  unfold update at h
  split at h <;> cases h
  rfl

theorem delete_error {s s' : MemoryUserStore} {id : Int} {e : StoreError}
    (h : s.delete id = (s', .error e)) : s' = s := by
  unfold delete at h
  split at h <;> cases h
  rfl

theorem updatePassword_error {s s' : MemoryUserStore} {id : Int} {hash : String}
    {e : StoreError} (h : s.updatePassword id hash = (s', .error e)) : s' = s := by
  unfold updatePassword at h
  split at h <;> cases h
  rfl

theorem create_ok {s s' : MemoryUserStore} {input : CreateUserRequest} {user : User}
    (h : s.create input = (s', .ok user)) :
    user = ⟨s.nextID, input.name, input.email, input.password⟩ ∧
      s' = ⟨s.users ++ [user], s.nextID + 1⟩ := by
  unfold create at h
  split at h
  · cases h
  · cases h
    exact ⟨rfl, rfl⟩

theorem update_ok {s s' : MemoryUserStore} {id : Int} {input : UpdateUserRequest} {user : User}
    (h : s.update id input = (s', .ok user)) :
    ∃ old, s.getByID id = .ok old ∧ old.id = id ∧
      user = { old with name := input.name, email := input.email } ∧ s'.getByID id = .ok user := by
  unfold update at h
  split at h
  · rename_i users r hscan
    cases h
    obtain ⟨before, target, after, hus, hbefore, htarget, rfl, rfl⟩ := updateScan_ok hscan
    have hids : ∀ u ∈ before, u.id ≠ id := fun u hu => (hbefore u hu).1
    refine ⟨target, ?_, htarget, rfl, getByIDScan_append hids htarget⟩
    rw [getByID, hus, getByIDScan_append hids htarget]
  · cases h

theorem updatePassword_ok {s s' : MemoryUserStore} {id : Int} {hash : String}
    (h : s.updatePassword id hash = (s', .ok ())) :
    ∃ old, s.getByID id = .ok old ∧ s'.getByID id = .ok { old with passwordHash := hash } := by
  unfold updatePassword at h
  split at h
  · rename_i users hscan
    cases h
    obtain ⟨before, target, after, hus, hbefore, htarget, rfl⟩ := updatePasswordScan_ok hscan
    refine ⟨target, ?_, getByIDScan_append hbefore htarget⟩
    rw [getByID, hus, getByIDScan_append hbefore htarget]
  · cases h

/-! ## Ids -/

/-- The ids are distinct, and the next one is larger than all of them. -/
structure Numbered (s : MemoryUserStore) : Prop where
  nodup : (s.users.map User.id).Nodup
  lt_next : ∀ u ∈ s.users, u.id < s.nextID

theorem numbered_new : Numbered newMemoryUserStore := ⟨List.nodup_nil, by simp [newMemoryUserStore]⟩

/-- **What a call does to the ids.** It drops some or none, or appends the next
one. -/
theorem ids_apply (s : MemoryUserStore) (op : Op) :
    ((s.apply op).users.map User.id).Sublist (s.users.map User.id) ∧
        (s.apply op).nextID = s.nextID ∨
      ∃ user, user.id = s.nextID ∧ s.apply op = ⟨s.users ++ [user], s.nextID + 1⟩ := by
  cases op with
  | create input =>
    simp only [apply, create]
    split
    · exact .inl ⟨List.Sublist.refl _, rfl⟩
    · exact .inr ⟨_, rfl, rfl⟩
  | update id input =>
    simp only [apply, update]
    split
    · rename_i us r hscan
      obtain ⟨before, target, after, hus, -, -, rfl, rfl⟩ := updateScan_ok hscan
      exact .inl ⟨by simp [hus], rfl⟩
    · exact .inl ⟨List.Sublist.refl _, rfl⟩
  | updatePassword id hash =>
    simp only [apply, updatePassword]
    split
    · rename_i us hscan
      obtain ⟨before, target, after, hus, -, -, rfl⟩ := updatePasswordScan_ok hscan
      exact .inl ⟨by simp [hus], rfl⟩
    · exact .inl ⟨List.Sublist.refl _, rfl⟩
  | delete id =>
    simp only [apply, delete]
    split
    · rename_i us hscan
      obtain ⟨before, target, after, hus, -, -, rfl⟩ := deleteScan_ok hscan
      exact .inl ⟨by simp [hus], rfl⟩
    · exact .inl ⟨List.Sublist.refl _, rfl⟩

theorem Numbered.apply {s : MemoryUserStore} (hs : s.Numbered) (op : Op) :
    (s.apply op).Numbered := by
  rcases ids_apply s op with ⟨hids, hnext⟩ | ⟨user, hid, heq⟩
  · refine ⟨hs.nodup.sublist hids, fun u hu => ?_⟩
    obtain ⟨v, hv, hvu⟩ := List.mem_map.mp (hids.subset (List.mem_map_of_mem hu))
    rw [hnext, ← hvu]
    exact hs.lt_next v hv
  · rw [heq]
    refine ⟨?_, fun u hu => ?_⟩
    · rw [List.map_append, List.map_singleton, ← List.concat_eq_append, List.nodup_concat]
      refine ⟨fun hmem => ?_, hs.nodup⟩
      obtain ⟨v, hv, hvid⟩ := List.mem_map.mp hmem
      exact Int.ne_of_lt (hs.lt_next v hv) (hvid.trans hid)
    · rcases List.mem_append.mp hu with hold | hnew
      · exact Int.lt_add_one_of_le (Int.le_of_lt (hs.lt_next u hold))
      · rw [List.mem_singleton.mp hnew, hid]
        exact Int.lt_succ _

/-- With distinct ids a user of the list is the one its id finds. -/
theorem Numbered.getByID_of_mem {s : MemoryUserStore} (hs : s.Numbered) {u : User}
    (hu : u ∈ s.users) : s.getByID u.id = .ok u := by
  obtain ⟨before, after, hus⟩ := List.append_of_mem hu
  have hnodup := hs.nodup
  rw [hus, List.map_append, List.map_cons, List.nodup_append] at hnodup
  rw [getByID, hus]
  refine getByIDScan_append (fun v hv => ?_) rfl
  exact hnodup.2.2 v.id (List.mem_map_of_mem hv) u.id List.mem_cons_self

theorem Numbered.getByID_created {s s' : MemoryUserStore} (hs : s.Numbered)
    {input : CreateUserRequest} {user : User} (h : s.create input = (s', .ok user)) :
    s'.getByID user.id = .ok user := by
  have hs' : s' = s.apply (.create input) := by simp [MemoryUserStore.apply, h]
  have hnum : s'.Numbered := hs' ▸ hs.apply _
  obtain ⟨-, rfl⟩ := create_ok h
  exact hnum.getByID_of_mem (by simp)

end GoRestApi.Store.MemoryUserStore
