/-
GoRestApi.Store.UserIdentity — ids of the in-memory store over whole runs, and
what each call leaves as it was.

Ids stand for users outside the store: in tokens, in cache keys, in paths. The
list is in the order of creation, and every id in it is below `nextID`, which
never goes down; so the ids in the list increase, and an id that was handed
out is not handed out again, whether its user is still there or not.

`ids_apply` of `UserStoreTheorems` says what a call can do to the ids; the
invariant (`Ordered`) and its consequences follow from it alone. The frames
are read off the scans: with distinct ids there is one user for a scan to stop
at, and what it leaves is the list with that user mapped, or filtered out.
-/
import GoRestApi.Store.UserStoreTheorems

namespace GoRestApi.Store.MemoryUserStore

open Lts

/-! ## Ids -/

/-- The ids increase along the list, up to the next one. -/
def Ordered (s : MemoryUserStore) : Prop :=
  (s.users.map User.id ++ [s.nextID]).Pairwise (· < ·)

theorem ordered_iff {s : MemoryUserStore} :
    Ordered s ↔ (s.users.map User.id).Pairwise (· < ·) ∧ ∀ u ∈ s.users, u.id < s.nextID := by
  simp [Ordered, List.pairwise_append]

theorem ordered_new : Ordered newMemoryUserStore := List.pairwise_singleton ..

theorem Ordered.apply {s : MemoryUserStore} (h : Ordered s) (op : Op) : Ordered (s.apply op) := by
  rcases ids_apply s op with ⟨hids, hnext⟩ | ⟨user, hid, heq⟩
  · rw [Ordered, hnext]
    exact h.sublist (hids.append_right _)
  · have hle : ∀ id ∈ s.users.map User.id ++ [s.nextID], id ≤ s.nextID := by
      intro id hmem
      rcases List.mem_append.mp hmem with hold | hnew
      · obtain ⟨u, hu, rfl⟩ := List.mem_map.mp hold
        exact Int.le_of_lt ((ordered_iff.mp h).2 u hu)
      · exact Int.le_of_eq (List.mem_singleton.mp hnew)
    rw [Ordered, heq, List.map_append, List.map_singleton, hid, List.pairwise_append]
    refine ⟨h, List.pairwise_singleton .., fun id hmem next hnext => ?_⟩
    rw [List.mem_singleton.mp hnext]
    exact Int.lt_add_one_of_le (hle id hmem)

theorem ordered_run {ops : List Op} {s : MemoryUserStore}
    (hrun : run step newMemoryUserStore ops = some s) : Ordered s := by
  refine run_invariant (fun s op s' h hstep => ?_) ordered_new hrun
  cases hstep
  exact h.apply op

theorem nextID_le_run {ops : List Op} {s t : MemoryUserStore}
    (hrun : run step s ops = some t) : s.nextID ≤ t.nextID := by
  refine run_invariant (I := fun t => s.nextID ≤ t.nextID) (fun u op u' h hstep => ?_)
    (Int.le_refl _) hrun
  cases hstep
  rcases ids_apply u op with ⟨-, hnext⟩ | ⟨user, -, heq⟩
  · rw [hnext]
    exact h
  · rw [heq]
    exact Int.le_trans h (Int.le_of_lt (Int.lt_succ _))

/-- An id below the next one that no user has is never given to one. -/
theorem absent_run {id : Int} {ops : List Op} {s t : MemoryUserStore} (hlt : id < s.nextID)
    (habsent : id ∉ s.users.map User.id) (hrun : run step s ops = some t) :
    id ∉ t.users.map User.id := by
  have hinv : id < t.nextID ∧ id ∉ t.users.map User.id := by
    refine run_invariant (I := fun t => id < t.nextID ∧ id ∉ t.users.map User.id)
      (fun u op u' h hstep => ?_) ⟨hlt, habsent⟩ hrun
    cases hstep
    rcases ids_apply u op with ⟨hids, hnext⟩ | ⟨user, hid, heq⟩
    · rw [hnext]
      exact ⟨h.1, fun hmem => h.2 (hids.subset hmem)⟩
    · rw [heq]
      refine ⟨Int.lt_trans h.1 (Int.lt_succ _), ?_⟩
      simpa [hid] using ⟨by simpa using h.2, Int.ne_of_lt h.1⟩
  exact hinv.2

theorem getByID_of_absent {s : MemoryUserStore} {id : Int} (h : id ∉ s.users.map User.id) :
    s.getByID id = .error .userNotFound := by
  have hnone : s.users.find? (fun u => u.id = id) = none := by
    rw [List.find?_eq_none]
    intro u hu
    simpa using fun hid => h (List.mem_map.mpr ⟨u, hu, hid⟩)
  rw [getByID, getByIDScan_eq_find?, hnone]
  rfl

/-! ## Frames -/

/-- The user with the id changed by `f`, and every other one as it was. -/
def mapUser (id : Int) (f : User → User) (us : List User) : List User :=
  us.map fun u => if u.id = id then f u else u

theorem mapUser_of_ne {id : Int} {f : User → User} {us : List User} (h : ∀ u ∈ us, u.id ≠ id) :
    mapUser id f us = us := by
  refine (List.map_congr_left fun u hu => ?_).trans (List.map_id us)
  exact if_neg (h u hu)

theorem mapUser_append {id : Int} {f : User → User} {before after : List User} {target : User}
    (hbefore : ∀ u ∈ before, u.id ≠ id) (htarget : target.id = id)
    (hafter : ∀ u ∈ after, u.id ≠ id) :
    mapUser id f (before ++ target :: after) = before ++ f target :: after := by
  have hb := mapUser_of_ne (f := f) hbefore
  have ha := mapUser_of_ne (f := f) hafter
  simp only [mapUser] at hb ha ⊢
  rw [List.map_append, List.map_cons, hb, ha, if_pos htarget]

/-- With increasing ids nobody behind a user has the id of that user. -/
theorem Ordered.after_ne {s : MemoryUserStore} (h : Ordered s) {before after : List User}
    {target : User} (hus : s.users = before ++ target :: after) :
    ∀ u ∈ after, u.id ≠ target.id := by
  have hsorted := (ordered_iff.mp h).1
  rw [hus, List.map_append, List.map_cons, List.pairwise_append, List.pairwise_cons] at hsorted
  exact fun u hu => (Int.ne_of_lt (hsorted.2.1.1 u.id (List.mem_map_of_mem hu))).symm

theorem Ordered.update_frame {s s' : MemoryUserStore} (h : Ordered s) {id : Int}
    {input : UpdateUserRequest} {user : User} (hok : s.update id input = (s', .ok user)) :
    user ∈ s'.users ∧ user.id = id ∧ s' = { s with
      users := mapUser id (fun u => { u with name := input.name, email := input.email })
        s.users } := by
  unfold update at hok
  split at hok
  · rename_i us r hscan
    cases hok
    obtain ⟨before, target, after, hus, hbefore, htarget, rfl, rfl⟩ := updateScan_ok hscan
    refine ⟨by simp, htarget, ?_⟩
    rw [hus, mapUser_append (fun u hu => (hbefore u hu).1) htarget (htarget ▸ h.after_ne hus)]
  · cases hok

theorem Ordered.updatePassword_frame {s s' : MemoryUserStore} (h : Ordered s) {id : Int}
    {hash : String} (hok : s.updatePassword id hash = (s', .ok ())) :
    id ∈ s.users.map User.id ∧
      s' = { s with users := mapUser id (fun u => { u with passwordHash := hash }) s.users } := by
  unfold updatePassword at hok
  split at hok
  · rename_i us hscan
    cases hok
    obtain ⟨before, target, after, hus, hbefore, htarget, rfl⟩ := updatePasswordScan_ok hscan
    refine ⟨by simp [hus, htarget], ?_⟩
    rw [hus, mapUser_append hbefore htarget (htarget ▸ h.after_ne hus)]
  · cases hok

theorem Ordered.delete_frame {s s' : MemoryUserStore} (h : Ordered s) {id : Int}
    (hok : s.delete id = (s', .ok ())) :
    id ∈ s.users.map User.id ∧ s' = { s with users := s.users.filter fun u => u.id ≠ id } := by
  unfold delete at hok
  split at hok
  · rename_i us hscan
    cases hok
    obtain ⟨before, target, after, hus, hbefore, htarget, rfl⟩ := deleteScan_ok hscan
    have hafter : ∀ u ∈ after, u.id ≠ id := htarget ▸ h.after_ne hus
    have hkeep : ∀ us : List User, (∀ u ∈ us, u.id ≠ id) → us.filter (fun u => u.id ≠ id) = us :=
      fun us hne => List.filter_eq_self.mpr (by simpa using hne)
    refine ⟨by simp [hus, htarget], ?_⟩
    rw [hus, List.filter_append, List.filter_cons_of_neg (by simpa using htarget),
      hkeep before hbefore, hkeep after hafter]
  · cases hok

/-- A call with what it returns: the two methods that return only an error
return no user. -/
def call (s : MemoryUserStore) : Op → MemoryUserStore × Except StoreError (Option User)
  | .create input => (s.create input).map id (Except.map some)
  | .update id' input => (s.update id' input).map id (Except.map some)
  | .updatePassword id' hash => (s.updatePassword id' hash).map id (Except.map fun _ => none)
  | .delete id' => (s.delete id').map id (Except.map fun _ => none)

theorem call_fst (s : MemoryUserStore) (op : Op) : (s.call op).1 = s.apply op := by
  cases op <;> rfl

/-- A result that was mapped is an error only if it was one. -/
theorem eq_error_of_map {α β : Type} {f : α → β} {r : Except StoreError α} {e : StoreError}
    (h : r.map f = .error e) : r = .error e := by
  cases r with
  | error e' => exact congrArg _ (Except.error.inj h)
  | ok x => cases h

theorem apply_of_error {s : MemoryUserStore} {op : Op} {e : StoreError}
    (h : (s.call op).2 = .error e) : s.apply op = s := by
  cases op with
  | create input => exact create_error (Prod.ext rfl (eq_error_of_map h))
  | update id input => exact update_error (Prod.ext rfl (eq_error_of_map h))
  | updatePassword id hash => exact updatePassword_error (Prod.ext rfl (eq_error_of_map h))
  | delete id => exact delete_error (Prod.ext rfl (eq_error_of_map h))

/-! ## The whole of it -/

/-- **User identity.** In every state that calls on an empty store have
reached the ids increase along the list and are below the next one; an id
handed out is not handed out again, and once its user is deleted it finds
nobody, whatever calls follow; a call that fails changes nothing; and one that
succeeds changes what it names and nothing else. -/
theorem user_identity {ops : List Op} {s : MemoryUserStore}
    (hrun : run step newMemoryUserStore ops = some s) :
    ((s.list.map User.id).Pairwise (· < ·) ∧ ∀ u ∈ s.list, u.id < s.nextID) ∧
    (∀ input s' user, s.create input = (s', .ok user) →
      ∀ ops' t, run step s' ops' = some t →
      ∀ input' t' user', t.create input' = (t', .ok user') → user.id < user'.id) ∧
    (∀ id s', s.delete id = (s', .ok ()) →
      ∀ ops' t, run step s' ops' = some t → t.getByID id = .error .userNotFound) ∧
    (∀ op e, (s.call op).2 = .error e → (s.call op).1 = s) ∧
    (∀ input s' user, s.create input = (s', .ok user) →
      user = ⟨s.nextID, input.name, input.email, input.password⟩ ∧
        s' = ⟨s.users ++ [user], s.nextID + 1⟩) ∧
    (∀ id input s' user, s.update id input = (s', .ok user) →
      user ∈ s'.users ∧ user.id = id ∧
        s' = { s with
          users := mapUser id (fun u => { u with name := input.name, email := input.email })
            s.users }) ∧
    (∀ id hash s', s.updatePassword id hash = (s', .ok ()) →
      id ∈ s.users.map User.id ∧
        s' = { s with users := mapUser id (fun u => { u with passwordHash := hash }) s.users }) ∧
    (∀ id s', s.delete id = (s', .ok ()) →
      id ∈ s.users.map User.id ∧
        s' = { s with users := s.users.filter fun u => u.id ≠ id }) := by
  have hord : Ordered s := ordered_run hrun
  refine ⟨ordered_iff.mp hord, ?again, ?deleted, ?failed, fun _ _ _ => create_ok,
    fun _ _ _ _ => hord.update_frame, fun _ _ _ => hord.updatePassword_frame,
    fun _ _ => hord.delete_frame⟩
  case again =>
    intro input s' user hcreate ops' t hrun' input' t' user' hcreate'
    obtain ⟨rfl, rfl⟩ := create_ok hcreate
    obtain ⟨rfl, -⟩ := create_ok hcreate'
    exact Int.lt_of_add_one_le (nextID_le_run hrun')
  case deleted =>
    intro id s' hdelete ops' t hrun'
    obtain ⟨hmem, hs'⟩ := hord.delete_frame hdelete
    obtain ⟨u, hu, hid⟩ := List.mem_map.mp hmem
    have hlt : id < s'.nextID := by
      rw [hs', ← hid]
      exact (ordered_iff.mp hord).2 u hu
    have habsent : id ∉ s'.users.map User.id := by simp [hs']
    exact getByID_of_absent (absent_run hlt habsent hrun')
  case failed =>
    intro op e h
    rw [call_fst]
    exact apply_of_error h

/-- Two users; the second is deleted and a third created, with a new id. -/
theorem user_identity_sample :
    ∃ s, run step newMemoryUserStore
        [.create ⟨"ada", "ada@x", "h1"⟩, .create ⟨"bob", "bob@x", "h2"⟩, .delete 2,
          .create ⟨"eve", "eve@x", "h3"⟩] = some s ∧
      s.list.map User.id = [1, 3] ∧ (s.list.map User.id).Pairwise (· < ·) := by
  obtain ⟨s, hrun, hids⟩ : ∃ s, run step newMemoryUserStore
        [.create ⟨"ada", "ada@x", "h1"⟩, .create ⟨"bob", "bob@x", "h2"⟩, .delete 2,
          .create ⟨"eve", "eve@x", "h3"⟩] = some s ∧ s.list.map User.id = [1, 3] :=
    exists_run_of_any (by decide)
  exact ⟨s, hrun, hids, (user_identity hrun).1.1⟩

end GoRestApi.Store.MemoryUserStore
