/-
GoRestApi.Cache.UserCache — the cache of `internal/cache`: `MemoryCache` and
`UserCache`, and the payload that `CachedUserStore` keeps in it.

A `*UserCache` that is nil, or has no `Cache`, misses every `Get` and ignores
`Set` and `Delete`; both are `none` here. Values are copied in and out, so
they are values. The payloads are the elements of a type `π`; what the code
needs of them is in `UserCodec`, and `UserCodec.json` is the one it uses.
-/
import GoRestApi.Encoding.Object
import GoRestApi.Go.Strconv
import GoRestApi.Go.Time
import GoRestApi.Store.UserStore

namespace GoRestApi.Cache

open Go Store

/-! ## `MemoryCache` -/

/-- `entry`. -/
structure Entry (π : Type) where
  value : π
  expiresAt : Time
  deriving DecidableEq, Repr

structure MemoryCache (π : Type) where
  entries : String → Option (Entry π)

namespace MemoryCache

variable {π : Type}

def new : MemoryCache π := ⟨fun _ => none⟩

/-- `Get`, with `none` for `ErrMiss`. An entry that has expired is deleted. -/
def get (c : MemoryCache π) (now : Time) (key : String) : MemoryCache π × Option π :=
  match c.entries key with
  | none => (c, none)
  | some e =>
    if ¬ now < e.expiresAt then (⟨Function.update c.entries key none⟩, none)
    else (c, some e.value)

def set (c : MemoryCache π) (now : Time) (key : String) (value : π) (ttl : Duration) :
    MemoryCache π :=
  if ttl ≤ 0 then c else ⟨Function.update c.entries key (some ⟨value, now + ttl⟩)⟩

def delete (c : MemoryCache π) (key : String) : MemoryCache π :=
  ⟨Function.update c.entries key none⟩

/-- A hit returns the value of an entry that has not expired, and changes
nothing. -/
theorem get_eq_some {c c' : MemoryCache π} {now : Time} {key : String} {v : π}
    (h : c.get now key = (c', some v)) :
    c' = c ∧ ∃ e, c.entries key = some e ∧ e.value = v ∧ now < e.expiresAt := by
  unfold get at h
  split at h
  · cases h
  · rename_i e he
    split at h
    · cases h
    · rename_i hlive
      cases h
      exact ⟨rfl, e, he, rfl, not_not.mp hlive⟩

/-- `Get` adds no entry. -/
theorem entries_of_get {c c' : MemoryCache π} {now : Time} {key k : String} {v : Option π}
    {e : Entry π} (h : c.get now key = (c', v)) (he : c'.entries k = some e) :
    c.entries k = some e := by
  unfold get at h
  split at h
  · cases h
    exact he
  · split at h
    · cases h
      by_cases hk : k = key
      · subst hk
        simp at he
      · simpa [Function.update_of_ne hk] using he
    · cases h
      exact he

/-- An entry after `Set` is the one that was set, or was there before. -/
theorem entries_of_set {c : MemoryCache π} {now : Time} {key k : String} {v : π}
    {ttl : Duration} {e : Entry π} (he : (c.set now key v ttl).entries k = some e) :
    k = key ∧ e = ⟨v, now + ttl⟩ ∨ c.entries k = some e := by
  unfold set at he
  split at he
  · exact .inr he
  · by_cases hk : k = key
    · subst hk
      simp only [Function.update_self, Option.some.injEq] at he
      exact .inl ⟨rfl, he.symm⟩
    · exact .inr (by simpa [Function.update_of_ne hk] using he)

/-- An entry after `Delete` was there before, under another key. -/
theorem entries_of_delete {c : MemoryCache π} {key k : String} {e : Entry π}
    (he : (c.delete key).entries k = some e) : k ≠ key ∧ c.entries k = some e := by
  by_cases hk : k = key
  · subst hk
    simp [delete] at he
  · exact ⟨hk, by simpa [delete, Function.update_of_ne hk] using he⟩

end MemoryCache

/-! ## `UserCache` -/

/-- `fmt.Sprintf("user:%d", id)`. -/
def keyFor (id : Int64) : String := "user:" ++ Strconv.formatInt id

theorem keyFor_injective : Function.Injective keyFor := by
  intro a b h
  have hformat : Strconv.formatInt a = Strconv.formatInt b := by
    simpa [keyFor, String.append_right_inj] using h
  have hparse := congrArg Strconv.parseInt hformat
  rw [Strconv.parseInt_formatInt, Strconv.parseInt_formatInt] at hparse
  exact Option.some.inj hparse

/-- `*UserCache`; `none` is one that is nil or has no cache. -/
abbrev UserCache (π : Type) := Option (MemoryCache π)

namespace UserCache

variable {π : Type}

def get (c : UserCache π) (now : Time) (id : Int64) : UserCache π × Option π :=
  match c with
  | none => (none, none)
  | some c => ((c.get now (keyFor id)).1, (c.get now (keyFor id)).2)

def setWithTTL (c : UserCache π) (now : Time) (id : Int64) (value : π) (ttl : Duration) :
    UserCache π :=
  c.map fun c => c.set now (keyFor id) value ttl

def delete (c : UserCache π) (id : Int64) : UserCache π :=
  c.map fun c => c.delete (keyFor id)

@[simp] theorem isSome_get (c : UserCache π) (now : Time) (id : Int64) :
    (c.get now id).1.isSome = c.isSome := by
  cases c <;> rfl

@[simp] theorem isSome_setWithTTL (c : UserCache π) (now : Time) (id : Int64) (value : π)
    (ttl : Duration) : (c.setWithTTL now id value ttl).isSome = c.isSome := by
  cases c <;> rfl

@[simp] theorem isSome_delete (c : UserCache π) (id : Int64) :
    (c.delete id).isSome = c.isSome := by
  cases c <;> rfl

/-- The entry of the user `id`. -/
def entry (c : UserCache π) (id : Int64) : Option (Entry π) :=
  c.bind fun c => c.entries (keyFor id)

theorem get_eq_some {c : UserCache π} {now : Time} {id : Int64} {v : π}
    (h : (c.get now id).2 = some v) :
    (c.get now id).1 = c ∧ ∃ e, c.entry id = some e ∧ e.value = v ∧ now < e.expiresAt := by
  cases c with
  | none => cases h
  | some c =>
    obtain ⟨hc, e, he⟩ := MemoryCache.get_eq_some (Prod.ext rfl h)
    exact ⟨congrArg some hc, e, he⟩

theorem entry_of_get {c : UserCache π} {now : Time} {id id' : Int64} {e : Entry π}
    (he : (c.get now id).1.entry id' = some e) : c.entry id' = some e := by
  cases c with
  | none => cases he
  | some c => exact MemoryCache.entries_of_get rfl he

theorem entry_of_setWithTTL {c : UserCache π} {now : Time} {id id' : Int64} {v : π}
    {ttl : Duration} {e : Entry π} (he : (c.setWithTTL now id v ttl).entry id' = some e) :
    id' = id ∧ e = ⟨v, now + ttl⟩ ∨ c.entry id' = some e := by
  cases c with
  | none => cases he
  | some c =>
    obtain ⟨hk, heq⟩ | hbefore := MemoryCache.entries_of_set he
    · exact .inl ⟨keyFor_injective hk, heq⟩
    · exact .inr hbefore

theorem entry_of_delete {c : UserCache π} {id id' : Int64} {e : Entry π}
    (he : (c.delete id).entry id' = some e) : id' ≠ id ∧ c.entry id' = some e := by
  cases c with
  | none => cases he
  | some c =>
    obtain ⟨hk, hbefore⟩ := MemoryCache.entries_of_delete he
    exact ⟨fun h => hk (congrArg keyFor h), hbefore⟩

end UserCache

/-! ## Payloads -/

/-- The fields of a user that go into its payload: the anonymous struct of
`GetByID`. They are also the fields of `model.User` that JSON shows. -/
structure Public where
  id : Int
  name : String
  email : String
  deriving DecidableEq, Repr

def Public.of (u : User) : Public := ⟨u.id, u.name, u.email⟩

/-- `JSONEncode` and `JSONDecode`, of the payload and into a `model.User`. -/
structure UserCodec (π : Type) where
  encode : Public → Except String π
  decode : π → Except String User

/-- Decoding what was encoded gives the three fields back. -/
structure UserCodec.RoundTrips {π : Type} (c : UserCodec π) : Prop where
  decode_encode : ∀ (p : Public) (data : π), c.encode p = .ok data →
    ∃ u, c.decode data = .ok u ∧ Public.of u = p

namespace UserCodec

open Encoding

/-- The payload's fields. -/
def fields : List (RecordField Public) :=
  [.number "id" Public.id (fun x p => { p with id := x }) (fun _ _ => rfl),
    .text "name" Public.name (fun x p => { p with name := x }) (fun _ _ => rfl),
    .text "email" Public.email (fun x p => { p with email := x }) (fun _ _ => rfl)]

theorem lawful_fields : Lawful fields where
  names := by decide
  independent := by
    intro f hf v t t' hset
    simp only [fields, List.mem_cons, List.not_mem_nil, or_false] at hf
    rcases hf with rfl | rfl | rfl <;>
    · obtain ⟨x, _, rfl⟩ := Option.map_eq_some_iff.mp hset
      simp [fields]
  ext := by
    intro s t h
    cases s
    cases t
    simpa [fields] using h

/-- A payload is empty, or a text for the decoder. -/
inductive Payload where
  | empty
  | document (d : Document)
  deriving DecidableEq, Repr

/-- The fields of `model.User` other than these three are not decoded, and
stay zero; `null` leaves them all. -/
def json : UserCodec Payload where
  encode p := .ok (.document (.object (Encoding.marshal fields p)))
  decode
    | .empty => .error "empty cache value"
    | .document d => (d.read fields ⟨0, "", ""⟩).map fun p => ⟨p.id, p.name, p.email, ""⟩

theorem roundTrips_json : json.RoundTrips where
  decode_encode := by
    intro p data hdata
    cases hdata
    refine ⟨⟨p.id, p.name, p.email, ""⟩, ?_, rfl⟩
    have hround : (Document.object (Encoding.marshal fields p)).read fields ⟨0, "", ""⟩ = .ok p :=
      lawful_fields.read_marshal (by simp [fields])
    simp only [json, hround, Except.map]

end UserCodec

end GoRestApi.Cache
