/-
GoRestApi.Redis.Keyspace — keys with a time to live.

`Keys` is what a server holds, and a key is found as long as its life is not
over. How the end of a life is written down is left open: a model may take the
clock of the server to be exact, or leave keys without a time to live, and then
says by `live` which keys there are at an instant.

`Keyspace` has the server's own way of counting, and what it does for `SET`,
`GET` and `EXISTS`; after it is what the client sends for a duration. The server
counts time in whole milliseconds, and a key whose last millisecond
is over is gone: it is not found any more, and its memory may be reclaimed at
any time. The client sends a whole number of seconds by `EX`, and any other
duration by `PX` in milliseconds, rounded down but at least one. So there are
two roundings between a time to live and the instant at which the key is gone,
and the lemmas at the end say how far that instant can be off. It is exact
where it should be: a duration that ends on a full millisecond is never cut
short (`alive_of_dvd`).

A command may fail with or without an effect, since the reply can be lost.
-/
import GoRestApi.Go.Time
import Mathlib.Logic.Function.Basic

namespace GoRestApi.RedisServer

open Go

/-! ## Keys -/

/-- A value, and the end of its life. -/
structure Key (δ π : Type) where
  value : π
  expireAt : δ
  deriving DecidableEq, Repr

/-- What the server holds; keys that are gone may still be here. -/
structure Keys (δ π : Type) where
  keys : String → Option (Key δ π)

namespace Keys

variable {δ π : Type}

def empty : Keys δ π := ⟨fun _ => none⟩

/-- The key, if its life is not over. -/
def live (r : Keys δ π) (alive : δ → Bool) (name : String) : Option (Key δ π) :=
  (r.keys name).filter fun k => alive k.expireAt

def put (r : Keys δ π) (name : String) (k : Key δ π) : Keys δ π :=
  ⟨Function.update r.keys name (some k)⟩

/-- `DEL name`. -/
def del (r : Keys δ π) (name : String) : Keys δ π := ⟨Function.update r.keys name none⟩

section

variable {r : Keys δ π} {alive : δ → Bool} {name other : String} {k : Key δ π}

theorem live_eq_some_iff :
    r.live alive name = some k ↔ r.keys name = some k ∧ alive k.expireAt = true := by
  simp [live, Option.filter_eq_some_iff]

theorem live_eq_none_iff :
    r.live alive name = none ↔ ∀ k, r.keys name = some k → alive k.expireAt = false := by
  simp [live, Option.filter_eq_none_iff]

@[simp] theorem keys_put_self (r : Keys δ π) (name : String) (k : Key δ π) :
    (r.put name k).keys name = some k :=
  Function.update_self ..

theorem keys_put_of_ne (h : other ≠ name) : (r.put name k).keys other = r.keys other :=
  Function.update_of_ne h ..

theorem live_put_of_ne (h : other ≠ name) :
    (r.put name k).live alive other = r.live alive other := by
  rw [live, live, keys_put_of_ne h]

@[simp] theorem put_put (r : Keys δ π) (name : String) (k k' : Key δ π) :
    (r.put name k).put name k' = r.put name k' := by
  simp [put]

@[simp] theorem keys_del_self (r : Keys δ π) (name : String) : (r.del name).keys name = none :=
  Function.update_self ..

theorem keys_del_of_ne (h : other ≠ name) : (r.del name).keys other = r.keys other :=
  Function.update_of_ne h ..

end

end Keys

/-! ## The server -/

/-- The clock of the server, in milliseconds. -/
def mstime (now : Time) : Int := now / Time.millisecond

/-- A string, and the last millisecond of its life. -/
abbrev StringKey (π : Type) := Key Int π

abbrev Keyspace (π : Type) := Keys Int π

namespace Keyspace

variable {π : Type}

/-- The key, if it exists at the instant. -/
def lookup (r : Keyspace π) (now : Time) (name : String) : Option (StringKey π) :=
  r.live (fun last => mstime now ≤ last) name

/-- `GET name`; `none` is `redis.Nil`. -/
def get (r : Keyspace π) (now : Time) (name : String) : Option π :=
  (r.lookup now name).map Key.value

/-- `EXISTS name`. -/
def exist (r : Keyspace π) (now : Time) (name : String) : Bool := (r.lookup now name).isSome

/-- `SET name value PX millis`. -/
def set (r : Keyspace π) (now : Time) (name : String) (value : π) (millis : Int) : Keyspace π :=
  r.put name ⟨value, mstime now + millis⟩

/-- The server gives back the memory of a key that is gone. -/
def reclaim (r : Keyspace π) (now : Time) (name : String) : Keyspace π :=
  match r.lookup now name with
  | none => r.del name
  | some _ => r

end Keyspace

/-- How a command ends for the client: with its reply, with an error and no
effect, or with an error although it was carried out. -/
inductive CommandEnd where
  | answered
  | refused
  | lost
  deriving DecidableEq, Repr

/-! ## The client -/

/-- `usePrecise`: the duration is no whole number of seconds. -/
def UsePrecise (d : Duration) : Prop := d < Time.second ∨ d % Time.second ≠ 0

instance : DecidablePred UsePrecise := fun _ => inferInstanceAs (Decidable (_ ∨ _))

/-- `formatMs`. -/
def formatMs (d : Duration) : Int :=
  if 0 < d ∧ d < Time.millisecond then 1 else d.tdiv Time.millisecond

/-- The time to live that `Set` sends, by `PX` or by `EX`, in milliseconds. -/
def ttlMillis (d : Duration) : Int :=
  if UsePrecise d then formatMs d else d.tdiv Time.second * 1000

/-! ## Durations -/

/-- Either way the duration is rounded down, but not to nothing. -/
theorem ttlMillis_eq {d : Int} (hd : 0 < d) : ttlMillis d = max 1 (d / Time.millisecond) := by
  have hdiv (n : Int) : d.tdiv n = d / n := Int.tdiv_eq_ediv_of_nonneg (Int.le_of_lt hd)
  unfold ttlMillis formatMs
  rw [hdiv, hdiv]
  by_cases hprecise : UsePrecise d
  · rw [if_pos hprecise]
    by_cases hsmall : d < Time.millisecond
    · rw [if_pos ⟨hd, hsmall⟩]
      simp only [Time.millisecond] at hsmall ⊢
      omega
    · rw [if_neg fun h => hsmall h.2]
      simp only [Time.millisecond] at hsmall ⊢
      omega
  · rw [if_neg hprecise]
    simp only [UsePrecise, Time.second, not_or, ne_eq, not_not] at hprecise
    simp only [Time.millisecond, Time.second]
    dsimp only [Duration] at hprecise
    omega

/-- **A key lives for its time to live, but for less than a millisecond.** -/
theorem alive_of_le {now t d : Int} (hd : 0 < d) (h : t + Time.millisecond ≤ now + d) :
    mstime t ≤ mstime now + ttlMillis d := by
  rw [ttlMillis_eq hd]
  simp only [mstime, Time.millisecond] at h ⊢
  omega

/-- If the time to live, counted from an instant before the command, ends on a
full millisecond, then the key lives until then. -/
theorem alive_of_dvd {start now t d : Int} (hd : 0 < d) (hstart : start ≤ now)
    (hdvd : Time.millisecond ∣ start + d) (h : t < start + d) :
    mstime t ≤ mstime now + ttlMillis d := by
  rw [ttlMillis_eq hd]
  simp only [mstime, Time.millisecond] at hdvd ⊢
  dsimp only [Duration] at hdvd
  omega

/-- A key outlives its time to live by less than two milliseconds. -/
theorem lt_of_alive {now t d : Int} (hd : 0 < d) (h : mstime t ≤ mstime now + ttlMillis d) :
    t < now + d + 2 * Time.millisecond := by
  rw [ttlMillis_eq hd] at h
  simp only [mstime, Time.millisecond] at h ⊢
  omega

/-! ## Strings -/

namespace Keyspace

variable {π : Type} {r : Keyspace π} {now t : Time} {name other : String} {value : π}

theorem lookup_eq_some_iff {k : StringKey π} :
    r.lookup now name = some k ↔ r.keys name = some k ∧ mstime now ≤ k.expireAt := by
  rw [lookup, Keys.live_eq_some_iff, decide_eq_true_iff]

theorem exist_iff : r.exist now name = true ↔ ∃ k, r.lookup now name = some k :=
  Option.isSome_iff_exists

/-- Clocks go forward, and a key that is gone stays so. -/
theorem lookup_of_le (hle : now ≤ t) {k : StringKey π} (h : r.lookup t name = some k) :
    r.lookup now name = some k := by
  rw [lookup_eq_some_iff] at h ⊢
  exact ⟨h.1, Int.le_trans (Int.ediv_le_ediv (by decide) hle) h.2⟩

theorem keys_set_self (millis : Int) :
    (r.set now name value millis).keys name = some ⟨value, mstime now + millis⟩ :=
  Keys.keys_put_self ..

theorem keys_set_of_ne (h : other ≠ name) (millis : Int) :
    (r.set now name value millis).keys other = r.keys other :=
  Keys.keys_put_of_ne h

/-- Reclaiming takes away no key but one that is gone. -/
theorem keys_reclaim_cases (r : Keyspace π) (now : Time) (name other : String) :
    (r.reclaim now name).keys other = r.keys other ∨
      (r.reclaim now name).keys other = none ∧ r.lookup now other = none := by
  unfold reclaim
  split
  · rename_i hgone
    by_cases hname : other = name
    · subst hname
      exact .inr ⟨Keys.keys_del_self .., hgone⟩
    · exact .inl (Keys.keys_del_of_ne hname)
  · exact .inl rfl

end Keyspace

end GoRestApi.RedisServer
