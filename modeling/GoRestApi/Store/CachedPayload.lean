/-
GoRestApi.Store.CachedPayload — `GetByID` of `CachedUserStore` when the cache
answers with something else than it was given.

What the cache returns for `user:<id>` is any payload, or an error: entries
may come from another program or another version. `GetByID` asks of a payload
only that it decodes. So an error, a miss or a payload that does not decode
fall back to the inner store, and a payload that decodes is the answer, with
whatever id it has: `answers_for_id_iff`. The JSON decoder takes a missing
member for zero and `null` for an object without members.
-/
import GoRestApi.Store.CachedSequential

namespace GoRestApi.Store.CachedUserStore

open Go Cache Cached

variable {σ ε π : Type}

/-! ## The answer of the cache decides -/

/-- The result of `GetByID` when the cache answers with a payload, or with
`none` for any error. -/
def readThrough (c : Config σ ε π) (st : σ) (answer : Option π) (id : Int64) : Except ε User :=
  match answer.bind fun data => (c.codec.decode data).toOption with
  | some u => .ok u
  | none => c.inner.getByID st id.toInt

/-- What `GetByID` returns depends on the cache by its answer alone. -/
theorem getByID_snd (c : Config σ ε π) (s : CachedUserStore σ π) (getAt setAt : Time)
    (id : Int64) :
    (s.getByID c getAt setAt id).2 = readThrough c s.inner (s.cache.get getAt id).2 id := by
  unfold getByID readThrough
  dsimp only
  cases hread : (s.cache.get getAt id).2.bind fun data => (c.codec.decode data).toOption with
  | some u => rfl
  | none =>
    dsimp only
    cases hinner : c.inner.getByID s.inner id.toInt with
    | error e => rfl
    | ok user =>
      dsimp only
      cases c.codec.encode (.of user) <;> rfl

/-- And every answer is possible. -/
theorem exists_answer (st : σ) (answer : Option π) (id : Int64) :
    ∃ s : CachedUserStore σ π, s.inner = st ∧ (s.cache.get 0 id).2 = answer := by
  cases answer with
  | none => exact ⟨⟨st, none⟩, rfl, rfl⟩
  | some data =>
    refine ⟨⟨st, some ⟨fun _ => some ⟨data, 1⟩⟩⟩, rfl, ?_⟩
    simp [UserCache.get, MemoryCache.get]

theorem readThrough_of_decodes {c : Config σ ε π} {data : π} {u : User}
    (h : c.codec.decode data = .ok u) (st : σ) (id : Int64) :
    readThrough c st (some data) id = .ok u := by
  simp [readThrough, h, Except.toOption]

/-- The answer falls back to the inner store. -/
theorem readThrough_of_not_decodes {c : Config σ ε π} {answer : Option π}
    (h : ∀ data ∈ answer, ∀ u, c.codec.decode data ≠ .ok u) (st : σ) (id : Int64) :
    readThrough c st answer id = c.inner.getByID st id.toInt := by
  cases answer with
  | none => rfl
  | some data =>
    cases hdecode : c.codec.decode data with
    | ok u => exact absurd hdecode (h data rfl u)
    | error msg => simp [readThrough, hdecode, Except.toOption]

/-- **Wrong payloads.** Whatever the cache answers, `GetByID(id)` returns a user
with the id `id` or exactly what the inner store returns if and only if a
payload that decodes has the id `id`, or is what the inner store returns. It
never fails when the inner store succeeds. -/
theorem answers_for_id_iff (c : Config σ ε π) (st : σ) (answer : Option π) (id : Int64) :
    (((∃ u, readThrough c st answer id = .ok u ∧ u.id = id.toInt) ∨
        readThrough c st answer id = c.inner.getByID st id.toInt) ↔
      ∀ data ∈ answer, ∀ u, c.codec.decode data = .ok u →
        u.id = id.toInt ∨ c.inner.getByID st id.toInt = .ok u) ∧
    ∀ user, c.inner.getByID st id.toInt = .ok user → ∃ u, readThrough c st answer id = .ok u := by
  by_cases hdecodes : ∃ data ∈ answer, ∃ u, c.codec.decode data = .ok u
  · obtain ⟨data, rfl, u, hu⟩ := hdecodes
    rw [readThrough_of_decodes hu]
    refine ⟨?_, fun _ _ => ⟨u, rfl⟩⟩
    constructor
    · rintro h data' ⟨⟩ u' hu'
      rw [hu] at hu'
      cases hu'
      rcases h with ⟨_, ⟨⟩, hid⟩ | hinner
      · exact .inl hid
      · exact .inr hinner.symm
    · intro h
      rcases h data rfl u hu with hid | hinner
      · exact .inl ⟨u, rfl, hid⟩
      · exact .inr hinner.symm
  · have hno : ∀ data ∈ answer, ∀ u, c.codec.decode data ≠ .ok u :=
      fun data hdata u hu => hdecodes ⟨data, hdata, u, hu⟩
    rw [readThrough_of_not_decodes hno]
    refine ⟨iff_of_true (.inr rfl) ?_, fun user huser => ⟨user, huser⟩⟩
    exact fun data hdata u hu => absurd hu (hno data hdata u)

/-- A store with the user 7, and a cache that holds a payload for every key. -/
def holding (d : Encoding.Document) : CachedUserStore MemoryUserStore UserCodec.Payload :=
  ⟨⟨[⟨7, "Ada", "ada@example.com", "hash"⟩], 8⟩,
    some ⟨fun _ => some ⟨.document d, Time.minute⟩⟩⟩

/-- `null`, an object without members and the document of another user are
answered as if they were the user 7. -/
theorem wrong_payload_served :
    (((holding .null).getByID Cached.memory 0 0 7).2 = .ok ⟨0, "", "", ""⟩) ∧
    (((holding (.object [])).getByID Cached.memory 0 0 7).2 = .ok ⟨0, "", "", ""⟩) ∧
    (((holding (.object [("id", .number 8), ("name", .text "Eve")])).getByID
      Cached.memory 0 0 7).2 = .ok ⟨8, "Eve", "", ""⟩) ∧
    ((holding .null).getByID Cached.memory 0 0 9).2 = .ok ⟨0, "", "", ""⟩ ∧
    Cached.memory.inner.getByID (holding .null).inner 7 =
      .ok ⟨7, "Ada", "ada@example.com", "hash"⟩ ∧
    Cached.memory.inner.getByID (holding .null).inner 9 = .error .userNotFound := by
  decide +kernel

end GoRestApi.Store.CachedUserStore
