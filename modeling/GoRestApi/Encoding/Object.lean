/-
GoRestApi.Encoding.Object — records as JSON objects, by their fields.

A record type is described by the list of its fields: the name of each in a
document, when it is left out of one (`omitempty`), its value, and what a
value makes of a record. `marshal` writes the fields that are not left out;
`unmarshal` decodes a document INTO a record, member by member, as a decoder
does that is handed a pointer: a member without a field is skipped, `null`
empties a slice and changes nothing else, and a value of the wrong kind is
reported at the end, the first of them, with everything else decoded. The text
as a whole is a `Document`, and `null` in the place of an object is no error.
`unmarshal_marshal` is the round trip, for fields that are independent of each
other and together make up the record.

A scalar is a `Value`; its text is not modelled. A nil slice and an empty one
are the same, and written as an empty text.
-/
import GoRestApi.Go.Strings
import Mathlib.Data.List.Nodup

namespace GoRestApi.Encoding

open Go

/-! ## Documents -/

inductive Value where
  | null
  | text (s : String)
  | number (n : Int)
  /-- a text in base 64 -/
  | bytes (b : List UInt8)
  /-- a text in the format of RFC 3339 -/
  | instant (t : Int)
  deriving DecidableEq, Repr

namespace Value

def text? : Value → Option String
  | .text s => some s
  | _ => none

def number? : Value → Option Int
  | .number n => some n
  | _ => none

def bytes? : Value → Option (List UInt8)
  | .bytes b => some b
  | _ => none

def instant? : Value → Option Int
  | .instant t => some t
  | _ => none

end Value

abbrev Object := List (String × Value)

/-! ## Fields -/

structure RecordField (σ : Type) where
  name : String
  omitted : σ → Bool
  value : σ → Value
  /-- `none` if the value is of the wrong kind -/
  set : Value → σ → Option σ
  /-- what `null` makes of a record -/
  null : σ → σ
  value_ne_null : ∀ s, value s ≠ .null
  set_value : ∀ s t, ∃ t', set (value s) t = some t' ∧ value t' = value s

namespace RecordField

variable {σ : Type}

/-- A field of type `α`, read by `get` and written by `put`, whose values are
those of `wrap`. -/
@[simp] def scalar {α : Type} (wrap : α → Value) (unwrap : Value → Option α)
    (hwrap : ∀ x, wrap x ≠ .null ∧ unwrap (wrap x) = some x) (name : String)
    (omitted : σ → Bool) (null : σ → σ) (get : σ → α) (put : α → σ → σ)
    (hput : ∀ x s, get (put x s) = x) : RecordField σ where
  name := name
  omitted := omitted
  value s := wrap (get s)
  set v s := (unwrap v).map fun x => put x s
  null := null
  value_ne_null s := (hwrap (get s)).1
  set_value s t := ⟨put (get s) t, by simp [(hwrap (get s)).2], by rw [hput]⟩

@[simp] def text (name : String) (get : σ → String) (put : String → σ → σ)
    (hput : ∀ x s, get (put x s) = x) : RecordField σ :=
  scalar .text Value.text? (by simp [Value.text?]) name (fun _ => false) id get put hput

@[simp] def textOmitempty (name : String) (get : σ → String) (put : String → σ → σ)
    (hput : ∀ x s, get (put x s) = x) : RecordField σ :=
  scalar .text Value.text? (by simp [Value.text?]) name (fun s => get s = "") id get put hput

@[simp] def number (name : String) (get : σ → Int) (put : Int → σ → σ)
    (hput : ∀ x s, get (put x s) = x) : RecordField σ :=
  scalar .number Value.number? (by simp [Value.number?]) name (fun _ => false) id get put hput

@[simp] def bytes (name : String) (get : σ → List UInt8) (put : List UInt8 → σ → σ)
    (hput : ∀ x s, get (put x s) = x) : RecordField σ :=
  scalar .bytes Value.bytes? (by simp [Value.bytes?]) name (fun _ => false) (put []) get put hput

/-- An instant is a struct to the encoder: `omitempty` does not leave it out. -/
@[simp] def instant (name : String) (get : σ → Int) (put : Int → σ → σ)
    (hput : ∀ x s, get (put x s) = x) : RecordField σ :=
  scalar .instant Value.instant? (by simp [Value.instant?]) name (fun _ => false) id get put hput

end RecordField

section Codec

variable {σ : Type}

def marshal (fields : List (RecordField σ)) (s : σ) : Object :=
  (fields.filter fun f => !f.omitted s).map fun f => (f.name, f.value s)

/-- The field a member is decoded into: one of exactly that name, or else one
that differs in case only. -/
def fieldFor (fields : List (RecordField σ)) (name : String) : Option (RecordField σ) :=
  (fields.find? fun f => f.name = name).or (fields.find? fun f => Strings.equalFold f.name name)

/-- The record with the members decoded into it, and the first error. -/
def unmarshal (fields : List (RecordField σ)) : Object → σ → σ × Option String
  | [], s => (s, none)
  | (name, v) :: rest, s =>
    match fieldFor fields name with
    | none => unmarshal fields rest s
    | some f =>
      if v = .null then unmarshal fields rest (f.null s)
      else
        match f.set v s with
        | some s' => unmarshal fields rest s'
        | none =>
          ((unmarshal fields rest s).1,
            some ("json: cannot unmarshal value into Go struct field " ++ f.name))

/-- The text that a decoder is handed: `null`, an object, or any other, with the
error for it. -/
inductive Document where
  | null
  | object (o : Object)
  | other (err : String)
  deriving DecidableEq, Repr

namespace Document

/-- The record with the text decoded into it, and the error. -/
def decode (fields : List (RecordField σ)) : Document → σ → σ × Option String
  | .null, s => (s, none)
  | .object o, s => unmarshal fields o s
  | .other err, s => (s, some err)

/-- The text decoded into a zero record, if there is no error. -/
def read (fields : List (RecordField σ)) (zero : σ) (d : Document) : Except String σ :=
  match d.decode fields zero with
  | (s, none) => .ok s
  | (_, some err) => .error err

end Document

/-- Fields of distinct names that do not disturb each other and make up the
record. -/
structure Lawful (fields : List (RecordField σ)) : Prop where
  names : (fields.map RecordField.name).Nodup
  independent : ∀ f ∈ fields, ∀ v t t', f.set v t = some t' →
    ∀ g ∈ fields, g.name ≠ f.name → g.value t' = g.value t
  ext : ∀ s t, (∀ f ∈ fields, f.value s = f.value t) → s = t

variable {fields : List (RecordField σ)}

/-- A name that was written finds its field. -/
theorem Lawful.fieldFor_name (h : Lawful fields) {f : RecordField σ} (hf : f ∈ fields) :
    fieldFor fields f.name = some f := by
  have hfind : fields.find? (fun g => g.name = f.name) = some f := by
    cases hg : fields.find? (fun g => g.name = f.name) with
    | none => simpa using List.find?_eq_none.mp hg f hf
    | some g =>
      have hname : g.name = f.name := by simpa using List.find?_some hg
      rw [List.inj_on_of_nodup_map h.names (List.mem_of_find?_eq_some hg) hf hname]
  simp [fieldFor, hfind]

/-- Decoding some of the fields of `s` sets those that were written and leaves
the others. -/
theorem Lawful.unmarshal_part (h : Lawful fields) (s : σ) (part : List (RecordField σ))
    (hpart : part ⊆ fields) (into : σ) :
    ∃ t, unmarshal fields (marshal part s) into = (t, none) ∧
      (∀ f ∈ part, f.omitted s = false → f.value t = f.value s) ∧
      ∀ g ∈ fields, g.value t = g.value into ∨ g.value t = g.value s := by
  induction part generalizing into with
  | nil => exact ⟨into, rfl, by simp, fun _ _ => .inl rfl⟩
  | cons f part ih =>
    have hf : f ∈ fields := hpart (List.mem_cons_self ..)
    have hrest : part ⊆ fields := fun g hg => hpart (List.mem_cons_of_mem _ hg)
    by_cases homit : f.omitted s = true
    · obtain ⟨t, ht, hset, hkeep⟩ := ih hrest into
      refine ⟨t, by simpa [marshal, homit] using ht, fun g hg hng => ?_, hkeep⟩
      rcases List.mem_cons.mp hg with rfl | hg
      · rw [homit] at hng
        cases hng
      · exact hset g hg hng
    · obtain ⟨u, hu, huf⟩ := f.set_value s into
      obtain ⟨t, ht, hset, hkeep⟩ := ih hrest u
      -- whatever happens to `u`, its field `f` has the value of `s` already
      have huv : ∀ g ∈ fields, g.value u = g.value into ∨ g.value u = g.value s := by
        intro g hg
        by_cases hname : g.name = f.name
        · rw [List.inj_on_of_nodup_map h.names hg hf hname]
          exact .inr huf
        · exact .inl (h.independent f hf _ _ _ hu g hg hname)
      refine ⟨t, ?_, fun g hg hng => ?_, fun g hg => ?_⟩
      · have hmarshal : marshal (f :: part) s = (f.name, f.value s) :: marshal part s := by
          simp [marshal, homit]
        rw [hmarshal, unmarshal, h.fieldFor_name hf]
        simp only [f.value_ne_null s, ↓reduceIte, hu, ht]
      · rcases List.mem_cons.mp hg with rfl | hg
        · rcases hkeep g hf with hk | hk
          · exact hk.trans huf
          · exact hk
        · exact hset g hg hng
      · rcases hkeep g hg with hk | hk
        · rw [hk]
          exact huv g hg
        · exact .inr hk

/-- **Round trip.** Decoding what was encoded gives the record back, if what
it is decoded into has the fields that were left out. -/
theorem Lawful.unmarshal_marshal (h : Lawful fields) {s into : σ}
    (hinto : ∀ f ∈ fields, f.omitted s = true → f.value into = f.value s) :
    unmarshal fields (marshal fields s) into = (s, none) := by
  obtain ⟨t, ht, hset, hkeep⟩ := h.unmarshal_part s fields (fun _ hf => hf) into
  have hts : t = s := by
    refine h.ext t s (fun f hf => ?_)
    cases homit : f.omitted s with
    | false => exact hset f hf homit
    | true =>
      rcases hkeep f hf with hk | hk
      · exact hk.trans (hinto f hf homit)
      · exact hk
  rw [ht, hts]

theorem Lawful.read_marshal (h : Lawful fields) {s zero : σ}
    (hzero : ∀ f ∈ fields, f.omitted s = true → f.value zero = f.value s) :
    (Document.object (marshal fields s)).read fields zero = .ok s := by
  simp only [Document.read, Document.decode, h.unmarshal_marshal hzero]

end Codec

end GoRestApi.Encoding
