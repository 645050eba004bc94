/-
GoRestApi.Go.Strconv — `strconv.FormatInt` and `strconv.ParseInt`, in base 10
and 64 bits, and their round trip.
-/
import Mathlib.Data.Nat.Digits.Defs

namespace GoRestApi.Go.Strconv

/-- `strconv.FormatInt(n, 10)`. -/
def formatInt (n : Int64) : String :=
  if n.toInt < 0 then String.ofList ('-' :: Nat.toDigits 10 n.toInt.natAbs)
  else String.ofList (Nat.toDigits 10 n.toInt.natAbs)

/-- The digits of `strconv.ParseUint(s, 10, 64)`; an underscore is a digit of
no base. -/
def parseUint (ds : List Char) : Option Nat :=
  if ds ≠ [] ∧ ds.all Char.isDigit then some (Nat.ofDigitChars 10 ds 0) else none

/-- `strconv.ParseInt(s, 10, 64)`, with `none` for a syntax or range error. -/
def parseInt (s : String) : Option Int64 :=
  match s.toList with
  | '-' :: ds =>
    (parseUint ds).bind fun un => if un ≤ 2 ^ 63 then some (Int64.ofInt (-un)) else none
  | '+' :: ds =>
    (parseUint ds).bind fun un => if un < 2 ^ 63 then some (Int64.ofInt un) else none
  | ds => (parseUint ds).bind fun un => if un < 2 ^ 63 then some (Int64.ofInt un) else none

theorem parseUint_toDigits (n : Nat) : parseUint (Nat.toDigits 10 n) = some n := by
  have hdigits : (Nat.toDigits 10 n).all Char.isDigit = true := by
    rw [List.all_eq_true]
    intro c hc
    exact Nat.isDigit_of_mem_toDigits (by decide) (by decide) hc
  simp [parseUint, Nat.toDigits_ne_nil, hdigits, Nat.ofDigitChars_ten_toDigits]

/-- A digit is not a sign, so unsigned digits take the last branch. -/
theorem parseInt_toDigits {n : Nat} (hn : n < 2 ^ 63) :
    parseInt (String.ofList (Nat.toDigits 10 n)) = some (Int64.ofInt n) := by
  have hhead : ∀ c ∈ Nat.toDigits 10 n, c ≠ '-' ∧ c ≠ '+' := by
    intro c hc
    have hdigit := Nat.isDigit_of_mem_toDigits (by decide) (by decide) hc
    constructor <;> rintro rfl <;> exact absurd hdigit (by decide)
  unfold parseInt
  rw [String.toList_ofList]
  split
  · rename_i heq
    exact absurd rfl (hhead '-' (by rw [heq]; simp)).1
  · rename_i heq
    exact absurd rfl (hhead '+' (by rw [heq]; simp)).2
  · simp only [parseUint_toDigits, Option.bind_some, hn, ↓reduceIte]

theorem parseInt_formatInt (n : Int64) : parseInt (formatInt n) = some n := by
  have hlo := Int64.le_toInt n
  have hhi := Int64.toInt_lt n
  unfold formatInt
  split
  · rename_i hneg
    have habs : n.toInt.natAbs ≤ 2 ^ 63 := by omega
    have hval : -(n.toInt.natAbs : Int) = n.toInt := by omega
    unfold parseInt
    rw [String.toList_ofList]
    simp only [parseUint_toDigits, Option.bind_some, habs, ↓reduceIte]
    rw [hval, Int64.ofInt_toInt]
  · have habs : n.toInt.natAbs < 2 ^ 63 := by omega
    have hval : (n.toInt.natAbs : Int) = n.toInt := by omega
    rw [parseInt_toDigits habs, hval, Int64.ofInt_toInt]

end GoRestApi.Go.Strconv
