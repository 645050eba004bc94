/-
GoRestApi.Go.Strings — the functions of the `strings` package the program
uses.

`equalFold` folds the letters of ASCII and the two characters outside it that
fold to one of them, so it is `strings.EqualFold` whenever one side is ASCII.
-/
import Mathlib.Data.List.Infix

namespace GoRestApi.Go.Strings

/-- `strings.Contains`. -/
def contains (s substr : String) : Bool := decide (substr.toList <:+: s.toList)

/-- `unicode.IsSpace`. -/
def isSpace (c : Char) : Bool :=
  let n := c.toNat
  (0x09 ≤ n && n ≤ 0x0d) || n = 0x20 || n = 0x85 || n = 0xa0 || n = 0x1680 ||
    (0x2000 ≤ n && n ≤ 0x200a) || n = 0x2028 || n = 0x2029 || n = 0x202f || n = 0x205f ||
    n = 0x3000

/-- `strings.TrimSpace`. -/
def trimSpace (s : String) : String :=
  String.ofList ((s.toList.dropWhile isSpace).reverse.dropWhile isSpace).reverse

/-- `strings.TrimPrefix`. -/
def trimPrefix (s head : String) : String :=
  if head.toList <+: s.toList then String.ofList (s.toList.drop head.toList.length) else s

/-- `strings.SplitN(s, " ", 2)`: cut at the first blank, if there is one. -/
def splitN2 (s : String) : List String :=
  match s.toList.dropWhile (· ≠ ' ') with
  | [] => [s]
  | _ :: after => [String.ofList (s.toList.takeWhile (· ≠ ' ')), String.ofList after]

/-- A letter of ASCII in lower case, and the Kelvin sign and the long s, which
fold to `k` and `s`. -/
def foldChar (c : Char) : Char :=
  if c.toNat = 0x212a then 'k' else if c.toNat = 0x17f then 's' else c.toLower

/-- `strings.EqualFold`. -/
def equalFold (s t : String) : Bool := s.toList.map foldChar = t.toList.map foldChar

/-- The cut is at the blank behind a text without one. -/
theorem splitN2_append {s t : String} (hs : ∀ c ∈ s.toList, c ≠ ' ') :
    splitN2 (s ++ " " ++ t) = [s, t] := by
  have hlist : (s ++ " " ++ t).toList = s.toList ++ ' ' :: t.toList := by simp
  have hkeep : ∀ c ∈ s.toList, decide (c ≠ ' ') = true := by simpa using hs
  unfold splitN2
  rw [hlist, List.dropWhile_append_of_pos hkeep, List.takeWhile_append_of_pos hkeep]
  simp

end GoRestApi.Go.Strings
