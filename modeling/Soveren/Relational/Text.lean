import Mathlib.Tactic.Common

/-! The text operations of the host language on sequences of code points: blank tests,
stripping, slicing and whitespace normalization. -/
namespace Soveren.Text

/-- `str.isspace` on one code point. -/
def isSpace (c : Char) : Bool :=
  let n := c.toNat
  (9 ≤ n && n ≤ 13) || (28 ≤ n && n ≤ 32) || n == 0x85 || n == 0xa0 || n == 0x1680 ||
    (0x2000 ≤ n && n ≤ 0x200a) || n == 0x2028 || n == 0x2029 || n == 0x202f ||
    n == 0x205f || n == 0x3000

/-- `not s.strip()`. -/
def blank (s : String) : Bool := s.toList.all isSpace

/-- Drop the characters of `p` at both ends. -/
def trimBoth (p : Char → Bool) (s : List Char) : List Char :=
  ((s.dropWhile p).reverse.dropWhile p).reverse

/-- `s.strip()`. -/
def strip (s : String) : String := String.ofList (trimBoth isSpace s.toList)

/-- `s.lstrip(c)`. -/
def lstrip (c : Char) (s : String) : String := String.ofList (s.toList.dropWhile (· == c))

/-- `s[:n]`. -/
def clip (n : ℕ) (s : String) : String := String.ofList (s.toList.take n)

/-- `len(s)`. -/
def len (s : String) : ℕ := s.toList.length

/-- `s.split()`: the maximal runs of characters that are not spaces. -/
def words (s : List Char) : List (List Char) :=
  (s.splitOnP isSpace).filter (· ≠ [])

/-- `" ".join(s.split())`. -/
def normalize (s : String) : String :=
  String.intercalate " " ((words s.toList).map String.ofList)

/-- `value or None` for a text. -/
def orNone (s : String) : Option String := if s = "" then none else some s

theorem mem_dropWhile {p : Char → Bool} {s : List Char} {c : Char} (hc : c ∈ s) (hp : p c = false) :
    c ∈ s.dropWhile p := by
  rw [← List.takeWhile_append_dropWhile (p := p) (l := s)] at hc
  obtain hc | hc := List.mem_append.mp hc
  · have htake := List.all_eq_true.mp List.all_takeWhile c hc
    rw [htake] at hp
    cases hp
  · exact hc

/-- What is stripped of spaces at its ends is as blank as before. -/
theorem blank_strip {s : String} (h : blank s = false) : blank (strip s) = false := by
  simp only [blank, List.all_eq_false, strip, trimBoth, String.toList_ofList] at h ⊢
  obtain ⟨c, hc, hp⟩ := h
  have hp : isSpace c = false := by simpa using hp
  refine ⟨c, List.mem_reverse.mpr (mem_dropWhile (List.mem_reverse.mpr (mem_dropWhile hc hp)) hp), ?_⟩
  simp [hp]

section Numbers

theorem not_mem_repr {c : Char} (hc : c.isDigit = false) (m : ℕ) : c ∉ (Nat.repr m).toList := by
  intro hm
  rw [Nat.toList_repr] at hm
  have hdigit := Nat.isDigit_of_mem_toDigits (by decide) (by decide) hm
  rw [hc] at hdigit
  cases hdigit

theorem toList_toString_negSucc (m : ℕ) :
    (toString (Int.negSucc m)).toList = '-' :: (Nat.repr (m + 1)).toList := by
  simp [Int.toString_eq_repr, Int.repr]

theorem not_mem_toString {c : Char} (hc : c.isDigit = false) (hminus : c ≠ '-') (n : Int) :
    c ∉ (toString n).toList := by
  cases n with
  | ofNat m => exact not_mem_repr hc m
  | negSucc m =>
    rw [toList_toString_negSucc, List.mem_cons, not_or]
    exact ⟨hminus, not_mem_repr hc (m + 1)⟩

theorem repr_inj {m n : ℕ} (h : Nat.repr m = Nat.repr n) : m = n := by
  have hdigits := congrArg String.toList h
  rw [Nat.toList_repr, Nat.toList_repr] at hdigits
  have hvalue := congrArg (fun l => Nat.ofDigitChars 10 l 0) hdigits
  simpa [Nat.ofDigitChars_toDigits] using hvalue

/-- A number is known by its digits and its sign. -/
theorem toString_inj {m n : Int} (h : toString m = toString n) : m = n := by
  have hmixed : ∀ i j : ℕ, toString (Int.ofNat i) ≠ toString (Int.negSucc j) := by
    intro i j he
    have hlist : (Nat.repr i).toList = '-' :: (Nat.repr (j + 1)).toList :=
      (congrArg String.toList he).trans (toList_toString_negSucc j)
    have hminus : '-' ∉ (Nat.repr i).toList := not_mem_repr (by decide) i
    simp [hlist] at hminus
  cases m with
  | ofNat i =>
    cases n with
    | ofNat j => exact congrArg Int.ofNat (repr_inj h)
    | negSucc j => exact absurd h (hmixed i j)
  | negSucc i =>
    cases n with
    | ofNat j => exact absurd h.symm (hmixed j i)
    | negSucc j =>
      have hlist := congrArg String.toList h
      rw [toList_toString_negSucc, toList_toString_negSucc] at hlist
      have hnat := repr_inj (String.toList_inj.mp (List.cons.inj hlist).2)
      rw [Nat.succ.inj hnat]

end Numbers

example : strip "  a b \n" = "a b" := by decide
example : normalize " a \t b" = "a b" := by decide

end Soveren.Text
