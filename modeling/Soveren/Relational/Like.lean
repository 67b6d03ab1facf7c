import Mathlib.Data.List.Infix
import Mathlib.Data.List.TakeWhile
import Mathlib.Tactic.Common

/-! Patterns of the `LIKE` operator with an escape character. Letters are compared with their ASCII
case folded, and both operands end at their first NUL. -/
namespace Soveren.Like

/-- The parts of a pattern. An escape character at its end matches nothing. -/
inductive Token where
  | any | one
  | literal (c : Char)
  | never
  deriving DecidableEq

variable (escape : Char)

def parse : List Char → List Token
  | [] => []
  | [c] => if c = escape then [.never] else if c = '%' then [.any] else if c = '_' then [.one]
    else [.literal c]
  | c :: d :: p =>
    if c = escape then .literal d :: parse p
    else if c = '%' then .any :: parse (d :: p)
    else if c = '_' then .one :: parse (d :: p)
    else .literal c :: parse (d :: p)

def matchTokens : List Token → List Char → Bool
  | [], s => s.isEmpty
  | .never :: _, _ => false
  | .literal _ :: _, [] => false
  | .literal c :: p, d :: s => c.toLower = d.toLower && matchTokens p s
  | .one :: _, [] => false
  | .one :: p, _ :: s => matchTokens p s
  | .any :: p, s => s.tails.any fun rest => matchTokens p rest

/-- A text as the operator reads it. -/
def beforeNul (s : List Char) : List Char := s.takeWhile (· ≠ '\x00')

/-- `text LIKE pattern ESCAPE escape`. -/
def like (pattern text : List Char) : Bool := matchTokens (parse escape (beforeNul pattern)) (beforeNul text)

/-- The text contains the needle, with ASCII case folded. -/
def Contains (needle text : List Char) : Prop := needle.map Char.toLower <:+: text.map Char.toLower

instance (needle text : List Char) : Decidable (Contains needle text) :=
  inferInstanceAs (Decidable (_ <:+: _))

section Matching

theorem matchTokens_any_iff {p : List Token} {s : List Char} :
    matchTokens (.any :: p) s = true ↔ ∃ a b, s = a ++ b ∧ matchTokens p b = true := by
  simp only [matchTokens, List.any_eq_true, List.mem_tails]
  constructor
  · rintro ⟨b, ⟨a, rfl⟩, hb⟩
    exact ⟨a, b, rfl, hb⟩
  · rintro ⟨a, b, rfl, hb⟩
    exact ⟨b, ⟨a, rfl⟩, hb⟩

theorem matchTokens_any_self {p : List Token} {s : List Char} (h : matchTokens p s = true) :
    matchTokens (.any :: p) s = true :=
  matchTokens_any_iff.mpr ⟨[], s, rfl, h⟩

/-- Literals followed by anything match a text that starts with them. -/
theorem matchTokens_literals {needle s : List Char} :
    matchTokens (needle.map .literal ++ [.any]) s = true ↔
      needle.map Char.toLower <+: s.map Char.toLower := by
  induction needle generalizing s with
  | nil => simpa [matchTokens_any_iff] using ⟨s, [], (List.append_nil s).symm, rfl⟩
  | cons c needle ih =>
    cases s with
    | nil => simp [matchTokens]
    | cons d s => simp [matchTokens, ih, List.cons_prefix_cons]

/-- Literals between wildcards match a text that contains them. -/
theorem matchTokens_contains {needle s : List Char} :
    matchTokens (.any :: needle.map .literal ++ [.any]) s = true ↔ Contains needle s := by
  rw [List.cons_append, matchTokens_any_iff]
  constructor
  · rintro ⟨a, b, rfl, hb⟩
    obtain ⟨rest, hrest⟩ := matchTokens_literals.mp hb
    exact ⟨a.map Char.toLower, rest, by simp [← hrest]⟩
  · rintro ⟨a, c, hs⟩
    obtain ⟨ab, c', rfl, hab, -⟩ := List.map_eq_append_iff.mp hs.symm
    obtain ⟨a', b', rfl, -, hb⟩ := List.map_eq_append_iff.mp hab
    refine ⟨a', b' ++ c', by simp, matchTokens_literals.mpr ⟨c'.map Char.toLower, ?_⟩⟩
    rw [List.map_append, hb]

/-- A pattern with an escape character at its end matches no text. -/
theorem matchTokens_never {p : List Token} {s : List Char} (h : .never ∈ p) : matchTokens p s = false := by
  induction p generalizing s with
  | nil => cases h
  | cons t p ih =>
    cases t with
    | never => rfl
    | any =>
      have hp : .never ∈ p := by simpa using h
      rw [Bool.eq_false_iff]
      intro hany
      obtain ⟨a, b, -, hb⟩ := matchTokens_any_iff.mp hany
      rw [ih hp] at hb
      cases hb
    | one =>
      have hp : .never ∈ p := by simpa using h
      cases s with
      | nil => rfl
      | cons d s => exact ih hp
    | literal c =>
      have hp : .never ∈ p := by simpa using h
      cases s with
      | nil => rfl
      | cons d s => simp [matchTokens, ih hp]

/-- A text that a pattern matches. -/
def sample : List Token → List Char
  | [] => []
  | .any :: p => sample p
  | .one :: p => 'x' :: sample p
  | .literal c :: p => c :: sample p
  | .never :: p => sample p

theorem matchTokens_sample {p : List Token} (h : .never ∉ p) : matchTokens p (sample p) = true := by
  induction p with
  | nil => rfl
  | cons t p ih =>
    obtain ⟨ht, hp⟩ := not_or.mp (mt List.mem_cons.mpr h)
    cases t with
    | never => exact absurd rfl ht
    | any => exact matchTokens_any_self (ih hp)
    | one => simpa [sample, matchTokens] using ih hp
    | literal c => simpa [sample, matchTokens] using ih hp

end Matching

section Nul

theorem nul_not_mem_beforeNul (s : List Char) : '\x00' ∉ beforeNul s := by
  intro h
  simpa using List.mem_takeWhile_imp h

theorem beforeNul_eq_self {s : List Char} (h : '\x00' ∉ s) : beforeNul s = s :=
  List.takeWhile_eq_self_iff.mpr fun c hc => by simpa using ne_of_mem_of_not_mem hc h

theorem beforeNul_append {s : List Char} (h : '\x00' ∉ s) (t : List Char) :
    beforeNul (s ++ t) = s ++ beforeNul t :=
  List.takeWhile_append_of_pos fun c hc => by simpa using ne_of_mem_of_not_mem hc h

theorem eq_nul_of_toLower {c : Char} (h : c.toLower = '\x00') : c = '\x00' := by
  unfold Char.toLower at h
  split at h
  · rename_i hc
    have hval := congrArg Char.toNat h
    have hle : c.toNat ≤ 90 := hc.2
    simp at hval
    omega
  · exact h

/-- A text without NUL contains none with it. -/
theorem Contains.nul {needle text : List Char} (h : Contains needle text) (hn : '\x00' ∈ needle) : '\x00' ∈ text := by
  have hlow : '\x00' ∈ text.map Char.toLower := h.subset (List.mem_map.mpr ⟨'\x00', hn, by decide⟩)
  obtain ⟨c, hc, hc'⟩ := List.mem_map.mp hlow
  exact eq_nul_of_toLower hc' ▸ hc

theorem Contains.of_beforeNul {needle text : List Char} (h : Contains needle (beforeNul text)) :
    Contains needle text :=
  h.trans ((List.takeWhile_prefix _).map _).isInfix

theorem nul_not_mem_sample {escape : Char} {p : List Char} (h : '\x00' ∉ p) : '\x00' ∉ sample (parse escape p) := by
  fun_induction parse escape p <;> simp_all [sample]

end Nul

section Escaping

variable {escape : Char}

theorem parse_escape (c : Char) (p : List Char) :
    parse escape (escape :: c :: p) = .literal c :: parse escape p := by simp [parse]

theorem parse_any (hne : '%' ≠ escape) (p : List Char) :
    parse escape ('%' :: p) = .any :: parse escape p := by
  cases p with
  | nil => simp [parse, hne]
  | cons d p => simp [parse, hne]

theorem parse_one (hne : '_' ≠ escape) (p : List Char) :
    parse escape ('_' :: p) = .one :: parse escape p := by
  cases p with
  | nil => simp [parse, hne]
  | cons d p => simp [parse, hne]

theorem parse_literal {c : Char} (hne : c ≠ escape) (hany : c ≠ '%') (hone : c ≠ '_') (p : List Char) :
    parse escape (c :: p) = .literal c :: parse escape p := by
  cases p with
  | nil => simp [parse, hne, hany, hone]
  | cons d p => simp [parse, hne, hany, hone]

end Escaping

end Soveren.Like
