import Mathlib.Data.List.Sublists
import Mathlib.Tactic.Common

/-! Walking through a list until a number of elements of one kind has been met. -/
namespace Soveren.Relational
open scoped List

variable {α : Type*} (good : α → Bool)

/-- The elements up to the `k`-th good one, or all of them. -/
def upTo : ℕ → List α → List α
  | 0, _ => []
  | _ + 1, [] => []
  | k + 1, x :: l => x :: upTo (if good x then k else k + 1) l

@[simp] theorem upTo_zero (l : List α) : upTo good 0 l = [] := by cases l <;> rfl

@[simp] theorem upTo_nil (k : ℕ) : upTo good k [] = [] := by cases k <;> rfl

theorem upTo_isPrefix (k : ℕ) (l : List α) : upTo good k l <+: l := by
  induction l generalizing k with
  | nil => simp
  | cons x l ih =>
    cases k with
    | zero => simp
    | succ k => exact List.cons_prefix_cons.mpr ⟨rfl, ih _⟩

theorem filter_upTo (k : ℕ) (l : List α) : (upTo good k l).filter good = (l.filter good).take k := by
  induction l generalizing k with
  | nil => simp
  | cons x l ih =>
    cases k with
    | zero => simp
    | succ k => by_cases hx : good x = true <;> simp [upTo, hx, ih]

/-- Fewer elements than the quota are walked at once. -/
theorem upTo_split {k m : ℕ} (hm : m ≤ k) (l : List α) :
    upTo good k l = l.take m ++ upTo good (k - ((l.take m).filter good).length) (l.drop m) := by
  induction l generalizing k m with
  | nil => simp
  | cons x l ih =>
    cases m with
    | zero => simp
    | succ m =>
      obtain ⟨k, rfl⟩ : ∃ n, k = n + 1 := ⟨k - 1, by omega⟩
      by_cases hx : good x = true
      · rw [upTo, if_pos hx, ih (show m ≤ k by omega)]
        simp [hx]
      · rw [upTo, if_neg hx, ih (show m ≤ k + 1 by omega)]
        simp [hx]

/-- A walk that ends before its quota has met everything. -/
theorem upTo_eq_self {k : ℕ} {l : List α} (h : (l.filter good).length < k) : upTo good k l = l := by
  induction l generalizing k with
  | nil => simp
  | cons x l ih =>
    obtain ⟨k, rfl⟩ : ∃ n, k = n + 1 := ⟨k - 1, by omega⟩
    by_cases hx : good x = true
    · rw [List.filter_cons_of_pos hx, List.length_cons] at h
      rw [upTo, if_pos hx, ih (by omega)]
    · rw [List.filter_cons_of_neg hx] at h
      rw [upTo, if_neg hx, ih h]

/-- The other elements that are met: they come before the last good one that counts. -/
theorem mem_upTo_iff {k : ℕ} {l : List α} (hl : l.Nodup) {x : α} (hx : x ∈ l) (hbad : good x = false) :
    x ∈ upTo good k l ↔
      (l.filter good).length < k ∨ ∃ y ∈ (l.filter good).take k, [x, y] <+ l := by
  induction l generalizing k with
  | nil => cases hx
  | cons z l ih =>
    cases k with
    | zero => simp
    | succ k =>
      obtain ⟨hz, hl⟩ := List.nodup_cons.mp hl
      have hskip : ∀ y, x ≠ z → ([x, y] <+ z :: l ↔ [x, y] <+ l) := by
        intro y hne
        refine ⟨fun h => ?_, fun h => h.cons z⟩
        cases h with
        | cons _ h => exact h
        | cons_cons _ h => exact absurd rfl hne
      by_cases hgood : good z = true
      · have hne : x ≠ z := by
          rintro rfl
          simp [hgood] at hbad
        have hin := (List.mem_cons.mp hx).resolve_left hne
        have hself : ¬ [x, z] <+ l := fun h => hz (h.subset (by simp))
        simp [upTo, hgood, hne, ih hl hin, hskip _ hne, hself]
      · by_cases hne : x = z
        · subst hne
          refine ⟨fun _ => ?_, fun _ => by simp [upTo]⟩
          rw [List.filter_cons_of_neg hgood]
          by_cases hlen : (l.filter good).length < k + 1
          · exact .inl hlen
          · have hpos : 0 < ((l.filter good).take (k + 1)).length := by
              rw [List.length_take]
              omega
            obtain ⟨y, hy⟩ := List.exists_mem_of_length_pos hpos
            have hyl : y ∈ l := (List.mem_filter.mp (List.mem_of_mem_take hy)).1
            exact .inr ⟨y, hy, (List.singleton_sublist.mpr hyl).cons_cons x⟩
        · have hin := (List.mem_cons.mp hx).resolve_left hne
          simp [upTo, hgood, hne, ih hl hin, hskip _ hne]

/-- A part of a list is found again by its elements. -/
theorem filter_mem_sublist [DecidableEq α] {l s : List α} (hl : l.Nodup) (h : s <+ l) :
    l.filter (fun x => decide (x ∈ s)) = s := by
  have hself : s.filter (fun x => decide (x ∈ s)) = s := List.filter_eq_self.mpr fun x hx => by simpa
  have hsub : s <+ l.filter (fun x => decide (x ∈ s)) := by
    have hfilter := h.filter (fun x => decide (x ∈ s))
    rwa [hself] at hfilter
  have hperm : s.Perm (l.filter fun x => decide (x ∈ s)) := by
    refine (List.perm_ext_iff_of_nodup (hl.sublist h) (hl.filter _)).mpr fun x => ?_
    simpa using fun hx => h.subset hx
  exact (hsub.eq_of_length hperm.length_eq).symm

end Soveren.Relational
