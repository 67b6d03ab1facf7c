import Mathlib.MeasureTheory.Measure.Lebesgue.Basic
import Mathlib.MeasureTheory.Measure.Real

/-! The length of a union of intervals, counted by one sweep over the intervals in the order of their left
ends. -/
namespace Soveren.Sweep
open MeasureTheory Set

section Sweep

variable {α : Type*} [AddCommGroup α] [LinearOrder α]

/-- Count an interval: the length that is covered so far, and the point up to which all is counted. -/
def step (s : α × α) (w : α × α) : α × α :=
  if s.2 < w.2 then (s.1 + (w.2 - max s.2 w.1), w.2) else s

end Sweep

/-- The points of the intervals, without their left ends. -/
def cover (l : List (ℝ × ℝ)) : Set ℝ := ⋃ w ∈ l, Ioc w.1 w.2

theorem mem_cover {l : List (ℝ × ℝ)} {x : ℝ} : x ∈ cover l ↔ ∃ w ∈ l, w.1 < x ∧ x ≤ w.2 := by
  simp only [cover, mem_iUnion, mem_Ioc, exists_prop]

theorem measurableSet_cover (l : List (ℝ × ℝ)) : MeasurableSet (cover l) :=
  (List.finite_toSet l).measurableSet_biUnion fun _ _ => measurableSet_Ioc

theorem volume_cover_lt_top (l : List (ℝ × ℝ)) : volume (cover l) < ⊤ :=
  measure_biUnion_lt_top (List.finite_toSet l) fun _ _ => measure_Ioc_lt_top

/-- The part of the intervals after a point, when the first of them reaches beyond it. -/
theorem cover_cons_after {w : ℝ × ℝ} {l : List (ℝ × ℝ)} (hsorted : ∀ v ∈ l, w.1 ≤ v.1) {cursor : ℝ}
    (h : cursor < w.2) :
    cover (w :: l) ∩ Ioi cursor = Ioc (max cursor w.1) w.2 ∪ cover l ∩ Ioi w.2 := by
  ext x
  simp only [mem_inter_iff, mem_union, mem_cover, mem_Ioi, mem_Ioc, max_lt_iff, List.mem_cons,
    exists_eq_or_imp]
  constructor
  · rintro ⟨⟨hw, hx⟩ | ⟨v, hv, hvx, hx⟩, hcursor⟩
    · exact .inl ⟨⟨hcursor, hw⟩, hx⟩
    · by_cases hbeyond : w.2 < x
      · exact .inr ⟨⟨v, hv, hvx, hx⟩, hbeyond⟩
      · exact .inl ⟨⟨hcursor, (hsorted v hv).trans_lt hvx⟩, not_lt.mp hbeyond⟩
  · rintro (⟨⟨hcursor, hw⟩, hx⟩ | ⟨⟨v, hv, hvx, hx⟩, hbeyond⟩)
    · exact ⟨.inl ⟨hw, hx⟩, hcursor⟩
    · exact ⟨.inr ⟨v, hv, hvx, hx⟩, h.trans hbeyond⟩

theorem cover_cons_before {w : ℝ × ℝ} {l : List (ℝ × ℝ)} {cursor : ℝ} (h : w.2 ≤ cursor) :
    cover (w :: l) ∩ Ioi cursor = cover l ∩ Ioi cursor := by
  ext x
  simp only [mem_inter_iff, mem_cover, mem_Ioi, List.mem_cons, exists_eq_or_imp]
  constructor
  · rintro ⟨⟨-, hx⟩ | hrest, hcursor⟩
    · exact absurd (hx.trans h) hcursor.not_ge
    · exact ⟨hrest, hcursor⟩
  · rintro ⟨hrest, hcursor⟩
    exact ⟨.inr hrest, hcursor⟩

/-- The sweep counts each point of the intervals after the cursor once. -/
theorem foldl_step {l : List (ℝ × ℝ)} (hsorted : l.Pairwise fun v w => v.1 ≤ w.1) (hle : ∀ w ∈ l, w.1 ≤ w.2)
    (covered cursor : ℝ) :
    (l.foldl step (covered, cursor)).1 = covered + volume.real (cover l ∩ Ioi cursor) := by
  induction l generalizing covered cursor with
  | nil => simp [cover, measureReal_empty]
  | cons w l ih =>
    obtain ⟨hfirst, hrest⟩ := List.pairwise_cons.mp hsorted
    have ih := ih hrest fun v hv => hle v (List.mem_cons_of_mem w hv)
    rw [List.foldl_cons, step]
    by_cases h : cursor < w.2
    · have hmax : max cursor w.1 ≤ w.2 := max_le h.le (hle w List.mem_cons_self)
      have hdisjoint : Disjoint (Ioc (max cursor w.1) w.2) (cover l ∩ Ioi w.2) :=
        Set.disjoint_left.mpr fun x hx hx' => hx'.2.not_ge hx.2
      have hfinite : volume (cover l ∩ Ioi w.2) ≠ ⊤ :=
        ((measure_mono inter_subset_left).trans_lt (volume_cover_lt_top l)).ne
      rw [if_pos h, ih, cover_cons_after hfirst h,
        measureReal_union hdisjoint ((measurableSet_cover l).inter measurableSet_Ioi) measure_Ioc_lt_top.ne hfinite,
        Real.volume_real_Ioc_of_le hmax]
      ring
    · rw [if_neg h, ih, cover_cons_before (not_lt.mp h)]

end Soveren.Sweep
