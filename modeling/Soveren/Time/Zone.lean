import Mathlib.Data.Int.Order.Basic
import Mathlib.Order.Basic
import Mathlib.Tactic.Common

/-! Local time. A zone changes its offset from universal time at some instants, so that its clock skips
or repeats some local times. Instants and local times are counted in seconds. -/
namespace Soveren.Time

/-- The local times that one change skips or repeats lie before those of the next. -/
def Spaced : (offset : ℤ) → (changes : List (ℤ × ℤ)) → Prop
  | _, [] => True
  | _, [_] => True
  | o, (i, o') :: (i', o'') :: rest =>
    i + max o o' ≤ i' + min o' o'' ∧ Spaced o' ((i', o'') :: rest)

/-- A zone is given by its first offset and by the changes: an instant, and the offset from then on. -/
structure Zone where
  offset : ℤ
  changes : List (ℤ × ℤ)
  spaced : Spaced offset changes

/-- The offset at an instant. -/
def offsetAt : (offset : ℤ) → (changes : List (ℤ × ℤ)) → (instant : ℤ) → ℤ
  | o, [], _ => o
  | o, (i, o') :: rest, instant => if instant < i then o else offsetAt o' rest instant

/-- The offset of a local time on its first pass. A skipped time has the offset from before. -/
def localOffset : (offset : ℤ) → (changes : List (ℤ × ℤ)) → (wall : ℤ) → ℤ
  | o, [], _ => o
  | o, (i, o') :: rest, wall => if wall < i + max o o' then o else localOffset o' rest wall

namespace Zone

/-- The local time at an instant, as `datetime.fromtimestamp` gives it. -/
def wall (z : Zone) (instant : ℤ) : ℤ := instant + offsetAt z.offset z.changes instant

/-- The instant of a local time with fold 0, as `timestamp()` gives it. -/
def timestamp (z : Zone) (wall : ℤ) : ℤ := wall - localOffset z.offset z.changes wall

end Zone

section Conversions

variable {o : ℤ} {changes : List (ℤ × ℤ)}

theorem Spaced.tail {i o' : ℤ} {rest : List (ℤ × ℤ)} (h : Spaced o ((i, o') :: rest)) :
    Spaced o' rest := by
  cases rest with
  | nil => trivial
  | cons c rest => exact h.2

/-- From a change on, the clock shows at least the local time of the change. -/
theorem le_offsetAt {i o' : ℤ} {rest : List (ℤ × ℤ)} (h : Spaced o ((i, o') :: rest)) {instant : ℤ}
    (hi : i ≤ instant) : i + o' ≤ instant + offsetAt o' rest instant := by
  induction rest generalizing o i o' with
  | nil => simpa [offsetAt] using hi
  | cons c rest ih =>
    obtain ⟨i', o''⟩ := c
    rw [offsetAt]
    split
    · omega
    · rename_i hlate
      have hnext := ih h.2 (not_lt.mp hlate)
      have hgap := h.1
      omega

/-- A local time from a change on is converted to an instant from it on. -/
theorem le_localOffset {i o' : ℤ} {rest : List (ℤ × ℤ)} (h : Spaced o ((i, o') :: rest)) {wall : ℤ}
    (hw : i + o' ≤ wall) : i ≤ wall - localOffset o' rest wall := by
  induction rest generalizing o i o' with
  | nil =>
    rw [localOffset]
    omega
  | cons c rest ih =>
    obtain ⟨i', o''⟩ := c
    rw [localOffset]
    split
    · omega
    · have hnext := ih h.2 (by omega)
      have hgap := h.1
      omega

/-- The first pass of a local time that the clock shows is not after it. -/
theorem localOffset_le (h : Spaced o changes) (instant : ℤ) :
    instant + offsetAt o changes instant -
      localOffset o changes (instant + offsetAt o changes instant) ≤ instant := by
  induction changes generalizing o with
  | nil =>
    simp only [offsetAt, localOffset]
    omega
  | cons c rest ih =>
    obtain ⟨i, o'⟩ := c
    rw [offsetAt]
    split
    · rw [localOffset, if_pos (by omega)]
      omega
    · rename_i hlate
      rw [localOffset]
      split
      · have hle := le_offsetAt h (not_lt.mp hlate)
        omega
      · exact ih h.tail

/-- A local time ahead of the clock whose first pass is over is one that the clock has shown. -/
theorem offsetAt_localOffset (h : Spaced o changes) {instant wall : ℤ}
    (hahead : instant + offsetAt o changes instant < wall)
    (hover : wall - localOffset o changes wall ≤ instant) :
    wall - localOffset o changes wall + offsetAt o changes (wall - localOffset o changes wall) = wall := by
  induction changes generalizing o with
  | nil =>
    simp only [offsetAt, localOffset] at *
    omega
  | cons c rest ih =>
    obtain ⟨i, o'⟩ := c
    rw [localOffset] at hover ⊢
    rw [offsetAt] at hahead
    split at hahead
    · -- before the change, the clock is ahead of every first pass
      exfalso
      split at hover
      · omega
      · have hle : i ≤ wall - localOffset o' rest wall := le_localOffset h (by omega)
        omega
    · rename_i hlate
      split
      · rename_i hpass
        rw [if_pos hpass] at hover
        have hle := le_offsetAt h (not_lt.mp hlate)
        rw [offsetAt, if_pos (by omega)]
        omega
      · rename_i hpass
        rw [if_neg hpass] at hover
        have hle : i ≤ wall - localOffset o' rest wall := le_localOffset h (by omega)
        rw [offsetAt, if_neg (by omega)]
        exact ih h.tail hahead hover

end Conversions

/-- A local time ahead of the clock is converted to an instant in the past if and only if the clock
has shown it before. -/
theorem Zone.timestamp_le_iff (z : Zone) {instant wall : ℤ} (h : z.wall instant < wall) :
    z.timestamp wall ≤ instant ↔ ∃ u ≤ instant, z.wall u = wall := by
  constructor
  · intro hover
    exact ⟨z.timestamp wall, hover, offsetAt_localOffset z.spaced h hover⟩
  · rintro ⟨u, hu, rfl⟩
    exact (localOffset_le z.spaced u).trans hu

end Soveren.Time
