import Mathlib.Data.List.Basic
import Mathlib.Tactic.Common

/-! Reading a list window by window: each answer shows a part from a position on and tells where to
continue. Answers cut by a budget, and what the answers show together. -/
namespace Soveren.Windows

variable {ε ρ α β : Type}

/-- Follow the continuations of a read; the number bounds the answers. -/
def readOn (read : Int → Except ε ρ) (next : ρ → Option Int) : ℕ → Int → Option (Except ε (List ρ))
  | 0, _ => none
  | fuel + 1, pos => match read pos with
    | .error e => some (.error e)
    | .ok r => match next r with
      | none => some (.ok [r])
      | some pos' => (readOn read next fuel pos').map (·.map (r :: ·))

section Reading

variable {read : Int → Except ε ρ} {next : ρ → Option Int} {items : ρ → List α}

/-- An answer at a position shows the next `k` items and continues behind them, within the positions that
can be read, or is the last one. -/
def IsWindow (next : ρ → Option Int) (items : ρ → List α) (base : Int) (l : List α) (limit n : ℕ) (r : ρ) :
    Prop :=
  ∃ k, items r = (l.drop n).take k ∧ ((next r = none ∧ l.length ≤ n + k) ∨
    (next r = some (base + ↑(n + k)) ∧ 0 < k ∧ n + k ≤ l.length ∧ n + k ≤ limit))

theorem readOn_ok {fuel : ℕ} {pos : Int} {r : ρ} (h : read pos = .ok r) :
    readOn read next (fuel + 1) pos = match next r with
      | none => some (.ok [r])
      | some pos' => (readOn read next fuel pos').map (·.map (r :: ·)) := by
  rw [readOn, h]

/-- A read that fails at its first position shows nothing. -/
theorem readOn_ne_ok {fuel : ℕ} {pos : Int} {e : ε} (h : read pos = .error e) (results : List ρ) :
    readOn read next fuel pos ≠ some (.ok results) := by
  intro hresults
  cases fuel with
  | zero => cases hresults
  | succ fuel =>
    rw [readOn, h] at hresults
    cases hresults

/-- Following the continuations shows all items from the position on, each once, unless an answer is
an error that `bad` allows. -/
theorem readOn_windows (read : Int → Except ε ρ) (next : ρ → Option Int) (items : ρ → List α) (base : Int)
    (l : List α) (bad : ε → Prop) (limit n : ℕ) (hn : n ≤ l.length) (hlimit : n ≤ limit)
    (h : ∀ n ≤ l.length, n ≤ limit → (∃ e, read (base + n) = .error e ∧ bad e) ∨
      ∃ r, read (base + n) = .ok r ∧ IsWindow next items base l limit n r) :
    ∃ fuel, (∃ e, readOn read next fuel (base + n) = some (.error e) ∧ bad e) ∨
      ∃ results, readOn read next fuel (base + n) = some (.ok results) ∧ results.flatMap items = l.drop n := by
  induction hm : l.length - n using Nat.strongRecOn generalizing n with
  | ind m ih =>
    obtain ⟨e, he, hbad⟩ | ⟨r, hr, k, hitems, ⟨hnext, hle⟩ | ⟨hnext, hpos, hle, hreach⟩⟩ := h n hn hlimit
    · exact ⟨1, .inl ⟨e, by rw [readOn, he], hbad⟩⟩
    · refine ⟨1, .inr ⟨[r], by rw [readOn_ok hr, hnext], ?_⟩⟩
      rw [List.flatMap_singleton, hitems, List.take_of_length_le]
      rw [List.length_drop]
      omega
    · obtain ⟨fuel, hrest⟩ := ih (l.length - (n + k)) (by omega) (n + k) hle hreach rfl
      refine ⟨fuel + 1, ?_⟩
      rw [readOn_ok hr, hnext]
      obtain ⟨e, he, hbad⟩ | ⟨results, hresults, hshown⟩ := hrest
      · exact .inl ⟨e, by simp only [he]; rfl, hbad⟩
      · refine .inr ⟨r :: results, by simp only [hresults]; rfl, ?_⟩
        rw [List.flatMap_cons, hshown, hitems, ← List.drop_drop, List.take_append_drop]

end Reading

section Budget

/-- Take items while their costs fit into the budget; `none` if the first one does not. -/
def within (cost : α → ℕ) (page : List α) (budget : ℕ) : List α → Option (List α)
  | [] => some page
  | x :: xs =>
    if budget < cost x then if page = [] then none else some page
    else within cost (page ++ [x]) (budget - cost x) xs

theorem within_cases (cost : α → ℕ) (page : List α) (budget : ℕ) (l : List α) :
    (within cost page budget l = none ∧ page = [] ∧ ∃ x ∈ l, budget < cost x) ∨
      ∃ k, within cost page budget l = some (page ++ l.take k) ∧ k ≤ l.length ∧ (page = [] → l ≠ [] → 0 < k) := by
  induction l generalizing page budget with
  | nil => exact .inr ⟨0, by simp [within], Nat.le_refl 0, by simp⟩
  | cons x xs ih =>
    rw [within]
    by_cases hx : budget < cost x
    · rw [if_pos hx]
      by_cases hpage : page = []
      · exact .inl ⟨if_pos hpage, hpage, x, List.mem_cons_self, hx⟩
      · exact .inr ⟨0, by simp [hpage], Nat.zero_le _, fun h => absurd h hpage⟩
    · rw [if_neg hx]
      obtain ⟨-, h, -⟩ | ⟨k, hk, hle, -⟩ := ih (page ++ [x]) (budget - cost x)
      · exact absurd h (by simp)
      · exact .inr ⟨k + 1, by rw [hk, List.append_assoc]; rfl, by simpa using hle, fun _ _ => Nat.succ_pos k⟩

end Budget

end Soveren.Windows
