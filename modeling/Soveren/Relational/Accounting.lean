import Mathlib.Algebra.BigOperators.Group.List.Basic
import Mathlib.Algebra.Order.BigOperators.Group.List
import Mathlib.Algebra.Order.Ring.Nat
import Mathlib.Tactic.Common

/-! Counters of shared objects and the agents that they count. An agent uses every counter by
some amount; the books are balanced when each counter is the sum of what the agents use. -/
namespace Soveren.Accounting

variable {κ ι : Type*} (usage : ι → κ → ℕ)

/-- What all the agents of a pool use of a counter. -/
def total (pool : List ι) (k : κ) : ℕ := (pool.map (usage · k)).sum

/-- Every counter has the value that the agents account for. -/
def Balanced (counter : κ → ℕ) (pool : List ι) : Prop := ∀ k, counter k = total usage pool k

variable {counter counter' : κ → ℕ} {pool : List ι} {i : ℕ} {x y : ι}

theorem total_set (h : pool[i]? = some x) (y : ι) (k : κ) :
    total usage (pool.set i y) k + usage x k = total usage pool k + usage y k := by
  induction pool generalizing i with
  | nil => simp at h
  | cons z pool ih =>
    cases i with
    | zero =>
      obtain rfl : z = x := by simpa using h
      simp only [total, List.set_cons_zero, List.map_cons, List.sum_cons]
      omega
    | succ i =>
      have hi := ih (by simpa using h)
      simp only [total, List.set_cons_succ, List.map_cons, List.sum_cons] at hi ⊢
      omega

theorem total_append (pool new : List ι) (k : κ) :
    total usage (pool ++ new) k = total usage pool k + total usage new k := by
  simp [total]

theorem usage_le_total (h : x ∈ pool) (k : κ) : usage x k ≤ total usage pool k :=
  List.le_sum_of_mem (List.mem_map_of_mem h)

variable {usage} {k : κ}

/-- One agent and the counters change by the same amounts. -/
theorem Balanced.set (h : Balanced usage counter pool) (hi : pool[i]? = some x)
    (hc : ∀ k, counter' k + usage x k = counter k + usage y k) :
    Balanced usage counter' (pool.set i y) := by
  intro k
  have ht := total_set usage hi y k
  have hk := hc k
  have hb := h k
  omega

/-- A new agent that uses nothing. -/
theorem Balanced.push (h : Balanced usage counter pool) (hy : ∀ k, usage y k = 0) :
    Balanced usage counter (pool ++ [y]) := by
  intro k
  rw [total_append usage, h k]
  simp [total, hy k]

theorem Balanced.usage_le (h : Balanced usage counter pool) (hx : x ∈ pool) :
    usage x k ≤ counter k := by
  rw [h k]
  exact usage_le_total usage hx k

theorem Balanced.eq_zero (h : Balanced usage counter pool) (hx : ∀ x ∈ pool, usage x k = 0) :
    counter k = 0 := by
  rw [h k, total, List.sum_eq_zero_iff]
  intro n hn
  obtain ⟨x, hmem, rfl⟩ := List.mem_map.mp hn
  exact hx x hmem

/-- The agents that satisfy a predicate number at most a counter that each of them uses. -/
theorem Balanced.countP_le (h : Balanced usage counter pool) {p : ι → Bool}
    (hp : ∀ x ∈ pool, p x = true → 1 ≤ usage x k) : pool.countP p ≤ counter k := by
  rw [h k]
  clear h
  induction pool with
  | nil => simp
  | cons z pool ih =>
    have hle := ih fun x hx => hp x (List.mem_cons_of_mem z hx)
    have hcons : total usage (z :: pool) k = usage z k + total usage pool k := rfl
    rw [List.countP_cons, hcons]
    by_cases hz : p z = true
    · have h1 := hp z List.mem_cons_self hz
      simp only [hz, if_true]
      omega
    · simp only [hz]
      simp only [Bool.false_eq_true, if_false]
      omega

/-- What the agents that satisfy a predicate hold together is at most a counter that each of them
uses as much of. -/
theorem Balanced.sum_filter_le (h : Balanced usage counter pool) {p : ι → Bool} {w : ι → ℕ}
    (hp : ∀ x ∈ pool, p x = true → w x ≤ usage x k) :
    ((pool.filter p).map w).sum ≤ counter k := by
  rw [h k]
  clear h
  induction pool with
  | nil => simp
  | cons z pool ih =>
    have hle := ih fun x hx => hp x (List.mem_cons_of_mem z hx)
    have hcons : total usage (z :: pool) k = usage z k + total usage pool k := rfl
    rw [hcons]
    by_cases hz : p z = true
    · have h1 := hp z List.mem_cons_self hz
      rw [List.filter_cons_of_pos hz, List.map_cons, List.sum_cons]
      omega
    · rw [List.filter_cons_of_neg hz]
      omega

end Soveren.Accounting
