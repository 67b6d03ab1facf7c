import Soveren.Relational.Table

/-! Computations that stay in their own part of the tables. Such a computation does the same on its own part
alone, and it keeps the rest. -/
namespace Soveren.Relational

section Confined

variable {σ ε β γ : Type} {own rest : σ → σ} {state : β → σ} {restrict : β → β} {state' : γ → σ}
  {restrict' : γ → γ} {s : σ}

/-- `x` on a state and `y` on its own part have the same outcome, and `x` keeps the rest. -/
structure Confined (own rest : σ → σ) (state : β → σ) (restrict : β → β) (s : σ) (x y : Except ε β) : Prop where
  alone : y = x.map restrict
  frame : ∀ b, x = .ok b → rest (state b) = rest s

theorem Confined.error (e : ε) : Confined own rest state restrict s (.error e) (.error e) :=
  ⟨rfl, fun _ h => by cases h⟩

theorem Confined.ok {b b' : β} (hb : b' = restrict b) (h : rest (state b) = rest s) :
    Confined own rest state restrict s (.ok b : Except ε β) (.ok b') :=
  ⟨congrArg Except.ok hb, fun _ he => Except.ok.inj he ▸ h⟩

/-- A check of a condition that the own part decides. -/
theorem Confined.check {cond cond' : Prop} [Decidable cond] [Decidable cond'] {x y : Except ε β} {e : ε}
    (hcond : cond' ↔ cond) (h : Confined own rest state restrict s x y) :
    Confined own rest state restrict s (if cond then .error e else x) (if cond' then .error e else y) := by
  by_cases hc : cond
  · rw [if_pos hc, if_pos (hcond.mpr hc)]
    exact .error e
  · rw [if_neg hc, if_neg (mt hcond.mp hc)]
    exact h

/-- A statement that is refused under a condition on the own part. -/
theorem Confined.guard {cond cond' : Prop} [Decidable cond] [Decidable cond'] {b b' : β} {e : ε}
    (hcond : cond' ↔ cond) (hb : b' = restrict b) (h : rest (state b) = rest s) :
    Confined own rest state restrict s (if cond then .error e else .ok b) (if cond' then .error e else .ok b') :=
  .check hcond (.ok hb h)

theorem Confined.bind {x y : Except ε β} {f : β → Except ε γ} (h : Confined own rest state restrict s x y)
    (hf : ∀ b, x = .ok b → Confined own rest state' restrict' (state b) (f b) (f (restrict b))) :
    Confined own rest state' restrict' s (x >>= f) (y >>= f) := by
  obtain ⟨rfl, hframe⟩ := h
  cases x with
  | error e => exact .error e
  | ok b =>
    obtain ⟨halone, hrest⟩ := hf b rfl
    exact ⟨halone, fun a ha => (hrest a ha).trans (hframe b rfl)⟩

/-- A computation that reads nothing but what both sides have. -/
theorem Confined.lift {x : Except ε γ} {f g : γ → Except ε β}
    (h : ∀ a, x = .ok a → Confined own rest state restrict s (f a) (g a)) :
    Confined own rest state restrict s (x >>= f) (x >>= g) := by
  cases x with
  | error e => exact .error e
  | ok a => exact h a rfl

theorem Confined.of_rest {s' : σ} {x y : Except ε β} (h : Confined own rest state restrict s' x y)
    (hs : rest s' = rest s) : Confined own rest state restrict s x y :=
  ⟨h.alone, fun b hb => (h.frame b hb).trans hs⟩

end Confined

section Parts

variable {α : Type} {p q : α → Bool} {t : List α}

theorem any_part (h : ∀ r, p r = true → q r = true) : (t.filter q).any p = t.any p := by
  rw [List.any_filter]
  refine List.any_congr rfl fun r => ?_
  cases hp : p r with
  | false => simp
  | true => simp [h r hp]

theorem rowcount_part (h : ∀ r, p r = true → q r = true) : rowcount p (t.filter q) = rowcount p t := by
  rw [rowcount, List.countP_filter, rowcount]
  refine List.countP_congr fun r _ => ?_
  simp only [Bool.and_eq_true]
  exact ⟨fun hr => hr.1, fun hr => ⟨hr, h r hr⟩⟩

theorem filter_part (h : ∀ r, p r = true → q r = true) : (t.filter q).filter p = t.filter p := by
  rw [List.filter_filter]
  refine List.filter_congr fun r _ => ?_
  cases hp : p r with
  | false => simp
  | true => simp [h r hp]

end Parts

end Soveren.Relational
