import Mathlib.Algebra.BigOperators.Group.Finset.Piecewise
import Mathlib.Algebra.Order.BigOperators.Group.Finset
import Mathlib.Data.List.Basic
import Mathlib.Tactic.Common

/-! Runs of a partial step function, invariants of all their states, and the order of the
entries of a log that a run extends at its end. -/
namespace Soveren.Run

variable {σ ℓ ε : Type*}

/-- Take the steps of a schedule one after the other; a step that is not enabled ends it. -/
def exec (step : σ → ℓ → Option σ) : σ → List ℓ → Option σ
  | s, [] => some s
  | s, l :: ls => (step s l).bind fun t => exec step t ls

/-- Every step of the schedule is taken in a state that meets the condition. -/
def Meets (step : σ → ℓ → Option σ) (C : σ → ℓ → Prop) : σ → List ℓ → Prop
  | _, [] => True
  | s, l :: ls => C s l ∧ ∀ t, step s l = some t → Meets step C t ls

variable {step : σ → ℓ → Option σ}

theorem exec_cons {s t : σ} {l : ℓ} {ls : List ℓ} (h : exec step s (l :: ls) = some t) :
    ∃ u, step s l = some u ∧ exec step u ls = some t := by
  simpa [exec, Option.bind_eq_some_iff] using h

/-- What every step keeps, every run keeps. -/
theorem exec_invariant {I : σ → Prop} (hstep : ∀ s l t, I s → step s l = some t → I t)
    {s t : σ} {ls : List ℓ} (h0 : I s) (h : exec step s ls = some t) : I t := by
  induction ls generalizing s with
  | nil => simpa [exec] using Option.some.inj h ▸ h0
  | cons l ls ih =>
    obtain ⟨u, hu, ht⟩ := exec_cons h
    exact ih (hstep s l u h0 hu) ht

/-- What every step that meets the condition keeps, every run of such steps keeps. -/
theorem exec_invariant_of_meets {I : σ → Prop} {C : σ → ℓ → Prop}
    (hstep : ∀ s l t, I s → C s l → step s l = some t → I t)
    {s t : σ} {ls : List ℓ} (h0 : I s) (hm : Meets step C s ls)
    (h : exec step s ls = some t) : I t := by
  induction ls generalizing s with
  | nil => simpa [exec] using Option.some.inj h ▸ h0
  | cons l ls ih =>
    obtain ⟨u, hu, ht⟩ := exec_cons h
    exact ih (hstep s l u h0 hm.1 hu) (hm.2 u hu) ht

/-- An invariant that depends on the time of the last timed step is kept where the times of the
steps do not decrease. -/
theorem exec_invariant_clocked {τ : Type*} [Preorder τ] (clock : ℓ → Option τ) {I : τ → σ → Prop}
    {C : σ → ℓ → Prop}
    (hstep : ∀ now s l t, I now s → C s l → (∀ n, clock l = some n → now ≤ n) → step s l = some t →
      I ((clock l).getD now) t)
    {now : τ} {s t : σ} {ls : List ℓ} (h0 : I now s) (hle : ∀ n ∈ ls.filterMap clock, now ≤ n)
    (hclock : (ls.filterMap clock).Pairwise (· ≤ ·)) (hm : Meets step C s ls)
    (h : exec step s ls = some t) : ∃ now', I now' t := by
  induction ls generalizing now s with
  | nil => exact ⟨now, Option.some.inj h ▸ h0⟩
  | cons l ls ih =>
    obtain ⟨u, hu, ht⟩ := exec_cons h
    cases hl : clock l with
    | none =>
      rw [List.filterMap_cons_none hl] at hle hclock
      have hu' := hstep now s l u h0 hm.1 (by simp [hl]) hu
      rw [hl] at hu'
      exact ih hu' hle hclock (hm.2 u hu) ht
    | some n =>
      rw [List.filterMap_cons_some hl] at hle hclock
      obtain ⟨hn, hrest⟩ := List.pairwise_cons.mp hclock
      have hnow : ∀ n', clock l = some n' → now ≤ n' := by
        intro n' hn'
        obtain rfl := Option.some.inj (hl.symm.trans hn')
        exact hle n List.mem_cons_self
      have hu' := hstep now s l u h0 hm.1 hnow hu
      rw [hl] at hu'
      exact ih hu' hn hrest (hm.2 u hu) ht

theorem meets_true (s : σ) (ls : List ℓ) : Meets step (fun _ _ => True) s ls := by
  induction ls generalizing s with
  | nil => trivial
  | cons l ls ih => exact ⟨trivial, fun t _ => ih t⟩

theorem Meets.mono {C D : σ → ℓ → Prop} (hCD : ∀ s l, C s l → D s l) {s : σ} {ls : List ℓ}
    (hm : Meets step C s ls) : Meets step D s ls := by
  induction ls generalizing s with
  | nil => trivial
  | cons l ls ih => exact ⟨hCD s l hm.1, fun t ht => ih (hm.2 t ht)⟩

/-- A condition on the labels alone joins a condition on the steps. -/
theorem Meets.and_forall {C : σ → ℓ → Prop} {Q : ℓ → Prop} {s : σ} {ls : List ℓ}
    (hm : Meets step C s ls) (hq : ∀ l ∈ ls, Q l) : Meets step (fun s l => Q l ∧ C s l) s ls := by
  induction ls generalizing s with
  | nil => trivial
  | cons l ls ih =>
    refine ⟨⟨hq l (by simp), hm.1⟩, fun t ht => ih (hm.2 t ht) fun x hx => hq x ?_⟩
    exact List.mem_cons_of_mem l hx

/-- The rest of a run of steps that meet the condition is one, too. -/
theorem Meets.of_append {C : σ → ℓ → Prop} {s t : σ} {ls ls' : List ℓ}
    (hm : Meets step C s (ls ++ ls')) (h : exec step s ls = some t) :
    Meets step C s ls ∧ Meets step C t ls' := by
  induction ls generalizing s with
  | nil => exact ⟨trivial, Option.some.inj h ▸ hm⟩
  | cons l ls ih =>
    obtain ⟨u, hu, ht⟩ := exec_cons h
    refine ⟨⟨hm.1, fun u' hu' => ?_⟩, (ih (hm.2 u hu) ht).2⟩
    obtain rfl := Option.some.inj (hu.symm.trans hu')
    exact (ih (hm.2 u hu) ht).1

/-- What a step that meets the condition relates, a run of such steps relates. -/
theorem exec_relates_of_meets {R : σ → σ → Prop} {I : σ → Prop} {C : σ → ℓ → Prop}
    (hrefl : ∀ s, R s s) (htrans : ∀ s t u, R s t → R t u → R s u)
    (hI : ∀ s l t, I s → C s l → step s l = some t → I t)
    (hstep : ∀ s l t, I s → C s l → step s l = some t → R s t)
    {s t : σ} {ls : List ℓ} (h0 : I s) (hm : Meets step C s ls) (h : exec step s ls = some t) :
    R s t := by
  induction ls generalizing s with
  | nil => simpa [exec] using Option.some.inj h ▸ hrefl s
  | cons l ls ih =>
    obtain ⟨u, hu, ht⟩ := exec_cons h
    exact htrans s u t (hstep s l u h0 hm.1 hu) (ih (hI s l u h0 hm.1 hu) (hm.2 u hu) ht)

instance decidableMeets {C : σ → ℓ → Prop} [∀ s l, Decidable (C s l)] :
    ∀ (s : σ) (ls : List ℓ), Decidable (Meets step C s ls)
  | _, [] => isTrue trivial
  | s, l :: ls => match h : step s l with
    | none => decidable_of_iff (C s l) (by simp [Meets, h])
    | some t =>
      have : Decidable (Meets step C t ls) := decidableMeets t ls
      decidable_of_iff (C s l ∧ Meets step C t ls) (by simp [Meets, h])

/-- Each entry of the log satisfies `P` together with the entries before it. -/
def Always (P : List ε → ε → Prop) (log : List ε) : Prop :=
  ∀ pre e post, log = pre ++ e :: post → P pre e

theorem always_nil (P : List ε → ε → Prop) : Always P [] := by
  intro pre e post h
  simp at h

/-- The splits of a log extended by one entry. -/
theorem snoc_split {log pre post : List ε} {e x : ε} (h : log ++ [e] = pre ++ x :: post) :
    (post = [] ∧ pre = log ∧ x = e) ∨ ∃ post', post = post' ++ [e] ∧ log = pre ++ x :: post' := by
  rcases List.eq_nil_or_concat post with rfl | ⟨post', y, rfl⟩
  · obtain ⟨rfl, hx⟩ := List.append_inj' h rfl
    exact .inl ⟨rfl, rfl, by simpa using hx.symm⟩
  · have h' : log ++ [e] = (pre ++ x :: post') ++ [y] := by simpa using h
    obtain ⟨rfl, hy⟩ := List.append_inj' h' rfl
    obtain rfl : e = y := by simpa using hy
    exact .inr ⟨post', by simp, rfl⟩

theorem always_snoc {P : List ε → ε → Prop} {log : List ε} {e : ε} :
    Always P (log ++ [e]) ↔ Always P log ∧ P log e := by
  constructor
  · intro h
    refine ⟨fun pre x post hx => h pre x (post ++ [e]) (by simp [hx]), h log e [] rfl⟩
  · rintro ⟨h, he⟩ pre x post hx
    rcases snoc_split hx with ⟨-, rfl, rfl⟩ | ⟨post', -, hlog⟩
    · exact he
    · exact h pre x post' hlog

/-- The splits at an entry that an extension of the log does not have. -/
theorem append_split {log new pre post : List ε} {e : ε} (he : e ∉ new)
    (h : log ++ new = pre ++ e :: post) : ∃ post', post = post' ++ new ∧ log = pre ++ e :: post' := by
  obtain ⟨as, rfl, has⟩ | ⟨bs, rfl, hbs⟩ := List.append_eq_append_iff.mp h
  · exact absurd (has ▸ by simp) he
  · cases bs with
    | nil =>
      have hnew : new = e :: post := by simpa using hbs.symm
      exact absurd (hnew ▸ List.mem_cons_self) he
    | cons b bs =>
      obtain ⟨rfl, rfl⟩ := List.cons.inj hbs
      exact ⟨bs, rfl, rfl⟩

/-- A log extended by entries that satisfy `P` where they stand. -/
theorem always_append {P : List ε → ε → Prop} {log new : List ε} (h : Always P log)
    (hnew : ∀ pre e post, new = pre ++ e :: post → P (log ++ pre) e) : Always P (log ++ new) := by
  intro pre e post hsplit
  obtain ⟨as, rfl, has⟩ | ⟨bs, rfl, hbs⟩ := List.append_eq_append_iff.mp hsplit
  · exact hnew as e post has
  · cases bs with
    | nil =>
      have hpost : new = [] ++ e :: post := by simpa using hbs.symm
      simpa using hnew [] e post hpost
    | cons b bs =>
      obtain ⟨rfl, -⟩ := List.cons.inj hbs
      exact h pre e bs rfl

section Since

/-- There is an entry `e` in the log, and every entry after it satisfies `Q`. -/
def Since (e : ε) (Q : ε → Prop) : List ε → Prop
  | [] => False
  | x :: xs => (x = e ∧ ∀ y ∈ xs, Q y) ∨ Since e Q xs

instance decidableSince [DecidableEq ε] {e : ε} {Q : ε → Prop} [DecidablePred Q] :
    ∀ log : List ε, Decidable (Since e Q log)
  | [] => isFalse id
  | x :: xs =>
    have : Decidable (Since e Q xs) := decidableSince xs
    inferInstanceAs (Decidable ((x = e ∧ ∀ y ∈ xs, Q y) ∨ Since e Q xs))

variable {e : ε} {Q : ε → Prop} {log new : List ε}

theorem since_iff : Since e Q log ↔ ∃ pre post, log = pre ++ e :: post ∧ ∀ y ∈ post, Q y := by
  induction log with
  | nil => simp [Since]
  | cons x xs ih =>
    constructor
    · rintro (⟨rfl, h⟩ | h)
      · exact ⟨[], xs, rfl, h⟩
      · obtain ⟨pre, post, rfl, hpost⟩ := ih.mp h
        exact ⟨x :: pre, post, rfl, hpost⟩
    · rintro ⟨pre, post, hsplit, hpost⟩
      cases pre with
      | nil =>
        obtain ⟨rfl, rfl⟩ := List.cons.inj hsplit
        exact .inl ⟨rfl, hpost⟩
      | cons y pre =>
        obtain ⟨rfl, rfl⟩ := List.cons.inj hsplit
        exact .inr (ih.mpr ⟨pre, post, rfl, hpost⟩)

theorem Since.mem (h : Since e Q log) : e ∈ log := by
  obtain ⟨pre, post, rfl, -⟩ := since_iff.mp h
  simp

/-- New entries other than `e` have to satisfy `Q`. -/
theorem Since.of_append (he : e ∉ new) (h : Since e Q (log ++ new)) :
    Since e Q log ∧ ∀ y ∈ new, Q y := by
  obtain ⟨pre, post, hsplit, hpost⟩ := since_iff.mp h
  obtain ⟨post', rfl, rfl⟩ := append_split he hsplit
  exact ⟨since_iff.mpr ⟨pre, post', rfl, fun y hy => hpost y (List.mem_append_left _ hy)⟩,
    fun y hy => hpost y (List.mem_append_right _ hy)⟩

end Since

section Agents

variable (agent : ε → Option ℕ)

/-- The entries that one agent made. -/
def entriesOf (i : ℕ) (log : List ε) : List ε := log.filter fun e => agent e = some i

theorem entriesOf_append (i : ℕ) (log new : List ε) :
    entriesOf agent i (log ++ new) = entriesOf agent i log ++ entriesOf agent i new :=
  List.filter_append ..

theorem entriesOf_eq_nil {i : ℕ} {log : List ε} (h : ∀ e ∈ log, agent e ≠ some i) :
    entriesOf agent i log = [] := by
  refine List.filter_eq_nil_iff.mpr fun e he => ?_
  simpa using h e he

theorem entriesOf_eq_self {i : ℕ} {log : List ε} (h : ∀ e ∈ log, agent e = some i) :
    entriesOf agent i log = log := by
  refine List.filter_eq_self.mpr fun e he => ?_
  simpa using h e he

theorem mem_entriesOf {i : ℕ} {log : List ε} {e : ε} (h : agent e = some i) :
    e ∈ entriesOf agent i log ↔ e ∈ log := by
  simp [entriesOf, h]

/-- The entries of the first `n` agents, counted agent by agent. -/
theorem sum_countP (p : ε → Bool) (n : ℕ) (log : List ε) :
    ∑ i ∈ Finset.range n, (entriesOf agent i log).countP p =
      log.countP fun e => p e && (agent e).any (· < n) := by
  induction log with
  | nil => simp [entriesOf]
  | cons e log ih =>
    have hcons : ∀ i, (entriesOf agent i (e :: log)).countP p =
        (entriesOf agent i log).countP p + if agent e = some i then (if p e then 1 else 0) else 0 := by
      intro i
      by_cases hi : agent e = some i
      · simp [entriesOf, hi, List.countP_cons]
      · simp [entriesOf, hi]
    have hone : (∑ i ∈ Finset.range n, if agent e = some i then (if p e then 1 else 0) else 0) =
        if p e && (agent e).any (· < n) then 1 else 0 := by
      cases agent e with
      | none => simp
      | some j =>
        by_cases hj : j < n
        · simp [hj]
        · simp [hj]
    simp only [hcons, Finset.sum_add_distrib, ih, hone, List.countP_cons]

/-- A count that is bounded agent by agent is bounded. -/
theorem countP_le_of_agents {p q : ε → Bool} {n : ℕ} {log : List ε}
    (h : ∀ e ∈ log, p e = true → ∃ i < n, agent e = some i)
    (hle : ∀ i < n, (entriesOf agent i log).countP p ≤ (entriesOf agent i log).countP q) :
    log.countP p ≤ log.countP q := by
  have hp : log.countP p = ∑ i ∈ Finset.range n, (entriesOf agent i log).countP p := by
    rw [sum_countP]
    refine List.countP_congr fun e he => ?_
    by_cases hpe : p e = true
    · obtain ⟨i, hi, ha⟩ := h e he hpe
      simp [hpe, ha, hi]
    · simp [hpe]
  have hq : ∑ i ∈ Finset.range n, (entriesOf agent i log).countP q ≤ log.countP q := by
    rw [sum_countP]
    exact List.countP_mono_left fun e _ he => ((Bool.and_eq_true _ _).mp he).1
  rw [hp]
  exact (Finset.sum_le_sum fun i hi => hle i (Finset.mem_range.mp hi)).trans hq

end Agents

end Soveren.Run
