import Mathlib.Data.List.Basic
import Mathlib.Tactic.Common

/-! Sequential programs over atomic operations, protocols that such programs follow, and
pools of them that are advanced one atomic operation at a time. The phase of a pool entry
is an auxiliary variable: it records how far its program has come in the protocol and never
influences what the program does. -/
namespace Soveren.Process

/-- A program that performs atomic operations `Op` and continues with their results. -/
inductive Proc (Op : Type) (Res : Op → Type) (α : Type) : Type
  | ret (a : α)
  | call (o : Op) (k : Res o → Proc Op Res α)

variable {Op : Type} {Res : Op → Type} {α β : Type}

namespace Proc

def bind : Proc Op Res α → (α → Proc Op Res β) → Proc Op Res β
  | .ret a, f => f a
  | .call o k, f => .call o fun r => (k r).bind f

instance : Monad (Proc Op Res) where
  pure := .ret
  bind := .bind

/-- Perform one operation. -/
def perform (o : Op) : Proc Op Res (Res o) := .call o .ret

@[simp] theorem pure_eq (a : α) : (pure a : Proc Op Res α) = .ret a := rfl

@[simp] theorem ret_bind (a : α) (f : α → Proc Op Res β) : (Proc.ret a >>= f) = f a := rfl

@[simp] theorem call_bind (o : Op) (k : Res o → Proc Op Res α) (f : α → Proc Op Res β) :
    (Proc.call o k >>= f) = .call o fun r => k r >>= f := rfl

@[simp] theorem perform_bind (o : Op) (f : Res o → Proc Op Res β) :
    ((perform o : Proc Op Res (Res o)) >>= f) = .call o f := rfl

section Alone

variable {σ : Type} (f : ℕ → σ → (o : Op) → σ × Res o)

/-- Run a program that nothing interrupts: the state and the value at its end, and the operations that it
has performed. The number counts operations and stands for the moment of each. -/
def runAlone : ℕ → σ → Proc Op Res α → σ × List Op × α
  | _, s, .ret a => (s, [], a)
  | n, s, .call o k =>
    let rest := runAlone (n + 1) (f n s o).1 (k (f n s o).2)
    (rest.1, o :: rest.2.1, rest.2.2)

theorem runAlone_bind (n : ℕ) (s : σ) (x : Proc Op Res α) (g : α → Proc Op Res β) :
    runAlone f n s (x >>= g) =
      let first := runAlone f n s x
      let rest := runAlone f (n + first.2.1.length) first.1 (g first.2.2)
      (rest.1, first.2.1 ++ rest.2.1, rest.2.2) := by
  induction x generalizing n s with
  | ret a => rfl
  | call o k ih =>
    simp only [call_bind, runAlone, ih, List.length_cons, List.cons_append]
    rw [Nat.add_right_comm n 1, Nat.add_assoc n]

end Alone

end Proc

/-- A protocol: in which phase an operation may be performed, and the phase its result
leads to. -/
structure Protocol (Op : Type) (Res : Op → Type) where
  Phase : Type
  allowed : Phase → Op → Prop
  next : Phase → (o : Op) → Res o → Phase

/-- The program performs only allowed operations, whatever their results are. -/
def Follows (P : Protocol Op Res) : P.Phase → Proc Op Res α → Prop
  | _, .ret _ => True
  | φ, .call o k => P.allowed φ o ∧ ∀ r, Follows P (P.next φ o r) (k r)

@[simp] theorem follows_ret (P : Protocol Op Res) (φ : P.Phase) (a : α) :
    Follows P φ (.ret a) := trivial

theorem follows_call {P : Protocol Op Res} {φ : P.Phase} {o : Op} {k : Res o → Proc Op Res α} :
    Follows P φ (.call o k) ↔ P.allowed φ o ∧ ∀ r, Follows P (P.next φ o r) (k r) := Iff.rfl

/-- A program whose continuations are allowed in every phase. -/
theorem follows_bind {P : Protocol Op Res} {φ : P.Phase} {x : Proc Op Res α}
    {f : α → Proc Op Res β} (hx : Follows P φ x) (hf : ∀ φ a, Follows P φ (f a)) :
    Follows P φ (x >>= f) := by
  induction x generalizing φ with
  | ret a => exact hf φ a
  | call o k ih => exact ⟨hx.1, fun r => ih r (hx.2 r)⟩

/-- The program performs only allowed operations, and where it returns, the phase and the
value satisfy `Q`. -/
def Ends (P : Protocol Op Res) (Q : P.Phase → α → Prop) : P.Phase → Proc Op Res α → Prop
  | φ, .ret a => Q φ a
  | φ, .call o k => P.allowed φ o ∧ ∀ r, Ends P Q (P.next φ o r) (k r)

theorem Ends.follows {P : Protocol Op Res} {Q : P.Phase → α → Prop} {φ : P.Phase}
    {x : Proc Op Res α} (h : Ends P Q φ x) : Follows P φ x := by
  induction x generalizing φ with
  | ret a => trivial
  | call o k ih => exact ⟨h.1, fun r => ih r (h.2 r)⟩

theorem Ends.bind {P : Protocol Op Res} {R : P.Phase → α → Prop} {Q : P.Phase → β → Prop}
    {φ : P.Phase} {x : Proc Op Res α} {f : α → Proc Op Res β} (hx : Ends P R φ x)
    (hf : ∀ φ a, R φ a → Ends P Q φ (f a)) : Ends P Q φ (x >>= f) := by
  induction x generalizing φ with
  | ret a => exact hf φ a hx
  | call o k ih => exact ⟨hx.1, fun r => ih r (hx.2 r)⟩

section Raising

variable {ε : Type}

/-- A program that may raise continues where it has not. -/
theorem Ends.andThen {P : Protocol Op Res} {R : P.Phase → Except ε α → Prop}
    {Q : P.Phase → Except ε β → Prop} {φ : P.Phase} {x : ExceptT ε (Proc Op Res) α}
    {f : α → ExceptT ε (Proc Op Res) β} (hx : Ends P R φ x.run)
    (hok : ∀ φ a, R φ (.ok a) → Ends P Q φ (f a).run) (herror : ∀ φ e, R φ (.error e) → Q φ (.error e)) :
    Ends P Q φ (x >>= f).run := by
  refine Ends.bind hx fun φ r hr => ?_
  cases r with
  | error e => exact herror φ e hr
  | ok a => exact hok φ a hr

theorem Ends.orCatch {P : Protocol Op Res} {R Q : P.Phase → Except ε α → Prop} {φ : P.Phase}
    {x : ExceptT ε (Proc Op Res) α} {handler : ε → ExceptT ε (Proc Op Res) α}
    (hx : Ends P R φ x.run) (hok : ∀ φ a, R φ (.ok a) → Q φ (.ok a))
    (herror : ∀ φ e, R φ (.error e) → Ends P Q φ (handler e).run) :
    Ends P Q φ (tryCatch x handler).run := by
  refine Ends.bind hx fun φ r hr => ?_
  cases r with
  | error e => exact herror φ e hr
  | ok a => exact hok φ a hr

end Raising

section Pool

variable {ι : Type*}

/-- Replacing one pool entry keeps a property of all entries that the new one has. -/
theorem forall_set {p : ι → Prop} {pool : List ι} {i : ℕ} {x : ι} (h : ∀ y ∈ pool, p y)
    (hx : p x) : ∀ y ∈ pool.set i x, p y := by
  intro y hy
  rcases List.mem_or_eq_of_mem_set hy with hy | rfl
  · exact h y hy
  · exact hx

theorem getElem?_set_cases {pool : List ι} {i j : ℕ} {x y z : ι} (hi : pool[i]? = some z)
    (h : (pool.set i x)[j]? = some y) : (j = i ∧ y = x) ∨ (j ≠ i ∧ pool[j]? = some y) := by
  by_cases hij : i = j
  · subst hij
    have hlt : i < pool.length := (List.getElem?_eq_some_iff.mp hi).1
    rw [List.getElem?_set_self hlt] at h
    exact .inl ⟨rfl, (Option.some.inj h).symm⟩
  · rw [List.getElem?_set_ne hij] at h
    exact .inr ⟨Ne.symm hij, h⟩

theorem getElem?_append_cases {pool new : List ι} {j : ℕ} {y : ι}
    (h : (pool ++ new)[j]? = some y) : pool[j]? = some y ∨ (pool.length ≤ j ∧ y ∈ new) := by
  by_cases hj : j < pool.length
  · rw [List.getElem?_append_left hj] at h
    exact .inl h
  · have hle : pool.length ≤ j := by omega
    rw [List.getElem?_append_right hle] at h
    exact .inr ⟨hle, List.mem_of_getElem? h⟩

end Pool

end Soveren.Process
