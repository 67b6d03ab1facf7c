import Mathlib.Order.Basic
import Soveren.Relational.Process

/-! Contracts of programs that run beside others. What is known of the surroundings is a world
that only grows; a program ensures what its operations require, and may assume of their results
what holds in the world where it receives them. -/
namespace Soveren.Process

variable {W Op α β ε : Type} {Res : Op → Type} [Preorder W]

/-- What an operation requires of the world, and what its result says about the world. -/
structure Contract (W Op : Type) (Res : Op → Type) where
  pre : W → Op → Prop
  post : W → (o : Op) → Res o → Prop

/-- The program keeps the contract from a world on, and where it returns, the value satisfies
`Q`. -/
def Safe (C : Contract W Op Res) (Q : W → α → Prop) : W → Proc Op Res α → Prop
  | w, .ret a => ∀ w', w ≤ w' → Q w' a
  | w, .call o k => ∀ w', w ≤ w' → C.pre w' o ∧ ∀ r, C.post w' o r → Safe C Q w' (k r)

variable {C : Contract W Op Res} {Q R : W → α → Prop} {w w' : W}

theorem Safe.mono {x : Proc Op Res α} (h : Safe C Q w x) (hw : w ≤ w') : Safe C Q w' x := by
  cases x with
  | ret a => exact fun w'' hw'' => h w'' (hw.trans hw'')
  | call o k => exact fun w'' hw'' => h w'' (hw.trans hw'')

theorem Safe.weaken {x : Proc Op Res α} (h : Safe C Q w x)
    (hQ : ∀ w', w ≤ w' → ∀ a, Q w' a → R w' a) : Safe C R w x := by
  induction x generalizing w with
  | ret a => exact fun w' hw' => hQ w' hw' a (h w' hw')
  | call o k ih =>
    intro w' hw'
    refine ⟨(h w' hw').1, fun r hr => ih r ((h w' hw').2 r hr) fun w'' hw'' => ?_⟩
    exact hQ w'' (hw'.trans hw'')

theorem Safe.bind {x : Proc Op Res β} {f : β → Proc Op Res α} {R : W → β → Prop}
    (hx : Safe C R w x) (hf : ∀ w', w ≤ w' → ∀ b, R w' b → Safe C Q w' (f b)) :
    Safe C Q w (x >>= f) := by
  induction x generalizing w with
  | ret b => exact hf w le_rfl b (hx w le_rfl)
  | call o k ih =>
    intro w' hw'
    refine ⟨(hx w' hw').1, fun r hr => ?_⟩
    exact ih r ((hx w' hw').2 r hr) fun w'' hw'' => hf w'' (hw'.trans hw'')

section Raising

variable {E : W → ε → Prop}

/-- The results of a program that may raise. -/
def Outcome (Q : W → α → Prop) (E : W → ε → Prop) (w : W) : Except ε α → Prop
  | .ok a => Q w a
  | .error e => E w e

/-- The program keeps the contract; what it returns satisfies `Q` and what it raises `E`. -/
def SafeOr (C : Contract W Op Res) (Q : W → α → Prop) (E : W → ε → Prop) (w : W)
    (x : ExceptT ε (Proc Op Res) α) : Prop :=
  Safe C (Outcome Q E) w x.run

theorem SafeOr.mono {x : ExceptT ε (Proc Op Res) α} (h : SafeOr C Q E w x) (hw : w ≤ w') :
    SafeOr C Q E w' x :=
  Safe.mono h hw

theorem SafeOr.weaken {x : ExceptT ε (Proc Op Res) α} (h : SafeOr C Q E w x)
    (hQ : ∀ w', w ≤ w' → ∀ a, Q w' a → R w' a) : SafeOr C R E w x := by
  refine Safe.weaken h fun w' hw' r hr => ?_
  cases r with
  | error e => exact hr
  | ok a => exact hQ w' hw' a hr

theorem SafeOr.pure {a : α} (h : ∀ w', w ≤ w' → Q w' a) :
    SafeOr C Q E w (Pure.pure a : ExceptT ε (Proc Op Res) α) := h

theorem SafeOr.bind {x : ExceptT ε (Proc Op Res) β} {f : β → ExceptT ε (Proc Op Res) α}
    {R : W → β → Prop} (hx : SafeOr C R E w x)
    (hE : ∀ w e, E w e → ∀ w', w ≤ w' → E w' e)
    (hf : ∀ w', w ≤ w' → ∀ b, R w' b → SafeOr C Q E w' (f b)) : SafeOr C Q E w (x >>= f) := by
  refine Safe.bind hx fun w' hw' r hr => ?_
  cases r with
  | error e => exact fun w'' hw'' => hE w' e hr w'' hw''
  | ok b => exact hf w' hw' b hr

end Raising

end Soveren.Process
