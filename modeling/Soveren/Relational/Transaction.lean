import Soveren.Relational.Table

/-! Transactions on one connection. Statements run one after another on the state, and a
statement that raises leaves the writes of those before it; `transaction` is what
`BEGIN IMMEDIATE`, `COMMIT` and `ROLLBACK` make of such a body. -/
namespace Soveren.Relational

variable {ε σ α β : Type}

/-- A query: it answers or raises, and writes nothing. -/
def query (f : σ → Except ε α) : EStateM ε σ α := fun s => match f s with
  | .ok a => .ok a s
  | .error e => .error e s

/-- A write statement: a statement that raises writes nothing itself. -/
def execute (f : σ → Except ε σ) : EStateM ε σ Unit := fun s => match f s with
  | .ok s' => .ok () s'
  | .error e => .error e s

def transaction (body : EStateM ε σ α) : EStateM ε σ α := fun s => match body s with
  | .ok a s' => .ok a s'
  | .error e _ => .error e s

/-- The outcome of an operation that is one atomic function of the state. -/
def settle (s : σ) : Except ε (σ × α) → EStateM.Result ε σ α
  | .ok (s', a) => .ok a s'
  | .error e => .error e s

/-- The state that an outcome leaves. -/
def stateAfter : EStateM.Result ε σ α → σ
  | .ok _ s => s
  | .error _ s => s

@[simp] theorem bind_run (m : EStateM ε σ α) (k : α → EStateM ε σ β) (s : σ) :
    (m >>= k) s = match m s with
      | .ok a s' => k a s'
      | .error e s' => .error e s' := rfl

@[simp] theorem pure_run (a : α) (s : σ) : (pure a : EStateM ε σ α) s = .ok a s := rfl

theorem query_ok {f : σ → Except ε α} {s : σ} {a : α} (h : f s = .ok a) : query f s = .ok a s := by
  rw [query, h]

theorem query_error {f : σ → Except ε α} {s : σ} {e : ε} (h : f s = .error e) : query f s = .error e s := by
  rw [query, h]

theorem map_ok (g : α → β) {m : EStateM ε σ α} {s s' : σ} {a : α} (h : m s = .ok a s') :
    (g <$> m) s = .ok (g a) s' := by
  have hmap : (g <$> m) s = EStateM.map g m s := rfl
  rw [hmap, EStateM.map, h]

theorem map_error (g : α → β) {m : EStateM ε σ α} {s s' : σ} {e : ε} (h : m s = .error e s') :
    (g <$> m) s = .error e s' := by
  have hmap : (g <$> m) s = EStateM.map g m s := rfl
  rw [hmap, EStateM.map, h]

theorem map_settle (g : α → β) {m : EStateM ε σ α} {s : σ} {r : Except ε (σ × α)}
    (h : m s = settle s r) : (g <$> m) s = settle s (r.map fun p => (p.1, g p.2)) := by
  cases r with
  | error e => exact map_error g h
  | ok p => exact map_ok g h

theorem settle_error {s s' : σ} {r : Except ε (σ × α)} {e : ε} (h : settle s r = .error e s') :
    s' = s := by
  cases r with
  | ok p => cases h
  | error e' =>
    obtain ⟨-, rfl⟩ := EStateM.Result.error.inj h
    rfl

theorem stateAfter_settle {s : σ} {P : σ → Prop} {r : Except ε (σ × α)} (h0 : P s)
    (h : ∀ s' a, r = .ok (s', a) → P s') : P (stateAfter (settle s r)) := by
  cases r with
  | ok p => exact h p.1 p.2 rfl
  | error e => exact h0

end Soveren.Relational
