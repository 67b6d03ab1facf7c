import Mathlib.Algebra.Group.Int.Defs
import Soveren.Relational.Json

/-! Errors of the stores and the idempotency rules shared by durable commands. -/
namespace Soveren

/-- What a store operation can raise, or that it does not return at all: no handler sees the latter, and the open
transaction commits nothing. -/
inductive StoreError where
  | valueError (message : String)
  | keyError (message : String)
  | lookupError (message : String)
  | runtimeError (message : String)
  | overflowError (message : String)
  | integrityError
  | operationalError (message : String)
  | idempotencyConflict (resource key existingId : String)
  | dialogueConflict (message : String)
  | assertionError
  | noReturn
  deriving DecidableEq, Repr

/-- `f"{type(exc).__name__}: {exc}"`. The text of a constraint violation is the database's. -/
def StoreError.text : StoreError → String
  | .valueError message => "ValueError: " ++ message
  | .keyError message => "KeyError: " ++ Json.quote message
  | .lookupError message => "LookupError: " ++ message
  | .runtimeError message => "RuntimeError: " ++ message
  | .overflowError message => "OverflowError: " ++ message
  | .integrityError => "IntegrityError: UNIQUE constraint failed"
  | .operationalError message => "OperationalError: " ++ message
  | .idempotencyConflict resource _ _ =>
    "IdempotencyConflictError: " ++ resource ++ " idempotency key was reused with different input"
  | .dialogueConflict message => "DialogueConflictError: " ++ message
  | .assertionError => "AssertionError: "
  | .noReturn => ""

/-- A value that an integer column can hold. Clock readings are taken to be such values. -/
def Fits (n : Int) : Prop := -(2 ^ 63) ≤ n ∧ n < 2 ^ 63

instance (n : Int) : Decidable (Fits n) := inferInstanceAs (Decidable (_ ∧ _))

/-- What binding another integer raises. -/
def bindingError : StoreError := .overflowError "Python int too large to convert to SQLite INTEGER"

/-- The digest of a command input. A SHA-256 digest is identified with the canonical JSON it
is taken of: two inputs have one digest exactly when they are equal. -/
def idempotencyFingerprint (value : Json) : Json := value

def requireIdempotentReplay (isReplay : Bool) (resource key existingId : String) :
    Except StoreError Unit :=
  if isReplay then .ok () else .error (.idempotencyConflict resource key existingId)

/-- Compare a stored JSON column with the value a replay would store, which may have NaN objects of its own. -/
def storedJsonMatches (payload expected : Json) (ownNan : Bool := false) : Bool := payload.equals ownNan expected

theorem ok_bind {ε α β : Type} (a : α) (f : α → Except ε β) : (Except.ok a >>= f) = f a := rfl

/-- A computation that succeeds has succeeded at its first step. -/
theorem bind_eq_ok {ε α β : Type} {x : Except ε α} {f : α → Except ε β} {b : β}
    (h : (x >>= f) = .ok b) : ∃ a, x = .ok a ∧ f a = .ok b := by
  cases x with
  | error e => cases h
  | ok a => exact ⟨a, rfl, h⟩

theorem map_eq_ok {ε α β : Type} {x : Except ε α} {f : α → β} {b : β} (h : x.map f = .ok b) :
    ∃ a, x = .ok a ∧ f a = b := by
  cases x with
  | error e => cases h
  | ok a => exact ⟨a, rfl, Except.ok.inj h⟩

theorem requireIdempotentReplay_ok {isReplay : Bool} {resource key existingId : String} {u : Unit}
    (h : requireIdempotentReplay isReplay resource key existingId = .ok u) : isReplay = true := by
  cases isReplay with
  | true => rfl
  | false => simp [requireIdempotentReplay] at h

end Soveren
