import Soveren.Relational.Table
import Soveren.Storage.Idempotency

/-! The durable queue on the `event_queue` table. Each function is one store call: it runs in
one transaction, and a call that raises leaves the table as it was. Clock readings, event ids
and lease tokens are arguments. -/
namespace Soveren.Queue
open Soveren.Relational

inductive EventStatus where
  | queued | leased | done | retrying | deadLetter
  deriving DecidableEq, Repr

structure EventRow where
  id : String
  tenantId : String
  recipient : String
  messageType : String
  payload : Json
  status : EventStatus
  priority : Int
  runAfter : Int
  leaseOwner : Option String
  leaseUntil : Option Int
  leaseToken : Option String
  attempts : ℕ
  maxAttempts : ℕ
  idempotencyKey : String
  idempotencyFingerprint : Option Json
  correlationId : Option String
  causationId : Option String
  lastError : Option String
  createdAt : Int
  updatedAt : Int
  deriving DecidableEq

structure EnqueueArgs where
  eventId : String
  tenantId : String
  recipient : String
  messageType : String
  payload : Json
  idempotencyKey : String
  priority : Int := 100
  runAfter : Option Int := none
  maxAttempts : ℕ := 5
  correlationId : Option String := none
  causationId : Option String := none
  now : Int

def EnqueueArgs.fingerprint (a : EnqueueArgs) : Json :=
  Soveren.idempotencyFingerprint (.obj [
    ("causation_id", .ofString? a.causationId),
    ("correlation_id", .ofString? a.correlationId),
    ("max_attempts", .int a.maxAttempts),
    ("message_type", .str a.messageType),
    ("payload", a.payload),
    ("priority", .int a.priority),
    ("recipient", .str a.recipient),
    ("run_after", .ofInt? a.runAfter)])

/-- The row that `enqueue` inserts. -/
def EnqueueArgs.row (a : EnqueueArgs) : EventRow where
  id := a.eventId
  tenantId := a.tenantId
  recipient := a.recipient
  messageType := a.messageType
  payload := a.payload
  status := .queued
  priority := a.priority
  runAfter := a.runAfter.getD a.now
  leaseOwner := none
  leaseUntil := none
  leaseToken := none
  attempts := 0
  maxAttempts := a.maxAttempts
  idempotencyKey := a.idempotencyKey
  idempotencyFingerprint := some a.fingerprint
  correlationId := a.correlationId
  causationId := a.causationId
  lastError := none
  createdAt := a.now
  updatedAt := a.now

/-- The row with a tenant's idempotency key. -/
def byKey (t : List EventRow) (tenantId key : String) : Option EventRow :=
  t.find? fun r => r.tenantId = tenantId && r.idempotencyKey = key

def replayMatches (existing : EventRow) (a : EnqueueArgs) : Bool :=
  match existing.idempotencyFingerprint with
  | some f => f = a.fingerprint
  -- Rows stored before fingerprints existed.
  | none => existing.recipient = a.recipient && existing.messageType = a.messageType &&
      storedJsonMatches existing.payload a.payload && existing.priority = a.priority &&
      existing.maxAttempts = a.maxAttempts && existing.correlationId = a.correlationId &&
      existing.causationId = a.causationId

/-- The integers of the call can be bound. -/
def EnqueueArgs.binds (a : EnqueueArgs) : Bool :=
  (a.runAfter.all fun n => Fits n) && Fits a.priority && Fits a.maxAttempts

/-- Insert one queued event. Return the event id, or `none` on idempotency collision. -/
def enqueue (t : List EventRow) (a : EnqueueArgs) :
    Except StoreError (List EventRow × Option String) :=
  if !a.binds then .error bindingError
  else if (t.find? (·.id = a.eventId)).isNone && (byKey t a.tenantId a.idempotencyKey).isNone then
    .ok (t ++ [a.row], some a.eventId)
  else
    match byKey t a.tenantId a.idempotencyKey with
    | none => .error .integrityError
    | some existing => do
      requireIdempotentReplay (replayMatches existing a) "event" a.idempotencyKey existing.id
      .ok (t, none)

/-- An enqueue appends a fresh row, or is a replay and changes nothing. -/
theorem enqueue_ok {t t' : List EventRow} {a : EnqueueArgs} {r : Option String}
    (h : enqueue t a = .ok (t', r)) :
    (t' = t ++ [a.row] ∧ r = some a.eventId ∧ a.eventId ∉ t.map (·.id) ∧
      ∀ x ∈ t, ¬ (x.tenantId = a.tenantId ∧ x.idempotencyKey = a.idempotencyKey)) ∨
    (t' = t ∧ r = none ∧
      ∃ x, byKey t a.tenantId a.idempotencyKey = some x ∧ replayMatches x a = true) := by
  unfold enqueue at h
  split at h
  · cases h
  split at h
  · rename_i hnew
    obtain ⟨rfl, rfl⟩ := Prod.mk.inj (Except.ok.inj h)
    simp only [byKey, Option.isNone_iff_eq_none, Bool.and_eq_true, List.find?_eq_none] at hnew
    refine .inl ⟨rfl, rfl, fun hmem => ?_, fun x hx hk => hnew.2 x hx (by simpa using hk)⟩
    obtain ⟨x, hx, he⟩ := List.mem_map.mp hmem
    exact hnew.1 x hx (by simpa using he)
  · split at h
    · cases h
    · rename_i x hx
      obtain ⟨_, hreplay, h⟩ := bind_eq_ok h
      obtain ⟨rfl, rfl⟩ := Prod.mk.inj (Except.ok.inj h)
      exact .inr ⟨rfl, rfl, x, hx, requireIdempotentReplay_ok hreplay⟩

structure ClaimArgs where
  recipient : String
  limit : Int
  leaseOwner : String
  leaseSeconds : Int
  recoverExhausted : Bool := false
  tenantId : Option String := none
  now : Int
  leaseToken : String

def ClaimArgs.inScope (a : ClaimArgs) (r : EventRow) : Bool :=
  r.recipient = a.recipient && (a.tenantId.all fun t => r.tenantId = t)

/-- `lease_until <= now`; a null deadline compares as unknown. -/
def expired (now : Int) (r : EventRow) : Bool := r.leaseUntil.any fun u => u ≤ now

def ClaimArgs.isExhausted (a : ClaimArgs) (r : EventRow) : Bool :=
  a.inScope r && r.status = .leased && expired a.now r &&
    r.maxAttempts ≤ r.attempts && !a.recoverExhausted

def ClaimArgs.isCandidate (a : ClaimArgs) (r : EventRow) : Bool :=
  a.inScope r && r.runAfter ≤ a.now &&
    (r.status = .queued || r.status = .retrying ||
      (r.status = .leased && expired a.now r &&
        (r.attempts < r.maxAttempts || a.recoverExhausted)))

/-- The delivery order: priority, creation time, insertion. -/
def deliveryOrder (r s : EventRow) : Prop :=
  r.priority < s.priority ∨ (r.priority = s.priority ∧ r.createdAt ≤ s.createdAt)

instance : DecidableRel deliveryOrder := fun _ _ => instDecidableOr

/-- Clear the three lease columns. -/
def EventRow.unlease (r : EventRow) (status : EventStatus) (now : Int) : EventRow :=
  { r with status := status, leaseOwner := none, leaseUntil := none, leaseToken := none,
           updatedAt := now }

def ClaimArgs.bury (a : ClaimArgs) (r : EventRow) : EventRow :=
  { r.unlease .deadLetter a.now with
    lastError := some "event lease expired after the maximum number of attempts" }

def ClaimArgs.lease (a : ClaimArgs) (r : EventRow) : EventRow :=
  { r with status := .leased, leaseOwner := some a.leaseOwner,
           leaseUntil := some (a.now + a.leaseSeconds), leaseToken := some a.leaseToken,
           attempts := r.attempts + 1, updatedAt := a.now }

def ClaimArgs.validate (a : ClaimArgs) : Except StoreError Unit :=
  if a.limit < 1 then .error (.valueError "limit must be positive")
  else if a.leaseSeconds < 1 then .error (.valueError "lease_seconds must be positive")
  else if a.tenantId.any Text.blank then
    .error (.valueError "tenant_id must be non-empty when provided")
  else .ok ()

/-- The table after the expired exhausted leases of the claim's scope are dead-lettered. -/
def ClaimArgs.swept (a : ClaimArgs) (t : List EventRow) : List EventRow :=
  updateWhere a.isExhausted a.bury t

/-- The ids that the claim leases. -/
def ClaimArgs.claimIds (a : ClaimArgs) (t : List EventRow) : List String :=
  ((selectOrdered a.isCandidate deliveryOrder (a.swept t)).take a.limit.toNat).map (·.id)

/-- Lease due events, optionally including exhausted recovery work. -/
def claimDue (t : List EventRow) (a : ClaimArgs) :
    Except StoreError (List EventRow × List EventRow) := do
  a.validate
  let ids := a.claimIds t
  let leased := updateWhere (fun r => ids.contains r.id) a.lease (a.swept t)
  .ok (leased, selectOrdered (fun r => ids.contains r.id) deliveryOrder leased)

/-- The condition `id = ? AND status = 'leased' AND lease_token = ?`. -/
def holds (eventId leaseToken : String) (r : EventRow) : Bool :=
  r.id = eventId && r.status = .leased && r.leaseToken = some leaseToken

def markDone (t : List EventRow) (eventId leaseToken : String) (now : Int) :
    List EventRow × Bool :=
  (updateWhere (holds eventId leaseToken) (·.unlease .done now) t,
    rowcount (holds eventId leaseToken) t = 1)

def markDeadLetter (t : List EventRow) (eventId leaseToken lastError : String) (now : Int) :
    List EventRow × Bool :=
  (updateWhere (holds eventId leaseToken)
      (fun r => { r.unlease .deadLetter now with lastError := some lastError }) t,
    rowcount (holds eventId leaseToken) t = 1)

def renewLease (t : List EventRow) (eventId leaseToken : String) (leaseSeconds now : Int) :
    Except StoreError (List EventRow × Bool) :=
  if leaseSeconds < 1 then .error (.valueError "lease_seconds must be positive")
  else
    let owned := fun r : EventRow =>
      holds eventId leaseToken r && r.leaseUntil.any fun u => now < u
    .ok (updateWhere owned
        (fun r => { r with leaseUntil := some (now + leaseSeconds), updatedAt := now }) t,
      rowcount owned t ≠ 0)

/-- Route an event to `retrying` or `dead_letter` by attempts and the maximum. -/
def markRetry (t : List EventRow) (eventId leaseToken : String) (runAfter : Int)
    (lastError : String) (now : Int) : List EventRow × Option EventStatus :=
  match t.find? (holds eventId leaseToken) with
  | none => (t, none)
  | some row =>
    let newStatus := if row.maxAttempts ≤ row.attempts then EventStatus.deadLetter else .retrying
    let updated := updateWhere (holds eventId leaseToken)
      (fun r => { r.unlease newStatus now with runAfter := runAfter, lastError := some lastError }) t
    if rowcount (holds eventId leaseToken) t = 1 then (updated, some newStatus) else (updated, none)

/-- A claimed event as a worker receives it. -/
structure QueueEvent where
  id : String
  tenantId : String
  recipient : String
  messageType : String
  payload : Json
  leaseToken : String
  attempts : ℕ
  maxAttempts : ℕ
  correlationId : Option String
  causationId : Option String
  deriving DecidableEq

/-- The worker's view of a claimed row; a leased row carries its token. -/
def rowToQueueEvent (r : EventRow) : QueueEvent :=
  ⟨r.id, r.tenantId, r.recipient, r.messageType, r.payload, r.leaseToken.getD "", r.attempts,
    r.maxAttempts, r.correlationId, r.causationId⟩

end Soveren.Queue
