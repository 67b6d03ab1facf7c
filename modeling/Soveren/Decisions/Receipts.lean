import Mathlib.Data.List.Induction
import Soveren.Relational.Table
import Soveren.Storage.Idempotency

/-! Dispatch receipts on the `decision_dispatches` table: one row for each source event, which
is claimed for planning, accepts one decision and is completed once. -/
namespace Soveren.Decisions
open Soveren.Relational

inductive ReceiptStatus where
  | planning | dispatching | completed
  deriving DecidableEq, Repr

/-- The event that a receipt is for. -/
structure EventRef where
  tenantId : String
  sourceId : String
  triggerEventId : String
  deriving DecidableEq

structure ReceiptRow where
  id : String
  event : EventRef
  inputFingerprint : String
  status : ReceiptStatus
  leaseToken : Option String
  leaseUntil : Option Int
  runId : Option String := none
  model : Option String := none
  promptVersion : Option String := none
  decision : Option Json.Object := none
  decisionFingerprint : Option Json := none
  plannerResult : Option Json.Object := none
  dispatchContext : Option Json.Object := none
  dispatchTarget : Option String := none
  effectId : Option String := none
  dispatchResult : Option Json.Object := none
  acceptedAt : Option Int := none
  completedAt : Option Int := none
  createdAt : Int
  updatedAt : Int
  deriving DecidableEq

structure DecisionDispatchClaim where
  id : String
  status : ReceiptStatus
  acquired : Bool
  leaseToken : Option String
  runId : Option String
  model : Option String
  promptVersion : Option String
  decision : Option Json.Object
  plannerResult : Option Json.Object
  dispatchContext : Option Json.Object
  dispatchResult : Option Json.Object
  deriving DecidableEq

/-- The arguments of a claim, with the clock and what it draws. -/
structure ClaimArgs where
  event : EventRef
  inputFingerprint : String
  staleAfterS : Int
  now : Int
  leaseToken : String
  receiptHex : String

namespace ClaimArgs

def validate (a : ClaimArgs) : Except StoreError Unit :=
  if Text.blank a.event.tenantId || Text.blank a.event.sourceId || Text.blank a.event.triggerEventId then
    .error (.valueError
      "decision dispatch tenant_id, source_id, and trigger_event_id must be non-empty")
  else if Text.blank a.inputFingerprint then
    .error (.valueError "decision dispatch input_fingerprint must be non-empty")
  else if a.staleAfterS < 1 then
    .error (.valueError "decision dispatch stale_after_s must be positive")
  else .ok ()

def leaseUntil (a : ClaimArgs) : Int := a.now + a.staleAfterS

/-- The row of a new receipt. -/
def row (a : ClaimArgs) : ReceiptRow where
  id := "dd_" ++ a.receiptHex
  event := a.event
  inputFingerprint := a.inputFingerprint
  status := .planning
  leaseToken := some a.leaseToken
  leaseUntil := some a.leaseUntil
  createdAt := a.now
  updatedAt := a.now

/-- The condition of the update that acquires a receipt. -/
def acquires (a : ClaimArgs) (id : String) (r : ReceiptRow) : Bool :=
  r.id = id && (r.status = .planning || r.status = .dispatching) &&
    (r.leaseToken = none || r.leaseUntil.all (· ≤ a.now))

/-- The lease of a new owner. -/
def acquire (a : ClaimArgs) (r : ReceiptRow) : ReceiptRow :=
  { r with leaseToken := some a.leaseToken, leaseUntil := some a.leaseUntil, updatedAt := a.now }

end ClaimArgs

def claimFromRow (r : ReceiptRow) (acquired : Bool) (leaseToken : Option String) :
    Except StoreError DecisionDispatchClaim :=
  if r.decision.any fun d => r.decisionFingerprint ≠ some (idempotencyFingerprint (.obj d)) then
    .error (.valueError ("decision dispatch fingerprint is invalid: " ++ r.id))
  else .ok ⟨r.id, r.status, acquired, leaseToken, r.runId, r.model, r.promptVersion, r.decision,
    r.plannerResult, r.dispatchContext, r.dispatchResult⟩

def insertReceipt (t : List ReceiptRow) (row : ReceiptRow) : Except StoreError (List ReceiptRow) :=
  if t.any fun r => r.id = row.id || r.event = row.event then .error .integrityError
  else .ok (t ++ [row])

/-- The rows after the acquiring update, and the claim read back from them. -/
def acquireReceipt (t : List ReceiptRow) (a : ClaimArgs) (row : ReceiptRow) :
    Except StoreError (List ReceiptRow × DecisionDispatchClaim) :=
  let t' := updateWhere (a.acquires row.id) a.acquire t
  match t'.find? (·.id = row.id) with
  | none =>
    let moment := if rowcount (a.acquires row.id) t = 0 then "while claiming: " else "after claim: "
    .error (.runtimeError ("decision dispatch disappeared " ++ moment ++ row.id))
  | some current =>
    if rowcount (a.acquires row.id) t = 0 then (claimFromRow current false none).map (t', ·)
    else (claimFromRow current true (some a.leaseToken)).map (t', ·)

def claimDecisionDispatch (t : List ReceiptRow) (a : ClaimArgs) :
    Except StoreError (List ReceiptRow × DecisionDispatchClaim) := do
  a.validate
  match t.find? (·.event = a.event) with
  | none =>
    let t' ← insertReceipt t a.row
    .ok (t', ⟨a.row.id, .planning, true, some a.leaseToken, none, none, none, none, none, none, none⟩)
  | some row =>
    requireIdempotentReplay (row.inputFingerprint = a.inputFingerprint) "decision dispatch"
      a.event.triggerEventId row.id
    if row.status = .completed || (row.leaseToken ≠ none && a.now < row.leaseUntil.getD 0) then
      (claimFromRow row false none).map (t, ·)
    else acquireReceipt t a row

/-- What an acceptance writes. -/
structure Acceptance where
  runId : String
  model : String
  promptVersion : String
  decision : Json.Object
  plannerResult : Json.Object
  dispatchContext : Json.Object
  deriving DecidableEq

/-- The condition `id = ? AND status = ? AND lease_token = ?`. -/
def owns (receiptId leaseToken : String) (status : ReceiptStatus) (r : ReceiptRow) : Bool :=
  r.id = receiptId && r.status = status && r.leaseToken = some leaseToken

def Acceptance.write (d : Acceptance) (now : Int) (r : ReceiptRow) : ReceiptRow :=
  { r with
    status := .dispatching
    runId := some d.runId
    model := some d.model
    promptVersion := some d.promptVersion
    decision := some d.decision
    decisionFingerprint := some (idempotencyFingerprint (.obj d.decision))
    plannerResult := some d.plannerResult
    dispatchContext := some d.dispatchContext
    acceptedAt := some now
    updatedAt := now }

def acceptDecisionDispatch (t : List ReceiptRow) (receiptId leaseToken : String) (d : Acceptance)
    (now : Int) : Except StoreError (List ReceiptRow × Bool) :=
  if Text.blank receiptId || Text.blank leaseToken || Text.blank d.runId then
    .error (.valueError
      "decision dispatch receipt_id, lease_token, and run_id must be non-empty")
  else if Text.blank d.model || Text.blank d.promptVersion then
    .error (.valueError "decision dispatch model and prompt_version must be non-empty")
  else if d.decision.isEmpty then
    .error (.valueError "accepted decision must be a non-empty JSON object")
  else .ok (updateWhere (owns receiptId leaseToken .planning) (d.write now) t,
    rowcount (owns receiptId leaseToken .planning) t ≠ 0)

/-- The checks of a dispatch result, with its target and the id of its effect. -/
def dispatchResultFields (result : Json.Object) : Except StoreError (String × Option String) :=
  match (Json.obj result).get? "target" with
  | some (.str target) =>
    if Text.blank target then
      .error (.valueError "dispatch_result target must be a non-empty string")
    else match (Json.obj result).get? "created", (Json.obj result).get? "metadata" with
      | some (.bool _), some (.obj _) => .ok (target, ((Json.obj result).getSome? "id").map Json.toStr)
      | _, _ => .error (.valueError "dispatch_result created and metadata fields are invalid")
  | _ => .error (.valueError "dispatch_result target must be a non-empty string")

def completeDecisionDispatch (t : List ReceiptRow) (receiptId leaseToken : String)
    (result : Json.Object) (now : Int) : Except StoreError (List ReceiptRow × Bool) := do
  if Text.blank receiptId || Text.blank leaseToken then
    .error (.valueError "decision dispatch receipt_id and lease_token must be non-empty")
  else
    let (target, effectId) ← dispatchResultFields result
    .ok (updateWhere (owns receiptId leaseToken .dispatching) (fun r => { r with
        status := .completed
        dispatchTarget := some target
        effectId := effectId
        dispatchResult := some result
        leaseToken := none
        leaseUntil := none
        completedAt := some now
        updatedAt := now }) t,
      rowcount (owns receiptId leaseToken .dispatching) t ≠ 0)

/-- An open receipt under this token. -/
def releases (receiptId leaseToken : String) (r : ReceiptRow) : Bool :=
  owns receiptId leaseToken .planning r || owns receiptId leaseToken .dispatching r

def releaseDecisionDispatch (t : List ReceiptRow) (receiptId leaseToken : String) (now : Int) :
    Except StoreError (List ReceiptRow × Bool) :=
  if Text.blank receiptId || Text.blank leaseToken then
    .error (.valueError "decision dispatch receipt_id and lease_token must be non-empty")
  else .ok (updateWhere (releases receiptId leaseToken)
      (fun r => { r with leaseToken := none, leaseUntil := none, updatedAt := now }) t,
    rowcount (releases receiptId leaseToken) t ≠ 0)

end Soveren.Decisions
