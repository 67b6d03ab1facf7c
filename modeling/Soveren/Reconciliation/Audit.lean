import Soveren.Relational.Table
import Soveren.Storage.Idempotency

/-! The audit rows of reconciled effects, shared by the two effect types. -/
namespace Soveren.Reconciliation
open Soveren.Relational

inductive EffectType where
  | action | outbound
  deriving DecidableEq, Repr

structure ReconciliationRow where
  id : String
  tenantId : String
  sourceId : String
  effectType : EffectType
  effectId : String
  requestKey : String
  resolution : String
  resultStatus : String
  actorId : String
  evidence : Json
  createdAt : Int
  deriving DecidableEq

structure ReconciliationResult where
  effectId : String
  status : String
  applied : Bool
  deriving DecidableEq, Repr

/-- What a reconciliation request names; `recordId` is the drawn id of its audit row. -/
structure Request where
  recordId : String
  effectId : String
  tenantId : String
  sourceId : String
  requestKey : String
  actorId : String
  evidence : List (String × Json)
  now : Int

/-- The canonical JSON of the evidence. -/
def Request.evidenceJson (q : Request) : Json := .obj q.evidence

def Request.validate (q : Request) : Except StoreError Unit :=
  if q.tenantId = "" || q.sourceId = "" || q.requestKey = "" || q.actorId = "" then
    .error (.valueError "tenant_id, source_id, request_key, and actor_id must be non-empty")
  else if q.evidence = [] then .error (.valueError "reconciliation evidence must be non-empty")
  else .ok ()

def EffectType.name : EffectType → String
  | .action => "action"
  | .outbound => "outbound"

/-- The recorded answer of a request key, or a conflict when the request differs. -/
def existing (t : List ReconciliationRow) (effectType : EffectType) (resolution : String)
    (q : Request) : Except StoreError (Option ReconciliationResult) :=
  match t.find? fun r => r.tenantId = q.tenantId && r.sourceId = q.sourceId &&
      r.effectType = effectType && r.requestKey = q.requestKey with
  | none => .ok none
  | some row => do
    requireIdempotentReplay (row.effectId = q.effectId && row.resolution = resolution &&
      row.actorId = q.actorId && row.evidence = q.evidenceJson)
      (effectType.name ++ " reconciliation") q.requestKey row.id
    .ok (some { effectId := q.effectId, status := row.resultStatus, applied := false })

/-- The audit row of an applied request. -/
def Request.row (q : Request) (effectType : EffectType) (resolution resultStatus : String) :
    ReconciliationRow where
  id := q.recordId
  tenantId := q.tenantId
  sourceId := q.sourceId
  effectType := effectType
  effectId := q.effectId
  requestKey := q.requestKey
  resolution := resolution
  resultStatus := resultStatus
  actorId := q.actorId
  evidence := q.evidenceJson
  createdAt := q.now

/-- Insert the audit row of an applied request. -/
def record (t : List ReconciliationRow) (effectType : EffectType)
    (resolution resultStatus : String) (q : Request) :
    Except StoreError (List ReconciliationRow) :=
  if t.any (fun r => r.id = q.recordId || (r.tenantId = q.tenantId && r.sourceId = q.sourceId &&
      r.effectType = effectType && r.requestKey = q.requestKey)) then .error .integrityError
  else .ok (t ++ [q.row effectType resolution resultStatus])

def errorText (q : Request) (resolution : String) : String :=
  let field := fun key => (q.evidenceJson.get? key).filter Json.truthy
  Text.clip 500 (match field "error", field "reason" with
    | some v, _ => v.toStr
    | none, some v => v.toStr
    | none, none => "reconciled as " ++ resolution)

end Soveren.Reconciliation
