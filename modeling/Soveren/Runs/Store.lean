import Mathlib.Data.List.Induction
import Soveren.Relational.Table
import Soveren.Storage.Idempotency

/-! Planner runs on the `agent_runs` table. A run is claimed for an operation, its owner saves
checkpoints and finalizes it, and only a claim writes a lease token. -/
namespace Soveren.Runs
open Soveren.Relational

inductive RunStatus where
  | running | waitingApproval | completed | failed
  deriving DecidableEq, Repr

structure AgentRunRow where
  id : String
  tenantId : String
  sourceId : String
  triggerEventId : String
  status : RunStatus
  inputSummary : Option String
  output : Option Json.Object
  model : String
  promptVersion : String
  operationKey : Json
  inputFingerprint : String
  leaseToken : Option String
  llmCheckpoint : Option Json.Object
  createdAt : Int
  updatedAt : Int
  deriving DecidableEq

/-- The arguments of `claimRun` with the token and the id that it draws. -/
structure ClaimArgs where
  tenantId : String
  sourceId : String
  triggerEventId : String
  model : String
  promptVersion : String
  inputSummary : Option String
  inputFingerprint : String
  staleAfterS : Int
  now : Int
  leaseToken : String
  runHex : String

structure PlannerRunClaim where
  id : String
  status : RunStatus
  acquired : Bool
  leaseToken : Option String
  output : Option Json.Object
  deriving DecidableEq

namespace ClaimArgs

def validate (a : ClaimArgs) : Except StoreError Unit :=
  if Text.blank a.tenantId || Text.blank a.sourceId then
    .error (.valueError "tenant_id and source_id must be non-empty")
  else if Text.blank a.inputFingerprint then
    .error (.valueError "input_fingerprint must be non-empty")
  else if a.staleAfterS < 1 then .error (.valueError "stale_after_s must be positive")
  else .ok ()

def operationKey (a : ClaimArgs) : Json := .arr [.str a.triggerEventId, .str a.model, .str a.promptVersion]

/-- The condition `tenant_id = ? AND source_id = ? AND operation_key = ?`. -/
def names (a : ClaimArgs) (r : AgentRunRow) : Bool :=
  r.tenantId = a.tenantId && r.sourceId = a.sourceId && r.operationKey = a.operationKey

def runId (a : ClaimArgs) : String := "ar_" ++ a.runHex

/-- The row of a new run. -/
def row (a : ClaimArgs) : AgentRunRow where
  id := a.runId
  tenantId := a.tenantId
  sourceId := a.sourceId
  triggerEventId := a.triggerEventId
  status := .running
  inputSummary := a.inputSummary
  output := none
  model := a.model
  promptVersion := a.promptVersion
  operationKey := a.operationKey
  inputFingerprint := a.inputFingerprint
  leaseToken := some a.leaseToken
  llmCheckpoint := none
  createdAt := a.now
  updatedAt := a.now

/-- The row of a run that is acquired again; its checkpoint stays. -/
def acquire (a : ClaimArgs) (r : AgentRunRow) : AgentRunRow :=
  { r with
    status := .running
    inputSummary := a.inputSummary
    output := none
    leaseToken := some a.leaseToken
    updatedAt := a.now }

/-- A run that has its result. -/
def isFinished (r : AgentRunRow) : Bool :=
  (r.status = .completed || r.status = .waitingApproval) && r.output.isSome

/-- A run whose owner is not stale. -/
def isFresh (a : ClaimArgs) (r : AgentRunRow) : Bool :=
  r.status = .running && a.now - a.staleAfterS < r.updatedAt

end ClaimArgs

def insertRun (t : List AgentRunRow) (row : AgentRunRow) : Except StoreError (List AgentRunRow) :=
  if t.any fun r => r.id = row.id || (r.tenantId = row.tenantId && r.sourceId = row.sourceId &&
      r.operationKey = row.operationKey) then .error .integrityError
  else .ok (t ++ [row])

def claimRun (t : List AgentRunRow) (a : ClaimArgs) :
    Except StoreError (List AgentRunRow × PlannerRunClaim) := do
  a.validate
  match t.find? a.names with
  | none =>
    let t' ← insertRun t a.row
    .ok (t', ⟨a.runId, .running, true, some a.leaseToken, none⟩)
  | some row =>
    requireIdempotentReplay (row.inputFingerprint = a.inputFingerprint) "planner run"
      a.operationKey.dumps row.id
    if ClaimArgs.isFinished row then .ok (t, ⟨row.id, row.status, false, none, row.output⟩)
    else if a.isFresh row then .ok (t, ⟨row.id, .running, false, none, none⟩)
    else .ok (updateWhere (·.id = row.id) a.acquire t,
      ⟨row.id, .running, true, some a.leaseToken, none⟩)

/-- The condition `id = ? AND status = 'running' AND lease_token = ?`. -/
def owns (runId leaseToken : String) (r : AgentRunRow) : Bool :=
  r.id = runId && r.status = .running && r.leaseToken = some leaseToken

/-- The statuses that a run can be finalized with. -/
def finalStatus (status : String) : Option RunStatus :=
  if status = "completed" then some .completed
  else if status = "waiting_approval" then some .waitingApproval
  else if status = "failed" then some .failed
  else none

def finalizeRun (t : List AgentRunRow) (runId leaseToken status : String)
    (output : Option Json.Object) (now : Int) : Except StoreError (List AgentRunRow × Bool) :=
  match finalStatus status with
  | none => .error (.valueError ("unsupported planner run status: " ++ status))
  | some final =>
    .ok (updateWhere (owns runId leaseToken) (fun r =>
        { r with status := final, output := output, leaseToken := none, updatedAt := now }) t,
      rowcount (owns runId leaseToken) t ≠ 0)

def loadRunCheckpoint (t : List AgentRunRow) (runId leaseToken : String) :
    Except StoreError (Option Json.Object) :=
  match t.find? (owns runId leaseToken) with
  | none => .error (.runtimeError "planner run lease was lost while loading its checkpoint")
  | some r => .ok r.llmCheckpoint

def saveRunCheckpoint (t : List AgentRunRow) (runId leaseToken : String) (checkpoint : Json.Object)
    (now : Int) : List AgentRunRow × Bool :=
  (updateWhere (owns runId leaseToken)
      (fun r => { r with llmCheckpoint := some checkpoint, updatedAt := now }) t,
    rowcount (owns runId leaseToken) t ≠ 0)

end Soveren.Runs
