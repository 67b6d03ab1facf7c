import Soveren.Relational.Process
import Soveren.Runs.Store
import Soveren.Decisions.Receipts

/-! One planner turn and the dispatch of its decision, as programs over the run store, the
receipt store and the calls of the application. A program runs with receipts enabled. -/
namespace Soveren.Decisions
open Soveren.Process

/-- What a turn can raise. -/
inductive Raised where
  | error (type message : String)
  | store (e : StoreError)
  | plannerRunLeaseLost (message : String)
  | dispatchLeaseLost (message : String)
  | group (message : String) (errors : List Raised)

def StoreError.typeName : StoreError → String
  | .valueError _ => "ValueError"
  | .keyError _ => "KeyError"
  | .lookupError _ => "LookupError"
  | .runtimeError _ => "RuntimeError"
  | .overflowError _ => "OverflowError"
  | .integrityError => "IntegrityError"
  | .operationalError _ => "OperationalError"
  | .idempotencyConflict _ _ _ => "IdempotencyConflictError"
  | .dialogueConflict _ => "DialogueConflictError"
  | .assertionError => "AssertionError"
  | .noReturn => ""

def StoreError.message : StoreError → String
  | .valueError message | .lookupError message | .runtimeError message
  | .overflowError message | .operationalError message | .dialogueConflict message => message
  | .keyError message => Json.quote message
  | .integrityError => "UNIQUE constraint failed"
  | .idempotencyConflict resource _ _ =>
    resource ++ " idempotency key was reused with different input"
  | .assertionError | .noReturn => ""

namespace Raised

def valueError (message : String) : Raised := .error "ValueError" message

def typeError (message : String) : Raised := .error "TypeError" message

mutual
def exceptionPayload : Raised → Json.Object
  | .error type message => [("error", .str message), ("error_type", .str type)]
  | .store e => [("error", .str (StoreError.message e)), ("error_type", .str (StoreError.typeName e))]
  | .plannerRunLeaseLost message =>
    [("error", .str message), ("error_type", .str "PlannerRunLeaseLostError")]
  | .dispatchLeaseLost message =>
    [("error", .str message), ("error_type", .str "DecisionDispatchLeaseLostError")]
  | .group message errors =>
    let plural := if errors.length = 1 then " sub-exception)" else " sub-exceptions)"
    [("error", .str (message ++ " (" ++ toString errors.length ++ plural)),
      ("error_type", .str "BaseExceptionGroup"), ("errors", .arr (payloads errors))]

def payloads : List Raised → List Json
  | [] => []
  | e :: errors => .obj (exceptionPayload e) :: payloads errors
end

end Raised

/-- `agent.contracts.AgentEvent`. -/
structure AgentEvent where
  id : String
  tenantId : String
  recipient : String
  messageType : String
  payload : Json.Object
  correlationId : Option String := none
  causationId : Option String := none

namespace AgentEvent

def sourceId (e : AgentEvent) : Except Raised String :=
  match (Json.obj e.payload).get? "source_id" with
  | some (.str s) =>
    if Text.blank s then
      .error (.valueError "planner event must contain a non-empty string source_id")
    else .ok (Text.strip s)
  | _ => .error (.valueError "planner event must contain a non-empty string source_id")

def inputSummary (e : AgentEvent) : String :=
  let text := match (Json.obj e.payload).get? "text" with
    | some v => if v.truthy then v.toStr else ""
    | none => ""
  if text = "" then e.messageType else Text.clip 500 text

/-- The digest is identified with the canonical text it is taken of. -/
def inputFingerprint (e : AgentEvent) : String :=
  (idempotencyFingerprint (.obj [
    ("causation_id", Json.ofString? e.causationId), ("correlation_id", Json.ofString? e.correlationId),
    ("id", .str e.id), ("message_type", .str e.messageType), ("payload", .obj e.payload),
    ("recipient", .str e.recipient), ("tenant_id", .str e.tenantId)])).dumps

def ref (e : AgentEvent) (sourceId : String) : EventRef := ⟨e.tenantId, sourceId, e.id⟩

end AgentEvent

structure PlannerContext where
  trigger : Json.Object
  sessionRouting : Json.Object
  batch : Option Json.Object
  sessions : List Json.Object
  mailbox : List Json.Object
  actions : List Json.Object
  outbound : List Json.Object
  cron : List Json.Object

namespace PlannerContext

def toDict (c : PlannerContext) : Json.Object :=
  [("actions", .arr (c.actions.map .obj)), ("batch", c.batch.elim .null .obj),
    ("cron", .arr (c.cron.map .obj)), ("mailbox", .arr (c.mailbox.map .obj)),
    ("outbound", .arr (c.outbound.map .obj)), ("session_routing", .obj c.sessionRouting),
    ("sessions", .arr (c.sessions.map .obj)), ("trigger", .obj c.trigger)]

def requiredJsonObject (data : Json.Object) (key : String) : Except Raised Json.Object :=
  match (Json.obj data).get? key with
  | some (.obj fields) => .ok fields
  | _ => .error (.valueError ("planner context " ++ key ++ " must be a JSON object"))

def optionalJsonObject (data : Json.Object) (key : String) : Except Raised (Option Json.Object) :=
  match (Json.obj data).getSome? key with
  | none => .ok none
  | some (.obj fields) => .ok (some fields)
  | some _ => .error (.valueError ("planner context " ++ key ++ " must be a JSON object or null"))

/-- The items of a list that starts at an index. -/
def jsonObjects (key : String) : ℕ → List Json → Except Raised (List Json.Object)
  | _, [] => .ok []
  | index, .obj fields :: items => (jsonObjects key (index + 1) items).map (fields :: ·)
  | index, _ :: _ => .error (.typeError
      ("planner context " ++ key ++ "[" ++ toString index ++ "] must be a JSON object"))

def jsonObjectList (data : Json.Object) (key : String) : Except Raised (List Json.Object) :=
  match (Json.obj data).get? key with
  | some (.arr items) => jsonObjects key 0 items
  | _ => .error (.valueError ("planner context " ++ key ++ " must be a JSON object list"))

def restorePlannerContext (data : Json.Object) : Except Raised PlannerContext := do
  let trigger ← requiredJsonObject data "trigger"
  let sessionRouting ← requiredJsonObject data "session_routing"
  let batch ← optionalJsonObject data "batch"
  let sessions ← jsonObjectList data "sessions"
  let mailbox ← jsonObjectList data "mailbox"
  let actions ← jsonObjectList data "actions"
  let outbound ← jsonObjectList data "outbound"
  let cron ← jsonObjectList data "cron"
  .ok { trigger, sessionRouting, batch, sessions, mailbox, actions, outbound, cron }

end PlannerContext

structure LlmResponse where
  text : String
  sessionId : String
  costUsd : Option String := none
  durationMs : Option Int := none
  inputTokens : Option Int := none
  outputTokens : Option Int := none
  metadata : Option Json.Object := none

/-- `decisions.dispatcher.DispatchContext`, whose identity fields are checked on construction. -/
structure DispatchContext where
  tenantId : String
  sourceId : String
  runId : String
  sourceEventId : String
  actorId : Option String
  metadata : Json.Object

def DispatchContext.build (c : DispatchContext) : Except Raised DispatchContext :=
  if Text.blank c.tenantId || Text.blank c.sourceId || Text.blank c.runId || Text.blank c.sourceEventId then
    .error (.valueError "dispatch context identity fields must be non-empty")
  else .ok c

structure DispatchContextExtras where
  actorId : Option String := none
  metadata : Json.Object := []

structure DispatchResult where
  target : String
  id : Option String
  created : Bool := true
  status : Option String := none
  metadata : Json.Object := []

/-- What the platform sees of a decision object: a data model that dumps itself, an object
with a payload, or neither. -/
inductive DecisionShape where
  | baseModel (dump : Except Raised Json.Object)
  | payload (kind : String) (payload : Json.Object)
  | other (typeName : String)

/-- The decisions of an application. -/
structure DecisionType where
  Decision : Type
  shape : Decision → DecisionShape

section Turn

variable (D : DecisionType)

def serializeDecision (d : D.Decision) : Except Raised Json.Object :=
  match D.shape d with
  | .baseModel dump => dump
  | .payload kind payload => .ok (Json.setField "kind" (.str kind) payload)
  | .other typeName => .error (.typeError ("decision type has no serializable payload: " ++ typeName))

/-- A parser of decision texts that inverts `serializeDecision`. -/
structure DecisionParser where
  parse : String → Except Raised D.Decision
  inverts : ∀ d fields, serializeDecision D d = .ok fields → parse (Json.dumps (.obj fields)) = .ok d

structure PlannerResult where
  runId : String
  decision : D.Decision
  llmText : String
  sessionMetadata : Json.Object
  context : PlannerContext

structure PlannerDispatchResult where
  planner : PlannerResult D
  dispatch : DispatchResult

/-- One call of `run_planner_dispatch_turn`. -/
structure TurnConfig where
  event : AgentEvent
  model : String
  promptVersion : String
  timeoutS : Int
  parser : DecisionParser D
  extras : Option DispatchContextExtras

/-- The awaited operations of a turn. -/
inductive Op where
  | claimReceipt (event : EventRef) (inputFingerprint : String) (staleAfterS : Int)
  | acceptReceipt (receiptId leaseToken : String) (d : Acceptance)
  | completeReceipt (receiptId leaseToken : String) (result : Json.Object)
  | releaseReceipt (receiptId leaseToken : String)
  | claimRun (event : EventRef) (model promptVersion inputSummary inputFingerprint : String)
      (staleAfterS : Int)
  | finalizeRun (runId leaseToken status : String) (output : Json.Object)
  /-- route the event and build its context -/
  | buildContext
  /-- build the prompts and run the backend -/
  | respond (context : PlannerContext)
  | dispatch (decision : D.Decision) (context : DispatchContext)

/-- What an operation returns when it does not raise. -/
def Value : Op D → Type
  | .claimReceipt _ _ _ => DecisionDispatchClaim
  | .acceptReceipt _ _ _ | .completeReceipt _ _ _ | .releaseReceipt _ _ | .finalizeRun _ _ _ _ => Bool
  | .claimRun _ _ _ _ _ _ => Runs.PlannerRunClaim
  | .buildContext => PlannerContext
  | .respond _ => LlmResponse
  | .dispatch _ _ => DispatchResult

def Res (o : Op D) : Type := Except Raised (Value D o)

/-- A program that may raise. -/
abbrev Program (α : Type) := ExceptT Raised (Proc (Op D) (Res D)) α

variable {D}

def await (o : Op D) : Program D (Value D o) := ExceptT.mk (.call o .ret)

def check {α : Type} (x : Except Raised α) : Program D α := ExceptT.mk (.ret x)

def raise {α : Type} (e : Raised) : Program D α := ExceptT.mk (.ret (.error e))

/-- Raise unless a fenced write moved its row. -/
def requireMoved (moved : Bool) (e : Raised) : Program D Unit := if moved then pure () else raise e

def staleAfterS (timeoutS : Int) : Int := max (timeoutS + 30) 60

/-- Restore the result of a completed planner run. -/
def restorePlannerResult (runId : String) (output : Json.Object) (parser : DecisionParser D) :
    Except Raised (PlannerResult D) :=
  match (Json.obj output).get? "llm_text", (Json.obj output).get? "planner_context" with
  | some (.str llmText), some (.obj contextData) => do
    let context ← PlannerContext.restorePlannerContext contextData
    let sessionMetadata := match (Json.obj output).get? "session_routing" with
      | some (.obj fields) => fields
      | _ => context.sessionRouting
    .ok ⟨runId, ← parser.parse llmText, llmText, sessionMetadata, context⟩
  | _, _ => .error (.valueError ("durable planner output is incomplete for run: " ++ runId))

def completedOutput (decision : Json.Object) (response : LlmResponse) (context : PlannerContext) :
    Json.Object :=
  [("decision", .obj decision),
    ("llm", .obj [("cost_usd", response.costUsd.elim .null .float),
      ("duration_ms", Json.ofInt? response.durationMs),
      ("input_tokens", Json.ofInt? response.inputTokens),
      ("metadata", response.metadata.elim .null .obj),
      ("output_tokens", Json.ofInt? response.outputTokens), ("session_id", .str response.sessionId)]),
    ("llm_text", .str response.text), ("planner_context", .obj context.toDict),
    ("session_routing", .obj context.sessionRouting)]

def failedOutput (e : Raised) (context : Option PlannerContext) : Json.Object :=
  Json.setField "planner_context" (context.elim .null fun c => .obj c.toDict)
    (Json.setField "session_routing" (.obj (context.elim [] (·.sessionRouting))) e.exceptionPayload)

/-- The handler of a failed planner turn: record the failure and raise it again. -/
def failPlannerTurn {α : Type} (runId leaseToken : String) (context : Option PlannerContext)
    (e : Raised) : Program D α :=
  match e with
  | .plannerRunLeaseLost message => raise (.plannerRunLeaseLost message)
  | e => do
    let recorded : Program D Unit := do
      let finalized ← await (.finalizeRun runId leaseToken "failed" (failedOutput e context))
      requireMoved finalized (.plannerRunLeaseLost ("planner run lease was lost: " ++ runId))
    tryCatch recorded fun finalizeError => raise (.group
      "planner turn failed and its failed state could not be persisted" [e, finalizeError])
    raise e

/-- Respond, parse and finalize with a built context. -/
def planWithContext (c : TurnConfig D) (runId leaseToken : String) (context : PlannerContext) :
    Program D (PlannerResult D) := do
  let response ← await (.respond context)
  let decision ← check (c.parser.parse (LlmResponse.text response))
  let fields ← check (serializeDecision D decision)
  let finalized ← await (.finalizeRun runId leaseToken "completed"
    (completedOutput fields response context))
  requireMoved finalized (.plannerRunLeaseLost ("planner run lease was lost: " ++ runId))
  pure ⟨runId, decision, LlmResponse.text response, context.sessionRouting, context⟩

def runPlannerTurn (c : TurnConfig D) : Program D (PlannerResult D) := do
  let sourceId ← check c.event.sourceId
  let run ← await (.claimRun (c.event.ref sourceId) c.model c.promptVersion c.event.inputSummary
    c.event.inputFingerprint (staleAfterS c.timeoutS))
  let run : Runs.PlannerRunClaim := run
  if !run.acquired then
    match run.output with
    | some output => check (restorePlannerResult run.id output c.parser)
    | none => raise (.error "PlannerRunInProgressError" ("planner run is already active: " ++ run.id))
  else match run.leaseToken with
    | none => raise (.error "RuntimeError" ("acquired planner run has no lease token: " ++ run.id))
    | some leaseToken => do
      -- the failure record holds the context only where it has been built
      let context ← tryCatch (await .buildContext) (failPlannerTurn run.id leaseToken none)
      tryCatch (planWithContext c run.id leaseToken context)
        (failPlannerTurn run.id leaseToken (some context))

def dispatchContext (e : AgentEvent) (planner : PlannerResult D)
    (extras : Option DispatchContextExtras) : Except Raised DispatchContext := do
  let sourceId ← e.sourceId
  let userId := ((Json.obj e.payload).getSome? "user_id").map Json.toStr
  DispatchContext.build {
    tenantId := e.tenantId
    sourceId := sourceId
    runId := planner.runId
    sourceEventId := e.id
    actorId := (extras.bind (·.actorId)).or userId
    metadata := Json.setField "planner_context" (.obj planner.context.toDict)
      (Json.setField "session_routing" (.obj planner.sessionMetadata) (extras.elim [] (·.metadata))) }

def serializePlannerResult (p : PlannerResult D) : Json.Object :=
  [("context", .obj p.context.toDict), ("llm_text", .str p.llmText), ("run_id", .str p.runId),
    ("session_metadata", .obj p.sessionMetadata)]

def serializeDispatchContext (c : DispatchContext) : Json.Object :=
  [("actor_id", Json.ofString? c.actorId), ("metadata", .obj c.metadata), ("run_id", .str c.runId),
    ("source_event_id", .str c.sourceEventId), ("source_id", .str c.sourceId),
    ("tenant_id", .str c.tenantId)]

def serializeDispatchResult (d : DispatchResult) : Json.Object :=
  [("created", .bool d.created), ("id", Json.ofString? d.id), ("metadata", .obj d.metadata),
    ("status", Json.ofString? d.status), ("target", .str d.target)]

def restoreReceiptPlannerResult (claim : DecisionDispatchClaim) (parser : DecisionParser D) :
    Except Raised (PlannerResult D) :=
  match claim.runId, claim.decision, claim.plannerResult with
  | some runId, some decision, some result =>
    match (Json.obj result).get? "context", (Json.obj result).get? "llm_text" with
    | some (.obj contextData), some (.str llmText) =>
      match (Json.obj result).get? "session_metadata" with
      | some (.obj sessionMetadata) =>
        if (Json.obj result).get? "run_id" ≠ some (.str runId) then
          .error (.valueError ("accepted planner run id is inconsistent: " ++ claim.id))
        else do
          let parsed ← parser.parse (Json.dumps (.obj decision))
          .ok ⟨runId, parsed, llmText, sessionMetadata,
            ← PlannerContext.restorePlannerContext contextData⟩
      | _ => .error (.valueError ("accepted planner session metadata is invalid: " ++ claim.id))
    | _, _ => .error (.valueError ("accepted planner result is incomplete: " ++ claim.id))
  | _, _, _ => .error (.valueError ("accepted decision dispatch is incomplete: " ++ claim.id))

def restoreDispatchContext (claim : DecisionDispatchClaim) : Except Raised DispatchContext :=
  match claim.dispatchContext with
  | none => .error (.valueError ("accepted decision dispatch context is missing: " ++ claim.id))
  | some data => match (Json.obj data).get? "metadata" with
    | some (.obj metadata) =>
      match (Json.obj data).get? "tenant_id", (Json.obj data).get? "source_id",
          (Json.obj data).get? "run_id", (Json.obj data).get? "source_event_id" with
      | some (.str tenantId), some (.str sourceId), some (.str runId), some (.str sourceEventId) =>
        DispatchContext.build ⟨tenantId, sourceId, runId, sourceEventId,
          ((Json.obj data).getSome? "actor_id").map Json.toStr, metadata⟩
      | _, _, _, _ =>
        .error (.valueError ("accepted decision dispatch scope is invalid: " ++ claim.id))
    | _ => .error (.valueError ("accepted decision dispatch metadata is invalid: " ++ claim.id))

def restoreDispatchResult (claim : DecisionDispatchClaim) : Except Raised DispatchResult :=
  match claim.dispatchResult with
  | none => .error (.valueError ("completed decision dispatch result is missing: " ++ claim.id))
  | some data => match (Json.obj data).get? "target", (Json.obj data).get? "metadata" with
    | some (.str target), some (.obj metadata) => match (Json.obj data).get? "created" with
      | some (.bool created) => .ok ⟨target, ((Json.obj data).getSome? "id").map Json.toStr, created,
          ((Json.obj data).getSome? "status").map Json.toStr, metadata⟩
      | _ =>
        .error (.valueError ("completed decision dispatch created flag is invalid: " ++ claim.id))
    | _, _ => .error (.valueError ("completed decision dispatch result is invalid: " ++ claim.id))

def restoreCompletedDispatch (claim : DecisionDispatchClaim) (parser : DecisionParser D) :
    Except Raised (PlannerDispatchResult D) := do
  let planner ← restoreReceiptPlannerResult claim parser
  .ok ⟨planner, ← restoreDispatchResult claim⟩

def validateDispatchContext (event : EventRef) (runId : String) (c : DispatchContext) :
    Except Raised Unit :=
  if c.tenantId ≠ event.tenantId ∨ c.sourceId ≠ event.sourceId ∨
      c.sourceEventId ≠ event.triggerEventId ∨ c.runId ≠ runId then
    .error (.valueError "decision dispatch context must match the source event and planner run")
  else .ok ()

/-- Plan and accept the decision, or restore the accepted one. -/
def acceptedDecision (c : TurnConfig D) (event : EventRef) (claim : DecisionDispatchClaim)
    (leaseToken : String) : Program D (PlannerResult D × DispatchContext) :=
  match claim.status with
  | .planning => do
    let planner ← runPlannerTurn c
    let context ← check (dispatchContext c.event planner c.extras)
    let decision ← check (serializeDecision D planner.decision)
    let accepted ← await (.acceptReceipt claim.id leaseToken ⟨planner.runId, c.model, c.promptVersion,
      decision, serializePlannerResult planner, serializeDispatchContext context⟩)
    requireMoved accepted
      (.dispatchLeaseLost ("decision dispatch lease was lost before acceptance: " ++ claim.id))
    pure (planner, context)
  | .dispatching => do
    let planner ← check (restoreReceiptPlannerResult claim c.parser)
    let context ← check (restoreDispatchContext claim)
    check (validateDispatchContext event planner.runId context)
    pure (planner, context)
  | .completed => raise (.valueError
      ("acquired decision dispatch has unsupported status='completed': " ++ claim.id))

/-- Dispatch the accepted decision and complete the receipt. -/
def dispatchAccepted (c : TurnConfig D) (event : EventRef) (claim : DecisionDispatchClaim)
    (leaseToken : String) : Program D (PlannerDispatchResult D) := do
  let (planner, context) ← acceptedDecision c event claim leaseToken
  let dispatch ← await (.dispatch planner.decision context)
  let completed ← await (.completeReceipt claim.id leaseToken (serializeDispatchResult dispatch))
  requireMoved completed
    (.dispatchLeaseLost ("decision dispatch lease was lost after effect dispatch: " ++ claim.id))
  pure ⟨planner, dispatch⟩

/-- The handler of a failed dispatch: release the receipt and raise again. -/
def failDispatch {α : Type} (claim : DecisionDispatchClaim) (leaseToken : String) (e : Raised) :
    Program D α :=
  match e with
  | .dispatchLeaseLost message => raise (.dispatchLeaseLost message)
  | e => do
    let released ← tryCatch (await (.releaseReceipt claim.id leaseToken)) fun releaseError =>
      raise (.group "decision dispatch failed and its lease could not be released" [e, releaseError])
    requireMoved released (.group "decision dispatch failed after losing its lease" [e,
      .dispatchLeaseLost ("decision dispatch lease was lost while handling failure: " ++ claim.id)])
    raise e

def runPlannerDispatchTurn (c : TurnConfig D) : Program D (PlannerDispatchResult D) := do
  let sourceId ← check c.event.sourceId
  let claim ← await (.claimReceipt (c.event.ref sourceId) c.event.inputFingerprint
    (staleAfterS c.timeoutS))
  let claim : DecisionDispatchClaim := claim
  if !claim.acquired then
    if claim.status = .completed then check (restoreCompletedDispatch claim c.parser)
    else raise (.error "DecisionDispatchInProgressError"
      ("decision dispatch is already active: " ++ claim.id))
  else match claim.leaseToken with
    | none => raise (.error "RuntimeError" ("acquired decision dispatch has no lease token: " ++ claim.id))
    | some leaseToken =>
      tryCatch (dispatchAccepted c (c.event.ref sourceId) claim leaseToken)
        (failDispatch claim leaseToken)

end Turn

end Soveren.Decisions
