import Soveren.Relational.Process
import Soveren.Sessions.Lifecycle

/-! Mailbox workers and lifecycle calls as programs over single transactions and backend calls,
and the system in which any number of them run at once. -/
namespace Soveren.Sessions
open Soveren.Relational Soveren.Process

def batchSize : ℕ := 5
def captureRetryAfterS : Int := 5

structure SendReceipt where
  backendOperationId : Option String := none
  metadata : Option Json := none
  deriving DecidableEq

structure CaptureResult where
  text : String
  timedOut : Bool
  deriving DecidableEq, Repr

/-- What the platform reads of a registered backend besides its calls. -/
structure SessionBackend where
  tenantId : Option String := none
  sourceId : Option String := none
  conversationScope : Option (String × String) := none
  capturesDelivery : Bool := false
  abortsDelivery : Bool := false

def boundConversationScope (b : SessionBackend) : Option (String × String) :=
  match b.tenantId, b.sourceId with
  | some tenantId, some sourceId => some (tenantId, sourceId)
  | _, _ => b.conversationScope

/-- The text of the `TenantBoundaryError`, if the backend is bound elsewhere. -/
def ensureConversationBoundary (b : SessionBackend) (tenantId sourceId resourceName : String) :
    Option String :=
  let scope := boundConversationScope b
  let boundTenantId := match b.tenantId with
    | some bound => some bound
    | none => scope.map (·.1)
  match boundTenantId, scope with
  | some bound, scope =>
    if bound ≠ tenantId then
      some (resourceName ++ " is bound to tenant " ++ Json.quote bound ++ ", not " ++
        Json.quote tenantId)
    else match scope with
      | some (_, boundSource) =>
        if boundSource ≠ sourceId then
          some (resourceName ++ " is bound to conversation " ++ Json.quote boundSource ++ ", not " ++
            Json.quote sourceId)
        else none
      | none => none
  | none, _ => none

/-- How `backend.close` can fail. -/
inductive CloseFault where
  | raised (text : String)
  | cancelled (text : String)
  deriving DecidableEq, Repr

def CloseFault.text : CloseFault → String
  | .raised text | .cancelled text => text

/-- What ends a program early. -/
inductive Raised where
  | store (e : StoreError)
  | interrupted (fault : CloseFault)
  | group (fault : CloseFault) (e : StoreError)

/-- The atomic operations of workers and lifecycle calls. -/
inductive Op where
  | time
  | failStaleSending (tenantId : String) (olderThanS : Int) (backendPrefix : Option String)
  | readySessions (tenantId : String) (backendPrefix : Option String)
  | getSession (sessionId tenantId sourceId : String)
  | claimNext (sessionId tenantId sourceId : String)
  | markFailed (item : MailboxRow) (lastError : String)
  | setBusy (session : SessionRow) (item : MailboxRow)
  | send (session : SessionRow) (item : MailboxRow)
  | markAccepted (item : MailboxRow) (backendReceipt : Option Json)
  | recordEvent (session : SessionRow) (item : MailboxRow) (direction : Direction)
      (payloadText marker : String)
  | capture (backendSessionId : String) (receipt : Option SendReceipt)
  | abortDelivery (backendSessionId : String) (receipt : SendReceipt)
  | deferAccepted (k : DeliveryRef) (currentActionId : Option String) (lastError : String)
  | deferPending (k : DeliveryRef) (currentActionId : Option String) (lastError : String)
  | completeDelivery (k : DeliveryRef) (result : Json)
  | failDelivery (k : DeliveryRef) (lastError : String)
  | claimForClose (sessionId tenantId sourceId : String) (force : Bool) (now : Int)
  | closeBackend (backendSessionId : String)
  | recordCloseFailure (sessionId tenantId sourceId error : String) (now : Int)
  | recordClosed (sessionId tenantId sourceId reason : String) (now : Int)
  | selectCloseCandidates (a : CandidateArgs)

def Res : Op → Type
  | .time => Int
  | .failStaleSending _ _ _ => Except StoreError (List MailboxRow)
  | .readySessions _ _ => Except StoreError (List ReadySession)
  | .getSession _ _ _ => Option SessionRow
  | .claimNext _ _ _ => Option MailboxRow
  | .markFailed _ _ | .setBusy _ _ | .markAccepted _ _ => Unit
  | .send _ _ => Except String (Option SendReceipt)
  | .recordEvent _ _ _ _ _ => Except StoreError Unit
  | .capture _ _ => Except String CaptureResult
  | .abortDelivery _ _ => Except String Unit
  | .deferAccepted _ _ _ => Except StoreError Bool
  | .deferPending _ _ _ | .completeDelivery _ _ | .failDelivery _ _ => Except StoreError Unit
  | .claimForClose _ _ _ _ _ => CloseClaim
  | .closeBackend _ => Except CloseFault Unit
  | .recordCloseFailure _ _ _ _ _ | .recordClosed _ _ _ _ _ => Except StoreError Unit
  | .selectCloseCandidates _ => List CloseCandidate

abbrev Program := Proc Op Res

namespace Call

def time : Program Int := .call .time .ret

def failStaleSending (tenantId : String) (olderThanS : Int) (backendPrefix : Option String) :
    Program (Except StoreError (List MailboxRow)) :=
  .call (.failStaleSending tenantId olderThanS backendPrefix) .ret

def readySessions (tenantId : String) (backendPrefix : Option String) :
    Program (Except StoreError (List ReadySession)) :=
  .call (.readySessions tenantId backendPrefix) .ret

def getSession (sessionId tenantId sourceId : String) : Program (Option SessionRow) :=
  .call (.getSession sessionId tenantId sourceId) .ret

def claimNext (sessionId tenantId sourceId : String) : Program (Option MailboxRow) :=
  .call (.claimNext sessionId tenantId sourceId) .ret

def markFailed (item : MailboxRow) (lastError : String) : Program Unit :=
  .call (.markFailed item lastError) .ret

def setBusy (session : SessionRow) (item : MailboxRow) : Program Unit :=
  .call (.setBusy session item) .ret

def send (session : SessionRow) (item : MailboxRow) : Program (Except String (Option SendReceipt)) :=
  .call (.send session item) .ret

def markAccepted (item : MailboxRow) (backendReceipt : Option Json) : Program Unit :=
  .call (.markAccepted item backendReceipt) .ret

def recordEvent (session : SessionRow) (item : MailboxRow) (direction : Direction)
    (payloadText marker : String) : Program (Except StoreError Unit) :=
  .call (.recordEvent session item direction payloadText marker) .ret

def capture (backendSessionId : String) (receipt : Option SendReceipt) :
    Program (Except String CaptureResult) := .call (.capture backendSessionId receipt) .ret

def abortDelivery (backendSessionId : String) (receipt : SendReceipt) :
    Program (Except String Unit) := .call (.abortDelivery backendSessionId receipt) .ret

def deferAccepted (k : DeliveryRef) (currentActionId : Option String) (lastError : String) :
    Program (Except StoreError Bool) := .call (.deferAccepted k currentActionId lastError) .ret

def deferPending (k : DeliveryRef) (currentActionId : Option String) (lastError : String) :
    Program (Except StoreError Unit) := .call (.deferPending k currentActionId lastError) .ret

def completeDelivery (k : DeliveryRef) (result : Json) : Program (Except StoreError Unit) :=
  .call (.completeDelivery k result) .ret

def failDelivery (k : DeliveryRef) (lastError : String) : Program (Except StoreError Unit) :=
  .call (.failDelivery k lastError) .ret

def claimForClose (sessionId tenantId sourceId : String) (force : Bool) (now : Int) :
    Program CloseClaim := .call (.claimForClose sessionId tenantId sourceId force now) .ret

def closeBackend (backendSessionId : String) : Program (Except CloseFault Unit) :=
  .call (.closeBackend backendSessionId) .ret

def recordCloseFailure (sessionId tenantId sourceId error : String) (now : Int) :
    Program (Except StoreError Unit) :=
  .call (.recordCloseFailure sessionId tenantId sourceId error now) .ret

def recordClosed (sessionId tenantId sourceId reason : String) (now : Int) :
    Program (Except StoreError Unit) :=
  .call (.recordClosed sessionId tenantId sourceId reason now) .ret

def selectCloseCandidates (a : CandidateArgs) : Program (List CloseCandidate) :=
  .call (.selectCloseCandidates a) .ret

end Call

/-- A store call at the end of a branch; what it returns is not used. -/
def raised {α : Type} (r : Except StoreError α) : Except Raised Unit :=
  match r with
  | .ok _ => .ok ()
  | .error e => .error (.store e)

def sendReceiptPayload (receipt : SendReceipt) : Json :=
  .obj [("backend_operation_id", Json.ofString? receipt.backendOperationId),
    ("metadata", receipt.metadata.getD (.obj []))]

/-- `_receipt_from_payload`: an empty or missing payload is no receipt. -/
def receiptFromPayload (payload : Option Json) : Option SendReceipt :=
  match payload with
  | some (.obj (field :: fields)) =>
    let value := Json.obj (field :: fields)
    some
      { backendOperationId := match value.get? "backend_operation_id" with
          | some (.str s) => some s
          | _ => none
        metadata := match value.get? "metadata" with
          | some (.obj fields) => some (.obj fields)
          | _ => none }
  | _ => none

def boundedExceptionText (detail : String) : String :=
  if Text.len detail ≤ 500 then detail else Text.clip 497 detail ++ "..."

def MailboxRow.ref (m : MailboxRow) : DeliveryRef := ⟨m.id, m.sessionId, m.tenantId, m.sourceId⟩

/-- The session row is the one that the mailbox row is for. -/
def SessionRow.owns (s : SessionRow) (m : MailboxRow) : Bool :=
  s.id = m.sessionId && s.tenantId = m.tenantId && s.sourceId = m.sourceId

structure Config where
  tenantId : String
  backends : String → Option SessionBackend
  staleSendingS : Int := 30 * 60
  capturePendingTimeoutS : Int := 15 * 60
  backendPrefix : Option String := none
  /-- whether the worker has an event store -/
  recordsEvents : Bool := true

section Delivery

variable (c : Config) (backend : SessionBackend) (item : MailboxRow) (session : SessionRow)

/-- The accepted delivery has passed its deadline. -/
def expireDelivery (receipt : Option SendReceipt) : Program (Except Raised Unit) := do
  let deadlineError := "backend capture deadline exceeded for accepted delivery"
  match receipt, backend.abortsDelivery with
  | some receipt, true =>
    match ← Call.abortDelivery session.backendSessionId receipt with
    | .ok _ => return raised (← Call.failDelivery item.ref deadlineError)
    | .error text =>
      return raised (← Call.failDelivery item.ref
        (deadlineError ++ "; backend abort failed: " ++ boundedExceptionText text))
  | _, _ => return raised (← Call.failDelivery item.ref deadlineError)

def completeCapture (text : String) : Program (Except Raised Unit) := do
  match ← Call.completeDelivery item.ref (.obj [("output", .str text), ("timed_out", .bool false)]) with
  | .error e => return .error (.store e)
  | .ok _ =>
    if c.recordsEvents && !(Text.blank text) then
      let _ ← Call.recordEvent session item .output text ("mailbox:" ++ item.id ++ ":output")
      return .ok ()
    else return .ok ()

/-- From the capture of an accepted delivery on. -/
def captureItem (receipt : Option SendReceipt) (acceptedAt : Option Int) : Program (Except Raised Unit) := do
  match ← Call.capture session.backendSessionId (if backend.capturesDelivery then receipt else none) with
  | .error text => return raised (← Call.deferAccepted item.ref item.actionId text)
  | .ok capture =>
    if capture.timedOut then do
      let now ← Call.time
      if acceptedAt.any fun t => c.capturePendingTimeoutS ≤ now - t then
        expireDelivery backend item session receipt
      else
        return raised (← Call.deferPending item.ref item.actionId
          "backend capture timed out; accepted delivery remains pending")
    else completeCapture c item session capture.text

/-- Send a prompt that has just been claimed. -/
def sendPrompt : Program (Except Raised Unit) := do
  match ← Call.send session item with
  | .error text =>
    return raised (← Call.failDelivery item.ref
      ("delivery outcome is uncertain; automatic resend disabled: " ++ text))
  | .ok receipt => do
    Call.markAccepted item (receipt.map sendReceiptPayload)
    let acceptedAt ← Call.time
    if c.recordsEvents then
      let _ ← Call.recordEvent session item .input item.prompt ("mailbox:" ++ item.id ++ ":input")
      captureItem c backend item session receipt (some acceptedAt)
    else captureItem c backend item session receipt (some acceptedAt)

end Delivery

def sendItem (c : Config) (item : MailboxRow) (session : SessionRow) : Program (Except Raised Unit) :=
  if !(session.owns item) then do
    Call.markFailed item "runtime session does not belong to mailbox conversation"
    return .ok ()
  else match c.backends session.backend with
    | none => do
      return raised (← Call.failDelivery item.ref
        ("no backend registered for " ++ Json.quote session.backend))
    | some backend =>
      match ensureConversationBoundary backend session.tenantId session.sourceId
        ("session backend " ++ Json.quote session.backend) with
      | some error => do return raised (← Call.failDelivery item.ref error)
      | none => do
        Call.setBusy session item
        if item.acceptedAt.isNone then sendPrompt c backend item session
        else captureItem c backend item session (receiptFromPayload item.backendReceipt) item.acceptedAt

/-- The loop over the ready sessions; `processed` counts the items so far. -/
def deliverEach (c : Config) : List ReadySession → ℕ → Program (Except Raised ℕ)
  | [], processed => return .ok processed
  | ready :: rest, processed => do
    match ← Call.getSession ready.sessionId c.tenantId ready.sourceId with
    | none => deliverEach c rest processed
    | some session =>
      match ← Call.claimNext ready.sessionId c.tenantId ready.sourceId with
      | none => deliverEach c rest processed
      | some item =>
        match ← sendItem c item session with
        | .error e => return .error e
        | .ok _ => deliverEach c rest (processed + 1)

def drainStoreOnce (c : Config) : Program (Except Raised ℕ) :=
  if c.staleSendingS < 0 then
    return .error (.store (.valueError "stale_sending_s must be a non-negative integer"))
  else if c.capturePendingTimeoutS < 1 then
    return .error (.store (.valueError "capture_pending_timeout_s must be positive"))
  else do
    match ← Call.failStaleSending c.tenantId c.staleSendingS c.backendPrefix with
    | .error e => return .error (.store e)
    | .ok stale =>
      match ← Call.readySessions c.tenantId c.backendPrefix with
      | .error e => return .error (.store e)
      | .ok ready => deliverEach c ready stale.length

structure CloseArgs where
  sessionId : String
  tenantId : String
  sourceId : String
  reason : String := "session closed by lifecycle policy"
  force : Bool := false
  now : Option Int := none

def clock (now : Option Int) : Program Int :=
  match now with
  | some now => return now
  | none => Call.time

/-- From the successful claim of a session on. -/
def closeClaimed (a : CloseArgs) (now : Int) (row : SessionRow) (cancelledMailboxCount : ℕ) :
    Program (Except Raised CloseSessionResult) := do
  let result : CloseSessionResult :=
    { sessionId := a.sessionId, backendSessionId := some row.backendSessionId, closed := false
      cancelledMailboxCount := cancelledMailboxCount }
  match ← Call.closeBackend row.backendSessionId with
  | .error fault =>
    match ← Call.recordCloseFailure a.sessionId a.tenantId a.sourceId fault.text now with
    | .error e => return .error (.group fault e)
    | .ok _ => match fault with
      | .cancelled text => return .error (.interrupted (.cancelled text))
      | .raised text => return .ok { result with status := some .failed, error := some text }
  | .ok _ =>
    match ← Call.recordClosed a.sessionId a.tenantId a.sourceId a.reason now with
    | .error e => return .error (.store e)
    | .ok _ => return .ok { result with closed := true, status := some .closed, reason := some a.reason }

def closeSession (backends : String → Option SessionBackend) (a : CloseArgs) :
    Program (Except Raised CloseSessionResult) := do
  let now ← clock a.now
  match ← Call.getSession a.sessionId a.tenantId a.sourceId with
  | none => return .ok (notFound a.sessionId)
  | some initial =>
    let failed := fun error : String => (
      { sessionId := a.sessionId, backendSessionId := some initial.backendSessionId, closed := false
        status := some initial.status, error := some error } : CloseSessionResult)
    if initial.status = .closed then return .ok (refusal initial "session already closed")
    else match backends initial.backend with
      | none => return .ok (failed ("no backend registered for " ++ Json.quote initial.backend))
      | some backend =>
        match ensureConversationBoundary backend initial.tenantId initial.sourceId
          ("session backend " ++ Json.quote initial.backend) with
        | some error => return .ok (failed error)
        | none =>
          match ← Call.claimForClose a.sessionId a.tenantId a.sourceId a.force now with
          | .error result => return .ok result
          | .ok (row, cancelled) => closeClaimed a now row cancelled

/-- The loop over the candidates; `results` holds the results so far. -/
def closeEach (backends : String → Option SessionBackend) (tenantId : String) (now : Int) :
    List CloseCandidate → List CloseSessionResult → Program (Except Raised (List CloseSessionResult))
  | [], results => return .ok results
  | candidate :: rest, results => do
    let a : CloseArgs :=
      { sessionId := candidate.sessionId, tenantId := tenantId, sourceId := candidate.sourceId
        reason := candidate.reason, now := some now }
    match ← closeSession backends a with
    | .error e => return .error e
    | .ok result => closeEach backends tenantId now rest (results ++ [result])

structure CloseIdleArgs where
  tenantId : String
  policy : SessionLifecyclePolicy
  sourceId : Option String := none
  backendPrefix : Option String := none
  now : Option Int := none

def closeIdleSessions (backends : String → Option SessionBackend) (a : CloseIdleArgs) :
    Program (Except Raised (List CloseSessionResult)) :=
  match validateBackendPrefix a.backendPrefix with
  | .error e => return .error (.store e)
  | .ok _ => do
    let now ← clock a.now
    let candidates ← Call.selectCloseCandidates
      ⟨a.tenantId, a.policy, a.sourceId, a.backendPrefix, now⟩
    closeEach backends a.tenantId now candidates []

end Soveren.Sessions
