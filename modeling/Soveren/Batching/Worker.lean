import Soveren.Relational.Process
import Soveren.Relational.Run
import Soveren.Batching.Store

/-! The batching worker's treatment of one claimed event, as a program over its separate store
calls, and the system of any number of such runs. -/
namespace Soveren.Batching
open Soveren.Process Soveren.Queue

structure Config where
  recipient : String := "batching"
  outputRecipient : String := "agent"
  outputMessageType : String := "ChatBatchReady"

def retryBackoffS : Int := 10

def flushPriority : Int := 200

/-- The atomic operations of a worker. -/
inductive Op where
  | time
  | appendInboundMessage (m : InboundMessage)
  | loadState (batchId tenantId sourceId : String) (w : Windows)
  | storeDecision (batchId : String) (decision : BatchDecision) (tenantId sourceId : String)
      (state : Option BatchState)
  | routeBatch (a : RouteArgs)
  | enqueueFlush (recipient : String) (state : BatchState) (causationId : String) (runAfter : Int)
  | markDone
  | markRetry (runAfter : Int) (lastError : String)

def Res : Op → Type
  | .time => Int
  | .appendInboundMessage _ => Except StoreError (Option String)
  | .loadState _ _ _ _ => Option BatchState
  | .storeDecision _ _ _ _ _ => Unit
  | .routeBatch _ => Except StoreError Bool
  | .enqueueFlush _ _ _ _ => Except StoreError (Option String)
  | .markDone => Bool
  | .markRetry _ _ => Option EventStatus

abbrev Program := Proc Op Res Unit

/-- A part of the worker inside its `try` block; an error carries the exception's text. -/
abbrev Attempt := Proc Op Res (Except String Unit)

namespace Call

def time : Proc Op Res Int := .call .time .ret

def appendInboundMessage (m : InboundMessage) : Proc Op Res (Except StoreError (Option String)) :=
  .call (.appendInboundMessage m) .ret

def loadState (batchId tenantId sourceId : String) (w : Windows) :
    Proc Op Res (Option BatchState) := .call (.loadState batchId tenantId sourceId w) .ret

def storeDecision (batchId : String) (decision : BatchDecision) (tenantId sourceId : String)
    (state : Option BatchState) : Proc Op Res Unit :=
  .call (.storeDecision batchId decision tenantId sourceId state) .ret

def routeBatch (a : RouteArgs) : Proc Op Res (Except StoreError Bool) := .call (.routeBatch a) .ret

def enqueueFlush (recipient : String) (state : BatchState) (causationId : String)
    (runAfter : Int) : Proc Op Res (Except StoreError (Option String)) :=
  .call (.enqueueFlush recipient state causationId runAfter) .ret

def markDone : Proc Op Res Bool := .call .markDone .ret

def markRetry (runAfter : Int) (lastError : String) : Proc Op Res (Option EventStatus) :=
  .call (.markRetry runAfter lastError) .ret

end Call

/-- `_required_string`; the error text of the `ValueError` it raises. -/
def requiredString (payload : Json) (field : String) : Except String String :=
  match payload.get? field with
  | some (.str value) =>
    if Text.blank value then
      .error ("ValueError: inbound message payload must contain a non-empty " ++ field)
    else .ok (Text.strip value)
  | _ => .error ("ValueError: inbound message payload must contain a non-empty " ++ field)

def messageFromEvent (e : QueueEvent) : Except String InboundMessage :=
  match e.payload with
  | .obj _ => do
    let channel ← requiredString e.payload "channel"
    let sourceId ← requiredString e.payload "source_id"
    let rawEventId ← requiredString e.payload "raw_event_id"
    match e.payload.get? "message_at" with
    | some (.int messageAt) =>
      let message := fun sourceEventId : String => (
        { tenantId := e.tenantId
          channel := channel
          sourceId := sourceId
          rawEventId := rawEventId
          text := (e.payload.get? "text").getD .null
          payload := e.payload
          messageAt := messageAt
          sourceEventId := some sourceEventId } : InboundMessage)
      match e.payload.getSome? "source_event_id" with
      | none => .ok (message e.id)
      | some (.str s) =>
        if Text.blank s then
          .error "ValueError: source_event_id must be a non-empty string when provided"
        else .ok (message s)
      | some _ => .error "ValueError: source_event_id must be a non-empty string when provided"
    | _ => .error "ValueError: inbound message payload must contain an integer message_at"
  | _ => .error "AttributeError: event payload is not a dictionary"

def nextFlushDeadline (firstMessageAt lastMessageAt now quietWindowS maxWindowS : Int) : Int :=
  let quietDeadline := lastMessageAt + quietWindowS
  let maxDeadline := firstMessageAt + maxWindowS
  if now < quietDeadline then min quietDeadline maxDeadline
  else if now < maxDeadline then maxDeadline
  else now

def inboundBatchKey (batchId : String) : String := "inbound-batch:" ++ batchId

def raised {α : Type} : Except StoreError α → Except String Unit
  | .ok _ => .ok ()
  | .error e => .error e.text

section Programs

variable (c : Config) (w : Windows)

def flushBatch (state : BatchState) (causationId : String) : Attempt :=
  match batchPayload state with
  | .error text => return .error text
  | .ok payload => do
    let routed ← Call.routeBatch
      { batchId := state.batchId
        tenantId := state.tenantId
        sourceId := state.sourceId
        recipient := c.outputRecipient
        messageType := c.outputMessageType
        payload := payload
        idempotencyKey := inboundBatchKey state.batchId
        correlationId := some state.batchId
        causationId := some causationId }
    return raised routed

def scheduleFlush (state : BatchState) (causationId : String) : Attempt := do
  let now ← Call.time
  let runAfter := nextFlushDeadline state.firstMessageAt state.lastMessageAt now
    w.quietWindowS w.maxWindowS
  let enqueued ← Call.enqueueFlush c.recipient state causationId runAfter
  return raised enqueued

def evaluateAndMaybeFlush (batchId tenantId sourceId causationId : String) : Attempt := do
  let state ← Call.loadState batchId tenantId sourceId w
  let decision := decideBatch state
  Call.storeDecision batchId decision tenantId sourceId state
  match state with
  | none => return .ok ()
  | some s =>
    if decision.action = .flush then flushBatch c s causationId
    else scheduleFlush c w s causationId

/-- The body of the `try` block of `_process`. -/
def processBody (e : QueueEvent) : Attempt :=
  if e.messageType = "InboundMessageReceived" then
    match messageFromEvent e with
    | .error text => return .error text
    | .ok message => do
      match ← Call.appendInboundMessage message with
      | .error err => return .error err.text
      | .ok none => return .ok ()
      | .ok (some batchId) =>
        evaluateAndMaybeFlush c w batchId e.tenantId message.sourceId e.id
  else if e.messageType = "FlushInboundBatch" then
    match e.payload.get? "batch_id", e.payload.get? "source_id" with
    | none, _ => return .error "KeyError: 'batch_id'"
    | _, none => return .error "KeyError: 'source_id'"
    | some batchId, some sourceId =>
      evaluateAndMaybeFlush c w batchId.toStr e.tenantId sourceId.toStr e.id
  else return .ok ()

def process (e : QueueEvent) : Program := do
  match ← processBody c w e with
  | .ok () =>
    let _ ← Call.markDone
    return ()
  | .error text =>
    let now ← Call.time
    let _ ← Call.markRetry (now + retryBackoffS) text
    return ()

end Programs

/-- A scheduled flush of a batch. -/
def flushEvent (eventId recipient : String) (s : BatchState) (causationId : String)
    (runAfter now : Int) : EnqueueArgs where
  eventId := eventId
  tenantId := s.tenantId
  recipient := recipient
  messageType := "FlushInboundBatch"
  payload := .obj [("batch_id", .str s.batchId), ("source_id", .str s.sourceId)]
  idempotencyKey := "inbound-batch-flush:" ++ s.batchId ++ ":" ++ toString runAfter
  priority := flushPriority
  runAfter := some runAfter
  causationId := some causationId
  now := now

structure Run where
  event : QueueEvent
  program : Program

structure System where
  tables : Tables := {}
  runs : List Run := []

/-- The state after a store call and its result; a call that raises is rolled back. -/
def keepOnError {α : Type} (db : Tables) (r : Except StoreError (Tables × α)) :
    Tables × Except StoreError α :=
  match r with
  | .ok (db', a) => (db', .ok a)
  | .error e => (db, .error e)

section Step

variable (extractFeatures : Json → Option Json → MessageFeatures) (c : Config)

/-- One operation of a run on event `e` at clock `now` with the drawn ids `d`. -/
def performOp (db : Tables) (e : QueueEvent) (now : Int) (d : Drawn) : (o : Op) → Tables × Res o
  | .time => (db, now)
  | .appendInboundMessage m => keepOnError db (appendInboundMessage db m d now)
  | .loadState batchId tenantId sourceId w =>
    (db, loadState extractFeatures db batchId tenantId sourceId w now)
  | .storeDecision batchId decision tenantId sourceId state =>
    (storeDecision db batchId decision tenantId sourceId state now, ())
  | .routeBatch a => keepOnError db (routeBatch db a d.eventId now now)
  | .enqueueFlush recipient state causationId runAfter =>
    keepOnError db ((enqueue db.events
      (flushEvent d.eventId recipient state causationId runAfter now)).map fun (t, r) =>
        ({ db with events := t }, r))
  | .markDone =>
    let (t, moved) := markDone db.events e.id e.leaseToken now
    ({ db with events := t }, moved)
  | .markRetry runAfter lastError =>
    let (t, status) := markRetry db.events e.id e.leaseToken runAfter lastError now
    ({ db with events := t }, status)

inductive Label where
  | enqueue (a : EnqueueArgs)
  | claim (a : ClaimArgs) (w : Windows)
  | renew (eventId leaseToken : String) (leaseSeconds now : Int)
  | advance (run : ℕ) (now : Int) (d : Drawn)

/-- Advance run `i` by its next operation. -/
def advance (s : System) (i : ℕ) (now : Int) (d : Drawn) : Option System :=
  match s.runs[i]? with
  | none => none
  | some run => match run.program with
    | .ret _ => none
    | .call o k =>
      let (db, r) := performOp extractFeatures s.tables run.event now d o
      some { tables := db, runs := s.runs.set i ⟨run.event, k r⟩ }

def step (s : System) : Label → Option System
  | .enqueue a => match enqueue s.tables.events a with
    | .ok (t, _) => some { s with tables.events := t }
    | .error _ => some s
  | .claim a w => match claimDue s.tables.events a with
    | .ok (t, rows) => some { s with
        tables.events := t
        runs := s.runs ++ rows.map fun r => ⟨rowToQueueEvent r, process c w (rowToQueueEvent r)⟩ }
    | .error _ => some s
  | .renew eventId leaseToken leaseSeconds now =>
    match renewLease s.tables.events eventId leaseToken leaseSeconds now with
    | .ok (t, _) => some { s with tables.events := t }
    | .error _ => some s
  | .advance i now d => advance extractFeatures s i now d

end Step

end Soveren.Batching
