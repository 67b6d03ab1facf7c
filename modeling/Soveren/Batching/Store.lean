import Soveren.Queue.Durable
import Soveren.History.Store
import Soveren.Batching.Rules

/-! The `inbound_batches` and `inbound_batch_messages` tables, with the transactions of the
batching worker over them, the queue and the conversation history. -/
namespace Soveren.Batching
open Soveren.Relational Soveren.Queue Soveren.History

inductive BatchStatus where
  | collecting | routed | cancelled
  deriving DecidableEq, Repr

structure BatchRow where
  id : String
  tenantId : String
  channel : String
  sourceId : String
  status : BatchStatus
  firstMessageAt : Int
  lastMessageAt : Int
  messageCount : ℕ
  decision : Json
  createdAt : Int
  updatedAt : Int
  deriving DecidableEq

structure BatchMessageRow where
  id : String
  batchId : String
  tenantId : String
  channel : String
  sourceId : String
  rawEventId : String
  sourceEventId : Option String
  payload : Json
  messageAt : Int
  createdAt : Int
  deriving DecidableEq

structure Tables where
  batches : List BatchRow := []
  messages : List BatchMessageRow := []
  history : List ConversationMessageRow := []
  events : List EventRow := []
  deriving DecidableEq

/-- A received message. The text is any JSON value; null stands for an absent one. -/
structure InboundMessage where
  tenantId : String
  channel : String
  sourceId : String
  rawEventId : String
  text : Json
  payload : Json
  messageAt : Int
  sourceEventId : Option String
  deriving DecidableEq

/-- The ids that a transaction draws. -/
structure Drawn where
  batchHex : String := ""
  messageHex : String := ""
  historyHex : String := ""
  eventId : String := ""

def messagePayload (m : InboundMessage) : Json :=
  (((((m.payload.set "channel" (.str m.channel)).set "source_id" (.str m.sourceId)).set
    "raw_event_id" (.str m.rawEventId)).set "source_event_id" (.ofString? m.sourceEventId)).set
    "text" m.text).set "message_at" (.int m.messageAt)

/-- The nested `payload` object of a message, empty when there is none. -/
def nestedPayload (payload : Json) : Json :=
  match payload.get? "payload" with
  | some (.obj fields) => .obj fields
  | _ => .obj []

/-- The first key with a value, at the outer level and then in the nested payload. -/
def firstValue (payload : Json) (keys : List String) : Option (String × Json) :=
  keys.findSome? fun key =>
    ((payload.getSome? key).or ((nestedPayload payload).getSome? key)).map (key, ·)

def messageAuthorId (payload : Json) : Option String :=
  (firstValue payload ["user_id", "from_user_id", "sender_id"]).map (·.2.toStr)

def nonEmptyText : Json → Option String
  | .str s => Text.orNone (Text.normalize s)
  | _ => none

/-- `source.get(key) or source.get(other)`. -/
def eitherField (source : Json) (key other : String) : Json :=
  match source.get? key with
  | some v => if v.truthy then v else (source.get? other).getD .null
  | none => (source.get? other).getD .null

def messageAuthorDisplayName (payload : Json) : Option String :=
  let sources := [payload, nestedPayload payload]
  let named := sources.findSome? fun source =>
    ["display_name", "author_name", "sender_name"].findSome? fun key =>
      nonEmptyText ((source.get? key).getD .null)
  named.or (sources.findSome? fun source =>
    let firstName := nonEmptyText (eitherField source "first_name" "from_first_name")
    let lastName := nonEmptyText (eitherField source "last_name" "from_last_name")
    Text.orNone (String.intercalate " " ([firstName, lastName].filterMap id)))

def messageAuthorUsername (payload : Json) : Option String :=
  let username := [payload, nestedPayload payload].findSome? fun source =>
    nonEmptyText (eitherField source "username" "from_username")
  username.bind fun u => Text.orNone (Text.strip (Text.lstrip '@' u))

/-- `value or ""` as a text column stores it; a container cannot be bound. -/
def bindText (value : Json) : Except StoreError String :=
  if !value.truthy then .ok ""
  else match value with
    | .arr _ | .obj _ => .error (.valueError "error binding parameter: type is not supported")
    | .bool _ => .ok "1"
    | v => .ok v.toStr

def openBatch (t : List BatchRow) (tenantId channel sourceId : String) : Option BatchRow :=
  (selectOrdered (fun b => b.tenantId = tenantId && b.channel = channel && b.sourceId = sourceId &&
    b.status = .collecting) (fun a b => b.updatedAt ≤ a.updatedAt) t).head?

def InboundMessage.batchRow (m : InboundMessage) (d : Drawn) (now : Int) : BatchRow where
  id := "ib_" ++ d.batchHex
  tenantId := m.tenantId
  channel := m.channel
  sourceId := m.sourceId
  status := .collecting
  firstMessageAt := m.messageAt
  lastMessageAt := m.messageAt
  messageCount := 0
  decision := .obj []
  createdAt := now
  updatedAt := now

def InboundMessage.messageRow (m : InboundMessage) (d : Drawn) (batchId : String) (now : Int) :
    BatchMessageRow where
  id := "ibm_" ++ d.messageHex
  batchId := batchId
  tenantId := m.tenantId
  channel := m.channel
  sourceId := m.sourceId
  rawEventId := m.rawEventId
  sourceEventId := m.sourceEventId
  payload := messagePayload m
  messageAt := m.messageAt
  createdAt := now

def insertBatch (t : List BatchRow) (row : BatchRow) : Except StoreError (List BatchRow) :=
  if t.any fun b => b.id = row.id || (b.status = .collecting && b.tenantId = row.tenantId &&
      b.channel = row.channel && b.sourceId = row.sourceId) then .error .integrityError
  else .ok (t ++ [row])

def insertMessage (t : List BatchMessageRow) (row : BatchMessageRow) :
    Except StoreError (List BatchMessageRow) :=
  if t.any fun m => m.id = row.id || (m.tenantId = row.tenantId && m.sourceId = row.sourceId &&
      m.rawEventId = row.rawEventId) then .error .integrityError
  else .ok (t ++ [row])

/-- The stored message with a raw event id, joined with its batch. -/
def existingMessage (db : Tables) (m : InboundMessage) : Option (BatchMessageRow × BatchRow) :=
  db.messages.findSome? fun r =>
    if r.tenantId = m.tenantId && r.sourceId = m.sourceId && r.rawEventId = m.rawEventId then
      (db.batches.find? (·.id = r.batchId)).map (r, ·)
    else none

def InboundMessage.recordArgs (m : InboundMessage) (text historyHex : String) (now : Int) :
    RecordArgs where
  historyHex := historyHex
  tenantId := m.tenantId
  sourceId := m.sourceId
  channel := m.channel
  direction := .inbound
  authorId := messageAuthorId m.payload
  authorUsername := messageAuthorUsername m.payload
  authorDisplayName := messageAuthorDisplayName m.payload
  text := text
  sourceMessageId := m.rawEventId
  sourceEventId := m.sourceEventId
  occurredAt := m.messageAt
  now := now

/-- The addressed batch: `id = ? AND tenant_id = ? AND source_id = ?`. -/
def isBatch (batchId tenantId sourceId : String) (b : BatchRow) : Bool :=
  b.id = batchId && b.tenantId = tenantId && b.sourceId = sourceId

/-- The messages of a batch: `batch_id = ? AND tenant_id = ? AND source_id = ?`. -/
def inBatch (batchId tenantId sourceId : String) (m : BatchMessageRow) : Bool :=
  m.batchId = batchId && m.tenantId = tenantId && m.sourceId = sourceId

/-- The open batch of a message's conversation, or a new one. -/
def batchFor (t : List BatchRow) (m : InboundMessage) (d : Drawn) (now : Int) :
    Except StoreError (List BatchRow × String) :=
  match openBatch t m.tenantId m.channel m.sourceId with
  | some batch => .ok (t, batch.id)
  | none => (insertBatch t (m.batchRow d now)).map (·, (m.batchRow d now).id)

/-- Store one message in the open batch of its conversation, opening one if there is none. -/
def appendInboundMessage (db : Tables) (m : InboundMessage) (d : Drawn) (now : Int) :
    Except StoreError (Tables × Option String) :=
  match existingMessage db m with
  | some (row, batch) => do
    requireIdempotentReplay (row.channel = m.channel && row.sourceEventId = m.sourceEventId &&
      row.messageAt = m.messageAt && storedJsonMatches row.payload (messagePayload m))
      "inbound message" m.rawEventId row.id
    .ok (db, if batch.status = .collecting then some row.batchId else none)
  | none => if ¬ Fits m.messageAt then .error bindingError else do
    let (batches, batchId) ← batchFor db.batches m d now
    let messages ← insertMessage db.messages (m.messageRow d batchId now)
    let text ← bindText m.text
    let (history, _, _) ← recordMessage db.history (m.recordArgs text d.historyHex now)
    let updated := updateWhere (isBatch batchId m.tenantId m.sourceId)
      (fun b => { b with
        lastMessageAt := max b.lastMessageAt m.messageAt
        messageCount := rowcount (inBatch batchId m.tenantId m.sourceId) messages
        updatedAt := now }) batches
    .ok ({ db with batches := updated, messages := messages, history := history }, some batchId)

/-- The order of messages in a batch: message time, storage time, insertion. -/
def messageOrder (a b : BatchMessageRow) : Prop :=
  a.messageAt < b.messageAt ∨ (a.messageAt = b.messageAt ∧ a.createdAt ≤ b.createdAt)

instance : DecidableRel messageOrder := fun _ _ => instDecidableOr

/-- The payloads of a batch's messages in order. -/
def batchMessages (db : Tables) (batchId tenantId sourceId : String) : List Json :=
  (selectOrdered (inBatch batchId tenantId sourceId) messageOrder db.messages).map (·.payload)

structure Windows where
  quietWindowS : Int := 2
  maxWindowS : Int := 10
  maxCount : Int := 20

section LoadState

variable (extractFeatures : Json → Option Json → MessageFeatures)

/-- The features of each message, given the one before it. -/
def featuresFrom (prev : Option Json) : List Json → List MessageFeatures
  | [] => []
  | message :: rest => extractFeatures message prev :: featuresFrom (some message) rest

def loadState (db : Tables) (batchId tenantId sourceId : String) (w : Windows) (now : Int) :
    Option BatchState :=
  (db.batches.find? fun b => isBatch batchId tenantId sourceId b && b.status = .collecting).map
    fun batch =>
      let messages := batchMessages db batchId tenantId sourceId
      { batchId := batchId
        tenantId := batch.tenantId
        channel := batch.channel
        sourceId := batch.sourceId
        messages := messages
        features := featuresFrom extractFeatures none messages
        now := now
        firstMessageAt := batch.firstMessageAt
        lastMessageAt := batch.lastMessageAt
        messageCount := batch.messageCount
        quietWindowS := w.quietWindowS
        maxWindowS := w.maxWindowS
        maxCount := w.maxCount }

end LoadState

def BatchAction.name : BatchAction → String
  | .wait => "wait"
  | .flush => "flush"

/-- The stored telemetry of a decision. -/
def decisionTelemetry (decision : BatchDecision) (state : Option BatchState) : Json :=
  let base : Json := .obj [("action", .str decision.action.name),
    ("flush_score", .int decision.flushScore),
    ("matched_rules", .arr (decision.matchedRules.map .str)),
    ("reasons", .arr (decision.reasons.map .str)), ("wait_score", .int decision.waitScore)]
  match state with
  | none => base
  | some s => (((((base.set "message_count" (.int s.messageCount)).set
      "age_s" (.int (s.now - s.firstMessageAt))).set
      "quiet_age_s" (.int (s.now - s.lastMessageAt))).set
      "quiet_window_s" (.int s.quietWindowS)).set
      "max_window_s" (.int s.maxWindowS)).set "max_count" (.int s.maxCount)

def storeDecision (db : Tables) (batchId : String) (decision : BatchDecision)
    (tenantId sourceId : String) (state : Option BatchState) (now : Int) : Tables :=
  let telemetry := decisionTelemetry decision state
  let batches := updateWhere (isBatch batchId tenantId sourceId)
    (fun b => { b with decision := telemetry, updatedAt := now }) db.batches
  { db with batches := batches }

def markRouted (t : List BatchRow) (batchId tenantId sourceId : String) (now : Int) :
    List BatchRow × Bool :=
  let p := fun b => isBatch batchId tenantId sourceId b && b.status = .collecting
  (updateWhere p (fun b => { b with status := .routed, updatedAt := now }) t, rowcount p t ≠ 0)

/-- What `routeBatch` is asked to publish. -/
structure RouteArgs where
  batchId : String
  tenantId : String
  sourceId : String
  recipient : String
  messageType : String
  payload : Json
  idempotencyKey : String
  correlationId : Option String
  causationId : Option String
  deriving DecidableEq

def RouteArgs.event (a : RouteArgs) (eventId : String) (now : Int) : EnqueueArgs where
  eventId := eventId
  tenantId := a.tenantId
  recipient := a.recipient
  messageType := a.messageType
  payload := a.payload
  idempotencyKey := a.idempotencyKey
  correlationId := a.correlationId
  causationId := a.causationId
  now := now

def routeBatch (db : Tables) (a : RouteArgs) (eventId : String) (now eventNow : Int) :
    Except StoreError (Tables × Bool) :=
  let (batches, routed) := markRouted db.batches a.batchId a.tenantId a.sourceId now
  if routed then do
    let (events, _) ← enqueue db.events (a.event eventId eventNow)
    .ok ({ db with batches := batches, events := events }, true)
  else .ok ({ db with batches := batches }, false)

def participantIdentity (message : Json) : String :=
  match firstValue message
      ["user_id", "from_user_id", "sender_id", "username", "from_username"] with
  | some (key, value) => key ++ ":" ++ value.toStr
  | none => "anonymous"

/-- The lines and the participants' references that the texts of a batch are joined from. -/
def addPart (acc : List String × List (String × String)) (message : Json) :
    List String × List (String × String) :=
  let text := Text.strip (match message.get? "text" with
    | some v => if v.truthy then v.toStr else ""
    | none => "")
  if text = "" then acc
  else
    let identity := participantIdentity message
    let (reference, participants) := match acc.2.find? (·.1 = identity) with
      | some (_, known) => (known, acc.2)
      | none =>
        let reference := "participant_" ++ toString (acc.2.length + 1)
        (reference, acc.2 ++ [(identity, reference)])
    let author := match messageAuthorUsername message with
      | some username => "@" ++ username
      | none => (messageAuthorDisplayName message).getD reference
    (acc.1 ++ [author ++ ": " ++ text], participants)

def batchPayload (s : BatchState) : Except String Json :=
  match s.messages.head?, s.messages.getLast? with
  | some first, some last =>
    let (parts, _) := s.messages.foldl addPart ([], [])
    .ok ((((((((last.set "channel" (.str s.channel)).set "source_id" (.str s.sourceId)).set
      "text" (.str (String.intercalate "\n" parts))).set "batch_id" (.str s.batchId)).set
      "batch_message_count" (.int s.messages.length)).set "batch_messages" (.arr s.messages)).set
      "batch_raw_event_ids"
        (.arr (s.messages.map fun m => (m.get? "raw_event_id").getD .null))).set
      "first_message" first)
  | _, _ => .error "IndexError: list index out of range"

end Soveren.Batching
