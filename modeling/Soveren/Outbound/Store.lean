import Soveren.Conversation.Schema

/-! The outbound store on the `outbound_messages` table. Each function is one store call: it
runs in one transaction, and a call that raises leaves the tables as they were. Clock readings,
drawn ids and lease tokens are arguments. -/
namespace Soveren.Outbound
open Soveren.Relational Soveren.History Soveren.Conversation

structure EnqueueArgs where
  messageHex : String
  tenantId : String
  sourceId : String
  channel : String
  destinationId : String
  text : String
  idempotencyKey : String
  payload : Json := .obj []
  priority : Int := 100
  runAfter : Option Int := none
  maxAttempts : ℕ := 5
  correlationId : Option String := none
  orderingKey : Option String := none
  orderingPosition : Option Int := none
  taskReference : Option OutboundTaskReference := none
  replyToMessageId : Option Int := none
  messageThreadId : Option Int := none
  /-- A NaN of the payload is an object of its own, not the one that JSON is decoded to. -/
  ownNan : Bool := false
  now : Int

structure OutboundEnqueueResult where
  messageId : String
  created : Bool
  deriving DecidableEq, Repr

namespace EnqueueArgs

def scope (a : EnqueueArgs) : Scope := ⟨a.tenantId, a.sourceId⟩

def validateTelegramReplyFields (a : EnqueueArgs) : Except StoreError Unit :=
  if a.replyToMessageId.any (· < 1) then
    .error (.valueError "reply_to_message_id must be a positive integer when provided")
  else if a.messageThreadId.any (· < 1) then
    .error (.valueError "message_thread_id must be a positive integer when provided")
  else .ok ()

def validate (a : EnqueueArgs) : Except StoreError Unit :=
  if Text.blank a.tenantId || Text.blank a.sourceId then
    .error (.valueError "tenant_id and source_id must be non-empty")
  else if a.orderingKey.isNone != a.orderingPosition.isNone then
    .error (.valueError "ordering_key and ordering_position must be provided together")
  else if a.orderingKey.any fun k => Text.blank k || 256 < Text.len k then
    .error (.valueError "ordering_key must be non-empty and at most 256 characters")
  else if a.orderingPosition.any (· < 1) then
    .error (.valueError "ordering_position must be a positive integer")
  else a.validateTelegramReplyFields

def taskId (a : EnqueueArgs) : Option String := a.taskReference.bind (·.taskId?)

def taskRevision (a : EnqueueArgs) : Option ℕ := a.taskReference.bind (·.taskRevision?)

def questionId (a : EnqueueArgs) : Option String := a.taskReference.bind (·.questionId?)

def questionRevision (a : EnqueueArgs) : Option ℕ := a.taskReference.bind (·.questionRevision?)

def revisionJson (n : Option ℕ) : Json := .ofInt? (n.map (·))

def fingerprint (a : EnqueueArgs) : Json :=
  Soveren.idempotencyFingerprint (.obj [
    ("channel", .str a.channel),
    ("correlation_id", .ofString? a.correlationId),
    ("destination_id", .str a.destinationId),
    ("max_attempts", .int a.maxAttempts),
    ("message_thread_id", .ofInt? a.messageThreadId),
    ("ordering_key", .ofString? a.orderingKey),
    ("ordering_position", .ofInt? a.orderingPosition),
    ("payload", a.payload),
    ("priority", .int a.priority),
    ("reply_to_message_id", .ofInt? a.replyToMessageId),
    ("routing_question_id", .ofString? a.questionId),
    ("routing_question_revision", revisionJson a.questionRevision),
    ("run_after", .ofInt? a.runAfter),
    ("task_id", .ofString? a.taskId),
    ("task_revision", revisionJson a.taskRevision),
    ("text", .str a.text)])

/-- The digest that rows had before question generations were introduced. -/
def legacyFingerprint (a : EnqueueArgs) : Json :=
  Soveren.idempotencyFingerprint (.obj [
    ("channel", .str a.channel),
    ("correlation_id", .ofString? a.correlationId),
    ("destination_id", .str a.destinationId),
    ("max_attempts", .int a.maxAttempts),
    ("message_thread_id", .ofInt? a.messageThreadId),
    ("ordering_key", .ofString? a.orderingKey),
    ("ordering_position", .ofInt? a.orderingPosition),
    ("payload", a.payload),
    ("priority", .int a.priority),
    ("reply_to_message_id", .ofInt? a.replyToMessageId),
    ("routing_question_id", .ofString? a.questionId),
    ("run_after", .ofInt? a.runAfter),
    ("task_id", .ofString? a.taskId),
    ("task_revision", revisionJson a.taskRevision),
    ("text", .str a.text)])

/-- The digest that rows had before task references and reply metadata. -/
def preDialogueFingerprint (a : EnqueueArgs) : Json :=
  Soveren.idempotencyFingerprint (.obj [
    ("channel", .str a.channel),
    ("correlation_id", .ofString? a.correlationId),
    ("destination_id", .str a.destinationId),
    ("max_attempts", .int a.maxAttempts),
    ("ordering_key", .ofString? a.orderingKey),
    ("ordering_position", .ofInt? a.orderingPosition),
    ("payload", a.payload),
    ("priority", .int a.priority),
    ("run_after", .ofInt? a.runAfter),
    ("text", .str a.text)])

/-- The row that an enqueue inserts. -/
def row (a : EnqueueArgs) : OutboundRow where
  id := "out_" ++ a.messageHex
  tenantId := a.tenantId
  sourceId := a.sourceId
  channel := a.channel
  destinationId := a.destinationId
  text := a.text
  payload := a.payload
  status := .queued
  priority := a.priority
  runAfter := a.runAfter.getD a.now
  leaseOwner := none
  leaseUntil := none
  leaseToken := none
  attempts := 0
  maxAttempts := a.maxAttempts
  idempotencyKey := a.idempotencyKey
  idempotencyFingerprint := some a.fingerprint
  correlationId := a.correlationId
  orderingKey := a.orderingKey
  orderingPosition := a.orderingPosition
  taskReference := a.taskReference
  replyToMessageId := a.replyToMessageId
  messageThreadId := a.messageThreadId
  lastError := none
  sentAt := none
  result := none
  createdAt := a.now
  updatedAt := a.now

end EnqueueArgs

/-- The row with a conversation's idempotency key. -/
def byKey (t : List OutboundRow) (scope : Scope) (key : String) : Option OutboundRow :=
  t.find? fun r => r.scope = scope && r.idempotencyKey = key

def hasNoDialogueOrReplyFields (existing : OutboundRow) (a : EnqueueArgs) : Bool :=
  a.taskReference.isNone && a.replyToMessageId.isNone && a.messageThreadId.isNone &&
    existing.taskReference.isNone && existing.replyToMessageId.isNone &&
    existing.messageThreadId.isNone

def replayMatches (existing : OutboundRow) (a : EnqueueArgs) : Bool :=
  match existing.idempotencyFingerprint with
  | some f => f = a.fingerprint ||
      (f = a.legacyFingerprint && existing.questionRevision = a.questionRevision) ||
      (hasNoDialogueOrReplyFields existing a && f = a.preDialogueFingerprint)
  | none => existing.channel = a.channel && existing.destinationId = a.destinationId &&
      existing.text = a.text && storedJsonMatches existing.payload a.payload a.ownNan &&
      existing.priority = a.priority && existing.maxAttempts = a.maxAttempts &&
      existing.correlationId = a.correlationId && existing.orderingKey = a.orderingKey &&
      existing.orderingPosition = a.orderingPosition &&
      existing.taskReference = a.taskReference &&
      existing.replyToMessageId = a.replyToMessageId &&
      existing.messageThreadId = a.messageThreadId

def requireOutboundReplay (existing : OutboundRow) (a : EnqueueArgs) : Except StoreError Unit :=
  requireIdempotentReplay (replayMatches existing a) "outbound message" a.idempotencyKey existing.id

/-- The task or question that a reference names is current in its conversation. -/
def referenceIsCurrent (db : Tables) (scope : Scope) : OutboundTaskReference → Bool
  | .task taskId revision _ => (getTaskRow db scope taskId).any fun t =>
      t.status = .active && t.revision = revision
  | .question questionId revision _ => (getQuestionRow db scope questionId).any fun q =>
      q.status = .pending && q.revision = revision

def validateTaskReference (db : Tables) (scope : Scope) (reference : OutboundTaskReference) :
    Except StoreError Unit :=
  if referenceIsCurrent db scope reference then .ok ()
  else .error (.dialogueConflict (match reference with
    | .task _ _ _ => "outbound task reference is stale or outside its conversation"
    | .question _ _ _ => "outbound routing question is stale or outside its conversation"))

/-- The reference of a new message, if it has one, is current. -/
def EnqueueArgs.validateReference (db : Tables) (a : EnqueueArgs) : Except StoreError Unit :=
  match a.taskReference with
  | none => .ok ()
  | some reference => validateTaskReference db a.scope reference

def taskAdmissionIsCurrent (db : Tables) (row : OutboundRow) : Bool :=
  row.taskReference.all (referenceIsCurrent db row.scope)

/-- Two messages share neither their id, nor the key of their conversation, nor the position
of an ordering. -/
def conflicts (row r : OutboundRow) : Bool :=
  r.id = row.id || (r.scope = row.scope && r.idempotencyKey = row.idempotencyKey) ||
    (r.scope = row.scope && r.channel = row.channel && r.orderingKey.isSome &&
      r.orderingKey = row.orderingKey && r.orderingPosition = row.orderingPosition)

def insertOutbound (db : Tables) (row : OutboundRow) : Except StoreError Tables :=
  if db.outbound.any (conflicts row) then .error .integrityError
  else .ok { db with outbound := db.outbound ++ [row] }

def enqueueOutboundWithResult (db : Tables) (a : EnqueueArgs) :
    Except StoreError (Tables × OutboundEnqueueResult) := do
  a.validate
  match byKey db.outbound a.scope a.idempotencyKey with
  | some existing =>
    requireOutboundReplay existing a
    .ok (db, ⟨existing.id, false⟩)
  | none =>
    a.validateReference db
    let db' ← insertOutbound db a.row
    .ok (db', ⟨a.row.id, true⟩)

def enqueueOutbound (db : Tables) (a : EnqueueArgs) :
    Except StoreError (Tables × Option String) := do
  let (db', result) ← enqueueOutboundWithResult db a
  .ok (db', if result.created then some result.messageId else none)

/-- Enqueue the requests one after the other in one transaction. -/
def enqueueOutboundMany (db : Tables) : List EnqueueArgs →
    Except StoreError (Tables × List (Option String))
  | [] => .ok (db, [])
  | a :: rest => do
    let (db', messageId) ← enqueueOutbound db a
    let (db'', messageIds) ← enqueueOutboundMany db' rest
    .ok (db'', messageId :: messageIds)

structure ClaimArgs where
  channel : String
  limit : Int
  leaseOwner : String
  leaseSeconds : Int
  tenantId : Option String := none
  now : Int
  leaseToken : String

/-- `lease_until <= now`; a null deadline compares as unknown. -/
def expired (now : Int) (r : OutboundRow) : Bool := r.leaseUntil.any fun u => u ≤ now

/-- Clear the three lease columns. -/
def unlease (r : OutboundRow) (status : OutboundStatus) (now : Int) : OutboundRow :=
  { r with status := status, leaseOwner := none, leaseUntil := none, leaseToken := none,
           updatedAt := now }

/-- Clear the lease and keep the reason. -/
def fail (r : OutboundRow) (status : OutboundStatus) (lastError : String) (now : Int) :
    OutboundRow :=
  { unlease r status now with lastError := some lastError }

/-- A row of the same conversation, channel and ordering. -/
def sameOrdering (r s : OutboundRow) : Bool :=
  s.tenantId = r.tenantId && s.sourceId = r.sourceId && s.channel = r.channel &&
    r.orderingKey.isSome && s.orderingKey = r.orderingKey

/-- A comparison of two positions; a null one compares as unknown. -/
def positions (p : Int → Int → Bool) (r s : OutboundRow) : Bool :=
  match r.orderingPosition, s.orderingPosition with
  | some m, some n => p m n
  | _, _ => false

namespace ClaimArgs

def inScope (a : ClaimArgs) (r : OutboundRow) : Bool :=
  r.channel = a.channel && a.tenantId.all fun t => r.tenantId = t

def isLostSend (a : ClaimArgs) (r : OutboundRow) : Bool :=
  a.inScope r && r.status = .sending && expired a.now r

def isExhausted (a : ClaimArgs) (r : OutboundRow) : Bool :=
  a.inScope r && r.status = .leased && expired a.now r && r.maxAttempts ≤ r.attempts

/-- A waiting row behind a predecessor that did not complete. -/
def isBlocked (a : ClaimArgs) (t : List OutboundRow) (r : OutboundRow) : Bool :=
  a.inScope r && (r.status = .queued || r.status = .retrying) &&
    t.any fun s => sameOrdering r s && positions (· < ·) s r &&
      (s.status = .deadLetter || s.status = .cancelled)

/-- The next row of its ordering: it has none, is the first, or follows a sent row. -/
def isNext (t : List OutboundRow) (r : OutboundRow) : Bool :=
  r.orderingKey.isNone || r.orderingPosition = some 1 ||
    t.any fun s => sameOrdering r s && positions (fun m n => m = n - 1) s r && s.status = .sent

def isCandidate (a : ClaimArgs) (t : List OutboundRow) (r : OutboundRow) : Bool :=
  a.inScope r && r.runAfter ≤ a.now &&
    (r.status = .queued || r.status = .retrying ||
      (r.status = .leased && expired a.now r && r.attempts < r.maxAttempts)) && isNext t r

def lease (a : ClaimArgs) (r : OutboundRow) : OutboundRow :=
  { r with status := .leased, leaseOwner := some a.leaseOwner,
           leaseUntil := some (a.now + a.leaseSeconds), leaseToken := some a.leaseToken,
           attempts := r.attempts + 1, updatedAt := a.now }

def validate (a : ClaimArgs) : Except StoreError Unit :=
  if a.limit < 1 then .error (.valueError "limit must be positive")
  else if a.leaseSeconds < 1 then .error (.valueError "lease_seconds must be positive")
  else if a.tenantId.any Text.blank then
    .error (.valueError "tenant_id must be non-empty when provided")
  else .ok ()

/-- The expired sends become uncertain. -/
def afterLost (a : ClaimArgs) (t : List OutboundRow) : List OutboundRow :=
  updateWhere a.isLostSend
    (fail · .uncertain "outbound send outcome is uncertain after lease expiry" a.now) t

/-- The expired leases without attempts left are dead-lettered. -/
def afterExhausted (a : ClaimArgs) (t : List OutboundRow) : List OutboundRow :=
  updateWhere a.isExhausted
    (fail · .deadLetter "outbound lease expired after the maximum number of attempts" a.now) t

/-- The successors of failed rows are cancelled; all rows are tested before one is changed. -/
def afterBlocked (a : ClaimArgs) (t : List OutboundRow) : List OutboundRow :=
  updateWhere (a.isBlocked t)
    (fail · .cancelled "ordered predecessor did not complete successfully" a.now) t

def swept (a : ClaimArgs) (t : List OutboundRow) : List OutboundRow :=
  a.afterBlocked (a.afterExhausted (a.afterLost t))

end ClaimArgs

/-- The delivery order: priority, creation time, insertion. -/
def deliveryOrder (r s : OutboundRow) : Prop :=
  r.priority < s.priority ∨ (r.priority = s.priority ∧ r.createdAt ≤ s.createdAt)

instance : DecidableRel deliveryOrder := fun _ _ => instDecidableOr

/-- The ids that the claim leases. -/
def ClaimArgs.claimIds (a : ClaimArgs) (t : List OutboundRow) : List String :=
  ((selectOrdered (a.isCandidate (a.swept t)) deliveryOrder (a.swept t)).take a.limit.toNat).map
    (·.id)

def ClaimArgs.isClaimed (a : ClaimArgs) (t : List OutboundRow) (r : OutboundRow) : Bool :=
  (a.claimIds t).contains r.id

def ClaimArgs.claimed (a : ClaimArgs) (t : List OutboundRow) : List OutboundRow :=
  updateWhere (a.isClaimed t) a.lease (a.swept t)

def claimDue (db : Tables) (a : ClaimArgs) : Except StoreError (Tables × List OutboundRow) := do
  a.validate
  let leased := a.claimed db.outbound
  .ok ({ db with outbound := leased }, selectOrdered (a.isClaimed db.outbound) deliveryOrder leased)

/-- The condition `id = ? AND status IN (…) AND lease_token = ?`. -/
def holds (statuses : List OutboundStatus) (messageId leaseToken : String) (r : OutboundRow) :
    Bool :=
  r.id = messageId && statuses.contains r.status && r.leaseToken = some leaseToken

/-- `lease_until > now`. -/
def unexpired (now : Int) (r : OutboundRow) : Bool := r.leaseUntil.any fun u => now < u

def renewLease (db : Tables) (messageId leaseToken : String) (leaseSeconds now : Int) :
    Except StoreError (Tables × Bool) :=
  if leaseSeconds < 1 then .error (.valueError "lease_seconds must be positive")
  else
    let owned := fun r => holds [.leased, .sending] messageId leaseToken r && unexpired now r
    let outbound := updateWhere owned
      (fun r => { r with leaseUntil := some (now + leaseSeconds), updatedAt := now }) db.outbound
    .ok ({ db with outbound := outbound }, rowcount owned db.outbound ≠ 0)

def markSending (db : Tables) (messageId leaseToken : String) (now : Int) : Tables × Bool :=
  let owned := fun r => holds [.leased] messageId leaseToken r && unexpired now r
  match db.outbound.find? owned with
  | none => (db, false)
  | some row =>
    if !taskAdmissionIsCurrent db row then
      let outbound := updateWhere (holds [.leased] messageId leaseToken)
        (fail · .cancelled
          "dialogue task or routing question became stale before send admission" now) db.outbound
      ({ db with outbound := outbound }, false)
    else
      let outbound := updateWhere owned
        (fun r => { r with status := .sending, updatedAt := now }) db.outbound
      ({ db with outbound := outbound }, rowcount owned db.outbound = 1)

/-- The channel's id of a confirmed message. -/
def externalMessageId (row : OutboundRow) (result : Json) : Option String :=
  let named := match result.getSome? "external_message_id" with
    | some v => some v
    | none => if row.channel = "telegram" then result.getSome? "message_id" else none
  let text := match named with
    | some (.int n) => if 0 < n then some (toString n) else none
    | some (.str s) => some s
    | _ => none
  text.filter fun s => !Text.blank s && Text.len s ≤ 256

def assistantMessage (row : OutboundRow) (taskId : String) (externalId : Option String)
    (now : Int) : DialogueMessageRow where
  messageId := "outbound_" ++ row.id
  scope := row.scope
  taskId := taskId
  role := .assistant
  actorId := none
  text := row.text
  occurredAt := now
  inputId := none
  sourceMessageId := externalId

def confirmedReference (row : OutboundRow) (externalId : String) (now : Int) :
    ConfirmedReferenceRow where
  scope := row.scope
  channel := row.channel
  externalMessageId := externalId
  outboundMessageId := row.id
  taskId := row.taskId
  questionId := row.questionId
  questionRevision := row.questionRevision
  confirmedAt := now

/-- The transcript row of a confirmed message that belongs to a task. -/
def projectTaskMessage (db : Tables) (row : OutboundRow) (externalId : Option String) (now : Int) :
    Except StoreError Tables :=
  match row.taskId with
  | none => .ok db
  | some taskId => do
    let db' ← insertDialogueMessage db (assistantMessage row taskId externalId now)
    .ok (touchTask db' row.scope taskId now)

def projectConfirmedDialogueMessage (db : Tables) (row : OutboundRow) (result : Json) (now : Int) :
    Except StoreError Tables :=
  if row.taskId.isNone && row.questionId.isNone then .ok db
  else do
    let externalId := externalMessageId row result
    let db' ← projectTaskMessage db row externalId now
    match externalId with
    | none => .ok db'
    | some externalId => insertReference db' (confirmedReference row externalId now)

/-- The history projection of a sent message. -/
def sentRecord (row : OutboundRow) (historyHex : String) (occurredAt : Int) : RecordArgs where
  historyHex := historyHex
  tenantId := row.tenantId
  sourceId := row.sourceId
  channel := row.channel
  direction := .outbound
  text := row.text
  sourceMessageId := row.id
  occurredAt := occurredAt
  now := row.createdAt

/-- The row of a confirmed send. -/
def sentRow (r : OutboundRow) (result : Json) (now : Int) : OutboundRow :=
  { unlease r .sent now with result := some result, sentAt := some now }

def markSent (db : Tables) (messageId leaseToken : String) (result : Json) (historyHex : String)
    (now : Int) : Except StoreError (Tables × Bool) :=
  let owned := holds [.sending] messageId leaseToken
  let outbound := updateWhere owned (sentRow · result now) db.outbound
  if rowcount owned db.outbound = 1 then
    match outbound.find? (·.id = messageId) with
    | none => .error (.runtimeError ("sent outbound message disappeared: " ++ messageId))
    | some row => do
      let (history, _, _) ← recordMessage db.history (sentRecord row historyHex now)
      let db' ← projectConfirmedDialogueMessage
        { db with outbound := outbound, history := history } row result now
      .ok (db', true)
  else .ok ({ db with outbound := outbound }, false)

/-- Move an owned row to a failure status. -/
def markFailure (statuses : List OutboundStatus) (status : OutboundStatus) (db : Tables)
    (messageId leaseToken lastError : String) (now : Int) : Tables × Bool :=
  let owned := holds statuses messageId leaseToken
  ({ db with outbound := updateWhere owned (fail · status lastError now) db.outbound },
    rowcount owned db.outbound ≠ 0)

def markUncertain (db : Tables) (messageId leaseToken lastError : String) (now : Int) :
    Tables × Bool :=
  markFailure [.sending] .uncertain db messageId leaseToken lastError now

def markDeadLetter (db : Tables) (messageId leaseToken lastError : String) (now : Int) :
    Tables × Bool :=
  markFailure [.leased, .sending] .deadLetter db messageId leaseToken lastError now

/-- Route a message to `retrying` or `dead_letter` by attempts and the maximum. -/
def markRetry (db : Tables) (messageId leaseToken : String) (runAfter : Int) (lastError : String)
    (now : Int) : Tables × Option OutboundStatus :=
  let owned := holds [.leased, .sending] messageId leaseToken
  match db.outbound.find? owned with
  | none => (db, none)
  | some row =>
    let newStatus := if row.maxAttempts ≤ row.attempts then OutboundStatus.deadLetter else .retrying
    let outbound := updateWhere owned
      (fun r => { fail r newStatus lastError now with runAfter := runAfter }) db.outbound
    ({ db with outbound := outbound },
      if rowcount owned db.outbound = 1 then some newStatus else none)

end Soveren.Outbound
