import Mathlib.Data.List.Dedup
import Mathlib.Data.List.MinMax
import Soveren.Relational.Table
import Soveren.Relational.Text
import Soveren.Storage.Idempotency

/-! Runtime sessions, their mailboxes and the statements on both. The row id of the database is
the position in the list: rows are appended and never deleted. -/
namespace Soveren.Sessions
open Soveren.Relational

inductive SessionStatus where
  | starting | idle | busy | closing | closed | failed
  deriving DecidableEq, Repr

def SessionStatus.name : SessionStatus → String
  | .starting => "starting"
  | .idle => "idle"
  | .busy => "busy"
  | .closing => "closing"
  | .closed => "closed"
  | .failed => "failed"

structure SessionRow where
  id : String
  tenantId : String
  sourceId : String
  backend : String
  backendSessionId : String
  status : SessionStatus := .idle
  currentActionId : Option String := none
  lastUsedAt : Option Int := none
  lastError : Option String := none
  createdAt : Int
  updatedAt : Int
  deriving DecidableEq, Repr

inductive MailboxStatus where
  | queued | sending | sent | failed | cancelled
  deriving DecidableEq, Repr

structure MailboxRow where
  id : String
  sessionId : String
  tenantId : String
  sourceId : String
  sourceEventId : Option String
  actionId : Option String
  prompt : String
  status : MailboxStatus := .queued
  idempotencyKey : Option String
  result : Option Json := none
  lastError : Option String := none
  sentAt : Option Int := none
  acceptedAt : Option Int := none
  attempts : ℕ := 0
  maxAttempts : ℕ := 3
  runAfter : Int := 0
  backendReceipt : Option Json := none
  createdAt : Int
  updatedAt : Int
  deriving DecidableEq

inductive Direction where
  | input | output | control
  deriving DecidableEq, Repr

structure SessionEventRow where
  id : String
  sessionId : String
  actionId : Option String
  direction : Direction
  payloadText : String
  marker : Option String
  createdAt : Int
  deriving DecidableEq, Repr

structure Tables where
  sessions : List SessionRow := []
  mailbox : List MailboxRow := []
  events : List SessionEventRow := []

/-- `id = ? AND tenant_id = ? AND source_id = ?` on sessions. -/
def SessionRow.at (sessionId tenantId sourceId : String) (s : SessionRow) : Bool :=
  s.id = sessionId && s.tenantId = tenantId && s.sourceId = sourceId

/-- `id = ? AND tenant_id = ? AND source_id = ?` on mailbox rows. -/
def MailboxRow.at (mailboxId tenantId sourceId : String) (m : MailboxRow) : Bool :=
  m.id = mailboxId && m.tenantId = tenantId && m.sourceId = sourceId

/-- `session_id = ? AND tenant_id = ? AND source_id = ?`. -/
def MailboxRow.of (sessionId tenantId sourceId : String) (m : MailboxRow) : Bool :=
  m.sessionId = sessionId && m.tenantId = tenantId && m.sourceId = sourceId

/-- `? IS NULL OR substr(backend, 1, length(?)) = ?`. -/
def ownsBackend (backendPrefix : Option String) (backend : String) : Bool :=
  backendPrefix.all fun p => backend.toList.take p.toList.length = p.toList

def validateBackendPrefix (backendPrefix : Option String) : Except StoreError Unit :=
  if backendPrefix = some "" then
    .error (.valueError "backend_prefix must be a non-empty string or None")
  else .ok ()

/-- Insert a session; its id is drawn. -/
def insertSession (db : Tables) (row : SessionRow) : Except StoreError Tables :=
  if db.sessions.any fun s => s.id = row.id then .error .integrityError
  else .ok { db with sessions := db.sessions ++ [row] }

def getSession (db : Tables) (sessionId tenantId sourceId : String) : Option SessionRow :=
  db.sessions.find? (SessionRow.at sessionId tenantId sourceId)

/-- The columns that every status statement writes. -/
def SessionRow.put (status : SessionStatus) (currentActionId lastError : Option String) (now : Int)
    (s : SessionRow) : SessionRow :=
  { s with status := status, currentActionId := currentActionId, lastError := lastError
           updatedAt := now, lastUsedAt := some now }

def setSessionStatus (db : Tables) (sessionId : String) (status : SessionStatus)
    (tenantId sourceId : String) (currentActionId lastError : Option String) (now : Int) : Tables :=
  let sessions := updateWhere (SessionRow.at sessionId tenantId sourceId)
    (·.put status currentActionId lastError now) db.sessions
  { db with sessions := sessions }

/-- A session event; its id is drawn. -/
structure EventArgs where
  hex : String
  sessionId : String
  tenantId : String
  sourceId : String
  direction : Direction
  payloadText : String
  actionId : Option String := none
  marker : Option String := none
  now : Int

def EventArgs.row (a : EventArgs) : SessionEventRow where
  id := "rse_" ++ a.hex
  sessionId := a.sessionId
  actionId := a.actionId
  direction := a.direction
  payloadText := a.payloadText
  marker := a.marker
  createdAt := a.now

def recordSessionEvent (db : Tables) (a : EventArgs) : Except StoreError Tables :=
  if db.sessions.any (SessionRow.at a.sessionId a.tenantId a.sourceId) then
    if db.events.any fun e => e.id = a.row.id then .error .integrityError
    else .ok { db with events := db.events ++ [a.row] }
  else .error (.lookupError "runtime session was not found in the requested conversation")

structure PromptArgs where
  mailboxId : String
  sessionId : String
  tenantId : String
  sourceId : String
  prompt : String
  actionId : Option String := none
  sourceEventId : Option String := none
  idempotencyKey : Option String := none
  now : Int

def PromptArgs.row (a : PromptArgs) : MailboxRow where
  id := a.mailboxId
  sessionId := a.sessionId
  tenantId := a.tenantId
  sourceId := a.sourceId
  sourceEventId := a.sourceEventId
  actionId := a.actionId
  prompt := a.prompt
  idempotencyKey := a.idempotencyKey
  createdAt := a.now
  updatedAt := a.now

/-- The rows of the conversation with the action or the key of the prompt. -/
def PromptArgs.existingRows (a : PromptArgs) (t : List MailboxRow) : List MailboxRow :=
  let mine := fun m : MailboxRow => m.tenantId = a.tenantId && m.sourceId = a.sourceId
  let byAction := match a.actionId with
    | none => none
    | some actionId => t.find? fun m => mine m && m.actionId = some actionId
  let byKey := match a.idempotencyKey with
    | none => none
    | some key => t.find? fun m => mine m && m.idempotencyKey = some key
  byAction.toList ++ byKey.toList

/-- `idempotency_key or f"action:{action_id}"`. -/
def PromptArgs.conflictKey (a : PromptArgs) : String :=
  (a.idempotencyKey.bind Text.orNone).getD ("action:" ++ a.actionId.getD "None")

/-- Append a prompt to a session mailbox: the mailbox id, and whether it is new. -/
def enqueuePrompt (db : Tables) (a : PromptArgs) : Except StoreError (Tables × String × Bool) :=
  match a.existingRows db.mailbox with
  | existing :: rest => do
    requireIdempotentReplay
      ((existing :: rest).all (fun m => m.id = existing.id) && existing.sessionId = a.sessionId &&
        existing.prompt = a.prompt && existing.actionId = a.actionId &&
        existing.sourceEventId = a.sourceEventId)
      "session mailbox item" a.conflictKey existing.id
    .ok (db, existing.id, false)
  | [] => match getSession db a.sessionId a.tenantId a.sourceId with
    | none => .error (.runtimeError "runtime session not found")
    | some session =>
      if session.status ≠ .idle && session.status ≠ .busy then
        .error (.runtimeError ("runtime session status " ++ Json.quote session.status.name ++
          " does not accept mailbox prompts"))
      else if db.mailbox.any fun m => m.id = a.mailboxId then .error .integrityError
      else .ok ({ db with mailbox := db.mailbox ++ [a.row] }, a.mailboxId, true)

/-- A due row whose delivery the backend has accepted. -/
def MailboxRow.acceptedDue (now : Int) (m : MailboxRow) : Bool :=
  m.status = .sending && m.acceptedAt.isSome && m.runAfter ≤ now

/-- `NOT EXISTS` a row in delivery for the session. -/
def unblocked (t : List MailboxRow) (sessionId tenantId sourceId : String) : Bool :=
  !(t.any fun m => m.of sessionId tenantId sourceId && m.status = .sending)

structure ReadySession where
  sessionId : String
  sourceId : String
  deriving DecidableEq, Repr

/-- A group of due rows of one session with its sort columns. -/
structure ReadyGroup extends ReadySession where
  priority : ℕ
  oldest : Int
  oldestRow : ℕ

def readyOrder (g h : ReadyGroup) : Prop :=
  g.priority < h.priority ∨ (g.priority = h.priority ∧
    (g.oldest < h.oldest ∨ (g.oldest = h.oldest ∧ g.oldestRow ≤ h.oldestRow)))

instance : DecidableRel readyOrder := fun _ _ => instDecidableOr

/-- Whether a mailbox row makes its session ready. -/
def MailboxRow.ready (db : Tables) (tenantId : String) (backendPrefix : Option String) (now : Int)
    (m : MailboxRow) : Bool :=
  db.sessions.any fun s =>
    s.at m.sessionId m.tenantId m.sourceId && m.tenantId = tenantId &&
      ownsBackend backendPrefix s.backend &&
      (m.acceptedDue now || (m.status = .queued && m.runAfter ≤ now && s.status = .idle &&
        unblocked db.mailbox m.sessionId m.tenantId m.sourceId))

def readyGroup (rows : List (MailboxRow × ℕ)) (k : ReadySession) : ReadyGroup :=
  let members := rows.filter fun (m, _) => m.sessionId = k.sessionId && m.sourceId = k.sourceId
  { k with
    priority := ((members.map fun (m, _) =>
      if m.status = .sending && m.acceptedAt.isSome then 0 else 1).min?).getD 0
    oldest := ((members.map fun (m, _) => m.createdAt).min?).getD 0
    oldestRow := ((members.map Prod.snd).min?).getD 0 }

def readySessions (db : Tables) (tenantId : String) (limit : ℕ) (backendPrefix : Option String)
    (now : Int) : Except StoreError (List ReadySession) := do
  validateBackendPrefix backendPrefix
  let rows := db.mailbox.zipIdx.filter fun (m, _) => m.ready db tenantId backendPrefix now
  let keys := (rows.map fun (m, _) => ReadySession.mk m.sessionId m.sourceId).dedup
  .ok ((((keys.map (readyGroup rows)).insertionSort readyOrder).take limit).map (·.toReadySession))

/-- `ORDER BY accepted_at`. -/
def acceptedOrder (m n : MailboxRow) : Prop := m.acceptedAt.getD 0 ≤ n.acceptedAt.getD 0

/-- `ORDER BY created_at`. -/
def createdOrder (m n : MailboxRow) : Prop := m.createdAt ≤ n.createdAt

/-- `ORDER BY updated_at`. -/
def updatedOrder (m n : MailboxRow) : Prop := m.updatedAt ≤ n.updatedAt

instance : DecidableRel acceptedOrder := fun m n => Int.decLe (m.acceptedAt.getD 0) (n.acceptedAt.getD 0)
instance : DecidableRel createdOrder := fun m n => Int.decLe m.createdAt n.createdAt
instance : DecidableRel updatedOrder := fun m n => Int.decLe m.updatedAt n.updatedAt

/-- The oldest queued row of a session with no row in delivery. -/
def nextQueued (t : List MailboxRow) (sessionId tenantId sourceId : String) (now : Int) :
    Option MailboxRow :=
  (selectOrdered (fun m => m.of sessionId tenantId sourceId && m.status = .queued &&
    m.runAfter ≤ now && unblocked t sessionId tenantId sourceId) createdOrder t).head?

def MailboxRow.claim (now : Int) (m : MailboxRow) : MailboxRow :=
  { m with status := .sending, attempts := m.attempts + 1, updatedAt := now, lastError := none }

/-- Continue an accepted delivery, or take the next prompt of an idle session. -/
def claimNext (db : Tables) (sessionId tenantId sourceId : String) (now : Int) :
    Tables × Option MailboxRow :=
  match (selectOrdered (fun m => m.of sessionId tenantId sourceId && m.acceptedDue now)
      acceptedOrder db.mailbox).head? with
  | some accepted => (db, some accepted)
  | none =>
    if db.sessions.any fun s => s.at sessionId tenantId sourceId && s.status = .idle then
      match nextQueued db.mailbox sessionId tenantId sourceId now with
      | none => (db, none)
      | some item =>
        let mailbox := updateWhere (fun m => m.at item.id tenantId sourceId && m.status = .queued)
          (·.claim now) db.mailbox
        ({ db with mailbox := mailbox }, mailbox.find? (MailboxRow.at item.id tenantId sourceId))
    else (db, none)

/-- What the statements on one delivery address. -/
structure DeliveryRef where
  mailboxId : String
  sessionId : String
  tenantId : String
  sourceId : String
  deriving DecidableEq, Repr

def DeliveryRef.row (k : DeliveryRef) (m : MailboxRow) : Bool :=
  m.at k.mailboxId k.tenantId k.sourceId

/-- The row is in delivery. -/
def DeliveryRef.sending (k : DeliveryRef) (m : MailboxRow) : Bool := k.row m && m.status = .sending

/-- The row is in delivery and accepted. -/
def DeliveryRef.accepted (k : DeliveryRef) (m : MailboxRow) : Bool :=
  k.sending m && m.acceptedAt.isSome

def markAccepted (db : Tables) (mailboxId tenantId sourceId : String) (backendReceipt : Option Json)
    (now : Int) : Tables :=
  let mailbox := updateWhere
    (fun m => m.at mailboxId tenantId sourceId && m.status = .sending && m.acceptedAt.isNone)
    (fun m => { m with acceptedAt := some now, backendReceipt := some (backendReceipt.getD (.obj []))
                       runAfter := now, updatedAt := now }) db.mailbox
  { db with mailbox := mailbox }

/-- One transaction on a delivery: the rows of the mailbox, then the session of the delivery. -/
def settleDelivery (db : Tables) (k : DeliveryRef) (p : MailboxRow → Bool)
    (f : MailboxRow → MailboxRow) (missing : String) (g : SessionRow → SessionRow)
    (disappeared : String) : Except StoreError Tables :=
  if rowcount p db.mailbox ≠ 1 then .error (.runtimeError missing)
  else if rowcount (SessionRow.at k.sessionId k.tenantId k.sourceId) db.sessions ≠ 1 then
    .error (.runtimeError disappeared)
  else .ok { db with
    mailbox := updateWhere p f db.mailbox
    sessions := updateWhere (SessionRow.at k.sessionId k.tenantId k.sourceId) g db.sessions }

/-- Count a failed capture of an accepted delivery; true if the delivery is given up. -/
def deferAccepted (db : Tables) (k : DeliveryRef) (currentActionId : Option String)
    (lastError : String) (retryAfterS now : Int) : Except StoreError (Tables × Bool) :=
  match db.mailbox.find? k.accepted with
  | none => .ok (db, true)
  | some row =>
    let attempts := row.attempts + 1
    let terminal := decide (row.maxAttempts ≤ attempts)
    let clipped := Text.clip 500 lastError
    let mailbox := updateWhere k.accepted (fun m =>
      if terminal then { m with status := .failed, attempts := attempts, lastError := some clipped
                                updatedAt := now }
      else { m with attempts := attempts, runAfter := now + max 1 retryAfterS
                    lastError := some clipped, updatedAt := now }) db.mailbox
    let here := SessionRow.at k.sessionId k.tenantId k.sourceId
    let sessions := updateWhere here (·.put (if terminal then .failed else .busy)
      (if terminal then none else currentActionId) (some clipped) now) db.sessions
    if rowcount here db.sessions ≠ 1 then
      .error (.runtimeError "runtime session disappeared while deferring accepted delivery")
    else .ok ({ db with mailbox := mailbox, sessions := sessions }, terminal)

def deferPending (db : Tables) (k : DeliveryRef) (currentActionId : Option String)
    (lastError : String) (retryAfterS now : Int) : Except StoreError Tables :=
  settleDelivery db k k.accepted
    (fun m => { m with runAfter := now + max 1 retryAfterS, lastError := some (Text.clip 500 lastError)
                       updatedAt := now })
    "accepted mailbox delivery is no longer pending"
    (·.put .busy currentActionId (some (Text.clip 500 lastError)) now)
    "runtime session disappeared while deferring pending delivery"

def completeDelivery (db : Tables) (k : DeliveryRef) (result : Json) (sessionStatus : SessionStatus)
    (currentActionId : Option String) (now : Int) : Except StoreError Tables :=
  settleDelivery db k k.accepted
    (fun m => { m with status := .sent, result := some result, updatedAt := now, sentAt := some now })
    "accepted mailbox delivery is no longer completable"
    (·.put sessionStatus currentActionId none now)
    "runtime session disappeared while completing delivery"

def failDelivery (db : Tables) (k : DeliveryRef) (lastError : String) (now : Int) :
    Except StoreError Tables :=
  settleDelivery db k k.sending
    (fun m => { m with status := .failed, lastError := some (Text.clip 500 lastError)
                       updatedAt := now })
    "mailbox delivery is no longer fail-able"
    (·.put .failed none (some (Text.clip 500 lastError)) now)
    "runtime session disappeared while failing delivery"

def markFailed (db : Tables) (mailboxId tenantId sourceId lastError : String) (now : Int) : Tables :=
  let mailbox := updateWhere (MailboxRow.at mailboxId tenantId sourceId)
    (fun m => { m with status := .failed, lastError := some (Text.clip 500 lastError)
                       updatedAt := now }) db.mailbox
  { db with mailbox := mailbox }

/-- A row that was left in delivery without the backend's acceptance. -/
def MailboxRow.stale (db : Tables) (tenantId : String) (backendPrefix : Option String) (cutoff : Int)
    (m : MailboxRow) : Bool :=
  db.sessions.any fun s =>
    s.at m.sessionId m.tenantId m.sourceId && m.tenantId = tenantId && m.status = .sending &&
      ownsBackend backendPrefix s.backend && m.acceptedAt.isNone && m.updatedAt ≤ cutoff

def failStaleSending (db : Tables) (tenantId : String) (olderThanS : Int) (reason : String)
    (limit : ℕ) (backendPrefix : Option String) (now : Int) :
    Except StoreError (Tables × List MailboxRow) :=
  if olderThanS < 0 then .error (.valueError "older_than_s must be a non-negative integer")
  else do
    validateBackendPrefix backendPrefix
    let rows := (selectOrdered (·.stale db tenantId backendPrefix (now - olderThanS)) updatedOrder
      db.mailbox).take limit
    let ids := rows.map (·.id)
    let sessionIds := rows.map (·.sessionId)
    let clipped := Text.clip 500 reason
    let mailbox := updateWhere (fun m => m.tenantId = tenantId && ids.contains m.id &&
        m.status = .sending && m.acceptedAt.isNone)
      (fun m => { m with status := .failed, lastError := some clipped
                         result := some (.obj [("delivery", .str "uncertain")]), updatedAt := now })
      db.mailbox
    let sessions := updateWhere (fun s => s.tenantId = tenantId && sessionIds.contains s.id &&
        (s.status = .idle || s.status = .busy)) (·.put .failed none (some clipped) now) db.sessions
    .ok ({ db with mailbox := mailbox, sessions := sessions }, rows)

end Soveren.Sessions
