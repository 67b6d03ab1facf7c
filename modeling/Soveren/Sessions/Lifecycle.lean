import Soveren.Sessions.Store

/-! The lifecycle statements: the claim of a session for closing, the outcomes of a close, the
recovery of abandoned closes and the selection of idle sessions. -/
namespace Soveren.Sessions
open Soveren.Relational

structure CloseSessionResult where
  sessionId : String
  backendSessionId : Option String
  closed : Bool
  status : Option SessionStatus := none
  reason : Option String := none
  error : Option String := none
  cancelledMailboxCount : ℕ := 0
  deriving DecidableEq, Repr

/-- A claim for closing: the claimed row with the number of cancelled prompts, or the result of
the refused close. -/
abbrev CloseClaim := Except CloseSessionResult (SessionRow × ℕ)

/-- The numbers of queued and sending rows of a session. -/
def pendingMailboxCounts (t : List MailboxRow) (sessionId : String) : ℕ × ℕ :=
  (rowcount (fun m => m.sessionId = sessionId && m.status = .queued) t,
    rowcount (fun m => m.sessionId = sessionId && m.status = .sending) t)

/-- A close that is refused in the state of the session. -/
def refusal (row : SessionRow) (reason : String) : CloseSessionResult where
  sessionId := row.id
  backendSessionId := some row.backendSessionId
  closed := false
  status := some row.status
  reason := some reason

def notFound (sessionId : String) : CloseSessionResult where
  sessionId := sessionId
  backendSessionId := none
  closed := false
  reason := some "session not found"

/-- Why a session cannot be claimed for closing. -/
def closeRefusal (db : Tables) (force : Bool) (row : SessionRow) : Option String :=
  let (queuedCount, sendingCount) := pendingMailboxCounts db.mailbox row.id
  if row.status = .closed then some "session already closed"
  else if row.status = .closing then some "session already closing"
  else if sendingCount ≠ 0 then some "session has sending mailbox items"
  else if queuedCount ≠ 0 && !force then some "session has pending mailbox items"
  else if row.status ≠ .idle && row.status ≠ .failed then
    some ("session status " ++ Json.quote row.status.name ++ " is not closable")
  else none

def claimSessionForClose (db : Tables) (sessionId tenantId sourceId : String) (force : Bool)
    (now : Int) : Tables × CloseClaim :=
  match getSession db sessionId tenantId sourceId with
  | none => (db, .error (notFound sessionId))
  | some row => match closeRefusal db force row with
    | some reason => (db, .error (refusal row reason))
    | none =>
      let queued := fun m : MailboxRow => m.sessionId = sessionId && m.status = .queued
      let cancels := (pendingMailboxCounts db.mailbox sessionId).1 ≠ 0 && force
      let mailbox := if cancels then updateWhere queued (fun m =>
        { m with status := .cancelled, lastError := some "session closed forcefully"
                 updatedAt := now }) db.mailbox else db.mailbox
      let sessions := updateWhere (fun s => s.at sessionId tenantId sourceId && s.status = row.status)
        (·.put .closing none none now) db.sessions
      let claimed := sessions.find? (SessionRow.at sessionId tenantId sourceId)
      ({ db with mailbox := mailbox, sessions := sessions },
        .ok (claimed.getD row, if cancels then rowcount queued db.mailbox else 0))

/-- What the two outcome statements of a close write. -/
structure CloseOutcome where
  hex : String
  sessionId : String
  tenantId : String
  sourceId : String
  now : Int

def CloseOutcome.event (a : CloseOutcome) (payloadText marker : String) : EventArgs where
  hex := a.hex
  sessionId := a.sessionId
  tenantId := a.tenantId
  sourceId := a.sourceId
  direction := .control
  payloadText := payloadText
  marker := some (marker ++ ":" ++ toString a.now)
  now := a.now

def recordCloseFailure (db : Tables) (a : CloseOutcome) (error : String) : Except StoreError Tables :=
  recordSessionEvent
    (setSessionStatus db a.sessionId .failed a.tenantId a.sourceId none (some error) a.now)
    (a.event ("close failed: " ++ error) "session.lifecycle.close_failed")

def recordClosed (db : Tables) (a : CloseOutcome) (reason : String) : Except StoreError Tables :=
  recordSessionEvent (setSessionStatus db a.sessionId .closed a.tenantId a.sourceId none none a.now)
    (a.event reason "session.lifecycle.closed")

structure RecoverArgs where
  tenantId : String
  olderThanS : Int := 300
  limit : Int := 100
  now : Int
  /-- the drawn event ids, one for each recovered session -/
  hexes : ℕ → String

/-- `ORDER BY updated_at ASC, id ASC`. -/
def staleOrder (s t : SessionRow) : Prop :=
  s.updatedAt < t.updatedAt ∨ (s.updatedAt = t.updatedAt ∧ s.id ≤ t.id)

instance : DecidableRel staleOrder := fun _ _ => instDecidableOr

def uncertainClose : String := "session close outcome is uncertain after lifecycle recovery"

/-- The body of the recovery loop: mark one session failed, if it is still closing. -/
def recoverClosing (a : RecoverArgs) (db : Tables) (hex : String) (row : SessionRow) :
    Except StoreError (Tables × List String) :=
  let p := fun s : SessionRow => s.id = row.id && s.tenantId = a.tenantId && s.status = .closing
  if rowcount p db.sessions ≠ 1 then .ok (db, [])
  else
    let outcome : CloseOutcome := ⟨hex, row.id, a.tenantId, row.sourceId, a.now⟩
    let sessions := updateWhere p (·.put .failed none (some uncertainClose) a.now) db.sessions
    (recordSessionEvent { db with sessions := sessions }
      (outcome.event uncertainClose "session.lifecycle.close_uncertain")).map fun db => (db, [row.id])

def recoverClosings (a : RecoverArgs) : Tables → List (SessionRow × ℕ) →
    Except StoreError (Tables × List String)
  | db, [] => .ok (db, [])
  | db, (row, i) :: rows => do
    let (db, recovered) ← recoverClosing a db (a.hexes i) row
    let (db, others) ← recoverClosings a db rows
    .ok (db, recovered ++ others)

/-- Mark abandoned close operations failed with an explicitly uncertain outcome. -/
def recoverStaleClosingSessions (db : Tables) (a : RecoverArgs) :
    Except StoreError (Tables × List String) :=
  if a.olderThanS < 0 then .error (.valueError "older_than_s must be non-negative")
  else if a.limit < 1 then .error (.valueError "limit must be positive")
  else
    let rows := (selectOrdered (fun s => s.tenantId = a.tenantId && s.status = .closing &&
      s.updatedAt ≤ a.now - a.olderThanS) staleOrder db.sessions).take a.limit.toNat
    recoverClosings a db rows.zipIdx

structure SessionLifecyclePolicy where
  maxActiveSessionsPerSource : Option ℕ := none
  idleTtlS : Option Int := none
  deriving DecidableEq, Repr

structure CandidateArgs where
  tenantId : String
  policy : SessionLifecyclePolicy
  sourceId : Option String := none
  backendPrefix : Option String := none
  now : Int

/-- The tenant, backend and source condition of both candidate queries. -/
def CandidateArgs.inScope (a : CandidateArgs) (s : SessionRow) : Bool :=
  s.tenantId = a.tenantId && ownsBackend a.backendPrefix s.backend &&
    a.sourceId.all fun sourceId => s.sourceId = sourceId

def hasPendingMailbox (t : List MailboxRow) (s : SessionRow) : Bool :=
  t.any fun m => m.sessionId = s.id && (m.status = .queued || m.status = .sending)

/-- `COALESCE(last_used_at, updated_at, created_at)`. -/
def SessionRow.usedAt (s : SessionRow) : Int := s.lastUsedAt.getD s.updatedAt

/-- `last_used_at or updated_at or created_at`. -/
def SessionRow.sortedAt (s : SessionRow) : Int :=
  if s.lastUsedAt.getD 0 ≠ 0 then s.lastUsedAt.getD 0
  else if s.updatedAt ≠ 0 then s.updatedAt else s.createdAt

def usedOrder (s t : SessionRow) : Prop :=
  s.usedAt < t.usedAt ∨ (s.usedAt = t.usedAt ∧ s.createdAt ≤ t.createdAt)

/-- `ORDER BY source_id ASC, used DESC, created_at DESC`. -/
def recentOrder (s t : SessionRow) : Prop :=
  s.sourceId < t.sourceId ∨ (s.sourceId = t.sourceId ∧
    (t.usedAt < s.usedAt ∨ (s.usedAt = t.usedAt ∧ t.createdAt ≤ s.createdAt)))

def overflowOrder (s t : SessionRow) : Prop :=
  s.sourceId < t.sourceId ∨ (s.sourceId = t.sourceId ∧ s.sortedAt ≤ t.sortedAt)

instance : DecidableRel usedOrder := fun _ _ => instDecidableOr
instance : DecidableRel recentOrder := fun _ _ => instDecidableOr
instance : DecidableRel overflowOrder := fun _ _ => instDecidableOr

def idleTtlCandidates (db : Tables) (a : CandidateArgs) (cutoff : Int) : List SessionRow :=
  selectOrdered (fun s => a.inScope s && s.status = .idle && s.usedAt ≤ cutoff &&
    !(hasPendingMailbox db.mailbox s)) usedOrder db.sessions

def overflowCandidates (db : Tables) (a : CandidateArgs) (maxActive : ℕ) : List SessionRow :=
  let rows := selectOrdered (fun s => a.inScope s && s.status ≠ .closed) recentOrder db.sessions
  let sources := (rows.map (·.sourceId)).dedup
  let overflow := sources.flatMap fun sourceId =>
    (rows.filter fun s => s.sourceId = sourceId).drop maxActive
  (overflow.filter fun s => s.status = .idle && !(hasPendingMailbox db.mailbox s)).insertionSort
    overflowOrder

structure CloseCandidate where
  sessionId : String
  sourceId : String
  reason : String
  deriving DecidableEq, Repr

/-- The sessions to close with the first reason found for each. -/
def selectCloseCandidates (db : Tables) (a : CandidateArgs) : List CloseCandidate :=
  let idle : List CloseCandidate := match a.policy.idleTtlS with
    | none => []
    | some ttl => (idleTtlCandidates db a (a.now - ttl)).map fun s : SessionRow =>
        CloseCandidate.mk s.id s.sourceId
        ("idle session exceeded ttl of " ++ toString ttl ++ "s")
  let overflow : List CloseCandidate := match a.policy.maxActiveSessionsPerSource with
    | none => []
    | some maxActive => (overflowCandidates db a maxActive).map fun s : SessionRow =>
        CloseCandidate.mk s.id s.sourceId
          ("source exceeded active session limit of " ++ toString maxActive)
  idle ++ overflow.filter fun c => !(idle.any fun d => d.sessionId = c.sessionId)

end Soveren.Sessions
