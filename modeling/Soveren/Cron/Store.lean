import Soveren.Relational.Table
import Soveren.Queue.Fencing

/-! Scheduled jobs on the `cron_jobs` table. A due job is leased by a worker, which publishes a
`CronJobDue` event and advances the job in one transaction. -/
namespace Soveren.Cron
open Soveren.Relational

inductive JobStatus where
  | pending | leased | fired | cancelled | deadLetter
  deriving DecidableEq, Repr

structure CronJobRow where
  id : String
  tenantId : String
  sourceId : String
  name : String
  payload : Json
  status : JobStatus
  scheduleAnchorAt : Int
  runAt : Int
  rrule : Option String
  timezone : String
  leaseOwner : Option String
  leaseUntil : Option Int
  leaseToken : Option String
  attempts : ℕ
  maxAttempts : ℕ
  idempotencyKey : Option String
  idempotencyFingerprint : Option Json
  lastError : Option String
  createdAt : Int
  updatedAt : Int
  deriving DecidableEq

structure Tables where
  jobs : List CronJobRow := []
  events : List Queue.EventRow := []
  deriving DecidableEq

/-- The time zones and recurrence rules of the platform's calendar libraries: whether a zone
exists and has an instant, whether a rule can be searched from its anchor on, and the first
occurrence of a rule after an instant. Nothing is assumed of a search: it may raise anything, and it may
not return, as for a rule with `INTERVAL=0` that does not fall in the anchor's month. -/
structure Calendar where
  fromTimestamp : (timezone : String) → (instant : Int) → Except StoreError Unit
  probe : (rrule timezone : String) → (anchor : Int) → Except StoreError Unit
  after : (rrule timezone : String) → (anchor instant : Int) → Except StoreError (Option Int)

section Schedule

variable (calendar : Calendar)

def validateSchedule (runAt : Int) (rrule : Option String) (timezone : String) :
    Except StoreError Unit :=
  match calendar.fromTimestamp timezone runAt with
  | .error _ => .error (.valueError ("invalid timezone or run_at: " ++ Json.quote timezone))
  | .ok () => match rrule with
    | none => .ok ()
    | some body =>
      if Text.blank body then .error (.valueError "rrule must be non-empty when provided")
      else match calendar.probe body timezone runAt with
        | .error (.valueError _) => .error (.valueError "invalid rrule")
        | .error e => .error e
        | .ok () => .ok ()

def nextRunAt (scheduleAnchorAt : Int) (rrule : Option String) (timezone : String) (firedAt : Int) :
    Except StoreError (Option Int) :=
  match rrule with
  | none => .ok none
  | some body =>
    if body = "" then .ok none
    else do
      calendar.fromTimestamp timezone scheduleAnchorAt
      calendar.fromTimestamp timezone firedAt
      calendar.after body timezone scheduleAnchorAt firedAt

end Schedule

/-- The arguments of `insertJob`, with the clock and the id that it draws. -/
structure InsertArgs where
  tenantId : String
  sourceId : String
  name : String
  payload : Json.Object
  runAt : Int
  rrule : Option String := none
  timezone : String := "UTC"
  maxAttempts : Int := 5
  idempotencyKey : Option String := none
  now : Int
  jobHex : String

namespace InsertArgs

def fingerprint (a : InsertArgs) : Json :=
  idempotencyFingerprint (.obj [("max_attempts", .int a.maxAttempts), ("name", .str a.name),
    ("payload", .obj a.payload), ("rrule", .ofString? a.rrule), ("run_at", .int a.runAt),
    ("timezone", .str a.timezone)])

def row (a : InsertArgs) : CronJobRow where
  id := "cron_" ++ a.jobHex
  tenantId := a.tenantId
  sourceId := a.sourceId
  name := a.name
  payload := .obj a.payload
  status := .pending
  scheduleAnchorAt := a.runAt
  runAt := a.runAt
  rrule := a.rrule
  timezone := a.timezone
  leaseOwner := none
  leaseUntil := none
  leaseToken := none
  attempts := 0
  maxAttempts := a.maxAttempts.toNat
  idempotencyKey := a.idempotencyKey
  idempotencyFingerprint := some a.fingerprint
  lastError := none
  createdAt := a.now
  updatedAt := a.now

/-- The job with the idempotency key of the call. -/
def existing (a : InsertArgs) (t : List CronJobRow) : Option CronJobRow :=
  a.idempotencyKey.bind fun key => t.find? fun r =>
    r.tenantId = a.tenantId && r.sourceId = a.sourceId && r.idempotencyKey = some key

def requireCronReplay (a : InsertArgs) (row : CronJobRow) : Except StoreError Unit :=
  requireIdempotentReplay
    (match row.idempotencyFingerprint with
      | some f => f = a.fingerprint
      -- Rows stored before fingerprints existed.
      | none => row.name = a.name && storedJsonMatches row.payload (.obj a.payload) &&
          row.rrule = a.rrule && row.timezone = a.timezone && (row.maxAttempts : Int) = a.maxAttempts)
    "cron job" (a.idempotencyKey.getD "") row.id

end InsertArgs

def insertJob (calendar : Calendar) (t : List CronJobRow) (a : InsertArgs) :
    Except StoreError (List CronJobRow × String × Bool) := do
  if Text.blank a.tenantId || Text.blank a.sourceId then
    .error (.valueError "tenant_id and source_id must be non-empty")
  else
    validateSchedule calendar a.runAt a.rrule a.timezone
    if a.maxAttempts < 1 then .error (.valueError "max_attempts must be positive")
    else match a.existing t with
      | some row =>
        a.requireCronReplay row
        .ok (t, row.id, false)
      | none =>
        -- no job has the key, so only the id can violate a constraint
        if t.any (·.id = a.row.id) then .error .integrityError
        else .ok (t ++ [a.row], a.row.id, true)

/-- Clear the three lease columns. -/
def CronJobRow.unlease (r : CronJobRow) (status : JobStatus) (now : Int) : CronJobRow :=
  { r with status := status, leaseOwner := none, leaseUntil := none, leaseToken := none,
           updatedAt := now }

inductive CancellationOutcome where
  | cancelled | currentRunMayComplete | alreadyCancelled | alreadyFinished | notFound
  deriving DecidableEq, Repr

def hasActiveDispatchedEvent (events : List Queue.EventRow) (jobId tenantId : String) : Bool :=
  events.any fun e => e.tenantId = tenantId && e.correlationId = some jobId &&
    e.messageType = "CronJobDue" &&
    (e.status = .queued || e.status = .leased || e.status = .retrying)

/-- The condition `id = ? AND tenant_id = ? AND source_id = ?`. -/
def inConversation (jobId tenantId sourceId : String) (r : CronJobRow) : Bool :=
  r.id = jobId && r.tenantId = tenantId && r.sourceId = sourceId

/-- A job that still waits for a run. -/
def CronJobRow.isOpen (r : CronJobRow) : Bool := r.status = .pending || r.status = .leased

def cancelScheduledJob (db : Tables) (jobId tenantId sourceId : String) (now : Int) :
    Except StoreError (Tables × CancellationOutcome) :=
  if Text.blank tenantId then .error (.valueError "tenant_id must be a non-empty string")
  else if Text.blank sourceId then .error (.valueError "source_id must be a non-empty string")
  else if Text.blank jobId then .error (.valueError "job_id must be a non-empty string")
  else match db.jobs.find? (inConversation jobId tenantId sourceId) with
    | none => .ok (db, .notFound)
    | some row =>
      let activeEvent := hasActiveDispatchedEvent db.events jobId tenantId
      match row.status with
      | .cancelled => .ok (db, if row.leaseToken.isSome || activeEvent then .currentRunMayComplete
          else .alreadyCancelled)
      | .fired | .deadLetter =>
        .ok (db, if activeEvent then .currentRunMayComplete else .alreadyFinished)
      | .pending | .leased =>
        let jobs := updateWhere (fun r => inConversation jobId tenantId sourceId r && r.isOpen)
          (·.unlease .cancelled now) db.jobs
        .ok ({ db with jobs := jobs }, if activeEvent then .currentRunMayComplete else .cancelled)

/-- The arguments of a claim, with the number of parameters that the database takes in a statement. -/
structure ClaimArgs where
  limit : Int
  leaseOwner : String
  leaseSeconds : Int
  tenantId : Option String := none
  now : Int
  leaseToken : String
  maxVariables : ℕ := 32766

namespace ClaimArgs

/-- The clock and the limit can be bound. -/
def binds (a : ClaimArgs) : Bool := Fits a.now && Fits a.limit

def validate (a : ClaimArgs) : Except StoreError Unit :=
  if a.limit < 1 then .error (.valueError "limit must be positive")
  else if a.leaseSeconds < 1 then .error (.valueError "lease_seconds must be positive")
  else if a.tenantId.any Text.blank then
    .error (.valueError "tenant_id must be non-empty when provided")
  else .ok ()

def inScope (a : ClaimArgs) (r : CronJobRow) : Bool := a.tenantId.all fun t => r.tenantId = t

/-- `status = 'leased' AND lease_until <= now`. -/
def isLapsed (a : ClaimArgs) (r : CronJobRow) : Bool :=
  r.status = .leased && r.leaseUntil.any fun u => u ≤ a.now

/-- A lapsed lease of a job without attempts left. -/
def isExhausted (a : ClaimArgs) (r : CronJobRow) : Bool :=
  a.isLapsed r && r.maxAttempts ≤ r.attempts && a.inScope r

def swept (a : ClaimArgs) (t : List CronJobRow) : List CronJobRow :=
  updateWhere a.isExhausted (fun r =>
    { r.unlease .deadLetter a.now with
      lastError := some "cron lease expired after the maximum number of attempts" }) t

/-- A pending job, or one whose lease has lapsed with attempts left. -/
def isClaimable (a : ClaimArgs) (r : CronJobRow) : Bool :=
  r.status = .pending || (a.isLapsed r && r.attempts < r.maxAttempts)

def isCandidate (a : ClaimArgs) (r : CronJobRow) : Bool :=
  r.runAt ≤ a.now && a.isClaimable r && a.inScope r

/-- The order of due jobs: due time, creation time, insertion. -/
def dueOrder (r s : CronJobRow) : Prop :=
  r.runAt < s.runAt ∨ (r.runAt = s.runAt ∧ r.createdAt ≤ s.createdAt)

instance : DecidableRel dueOrder := fun _ _ => instDecidableOr

def lease (a : ClaimArgs) (r : CronJobRow) : CronJobRow :=
  { r with status := .leased, leaseOwner := some a.leaseOwner,
           leaseUntil := some (a.now + a.leaseSeconds), leaseToken := some a.leaseToken,
           attempts := r.attempts + 1, updatedAt := a.now }

/-- Lease one selected job, or bury it if its schedule is invalid. -/
def claimRow (a : ClaimArgs) (calendar : Calendar) (t : List CronJobRow) (ids : List String)
    (row : CronJobRow) : Except StoreError (List CronJobRow × List String) :=
  match validateSchedule calendar row.scheduleAnchorAt row.rrule row.timezone with
  | .error (.valueError message) =>
    .ok (updateWhere (·.id = row.id) (fun r =>
      { r.unlease .deadLetter a.now with lastError := some ("invalid cron schedule: " ++ message) }) t, ids)
  | .error e => .error e
  | .ok () =>
    let claims := fun r : CronJobRow => r.id = row.id && a.isClaimable r
    if ¬ Fits (a.now + a.leaseSeconds) then .error bindingError
    else .ok (updateWhere claims a.lease t, if rowcount claims t = 1 then ids ++ [row.id] else ids)

def claimRows (a : ClaimArgs) (calendar : Calendar) (t : List CronJobRow) (ids : List String) :
    List CronJobRow → Except StoreError (List CronJobRow × List String)
  | [] => .ok (t, ids)
  | row :: rows => do
    let (t', ids') ← a.claimRow calendar t ids row
    a.claimRows calendar t' ids' rows

/-- The rounds of a claim: each takes as many candidates as the limit leaves. A candidate is
leased or buried in its round, so there are never more rounds than candidates. -/
def rounds (a : ClaimArgs) (calendar : Calendar) :
    ℕ → List CronJobRow → List String → Except StoreError (List CronJobRow × List String)
  | 0, t, ids => .ok (t, ids)
  | n + 1, t, ids =>
    if a.limit ≤ ids.length then .ok (t, ids)
    else match (selectOrdered a.isCandidate dueOrder t).take (a.limit - ids.length).toNat with
      | [] => .ok (t, ids)
      | rows => do
        let (t', ids') ← a.claimRows calendar t ids rows
        a.rounds calendar n t' ids'

/-- `SELECT * FROM cron_jobs WHERE id IN (?, …, ?)`: one parameter for each leased job. -/
def readBack (a : ClaimArgs) (t : List CronJobRow) (ids : List String) :
    Except StoreError (List CronJobRow × List CronJobRow) :=
  if a.maxVariables < ids.length then .error (.operationalError "too many SQL variables")
  else .ok (t, selectOrdered (fun r => ids.contains r.id) dueOrder t)

theorem readBack_ok {a : ClaimArgs} {t : List CronJobRow} {ids : List String}
    {result : List CronJobRow × List CronJobRow} (h : a.readBack t ids = .ok result) :
    ids.length ≤ a.maxVariables ∧ result = (t, selectOrdered (fun r => ids.contains r.id) dueOrder t) := by
  unfold readBack at h
  split at h
  · cases h
  · rename_i hfew
    exact ⟨not_lt.mp hfew, (Except.ok.inj h).symm⟩

end ClaimArgs

/-- Lease due jobs. -/
def claimDueJobs (calendar : Calendar) (t : List CronJobRow) (a : ClaimArgs) :
    Except StoreError (List CronJobRow × List CronJobRow) := do
  a.validate
  if !a.binds then .error bindingError
  else
    let (t', ids) ← a.rounds calendar (t.length + 1) (a.swept t) []
    a.readBack t' ids

/-- The condition `id = ? AND status = 'leased' AND lease_token = ?`. -/
def holds (jobId leaseToken : String) (r : CronJobRow) : Bool :=
  r.id = jobId && r.status = .leased && r.leaseToken = some leaseToken

/-- The holder's lease has not lapsed. -/
def holdsAt (jobId leaseToken : String) (now : Int) (r : CronJobRow) : Bool :=
  holds jobId leaseToken r && r.leaseUntil.any fun u => now < u

def renewLease (t : List CronJobRow) (jobId leaseToken : String) (leaseSeconds now : Int) :
    Except StoreError (List CronJobRow × Bool) :=
  if leaseSeconds < 1 then .error (.valueError "lease_seconds must be positive")
  else .ok (updateWhere (holdsAt jobId leaseToken now)
      (fun r => { r with leaseUntil := some (now + leaseSeconds), updatedAt := now }) t,
    rowcount (holdsAt jobId leaseToken now) t ≠ 0)

/-- The idempotency key of the event of one run. -/
def cronKey (jobId : String) (runAt : Int) : String := "cron:" ++ jobId ++ ":" ++ toString runAt

/-- The event of a due job. -/
def dueEvent (row : CronJobRow) (recipient eventId : String) (firedAt : Int) : Queue.EnqueueArgs where
  eventId := eventId
  tenantId := row.tenantId
  recipient := recipient
  messageType := "CronJobDue"
  payload := .obj [("cron_job_id", .str row.id), ("name", .str row.name), ("payload", row.payload),
    ("run_at", .int row.runAt), ("source_id", .str row.sourceId)]
  idempotencyKey := cronKey row.id row.runAt
  correlationId := some row.id
  now := firedAt

/-- The job after its run: fired, or pending for the following run. -/
def advanced (followingRunAt : Option Int) (firedAt : Int) (r : CronJobRow) : CronJobRow :=
  match followingRunAt with
  | none => r.unlease .fired firedAt
  | some next => { r.unlease .pending firedAt with runAt := next, attempts := 0 }

def advanceCompletedJob (calendar : Calendar) (t : List CronJobRow) (row : CronJobRow)
    (jobId leaseToken : String) (firedAt : Int) : Except StoreError (List CronJobRow × Bool) := do
  let followingRunAt ← nextRunAt calendar row.scheduleAnchorAt row.rrule row.timezone firedAt
  .ok (updateWhere (holds jobId leaseToken) (advanced followingRunAt firedAt) t,
    rowcount (holds jobId leaseToken) t = 1)

def dispatchDueEvent (calendar : Calendar) (db : Tables) (jobId leaseToken recipient eventId : String)
    (firedAt : Int) : Except StoreError (Tables × Bool) :=
  if Text.blank recipient then .error (.valueError "recipient must be a non-empty string")
  else match db.jobs.find? (holdsAt jobId leaseToken firedAt) with
    | none => .ok (db, false)
    | some row => do
      let (events, _) ← Queue.enqueue db.events (dueEvent row recipient eventId firedAt)
      let (jobs, updated) ← advanceCompletedJob calendar db.jobs row jobId leaseToken firedAt
      if updated then .ok (⟨jobs, events⟩, true)
      else .error (.runtimeError "cron lease changed during atomic event dispatch")

end Soveren.Cron
