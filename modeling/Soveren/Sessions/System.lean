import Soveren.Relational.Run
import Soveren.Sessions.Worker

/-! Any number of mailbox workers and lifecycle calls on one database, advanced one transaction
or backend call at a time. The log is an auxiliary variable: it records sent prompts, claims for
closing and their ends, and no program reads it. -/
namespace Soveren.Sessions
open Soveren.Relational Soveren.Process Soveren.Run

/-- What an operation takes from outside: the clock, a drawn id and the backend's answers. A
backend value of the wrong type answers with the text of the `TypeError` it causes. -/
structure Env where
  now : Int
  hex : String := ""
  send : Except String (Option SendReceipt) := .ok none
  capture : Except String CaptureResult := .ok ⟨"", false⟩
  abort : Except String Unit := .ok ()
  close : Except CloseFault Unit := .ok ()

/-- The state after a store call and its result; a call that raises is rolled back. -/
def keepOnError {α : Type} (db : Tables) (r : Except StoreError (Tables × α)) :
    Tables × Except StoreError α :=
  match r with
  | .ok (db', a) => (db', .ok a)
  | .error e => (db, .error e)

def done (r : Except StoreError Tables) : Except StoreError (Tables × Unit) :=
  r.map fun db => (db, ())

def staleReason : String := "session mailbox item was left in sending after worker interruption"

def performOp (db : Tables) (env : Env) : (o : Op) → Tables × Res o
  | .time => (db, env.now)
  | .failStaleSending tenantId olderThanS backendPrefix =>
    keepOnError db (failStaleSending db tenantId olderThanS staleReason batchSize backendPrefix env.now)
  | .readySessions tenantId backendPrefix =>
    (db, readySessions db tenantId batchSize backendPrefix env.now)
  | .getSession sessionId tenantId sourceId => (db, getSession db sessionId tenantId sourceId)
  | .claimNext sessionId tenantId sourceId => claimNext db sessionId tenantId sourceId env.now
  | .markFailed item lastError =>
    (markFailed db item.id item.tenantId item.sourceId lastError env.now, ())
  | .setBusy session item =>
    (setSessionStatus db session.id .busy item.tenantId item.sourceId item.actionId none env.now, ())
  | .send _ _ => (db, env.send)
  | .markAccepted item backendReceipt =>
    (markAccepted db item.id item.tenantId item.sourceId backendReceipt env.now, ())
  | .recordEvent session item direction payloadText marker =>
    keepOnError db (done (recordSessionEvent db ⟨env.hex, session.id, item.tenantId, item.sourceId,
      direction, payloadText, item.actionId, some marker, env.now⟩))
  | .capture _ _ => (db, env.capture)
  | .abortDelivery _ _ => (db, env.abort)
  | .deferAccepted k currentActionId lastError =>
    keepOnError db (deferAccepted db k currentActionId lastError captureRetryAfterS env.now)
  | .deferPending k currentActionId lastError =>
    keepOnError db (done (deferPending db k currentActionId lastError captureRetryAfterS env.now))
  | .completeDelivery k result =>
    keepOnError db (done (completeDelivery db k result .idle none env.now))
  | .failDelivery k lastError => keepOnError db (done (failDelivery db k lastError env.now))
  | .claimForClose sessionId tenantId sourceId force now =>
    claimSessionForClose db sessionId tenantId sourceId force now
  | .closeBackend _ => (db, env.close)
  | .recordCloseFailure sessionId tenantId sourceId error now =>
    keepOnError db (done (recordCloseFailure db ⟨env.hex, sessionId, tenantId, sourceId, now⟩ error))
  | .recordClosed sessionId tenantId sourceId reason now =>
    keepOnError db (done (recordClosed db ⟨env.hex, sessionId, tenantId, sourceId, now⟩ reason))
  | .selectCloseCandidates a => (db, selectCloseCandidates db a)

/-- An entry of the log; runs are named by their position. -/
inductive Entry where
  | sent (mailboxId : String)
  | claimed (run : ℕ) (sessionId : String)
  | closed (run : ℕ) (sessionId : String)
  | closeFailed (run : ℕ) (sessionId : String)
  | recovered (sessionId : String)
  deriving DecidableEq, Repr

/-- What an operation of run `i` adds to the log. -/
def entries (i : ℕ) : (o : Op) → Res o → List Entry
  | .send _ item, _ => [.sent item.id]
  | .claimForClose sessionId _ _ _ _, r => match (r : CloseClaim) with
    | .ok _ => [.claimed i sessionId]
    | .error _ => []
  | .recordClosed sessionId _ _ _ _, r => match (r : Except StoreError Unit) with
    | .ok _ => [.closed i sessionId]
    | .error _ => []
  | .recordCloseFailure sessionId _ _ _ _, r => match (r : Except StoreError Unit) with
    | .ok _ => [.closeFailed i sessionId]
    | .error _ => []
  | _, _ => []

structure System where
  tables : Tables := {}
  runs : List (Program Unit) := []
  log : List Entry := []

inductive Label where
  | insertSession (row : SessionRow)
  | enqueuePrompt (a : PromptArgs)
  | drain (c : Config)
  | close (backends : String → Option SessionBackend) (a : CloseArgs)
  | closeIdle (backends : String → Option SessionBackend) (a : CloseIdleArgs)
  | recover (a : RecoverArgs)
  | advance (run : ℕ) (env : Env)

/-- Advance run `i` by its next operation. -/
def advance (s : System) (i : ℕ) (env : Env) : Option System :=
  match s.runs[i]? with
  | none => none
  | some program => match program with
    | .ret _ => none
    | .call o k =>
      let (db, r) := performOp s.tables env o
      some { tables := db, runs := s.runs.set i (k r), log := s.log ++ entries i o r }

/-- Start a run; what it returns is not used. -/
def System.start {α : Type} (s : System) (program : Program α) : System :=
  { s with runs := s.runs ++ [program >>= fun _ => return ()] }

def step (s : System) : Label → Option System
  | .insertSession row => match insertSession s.tables row with
    | .ok db => some { s with tables := db }
    | .error _ => some s
  | .enqueuePrompt a => match enqueuePrompt s.tables a with
    | .ok (db, _) => some { s with tables := db }
    | .error _ => some s
  | .drain c => some (s.start (drainStoreOnce c))
  | .close backends a => some (s.start (closeSession backends a))
  | .closeIdle backends a => some (s.start (closeIdleSessions backends a))
  | .recover a => match recoverStaleClosingSessions s.tables a with
    | .ok (db, ids) => some { s with tables := db, log := s.log ++ ids.map .recovered }
    | .error _ => some s
  | .advance i env => advance s i env

end Soveren.Sessions
