import Soveren.Relational.Process
import Soveren.Actions.Effects

/-! The worker's treatment of one claimed `ExecuteAction` event, as a program over the atomic
store calls, the clock and the two ends of the executor call. -/
namespace Soveren.Actions
open Soveren.Process Soveren.Queue

/-- The fields of a value that claims to be an execution result, before they are checked. -/
structure ReturnedResult where
  result : Json := .obj []
  status : String := "executed"
  error : Json := .null
  retryAfterS : Json := .null
  deriving DecidableEq

structure ActionExecutionResult where
  result : Json
  status : String
  error : Option String
  retryAfterS : Option ℕ
  deriving DecidableEq

/-- How an executor call ends. A returned `none` is a value of another type. -/
inductive ExecutionEnd where
  | returned (value : Option ReturnedResult)
  | notStarted (message : String)
  | raised (type message : String)
  deriving DecidableEq

def validateActionExecutionResult (value : Option ReturnedResult) :
    Except String ActionExecutionResult :=
  match value with
  | none => .error "TypeError: action executor must return ActionExecutionResult"
  | some v =>
    if !(["queued", "executed", "permanent_failure", "retryable_failure"].contains v.status) then
      .error ("ValueError: unsupported action result status: " ++ Json.quote v.status)
    else match v.result with
      | .obj fields =>
        let error : Except String (Option String) := match v.error with
          | .null => .ok none
          | .str s => .ok (some s)
          | _ => .error "TypeError: action result error must be a string or None"
        let retryAfterS : Except String (Option ℕ) := match v.retryAfterS with
          | .null => .ok none
          | .int (.ofNat n) => .ok (some n)
          | _ => .error
              "ValueError: action result retry_after_s must be a non-negative integer or None"
        do .ok ⟨.obj fields, v.status, ← error, ← retryAfterS⟩
      | _ => .error "TypeError: action result payload must be a dictionary"

/-- The atomic operations of a worker. -/
inductive Op where
  | time
  | getAction (k : ActionRef)
  | markExecuting (k : ActionRef)
  | markQueued (k : ActionRef) (result : Json)
  | markExecuted (k : ActionRef) (result : Json)
  | markFailed (k : ActionRef) (error : String)
  | markRetryable (k : ActionRef) (error : String)
  | markUncertain (k : ActionRef) (error : String)
  | executeStart (k : ActionRef) (action : ActionRow)
  | executeEnd
  | markDone
  | markRetry (runAfter : Int) (lastError : String)

def Res : Op → Type
  | .time => Int
  | .getAction _ => Option ActionRow
  | .markExecuting _ | .markQueued _ _ | .markExecuted _ _ | .markFailed _ _ | .markRetryable _ _
  | .markUncertain _ _ | .markDone => Bool
  | .executeStart _ _ => Unit
  | .executeEnd => ExecutionEnd
  | .markRetry _ _ => Option EventStatus

/-- A worker's program; an uncaught exception is its error result. -/
abbrev Program := Proc Op Res (Except String Unit)

namespace Call

def time : Proc Op Res Int := .call .time .ret

def getAction (k : ActionRef) : Proc Op Res (Option ActionRow) := .call (.getAction k) .ret

def markExecuting (k : ActionRef) : Proc Op Res Bool := .call (.markExecuting k) .ret

def markQueued (k : ActionRef) (result : Json) : Proc Op Res Bool :=
  .call (.markQueued k result) .ret

def markExecuted (k : ActionRef) (result : Json) : Proc Op Res Bool :=
  .call (.markExecuted k result) .ret

def markFailed (k : ActionRef) (error : String) : Proc Op Res Bool :=
  .call (.markFailed k error) .ret

def markRetryable (k : ActionRef) (error : String) : Proc Op Res Bool :=
  .call (.markRetryable k error) .ret

def markUncertain (k : ActionRef) (error : String) : Proc Op Res Bool :=
  .call (.markUncertain k error) .ret

/-- `executor.execute(action)`, from its start to its end. -/
def execute (k : ActionRef) (action : ActionRow) : Proc Op Res ExecutionEnd :=
  .call (.executeStart k action) fun _ => .call .executeEnd .ret

def markDone : Proc Op Res Bool := .call .markDone .ret

def markRetry (runAfter : Int) (lastError : String) : Proc Op Res (Option EventStatus) :=
  .call (.markRetry runAfter lastError) .ret

end Call

/-- The statuses the worker treats as settled. -/
def ActionStatus.isSettled (s : ActionStatus) : Bool :=
  [ActionStatus.executed, .failed, .denied, .cancelled, .uncertain].contains s

inductive ReferenceError where
  | caught (message : String)
  | uncaught (message : String)
  deriving DecidableEq

/-- The action that an event's payload names. -/
def actionReference (e : QueueEvent) : Except ReferenceError ActionRef :=
  match e.payload with
  | .obj _ => match e.payload.get? "action_id", e.payload.get? "source_id" with
    | none, _ => .error (.caught "'action_id'")
    | _, none => .error (.caught "'source_id'")
    | some actionId, some sourceId =>
      if actionId.toStr = "" || sourceId.toStr = "" then
        .error (.caught "action_id and source_id must be non-empty")
      else .ok ⟨actionId.toStr, e.tenantId, sourceId.toStr⟩
  | _ => .error (.uncaught "TypeError: event payload is not a dictionary")

def finish : Program := do
  let _ ← Call.markDone
  return .ok ()

/-- `mark_retry` with a delay from now. -/
def retryLater (delay : Int) (lastError : String) : Proc Op Res (Option EventStatus) := do
  let now ← Call.time
  Call.markRetry (now + delay) lastError

/-- After a refused transition: drop the event of a settled action, else raise. -/
def finishIfSettled (k : ActionRef) (refused : String) : Program := do
  match ← Call.getAction k with
  | none => finish
  | some current =>
    if current.status.isSettled then finish
    else return .error (refused ++ Json.quote current.status.name)

def retryAction (e : QueueEvent) (k : ActionRef) (error : String) (retryAfterS : Int) : Program := do
  if e.maxAttempts ≤ e.attempts then
    if ← Call.markFailed k error then
      let _ ← retryLater retryAfterS error
      return .ok ()
    else finishIfSettled k ("action " ++ k.id ++ " could not be failed from ")
  else
    if ← Call.markRetryable k error then
      match ← retryLater retryAfterS error with
      | some .deadLetter =>
        let _ ← Call.markFailed k error
        return .ok ()
      | _ => return .ok ()
    else finishIfSettled k ("action " ++ k.id ++ " could not be moved to retryable state from ")

def applyActionResult (e : QueueEvent) (k : ActionRef) (result : ActionExecutionResult)
    (retryBackoffS : Int) : Program := do
  if result.status = "queued" then
    let _ ← Call.markQueued k result.result
    finish
  else if result.status = "executed" then
    let _ ← Call.markExecuted k result.result
    finish
  else if result.status = "permanent_failure" then
    let _ ← Call.markFailed k
      ((result.error.bind Text.orNone).getD "action failed permanently")
    finish
  else if result.status = "retryable_failure" then
    retryAction e k ((result.error.bind Text.orNone).getD "action failed transiently")
      ((result.retryAfterS.map Int.ofNat).getD retryBackoffS)
  else
    let _ ← Call.markUncertain k
      ("unsupported action result status: " ++ Json.quote result.status)
    finish

/-- The part of the worker after a won `mark_executing`. -/
def executeAction (e : QueueEvent) (k : ActionRef) (retryBackoffS : Int) : Program := do
  let uncertain := fun error : String => (do
    let _ ← Call.markUncertain k error
    finish : Program)
  match ← Call.getAction k with
  | none => uncertain ("RuntimeError: action disappeared during execution: " ++ k.id)
  | some refreshed =>
    match ← Call.execute k refreshed with
    | .notStarted message =>
      retryAction e k ("ActionNotStartedError: " ++ message) retryBackoffS
    | .raised type message => uncertain (type ++ ": " ++ message)
    | .returned value => match validateActionExecutionResult value with
      | .error error => uncertain error
      | .ok result => applyActionResult e k result retryBackoffS

def exhaustedError : String :=
  "action execution lease expired after the maximum attempts before an external call started"

/-- The part of the worker after it has read the action. -/
def processAction (registered : String → Bool) (retryBackoffS : Int) (e : QueueEvent)
    (k : ActionRef) (action : ActionRow) : Program := do
  if action.status.isSettled then finish
  else if action.status = .executing then
    if 1 < e.attempts then
      let _ ← Call.markUncertain k "execution lease expired before a durable outcome was recorded"
      finish
    else finish
  else if action.status = .queued && action.lastError = none then
    -- The executor already handed this action to a downstream durable system.
    finish
  else if e.maxAttempts < e.attempts then
    if ← Call.markFailed k exhaustedError then
      let _ ← retryLater 0 exhaustedError
      return .ok ()
    else finishIfSettled k ("exhausted action " ++ k.id ++ " could not be failed from ")
  else if action.status ≠ .approved && action.status ≠ .queued then finish
  else if ← Call.markExecuting k then
    if registered action.kind then executeAction e k retryBackoffS
    else
      let _ ← Call.markFailed k ("KeyError: " ++ Json.quote
        ("no action executor registered for kind=" ++ Json.quote action.kind))
      finish
  else finish

/-- `process_action_queue_event`; `registered` says for which kinds an executor is registered. -/
def processActionQueueEvent (registered : String → Bool) (retryBackoffS : Int) (e : QueueEvent) :
    Program :=
  match actionReference e with
  | .error (.uncaught message) => return .error message
  | .error (.caught message) => do
    let _ ← retryLater retryBackoffS ("bad action event payload: " ++ message)
    return .ok ()
  | .ok k => do
    match ← Call.getAction k with
    | none => finish
    | some action => processAction registered retryBackoffS e k action

end Soveren.Actions
