import Soveren.Relational.Process
import Soveren.Relational.Run
import Soveren.Conversation.Calls

/-! The outbound worker's treatment of one claimed message, as a program over its store calls
and the two ends of the send, and the system of any number of such runs. A run's phase and the
log are auxiliary: no program and no store call reads them. -/
namespace Soveren.Outbound
open Soveren.Process Soveren.Conversation Soveren.Reconciliation

/-- A claimed message as the sender gets it. -/
structure OutboundMessage where
  id : String
  tenantId : String
  sourceId : String
  channel : String
  destinationId : String
  text : String
  leaseToken : String
  attempts : ℕ
  maxAttempts : ℕ
  payload : Json
  correlationId : Option String
  orderingKey : Option String
  orderingPosition : Option Int
  taskReference : Option OutboundTaskReference
  replyToMessageId : Option Int
  messageThreadId : Option Int
  deriving DecidableEq

/-- `row_to_message`; a claimed row has a lease token. -/
def rowToMessage (r : OutboundRow) : OutboundMessage where
  id := r.id
  tenantId := r.tenantId
  sourceId := r.sourceId
  channel := r.channel
  destinationId := r.destinationId
  text := r.text
  leaseToken := r.leaseToken.getD ""
  attempts := r.attempts
  maxAttempts := r.maxAttempts
  payload := r.payload
  correlationId := r.correlationId
  orderingKey := r.orderingKey
  orderingPosition := r.orderingPosition
  taskReference := r.taskReference
  replyToMessageId := r.replyToMessageId
  messageThreadId := r.messageThreadId

/-- The fields of a value that claims to be a send result, before they are checked. -/
structure ReturnedSend where
  metadata : Json := .obj []
  status : String := "sent"
  error : Json := .null
  retryAfterS : Json := .null
  deriving DecidableEq

structure SendResult where
  metadata : Json
  status : String
  error : Option String
  retryAfterS : Option ℕ
  deriving DecidableEq

/-- How a send ends. A returned `none` is a value of another type. -/
inductive SendEnd where
  | returned (value : Option ReturnedSend)
  /-- `SendNotStartedError` or a subclass of it -/
  | notStarted (type message : String)
  | raised (type message : String)
  deriving DecidableEq

def validateSendResult (value : Option ReturnedSend) : Except String SendResult :=
  match value with
  | none => .error "TypeError: channel sender must return SendResult"
  | some v =>
    if !(["sent", "retryable_failure", "permanent_failure"].contains v.status) then
      .error ("ValueError: unsupported outbound send result status: " ++ Json.quote v.status)
    else match v.metadata with
      | .obj fields =>
        let error : Except String (Option String) := match v.error with
          | .null => .ok none
          | .str s => .ok (some s)
          | _ => .error "TypeError: outbound send result error must be a string or None"
        let retryAfterS : Except String (Option ℕ) := match v.retryAfterS with
          | .null => .ok none
          | .int (.ofNat n) => .ok (some n)
          | _ => .error
              "ValueError: outbound send result retry_after_s must be a non-negative integer or None"
        do .ok ⟨.obj fields, v.status, ← error, ← retryAfterS⟩
      | _ => .error "TypeError: outbound send result metadata must be a dictionary"

/-- The send ended in `SendNotStartedError` or in a retryable failure. -/
def SendEnd.isRetryable : SendEnd → Bool
  | .notStarted _ _ => true
  | .raised _ _ => false
  | .returned value => match validateSendResult value with
    | .error _ => false
    | .ok result => result.status = "retryable_failure"

/-- The atomic operations of a worker on its message. -/
inductive Op where
  | time
  | markSending
  | sendStart (message : OutboundMessage)
  | sendEnd
  | markSent (result : Json)
  | markRetry (runAfter : Int) (lastError : String)
  | markDeadLetter (lastError : String)
  | markUncertain (lastError : String)

def Res : Op → Type
  | .time => Int
  | .markSending | .markDeadLetter _ | .markUncertain _ => Bool
  | .sendStart _ => Unit
  | .sendEnd => SendEnd
  | .markSent _ => Except StoreError Bool
  | .markRetry _ _ => Option OutboundStatus

abbrev Program := Proc Op Res Unit

namespace Call

def time : Proc Op Res Int := .call .time .ret

def markSending : Proc Op Res Bool := .call .markSending .ret

/-- `sender.send(message)`, from its start to its end. -/
def send (message : OutboundMessage) : Proc Op Res SendEnd :=
  .call (.sendStart message) fun _ => .call .sendEnd .ret

def markSent (result : Json) : Proc Op Res (Except StoreError Bool) := .call (.markSent result) .ret

def markRetry (runAfter : Int) (lastError : String) : Proc Op Res (Option OutboundStatus) :=
  .call (.markRetry runAfter lastError) .ret

def markDeadLetter (lastError : String) : Proc Op Res Bool := .call (.markDeadLetter lastError) .ret

def markUncertain (lastError : String) : Proc Op Res Bool := .call (.markUncertain lastError) .ret

end Call

/-- `mark_retry` with a delay from now. -/
def retryLater (delay : Int) (lastError : String) : Proc Op Res (Option OutboundStatus) := do
  let now ← Call.time
  Call.markRetry (now + delay) lastError

/-- `_apply_send_result`; an exception is its error result. -/
def applySendResult (result : SendResult) (retryBackoffS : Int) :
    Proc Op Res (Except String Bool) := do
  if result.status = "sent" then
    match ← Call.markSent result.metadata with
    | .ok marked => return .ok marked
    | .error e => return .error e.text
  else if result.status = "retryable_failure" then
    let status ← retryLater ((result.retryAfterS.map Int.ofNat).getD retryBackoffS)
      ((result.error.bind Text.orNone).getD "outbound send failed transiently")
    return .ok status.isSome
  else if result.status = "permanent_failure" then
    let marked ← Call.markDeadLetter
      ((result.error.bind Text.orNone).getD "outbound send failed permanently")
    return .ok marked
  else
    let error := "ValueError: unsupported outbound send result status: " ++ Json.quote result.status
    return .error error

def uncertain (error : String) : Program := do
  let _ ← Call.markUncertain error
  return ()

/-- The part of the worker after the send. -/
def afterSend (retryBackoffS : Int) : SendEnd → Program
  | .notStarted type message => do
    let _ ← retryLater retryBackoffS (type ++ ": " ++ message)
    return ()
  | .raised type message => uncertain (type ++ ": " ++ message)
  | .returned value => match validateSendResult value with
    | .error error => uncertain error
    | .ok result => do
      match ← applySendResult result retryBackoffS with
      | .ok _ => return ()
      | .error error => uncertain error

/-- `_send_message`. -/
def sendMessage (message : OutboundMessage) (retryBackoffS : Int) : Program := do
  if ← Call.markSending then
    let ends ← Call.send message
    afterSend retryBackoffS ends
  else return ()

/-- An outcome that a run has recorded. -/
inductive Outcome where
  | sent | retried | deadLetter | uncertain
  deriving DecidableEq, Repr

/-- How far a run has come. -/
inductive Phase where
  | start
  | refused
  /-- won `mark_sending` -/
  | admitted
  | calling
  | ended (o : SendEnd)
  | recorded (o : SendEnd) (v : Outcome)
  deriving DecidableEq

/-- The phase after `mark_sending`. -/
def Phase.ifAdmitted (moved : Bool) : Phase := if moved then .admitted else .refused

/-- The phase after an attempt to record an outcome. -/
def Phase.record (φ : Phase) (v : Outcome) (moved : Bool) : Phase :=
  match φ with
  | .ended o => if moved then .recorded o v else .ended o
  | _ => φ

/-- Whether `mark_sent` moved the message; it does not when it raises. -/
def marked : Except StoreError Bool → Bool
  | .ok b => b
  | .error _ => false

/-- The order in which a run performs its operations. -/
def protocol : Protocol Op Res where
  Phase := Phase
  allowed φ o := match o with
    | .time => True
    | .markSending => φ = .start
    | .sendStart _ => φ = .admitted
    | .sendEnd => φ = .calling
    | .markSent _ | .markDeadLetter _ | .markUncertain _ => ∃ x, φ = .ended x
    | .markRetry _ _ => ∃ x : SendEnd, φ = .ended x ∧ x.isRetryable = true
  next φ o r := match o with
    | .time => φ
    | .markSending => Phase.ifAdmitted r
    | .sendStart _ => .calling
    | .sendEnd => .ended r
    | .markSent _ => φ.record .sent (marked r)
    | .markRetry _ _ => φ.record .retried (Option.isSome r)
    | .markDeadLetter _ => φ.record .deadLetter r
    | .markUncertain _ => φ.record .uncertain r

section Follows

theorem retryLater_follows {o : SendEnd} (h : o.isRetryable = true) (delay : Int)
    (lastError : String) : Follows protocol (.ended o) (retryLater delay lastError) :=
  ⟨trivial, fun _ => ⟨⟨o, rfl, h⟩, fun _ => trivial⟩⟩

theorem uncertain_follows (o : SendEnd) (error : String) :
    Follows protocol (.ended o) (uncertain error) := ⟨⟨o, rfl⟩, fun _ => trivial⟩

theorem afterSend_follows (retryBackoffS : Int) (o : SendEnd) :
    Follows protocol (.ended o) (afterSend retryBackoffS o) := by
  cases o with
  | notStarted type message =>
    exact follows_bind (retryLater_follows rfl _ _) fun _ _ => trivial
  | raised type message => exact uncertain_follows _ _
  | returned value =>
    simp only [afterSend]
    cases hv : validateSendResult value with
    | error error => exact uncertain_follows _ _
    | ok result =>
      dsimp only
      unfold applySendResult
      by_cases h1 : result.status = "sent"
      · rw [if_pos h1]
        refine ⟨⟨_, rfl⟩, fun r => ?_⟩
        cases (r : Except StoreError Bool) with
        | ok b => trivial
        | error e => exact uncertain_follows _ _
      rw [if_neg h1]
      by_cases h2 : result.status = "retryable_failure"
      · rw [if_pos h2]
        have hretry : SendEnd.isRetryable (.returned value) = true := by
          simp [SendEnd.isRetryable, hv, h2]
        exact ⟨trivial, fun _ => ⟨⟨_, rfl, hretry⟩, fun _ => trivial⟩⟩
      rw [if_neg h2]
      by_cases h3 : result.status = "permanent_failure"
      · rw [if_pos h3]
        exact ⟨⟨_, rfl⟩, fun _ => trivial⟩
      · rw [if_neg h3]
        exact uncertain_follows _ _

/-- Every run keeps to the protocol. -/
theorem sendMessage_follows (message : OutboundMessage) (retryBackoffS : Int) :
    Follows protocol .start (sendMessage message retryBackoffS) := by
  refine ⟨rfl, fun moved => ?_⟩
  cases (moved : Bool) with
  | false => trivial
  | true => exact ⟨rfl, fun _ => ⟨rfl, fun o => afterSend_follows retryBackoffS o⟩⟩

end Follows

structure Run where
  message : OutboundMessage
  phase : Phase
  program : Program

/-- What happened to a message, in order; a run is named by its number. -/
inductive Entry where
  | claimed (m : String)
  | admitted (m : String) (run : ℕ)
  | started (m : String) (run : ℕ)
  | ended (m : String) (run : ℕ) (o : SendEnd)
  | recorded (m : String) (run : ℕ) (v : Outcome)
  /-- an applied `not_sent` reconciliation -/
  | notSent (m : String)
  deriving DecidableEq

structure System where
  tables : Tables := {}
  runs : List Run := []
  log : List Entry := []

/-- One operation of a run at clock `now`; a send ends as `ends`, and `historyHex` is drawn for
the history row of a confirmed send. -/
def performOp (db : Tables) (message : OutboundMessage) (now : Int) (ends : SendEnd)
    (historyHex : String) : (o : Op) → Tables × Res o
  | .time => (db, now)
  | .markSending => markSending db message.id message.leaseToken now
  | .sendStart _ => (db, ())
  | .sendEnd => (db, ends)
  | .markSent result =>
    match markSent db message.id message.leaseToken result historyHex now with
    | .ok (db', b) => (db', .ok b)
    | .error e => (db, .error e)
  | .markRetry runAfter lastError =>
    markRetry db message.id message.leaseToken runAfter lastError now
  | .markDeadLetter lastError => markDeadLetter db message.id message.leaseToken lastError now
  | .markUncertain lastError => markUncertain db message.id message.leaseToken lastError now

def Entry.ifAdmitted (moved : Bool) (m : String) (i : ℕ) : List Entry :=
  if moved then [.admitted m i] else []

def Entry.ifMoved (moved : Bool) (m : String) (i : ℕ) (v : Outcome) : List Entry :=
  if moved then [.recorded m i v] else []

/-- What an operation of run `i` on message `m` adds to the log. -/
def entries (m : String) (i : ℕ) : (o : Op) → Res o → List Entry
  | .time, _ => []
  | .markSending, moved => Entry.ifAdmitted moved m i
  | .sendStart _, _ => [.started m i]
  | .sendEnd, o => [.ended m i o]
  | .markSent _, r => Entry.ifMoved (marked r) m i .sent
  | .markRetry _ _, r => Entry.ifMoved (Option.isSome r) m i .retried
  | .markDeadLetter _, moved => Entry.ifMoved moved m i .deadLetter
  | .markUncertain _, moved => Entry.ifMoved moved m i .uncertain

inductive Label where
  /-- a store call of the application, an operator or a polling loop -/
  | call (call : Conversation.Call)
  | advance (run : ℕ) (now : Int) (ends : SendEnd) (historyHex : String)

section Step

variable (retryBackoffS : Int)

def newRun (r : OutboundRow) : Run :=
  let message := rowToMessage r
  ⟨message, .start, sendMessage message retryBackoffS⟩

/-- Advance run `i` by its next operation. -/
def advance (s : System) (i : ℕ) (now : Int) (ends : SendEnd) (historyHex : String) :
    Option System :=
  match s.runs[i]? with
  | none => none
  | some run => match run.program with
    | .ret _ => none
    | .call o k =>
      let (db, r) := performOp s.tables run.message now ends historyHex o
      some { tables := db
             runs := s.runs.set i ⟨run.message, protocol.next run.phase o r, k r⟩
             log := s.log ++ entries run.message.id i o r }

/-- The log entry of an applied `not_sent` reconciliation. -/
def resolutionEntries (resolution : OutboundResolution) (q : OutboundRequest)
    (result : ReconciliationResult) : List Entry :=
  if resolution = .notSent ∧ result.applied = true then [.notSent q.request.effectId] else []

/-- One step of the subsystem. A claim draws a token that no earlier claim has drawn, and only
runs perform the calls of a worker. -/
def step (s : System) : Label → Option System
  | .call (.claimDue a) =>
    if s.runs.any (·.message.leaseToken = a.leaseToken) then none
    else match claimDue s.tables a with
      | .ok (db, rows) => some
          { tables := db
            runs := s.runs ++ rows.map (newRun retryBackoffS)
            log := s.log ++ rows.map (.claimed ·.id) }
      | .error _ => some s
  | .call (.resolveOutbound resolution q) => match resolveOutbound s.tables resolution q with
    | .ok (db, result) => some { s with
        tables := db
        log := s.log ++ resolutionEntries resolution q result }
    | .error _ => some s
  | .call (.enqueue a) => some { s with tables := perform s.tables (.enqueue a) }
  | .call (.enqueueMany requests) =>
    some { s with tables := perform s.tables (.enqueueMany requests) }
  | .call (.renewLease m k leaseSeconds now) =>
    some { s with tables := perform s.tables (.renewLease m k leaseSeconds now) }
  | .call (.applyPlan c) => some { s with tables := perform s.tables (.applyPlan c) }
  | .call (.markSending _ _ _) | .call (.markSent _ _ _ _ _) | .call (.markUncertain _ _ _ _)
  | .call (.markDeadLetter _ _ _ _) | .call (.markRetry _ _ _ _ _) => none
  | .advance i now ends historyHex => advance s i now ends historyHex

end Step

end Soveren.Outbound
