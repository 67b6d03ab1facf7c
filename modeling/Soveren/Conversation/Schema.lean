import Soveren.History.Store
import Soveren.Reconciliation.Audit

/-! The tables of a conversation: outbound messages, dialogue tasks, questions, plans, inputs
and messages. An insert checks the primary keys, the unique indexes and the foreign keys of
its table and raises `IntegrityError` when one is violated. A column that holds the JSON of a
dataclass is kept as the value it encodes. -/
namespace Soveren.Conversation
open Soveren.Relational Soveren.History Soveren.Reconciliation

/-- A trusted conversation scope. -/
structure Scope where
  tenantId : String
  sourceId : String
  deriving DecidableEq, Repr

/-- The task or the routing question that a send belongs to. -/
inductive OutboundTaskReference where
  | task (taskId : String) (revision : ℕ)
      (valid : Text.blank taskId = false ∧ 1 ≤ revision)
  | question (questionId : String) (revision : ℕ)
      (valid : Text.blank questionId = false ∧ 1 ≤ revision)
  deriving DecidableEq

namespace OutboundTaskReference

def taskId? : OutboundTaskReference → Option String
  | .task t _ _ => some t
  | .question _ _ _ => none

def taskRevision? : OutboundTaskReference → Option ℕ
  | .task _ n _ => some n
  | .question _ _ _ => none

def questionId? : OutboundTaskReference → Option String
  | .task _ _ _ => none
  | .question q _ _ => some q

def questionRevision? : OutboundTaskReference → Option ℕ
  | .task _ _ _ => none
  | .question _ n _ => some n

end OutboundTaskReference

inductive OutboundStatus where
  | queued | leased | sending | sent | retrying | uncertain | deadLetter | cancelled
  deriving DecidableEq, Repr

structure OutboundRow where
  id : String
  tenantId : String
  sourceId : String
  channel : String
  destinationId : String
  text : String
  payload : Json
  status : OutboundStatus
  priority : Int
  runAfter : Int
  leaseOwner : Option String
  leaseUntil : Option Int
  leaseToken : Option String
  attempts : ℕ
  maxAttempts : ℕ
  idempotencyKey : String
  idempotencyFingerprint : Option Json
  correlationId : Option String
  orderingKey : Option String
  orderingPosition : Option Int
  taskReference : Option OutboundTaskReference
  replyToMessageId : Option Int
  messageThreadId : Option Int
  lastError : Option String
  sentAt : Option Int
  result : Option Json
  createdAt : Int
  updatedAt : Int
  deriving DecidableEq

def OutboundRow.scope (r : OutboundRow) : Scope := ⟨r.tenantId, r.sourceId⟩

def OutboundRow.taskId (r : OutboundRow) : Option String := r.taskReference.bind (·.taskId?)

def OutboundRow.questionId (r : OutboundRow) : Option String := r.taskReference.bind (·.questionId?)

def OutboundRow.questionRevision (r : OutboundRow) : Option ℕ :=
  r.taskReference.bind (·.questionRevision?)

inductive TaskStatus where
  | active | closed | cancelled
  deriving DecidableEq, Repr

structure TaskRow where
  id : String
  scope : Scope
  title : String
  originalRequest : String
  status : TaskStatus
  revision : ℕ
  createdAt : Int
  updatedAt : Int
  terminalAt : Option Int
  deriving DecidableEq

inductive QuestionStatus where
  | pending | resolved
  deriving DecidableEq, Repr

structure QuestionCandidate where
  taskId : String
  title : String
  revision : ℕ
  excerpt : Option String
  deriving DecidableEq

structure QuestionRow where
  id : String
  scope : Scope
  actorId : String
  text : String
  status : QuestionStatus
  revision : ℕ
  candidates : List QuestionCandidate
  hasMoreCandidates : Bool
  resolvedTaskId : Option String
  createdAt : Int
  resolvedAt : Option Int
  deriving DecidableEq

structure PlanRow where
  scope : Scope
  planId : String
  fingerprint : Json
  plan : Json
  result : Json
  createdAt : Int
  deriving DecidableEq

/-- Rows are in the order of their `sequence`. -/
structure InputRow where
  inputId : String
  scope : Scope
  actorId : String
  text : String
  occurredAt : Int
  channel : String
  sourceMessageId : Option String
  replyToMessageId : Option String
  messageThreadId : Option String
  taskId : Option String
  questionId : Option String
  planId : String
  createdAt : Int
  deriving DecidableEq

inductive MessageRole where
  | user | assistant
  deriving DecidableEq, Repr

/-- Rows are in the order of their `sequence`. -/
structure DialogueMessageRow where
  messageId : String
  scope : Scope
  taskId : String
  role : MessageRole
  actorId : Option String
  text : String
  occurredAt : Int
  inputId : Option String
  sourceMessageId : Option String
  deriving DecidableEq

structure FocusRow where
  scope : Scope
  actorId : String
  taskId : String
  updatedAt : Int
  deriving DecidableEq

structure ConfirmedReferenceRow where
  scope : Scope
  channel : String
  externalMessageId : String
  outboundMessageId : String
  taskId : Option String
  questionId : Option String
  questionRevision : Option ℕ
  confirmedAt : Int
  deriving DecidableEq

structure Tables where
  outbound : List OutboundRow := []
  tasks : List TaskRow := []
  questions : List QuestionRow := []
  plans : List PlanRow := []
  inputs : List InputRow := []
  messages : List DialogueMessageRow := []
  focus : List FocusRow := []
  references : List ConfirmedReferenceRow := []
  history : List ConversationMessageRow := []
  reconciliations : List ReconciliationRow := []
  deriving DecidableEq

/-- The condition `tenant_id = ? AND source_id = ? AND id = ?`. -/
def isTask (scope : Scope) (taskId : String) (t : TaskRow) : Bool := t.scope = scope && t.id = taskId

def isQuestion (scope : Scope) (questionId : String) (q : QuestionRow) : Bool :=
  q.scope = scope && q.id = questionId

def isInput (scope : Scope) (inputId : String) (i : InputRow) : Bool :=
  i.scope = scope && i.inputId = inputId

def getTaskRow (db : Tables) (scope : Scope) (taskId : String) : Option TaskRow :=
  db.tasks.find? (isTask scope taskId)

def getQuestionRow (db : Tables) (scope : Scope) (questionId : String) : Option QuestionRow :=
  db.questions.find? (isQuestion scope questionId)

/-- A nullable foreign key is satisfied by null or by a row of the scope. -/
def taskKeyHolds (db : Tables) (scope : Scope) (taskId : Option String) : Bool :=
  taskId.all fun t => (getTaskRow db scope t).isSome

def questionKeyHolds (db : Tables) (scope : Scope) (questionId : Option String) : Bool :=
  questionId.all fun q => (getQuestionRow db scope q).isSome

def inputKeyHolds (db : Tables) (scope : Scope) (inputId : Option String) : Bool :=
  inputId.all fun i => db.inputs.any (isInput scope i)

def insertTask (db : Tables) (row : TaskRow) : Except StoreError Tables :=
  if db.tasks.any (·.id = row.id) then .error .integrityError
  else .ok { db with tasks := db.tasks ++ [row] }

def insertQuestion (db : Tables) (row : QuestionRow) : Except StoreError Tables :=
  if db.questions.any (·.id = row.id) then .error .integrityError
  else .ok { db with questions := db.questions ++ [row] }

def insertPlan (db : Tables) (row : PlanRow) : Except StoreError Tables :=
  if db.plans.any (fun p => p.scope = row.scope && p.planId = row.planId) then
    .error .integrityError
  else .ok { db with plans := db.plans ++ [row] }

/-- Two inputs of one scope share neither their id nor the source message of a channel. -/
def InputRow.conflicts (row i : InputRow) : Bool :=
  i.scope = row.scope && (i.inputId = row.inputId ||
    (i.channel = row.channel && i.sourceMessageId.isSome && i.sourceMessageId = row.sourceMessageId))

def insertInput (db : Tables) (row : InputRow) : Except StoreError Tables :=
  if ¬ Fits row.occurredAt then .error bindingError
  else if db.inputs.any row.conflicts || (row.taskId.isNone && row.questionId.isNone) ||
      !taskKeyHolds db row.scope row.taskId || !questionKeyHolds db row.scope row.questionId then
    .error .integrityError
  else .ok { db with inputs := db.inputs ++ [row] }

/-- Two messages of one scope share neither their id nor their input. -/
def DialogueMessageRow.conflicts (row m : DialogueMessageRow) : Bool :=
  m.scope = row.scope && (m.messageId = row.messageId ||
    (m.inputId.isSome && m.inputId = row.inputId))

def insertDialogueMessage (db : Tables) (row : DialogueMessageRow) : Except StoreError Tables :=
  if db.messages.any row.conflicts || !taskKeyHolds db row.scope (some row.taskId) ||
      !inputKeyHolds db row.scope row.inputId then .error .integrityError
  else .ok { db with messages := db.messages ++ [row] }

/-- `INSERT … ON CONFLICT (scope, actor_id) DO UPDATE`. -/
def setFocus (db : Tables) (scope : Scope) (actorId taskId : String) (now : Int) :
    Except StoreError Tables :=
  let mine := fun f : FocusRow => f.scope = scope && f.actorId = actorId
  if !taskKeyHolds db scope (some taskId) then .error .integrityError
  else if db.focus.any mine then
    let focus := updateWhere mine (fun f => { f with taskId := taskId, updatedAt := now }) db.focus
    .ok { db with focus := focus }
  else .ok { db with focus := db.focus ++ [⟨scope, actorId, taskId, now⟩] }

/-- Two confirmed references of one scope share neither their message nor their send. -/
def ConfirmedReferenceRow.conflicts (row r : ConfirmedReferenceRow) : Bool :=
  r.scope = row.scope && ((r.channel = row.channel && r.externalMessageId = row.externalMessageId) ||
    r.outboundMessageId = row.outboundMessageId)

def insertReference (db : Tables) (row : ConfirmedReferenceRow) : Except StoreError Tables :=
  if db.references.any row.conflicts || row.taskId.isSome = row.questionId.isSome ||
      !taskKeyHolds db row.scope row.taskId || !questionKeyHolds db row.scope row.questionId then
    .error .integrityError
  else .ok { db with references := db.references ++ [row] }

/-- The primary keys and the unique indexes of the dialogue tables and of the history. -/
structure Keyed (db : Tables) : Prop where
  tasks : (db.tasks.map (·.id)).Nodup
  questions : (db.questions.map (·.id)).Nodup
  plans : (db.plans.map fun p => (p.scope, p.planId)).Nodup
  inputs : db.inputs.Pairwise fun i j => j.conflicts i = false
  messages : db.messages.Pairwise fun m n => n.conflicts m = false
  history : (db.history.map (·.key)).Nodup

/-- `UPDATE dialogue_tasks SET updated_at = ? WHERE tenant_id = ? AND source_id = ? AND id = ?`. -/
def touchTask (db : Tables) (scope : Scope) (taskId : String) (now : Int) : Tables :=
  { db with tasks := updateWhere (isTask scope taskId) (fun t => { t with updatedAt := now }) db.tasks }

end Soveren.Conversation
