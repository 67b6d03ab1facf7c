import Soveren.Conversation.Schema

/-! Route plans. A value that its constructor would refuse cannot be built here either: each
contract carries what its constructor checks. -/
namespace Soveren.Dialogue
open Soveren.Conversation

structure DialogueInput where
  inputId : String
  actorId : String
  text : String
  occurredAt : Int
  channel : String
  sourceMessageId : Option String := none
  replyToMessageId : Option String := none
  messageThreadId : Option String := none
  present : [inputId, actorId, channel, text].all (!Text.blank ·) = true := by decide
  optional : [sourceMessageId, replyToMessageId, messageThreadId].all
    (·.all (!Text.blank ·)) = true := by decide
  deriving DecidableEq

theorem no_references : ([none, none, none] : List (Option String)).all
    (·.all (!Text.blank ·)) = true := rfl

inductive RouteAction where
  | create | attach | question | resolveQuestion | close | cancel | status
  deriving DecidableEq, Repr

def RouteAction.name : RouteAction → String
  | .create => "create"
  | .attach => "attach"
  | .question => "question"
  | .resolveQuestion => "resolve_question"
  | .close => "close"
  | .cancel => "cancel"
  | .status => "status"

structure RouteFields where
  inputId : String
  action : RouteAction
  taskId : Option String := none
  taskKey : Option String := none
  title : Option String := none
  questionId : Option String := none
  questionRevision : Option Int := none
  questionText : Option String := none
  candidates : List QuestionCandidate := []
  hasMoreCandidates : Bool := false
  responseText : Option String := none
  deriving DecidableEq

def newTaskKey (inputId : String) : String := "new:" ++ inputId

/-- A text that is there and not blank. -/
def isText (s : Option String) : Bool := s.any (!Text.blank ·)

/-- Exactly one of the two ways to name a task. -/
def RouteFields.hasTarget (r : RouteFields) : Bool :=
  r.taskId.isNone != r.taskKey.isNone && isText (r.taskId.or r.taskKey)

def RouteFields.createsTask (r : RouteFields) : Bool :=
  r.taskKey = some (newTaskKey r.inputId) && isText r.title && r.taskId.isNone

def QuestionCandidate.wellFormed (c : QuestionCandidate) : Bool :=
  !Text.blank c.taskId && !Text.blank c.title && 1 ≤ c.revision

/-- What the constructor of a route accepts. -/
def RouteFields.wellFormed (r : RouteFields) : Bool :=
  !Text.blank r.inputId && (r.action = .status || r.responseText.isNone) &&
  r.candidates.all QuestionCandidate.wellFormed &&
  match r.action with
  | .create => r.createsTask
  | .status => isText r.responseText && (r.responseText.all fun s => Text.len s ≤ 2000) &&
      isText r.taskId && r.taskKey.isNone
  | .attach | .close | .cancel => r.hasTarget
  | .question => (r.questionId.any (· ≠ "")) && isText r.questionText && r.taskId.isNone &&
      r.taskKey.isNone && r.questionRevision.all (1 ≤ ·)
  | .resolveQuestion => isText r.questionId && r.questionRevision.any (1 ≤ ·) &&
      ((isText r.taskId && r.taskKey.isNone && r.title.isNone) || r.createsTask)

structure DialogueRoute extends RouteFields where
  valid : toRouteFields.wellFormed = true := by decide
  deriving DecidableEq

structure DialoguePlan where
  planId : String
  scope : Scope
  inputs : List DialogueInput
  routes : List DialogueRoute
  named : Text.blank planId = false := by decide
  trusted : Text.blank scope.tenantId = false ∧ Text.blank scope.sourceId = false := by decide
  nonempty : inputs ≠ [] := by decide
  inputIds : (inputs.map (·.inputId)).Nodup := by decide
  routeIds : (routes.map (·.inputId)).Nodup := by decide
  covered : ∀ i ∈ inputs.map (·.inputId), i ∈ routes.map (·.inputId) := by decide
  known : ∀ i ∈ routes.map (·.inputId), i ∈ inputs.map (·.inputId) := by decide
  deriving DecidableEq

structure DialogueAssignment where
  inputId : String
  taskId : Option String
  questionId : Option String
  taskRevision : Option ℕ
  questionRevision : Option ℕ
  taskStatus : Option TaskStatus
  deriving DecidableEq

structure DialoguePlanResult where
  planId : String
  assignments : List DialogueAssignment
  deriving DecidableEq

section Encoding

def inputData (i : DialogueInput) : Json := .obj [
  ("actor_id", .str i.actorId),
  ("channel", .str i.channel),
  ("input_id", .str i.inputId),
  ("message_thread_id", .ofString? i.messageThreadId),
  ("occurred_at", .int i.occurredAt),
  ("reply_to_message_id", .ofString? i.replyToMessageId),
  ("source_message_id", .ofString? i.sourceMessageId),
  ("text", .str i.text)]

def candidateData (c : QuestionCandidate) : Json := .obj [
  ("excerpt", .ofString? c.excerpt),
  ("revision", .int c.revision),
  ("task_id", .str c.taskId),
  ("title", .str c.title)]

/-- A route leaves out the response text that it does not have. -/
def routeData (r : RouteFields) : Json := .obj ([
  ("action", .str r.action.name),
  ("candidates", .arr (r.candidates.map candidateData)),
  ("has_more_candidates", .bool r.hasMoreCandidates),
  ("input_id", .str r.inputId),
  ("question_id", .ofString? r.questionId),
  ("question_revision", .ofInt? r.questionRevision),
  ("question_text", .ofString? r.questionText)] ++
  (r.responseText.map fun s => ("response_text", Json.str s)).toList ++ [
  ("task_id", .ofString? r.taskId),
  ("task_key", .ofString? r.taskKey),
  ("title", .ofString? r.title)])

def planData (p : DialoguePlan) : Json := .obj [
  ("inputs", .arr (p.inputs.map inputData)),
  ("plan_id", .str p.planId),
  ("routes", .arr (p.routes.map fun r => routeData r.toRouteFields)),
  ("scope", .obj [("source_id", .str p.scope.sourceId), ("tenant_id", .str p.scope.tenantId)])]

def taskStatusName : TaskStatus → String
  | .active => "active"
  | .closed => "closed"
  | .cancelled => "cancelled"

def taskStatusOf (s : String) : Option TaskStatus :=
  [TaskStatus.active, .closed, .cancelled].find? (taskStatusName · = s)

def assignmentData (a : DialogueAssignment) : Json := .obj [
  ("input_id", .str a.inputId),
  ("question_id", .ofString? a.questionId),
  ("question_revision", .ofInt? (a.questionRevision.map (·))),
  ("task_id", .ofString? a.taskId),
  ("task_revision", .ofInt? (a.taskRevision.map (·))),
  ("task_status", .ofString? (a.taskStatus.map taskStatusName))]

def resultData (r : DialoguePlanResult) : Json := .obj [
  ("assignments", .arr (r.assignments.map assignmentData)),
  ("plan_id", .str r.planId)]

/-- A nullable text field. -/
def textField (key : String) (value : Json) : Option (Option String) :=
  match value.get? key with
  | some (.str s) => some (some s)
  | some .null => some none
  | _ => none

def countField (key : String) (value : Json) : Option (Option ℕ) :=
  match value.get? key with
  | some (.int (.ofNat n)) => some (some n)
  | some .null => some none
  | _ => none

def statusField (key : String) (value : Json) : Option (Option TaskStatus) :=
  match value.get? key with
  | some (.str s) => (taskStatusOf s).map some
  | some .null => some none
  | _ => none

def assignmentOf (value : Json) : Option DialogueAssignment := do
  let inputId ← ← textField "input_id" value
  let taskId ← textField "task_id" value
  let questionId ← textField "question_id" value
  let taskRevision ← countField "task_revision" value
  let questionRevision ← countField "question_revision" value
  let taskStatus ← statusField "task_status" value
  some ⟨inputId, taskId, questionId, taskRevision, questionRevision, taskStatus⟩

/-- `_plan_result`. -/
def planResult (value : Json) : Option DialoguePlanResult := do
  match value.get? "plan_id", value.get? "assignments" with
  | some planId, some (.arr items) =>
    let assignments ← items.mapM assignmentOf
    some ⟨planId.toStr, assignments⟩
  | _, _ => none

end Encoding

end Soveren.Dialogue
