import Soveren.Dialogue.Plan

/-! The application of a route plan: one transaction that assigns every input of the plan to a
task or a routing question and changes the lifecycle of both. The task id drawn for an input
is an argument. -/
namespace Soveren.Dialogue
open Soveren.Relational Soveren.Conversation

def maxTitleChars : ℕ := 256
def maxInputTextChars : ℕ := 16000
def maxQuestionTextChars : ℕ := 4000
def maxQuestionCandidates : ℕ := 50

/-- `len(value) > bound` for an optional text. -/
def exceeds (bound : ℕ) (s : Option String) : Bool := s.any fun t => bound < Text.len t

def validateTitle (title : Option String) : Except StoreError Unit :=
  if isText title && !exceeds maxTitleChars title then .ok ()
  else .error (.valueError "task title must contain 1 to 256 characters")

def validateQuestion (route : DialogueRoute) : Except StoreError Unit :=
  match route.questionText with
  | none => .error .assertionError
  | some text =>
    if maxQuestionTextChars < Text.len text then
      .error (.valueError "routing question exceeds 4000 characters")
    else if maxQuestionCandidates < route.candidates.length then
      .error (.valueError "at most 50 candidates may be snapshotted")
    else if route.candidates.any fun c => 256 < Text.len c.taskId ||
        maxTitleChars < Text.len c.title || exceeds 240 c.excerpt then
      .error (.valueError "routing question candidate data exceeds its storage bounds")
    else .ok ()

def routeFor (plan : DialoguePlan) (inputId : String) : Except StoreError DialogueRoute :=
  match plan.routes.find? (·.inputId = inputId) with
  | none => .error (.keyError inputId)
  | some route => .ok route

def validateInput (plan : DialoguePlan) (item : DialogueInput) : Except StoreError Unit :=
  if maxInputTextChars < Text.len item.text then
    .error (.valueError "input text exceeds 16000 characters")
  else if 256 < Text.len item.inputId || 256 < Text.len item.actorId || 64 < Text.len item.channel ||
      [item.sourceMessageId, item.replyToMessageId, item.messageThreadId].any (exceeds 256) then
    .error (.valueError "dialogue input identifiers exceed their storage bounds")
  else do
    let route ← routeFor plan item.inputId
    match route.action with
    | .create => validateTitle route.title
    | .resolveQuestion => if route.taskKey.isSome then validateTitle route.title else .ok ()
    | .question => validateQuestion route
    | .attach | .close | .cancel | .status => .ok ()

def validatePlan (plan : DialoguePlan) : Except StoreError Unit :=
  if 256 < Text.len plan.planId then .error (.valueError "plan_id must be at most 256 characters")
  else plan.inputs.forM (validateInput plan)

/-- The plan that is applied, its clock, and the task id drawn for each input. -/
structure Application where
  plan : DialoguePlan
  now : Int
  draw : String → String

/-- The tables and the tasks that this plan has created under a local key. -/
structure RouteState where
  db : Tables
  localTasks : List (String × String)

/-- The task, the question and the question revision of one input. -/
abbrev Assigned := Option String × Option String × Option ℕ

def conflict {α : Type} (message : String) : Except StoreError α := .error (.dialogueConflict message)

namespace Application

def scope (c : Application) : Scope := c.plan.scope

def newTaskId (c : Application) (item : DialogueInput) : String := "task_" ++ c.draw item.inputId

def taskRow (c : Application) (item : DialogueInput) (title request : String) : TaskRow where
  id := c.newTaskId item
  scope := c.scope
  title := title
  originalRequest := request
  status := .active
  revision := 1
  createdAt := c.now
  updatedAt := c.now
  terminalAt := none

def inputRow (c : Application) (item : DialogueInput) (taskId questionId : Option String) :
    InputRow where
  inputId := item.inputId
  scope := c.scope
  actorId := item.actorId
  text := item.text
  occurredAt := item.occurredAt
  channel := item.channel
  sourceMessageId := item.sourceMessageId
  replyToMessageId := item.replyToMessageId
  messageThreadId := item.messageThreadId
  taskId := taskId
  questionId := questionId
  planId := c.plan.planId
  createdAt := c.now

end Application

/-- The transcript row of a stored input. -/
def inputMessage (row : InputRow) (taskId : String) : DialogueMessageRow where
  messageId := "input_" ++ row.inputId
  scope := row.scope
  taskId := taskId
  role := .user
  actorId := some row.actorId
  text := row.text
  occurredAt := row.occurredAt
  inputId := some row.inputId
  sourceMessageId := row.sourceMessageId

section Routes

variable (c : Application)

/-- Store an input under a task together with its transcript row. -/
def insertRoutedInput (db : Tables) (item : DialogueInput) (taskId : String) :
    Except StoreError Tables := do
  let row := c.inputRow item (some taskId) none
  let db ← insertInput db row
  insertDialogueMessage db (inputMessage row taskId)

def attachInput (db : Tables) (item : DialogueInput) (taskId : String) : Except StoreError Tables :=
  match getTaskRow db c.scope taskId with
  | none => conflict "dialogue task is unavailable or terminal"
  | some task =>
    if task.status ≠ .active then conflict "dialogue task is unavailable or terminal"
    else do
      let db ← insertRoutedInput c db item taskId
      .ok (touchTask db c.scope taskId c.now)

def resolveTaskTarget (route : DialogueRoute) (localTasks : List (String × String)) :
    Except StoreError String :=
  match route.taskId with
  | some taskId => .ok taskId
  | none => match route.taskKey.bind fun key => localTasks.lookup key with
    | some taskId => .ok taskId
    | none => conflict "local task key does not refer to an earlier creation in this plan"

def applyCreate (s : RouteState) (item : DialogueInput) (route : DialogueRoute) :
    Except StoreError (RouteState × Assigned) :=
  match route.taskKey, route.title with
  | some key, some title =>
    if (s.localTasks.lookup key).isSome then conflict "local task key was created more than once"
    else do
      let taskId := c.newTaskId item
      let db ← insertTask s.db (c.taskRow item title item.text)
      let db ← insertRoutedInput c db item taskId
      let db ← setFocus db c.scope item.actorId taskId c.now
      .ok (⟨db, (key, taskId) :: s.localTasks⟩, some taskId, none, none)
  | _, _ => .error .assertionError

def applyStatus (s : RouteState) (item : DialogueInput) (route : DialogueRoute) :
    Except StoreError (RouteState × Assigned) :=
  match route.taskId with
  | none => .error .assertionError
  | some taskId => match getTaskRow s.db c.scope taskId with
    | none => conflict "dialogue task is unavailable in this scope"
    | some _ => do
      let db ← insertInput s.db (c.inputRow item (some taskId) none)
      .ok ({ s with db := db }, some taskId, none, none)

def applyAttach (s : RouteState) (item : DialogueInput) (route : DialogueRoute) :
    Except StoreError (RouteState × Assigned) := do
  let taskId ← resolveTaskTarget route s.localTasks
  let db ← attachInput c s.db item taskId
  let db ← setFocus db c.scope item.actorId taskId c.now
  .ok ({ s with db := db }, some taskId, none, none)

/-- `UPDATE outbound_messages SET status = 'cancelled' … AND status IN (…)`. -/
def suppress (p : OutboundRow → Bool) (reason : String) (now : Int) (db : Tables) : Tables :=
  let waiting := fun r => p r && [OutboundStatus.queued, .retrying, .leased].contains r.status
  let outbound := updateWhere waiting (fun r =>
    { r with
      status := .cancelled
      lastError := some reason
      leaseOwner := none
      leaseUntil := none
      leaseToken := none
      updatedAt := now }) db.outbound
  { db with outbound := outbound }

def suppressTaskOutbound (db : Tables) (taskId reason : String) : Tables :=
  suppress (fun r => r.scope = c.scope && r.taskId = some taskId) reason c.now db

def suppressQuestionOutbound (db : Tables) (questionId : String) : Tables :=
  suppress (fun r => r.scope = c.scope && r.questionId = some questionId)
    "routing question resolved before send admission" c.now db

def suppressQuestionGenerationOutbound (db : Tables) (questionId : String) (revision : ℕ) :
    Tables :=
  suppress (fun r => r.scope = c.scope && r.questionId = some questionId &&
      r.questionRevision = some revision)
    "routing question generation refreshed before send admission" c.now db

/-- `UPDATE dialogue_tasks SET status = ?, revision = revision + 1 … AND status = 'active'`. -/
def endTask (db : Tables) (taskId : String) (status : TaskStatus) : Tables :=
  let tasks := updateWhere (fun t => isTask c.scope taskId t && t.status = .active) (fun t =>
    { t with
      status := status
      revision := t.revision + 1
      terminalAt := some c.now
      updatedAt := c.now }) db.tasks
  { db with tasks := tasks }

/-- Close or cancel a task with its last input. -/
def applyEnd (status : TaskStatus) (reason : String) (s : RouteState) (item : DialogueInput)
    (route : DialogueRoute) : Except StoreError (RouteState × Assigned) := do
  let taskId ← resolveTaskTarget route s.localTasks
  match getTaskRow s.db c.scope taskId with
  | none => conflict "dialogue task is unavailable in this scope"
  | some task =>
    if task.status ≠ .active then conflict "terminal dialogue tasks cannot be changed"
    else do
      let db ← attachInput c s.db item taskId
      let db := suppressTaskOutbound c (endTask c db taskId status) taskId reason
      .ok ({ s with db := db }, some taskId, none, none)

def applyClose := applyEnd c .closed "dialogue task closed before send admission"

def applyCancel := applyEnd c .cancelled "dialogue task cancelled before send admission"

/-- The offered candidates as their tasks are now. -/
def questionCandidates (db : Tables) (seen : List String) :
    List QuestionCandidate → Except StoreError (List QuestionCandidate)
  | [] => .ok []
  | candidate :: rest =>
    if seen.contains candidate.taskId then
      conflict "routing question candidate list contains duplicate tasks"
    else match getTaskRow db c.scope candidate.taskId with
      | none => conflict "routing question candidate is stale or unavailable"
      | some task =>
        if task.status ≠ .active || task.revision ≠ candidate.revision then
          conflict "routing question candidate is stale or unavailable"
        else do
          let rest ← questionCandidates db (candidate.taskId :: seen) rest
          .ok (⟨task.id, task.title, task.revision, some (Text.clip 240 task.originalRequest)⟩ ::
            rest)

/-- The confirmed message that an input replies to. -/
def replyReference (db : Tables) (item : DialogueInput) : Option ConfirmedReferenceRow :=
  item.replyToMessageId.bind fun id => db.references.find? fun r =>
    r.scope = c.scope && r.channel = item.channel && r.externalMessageId = id

def extendQuestion (db : Tables) (item : DialogueInput) (route : DialogueRoute)
    (existing : QuestionRow) (text : String) : Except StoreError (Tables × ℕ) :=
  if existing.status ≠ .pending then
    conflict "routing question id was reused with changed or terminal input"
  else if route.questionRevision.any fun n => n ≠ (existing.revision : Int) then
    conflict "routing question refresh was based on a stale question revision"
  else if existing.actorId ≠ item.actorId &&
      !((replyReference c db item).any fun r => r.questionId = some existing.id) then
    conflict "another actor may extend a routing question only by replying to its confirmed message"
  else do
    let candidates ← questionCandidates c db [] route.candidates
    if existing.text = text && existing.candidates = candidates &&
        existing.hasMoreCandidates = route.hasMoreCandidates then .ok (db, existing.revision)
    else if route.questionRevision.isNone then
      conflict "a routing question refresh requires its expected revision"
    else
      let current := fun q : QuestionRow => isQuestion c.scope existing.id q &&
        q.status = .pending && q.revision = existing.revision
      let questions := updateWhere current (fun q =>
        { q with
          text := text
          candidates := candidates
          hasMoreCandidates := route.hasMoreCandidates
          revision := q.revision + 1 }) db.questions
      if rowcount current db.questions ≠ 1 then conflict "routing question changed concurrently"
      else .ok (suppressQuestionGenerationOutbound c { db with questions := questions } existing.id
        existing.revision, existing.revision + 1)

def newQuestion (db : Tables) (item : DialogueInput) (route : DialogueRoute)
    (questionId text : String) : Except StoreError (Tables × ℕ) :=
  if route.questionRevision.isSome then
    conflict "a new routing question cannot name a previous revision"
  else do
    let candidates ← questionCandidates c db [] route.candidates
    let db ← insertQuestion db
      { id := questionId
        scope := c.scope
        actorId := item.actorId
        text := text
        status := .pending
        revision := 1
        candidates := candidates
        hasMoreCandidates := route.hasMoreCandidates
        resolvedTaskId := none
        createdAt := c.now
        resolvedAt := none }
    .ok (db, 1)

def createOrExtendQuestion (db : Tables) (item : DialogueInput) (route : DialogueRoute)
    (questionId text : String) : Except StoreError (Tables × ℕ) :=
  match getQuestionRow db c.scope questionId with
  | some existing => extendQuestion c db item route existing text
  | none => newQuestion c db item route questionId text

def applyQuestion (s : RouteState) (item : DialogueInput) (route : DialogueRoute) :
    Except StoreError (RouteState × Assigned) :=
  match route.questionId, route.questionText with
  | some questionId, some text => do
    let (db, revision) ← createOrExtendQuestion c s.db item route questionId text
    let db ← insertInput db (c.inputRow item none (some questionId))
    .ok ({ s with db := db }, none, some questionId, some revision)
  | _, _ => .error .assertionError

/-- Who may resolve a question: a reply to its confirmed message, or its actor once a message
of this generation is confirmed. -/
def checkResolver (db : Tables) (item : DialogueInput) (question : QuestionRow) :
    Except StoreError Unit :=
  if item.replyToMessageId.isSome then
    if (replyReference c db item).any fun r => r.questionId = some question.id &&
        r.questionRevision.getD 0 = question.revision then .ok ()
    else conflict "reply does not refer to this question's confirmed message"
  else if question.actorId ≠ item.actorId then
    conflict "another actor may resolve a question only by replying to its confirmed message"
  else if db.references.any fun r => r.scope = c.scope && r.questionId = some question.id &&
      r.questionRevision = some question.revision then .ok ()
  else conflict "semantic routing question resolution requires confirmed delivery"

/-- The inputs that wait for a question, in sequence order. -/
def waitingInputs (db : Tables) (questionId : String) : List InputRow :=
  db.inputs.filter fun i => i.scope = c.scope && i.questionId = some questionId && i.taskId.isNone

/-- The task that a resolution selects, created when it has a local key. -/
def resolvedTask (db : Tables) (item : DialogueInput) (route : DialogueRoute)
    (question : QuestionRow) (request : String) : Except StoreError (Tables × String) :=
  match route.taskKey with
  | some _ => match route.title with
    | none => .error .assertionError
    | some title => do
      let db ← insertTask db (c.taskRow item title request)
      .ok (db, c.newTaskId item)
  | none => match route.taskId with
    | none => .error .assertionError
    | some taskId => match question.candidates.find? (·.taskId = taskId) with
      | none => conflict "selected task was not offered by this routing question"
      | some selected => match getTaskRow db c.scope taskId with
        | none => conflict "selected task changed after the routing question was issued"
        | some task =>
          if task.status ≠ .active || task.revision ≠ selected.revision then
            conflict "selected task changed after the routing question was issued"
          else .ok (db, taskId)

/-- Assign one waiting input to the selected task. -/
def assignInput (taskId : String) (db : Tables) (old : InputRow) : Except StoreError Tables :=
  let waiting := fun i : InputRow => isInput c.scope old.inputId i && i.taskId.isNone
  let inputs := updateWhere waiting (fun i => { i with taskId := some taskId }) db.inputs
  if rowcount waiting db.inputs ≠ 1 then
    conflict "routing question input was assigned concurrently"
  else insertDialogueMessage { db with inputs := inputs } (inputMessage old taskId)

def closeQuestion (db : Tables) (question : QuestionRow) (taskId : String) :
    Except StoreError Tables :=
  let current := fun q : QuestionRow => isQuestion c.scope question.id q &&
    q.status = .pending && q.revision = question.revision
  let questions := updateWhere current (fun q =>
    { q with
      status := .resolved
      revision := q.revision + 1
      resolvedTaskId := some taskId
      resolvedAt := some c.now }) db.questions
  if rowcount current db.questions ≠ 1 then conflict "routing question was resolved concurrently"
  else .ok { db with questions := questions }

def resolveQuestion (db : Tables) (item : DialogueInput) (route : DialogueRoute)
    (questionId : String) (revision : Int) : Except StoreError (Tables × String) :=
  match getQuestionRow db c.scope questionId with
  | none => conflict "routing question is missing, stale, or already resolved"
  | some question =>
    if question.status ≠ .pending || question.revision ≠ revision then
      conflict "routing question is missing, stale, or already resolved"
    else do
      checkResolver c db item question
      match waitingInputs c db question.id with
      | [] => conflict "routing question has no unresolved original input"
      | first :: rest => do
        let (db, taskId) ← resolvedTask c db item route question first.text
        let db ← closeQuestion c db question taskId
        let db ← (first :: rest).foldlM (assignInput c taskId) db
        let db := suppressQuestionOutbound c db question.id
        let db ← insertRoutedInput c db item taskId
        .ok (touchTask db c.scope taskId c.now, taskId)

def applyResolveQuestion (s : RouteState) (item : DialogueInput) (route : DialogueRoute) :
    Except StoreError (RouteState × Assigned) :=
  match route.questionId, route.questionRevision with
  | some questionId, some revision =>
    if route.taskKey.any fun key => (s.localTasks.lookup key).isSome then
      conflict "local task key was created more than once"
    else do
      let (db, taskId) ← resolveQuestion c s.db item route questionId revision
      let localTasks := match route.taskKey with
        | some key => (key, taskId) :: s.localTasks
        | none => s.localTasks
      let db ← setFocus db c.scope item.actorId taskId c.now
      .ok (⟨db, localTasks⟩, some taskId, some questionId, none)
  | _, _ => .error .assertionError

def applyRoute (s : RouteState) (item : DialogueInput) (route : DialogueRoute) :
    Except StoreError (RouteState × Assigned) :=
  match route.action with
  | .create => applyCreate c s item route
  | .status => applyStatus c s item route
  | .attach => applyAttach c s item route
  | .question => applyQuestion c s item route
  | .resolveQuestion => applyResolveQuestion c s item route
  | .close => applyClose c s item route
  | .cancel => applyCancel c s item route

/-- Route the inputs one after the other. -/
def applyRoutes (s : RouteState) : List DialogueInput →
    Except StoreError (RouteState × List (String × Assigned))
  | [] => .ok (s, [])
  | item :: rest => do
    let route ← routeFor c.plan item.inputId
    let (s, assigned) ← applyRoute c s item route
    let (s, others) ← applyRoutes s rest
    .ok (s, (item.inputId, assigned) :: others)

/-- An assignment with the final revision and status of its task. -/
def finalAssignment (db : Tables) (a : String × Assigned) : Except StoreError DialogueAssignment :=
  let (inputId, taskId, questionId, questionRevision) := a
  match taskId with
  | none => .ok ⟨inputId, none, questionId, none, questionRevision, none⟩
  | some t => match getTaskRow db c.scope t with
    | none => .error
        (.runtimeError "dialogue task disappeared while committing its route plan")
    | some task => .ok ⟨inputId, some t, questionId, some task.revision, questionRevision,
        some task.status⟩

def planRow (result : DialoguePlanResult) : PlanRow where
  scope := c.scope
  planId := c.plan.planId
  fingerprint := idempotencyFingerprint (planData c.plan)
  plan := planData c.plan
  result := resultData result
  createdAt := c.now

/-- Route the inputs of a plan that was not applied before and record its result. -/
def commitPlan (db : Tables) : Except StoreError (Tables × DialoguePlanResult) :=
  if c.plan.inputs.any fun item => db.inputs.any (isInput c.scope item.inputId) then
    conflict "dialogue input was already assigned by another plan"
  else do
    let (s, assigned) ← applyRoutes c ⟨db, []⟩ c.plan.inputs
    let assignments ← assigned.mapM (finalAssignment c s.db)
    let result : DialoguePlanResult := ⟨c.plan.planId, assignments⟩
    let db ← insertPlan s.db (planRow c result)
    .ok (db, result)

/-- Apply all input assignments and lifecycle changes as one immutable command. -/
def applyDialoguePlan (db : Tables) : Except StoreError (Tables × DialoguePlanResult) := do
  validatePlan c.plan
  match db.plans.find? fun p => p.scope = c.scope && p.planId = c.plan.planId with
  | some previous =>
    if previous.fingerprint ≠ idempotencyFingerprint (planData c.plan) then
      conflict "dialogue plan id was reused with changed input"
    else match planResult previous.result with
      | some result => .ok (db, result)
      | none => .error (.valueError "stored plan result is malformed")
  | none => commitPlan c db

end Routes

end Soveren.Dialogue
