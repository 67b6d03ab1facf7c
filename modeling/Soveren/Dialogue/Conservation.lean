import Soveren.Dialogue.Agreement
import Soveren.Dialogue.Fencing
import Soveren.Dialogue.Replay

/-! Every input of a conversation stays accounted for: it is in the transcript of one task, or it waits for
a question, or its route has only reported a status. -/
namespace Soveren.Dialogue
open Soveren.Relational Soveren.Conversation

section Statement

/-- The transcript rows of an input. -/
def inputMessages (db : Tables) (i : InputRow) : List DialogueMessageRow :=
  db.messages.filter fun m => m.scope = i.scope && m.inputId = some i.inputId

/-- The input has its task and one transcript row, with its text and its actor. -/
def Transcribed (db : Tables) (i : InputRow) (taskId : String) : Prop :=
  i.taskId = some taskId ∧ ∃ m, inputMessages db i = [m] ∧ m.role = .user ∧ m.taskId = taskId ∧
    m.text = i.text ∧ m.actorId = some i.actorId

/-- Where an input is after a route with an action. -/
def Placed (db : Tables) (i : InputRow) : RouteAction → Prop
  | .status => i.taskId.isSome ∧ inputMessages db i = []
  | .question => ∃ questionId q, i.questionId = some questionId ∧ getQuestionRow db i.scope questionId = some q ∧
      ((q.status = .pending ∧ i.taskId = none ∧ inputMessages db i = []) ∨
        (q.status = .resolved ∧ ∃ taskId, q.resolvedTaskId = some taskId ∧ Transcribed db i taskId))
  | _ => ∃ taskId, Transcribed db i taskId

/-- The plan that has stored an input routes it with an action. -/
def RoutedBy (plans : List PlanRow) (i : InputRow) (a : RouteAction) : Prop :=
  ∃ p ∈ plans, p.scope = i.scope ∧ p.planId = i.planId ∧ ∃ plan route, p.plan = planData plan ∧
    routeFor plan i.inputId = .ok route ∧ route.action = a

/-- An active task has its first revision, an ended one its second. -/
def Counted (t : TaskRow) : Prop := t.revision = if t.status = .active then 1 else 2

/-- The user rows in the transcript of a task. -/
def userMessages (db : Tables) (scope : Scope) (taskId : String) : List DialogueMessageRow :=
  db.messages.filter fun m => m.scope = scope && m.taskId = taskId && m.role = .user

end Statement

section Effects

variable {c : Application} {db db' : Tables} {item : DialogueInput}

/-- A route that stores an input in a row: it moves some inputs to a task and writes their transcript rows
and its own, under tasks that have not ended. -/
structure Effect (c : Application) (db db' : Tables) (moved : InputRow → Bool) (target : String)
    (row : InputRow) (own : List DialogueMessageRow) : Prop where
  inputs : db'.inputs = updateWhere moved (fun i => { i with taskId := some target }) db.inputs ++ [row]
  messages : db'.messages = db.messages ++ (db.inputs.filter moved).map (inputMessage · target) ++ own
  fresh : ∀ i ∈ db.inputs, row.conflicts i = false
  mine : ∀ m ∈ own, m.scope = row.scope ∧ m.inputId = some row.inputId ∧ m.taskId = target ∧
    m.messageId = "input_" ++ row.inputId
  here : row.scope = c.scope ∧ ∀ i, moved i = true → i.scope = c.scope
  current : ¬ TaskEnded c.scope target db ∨ (own = [] ∧ ∀ i, moved i = false)
  tasks : Grows TaskStep Counted db.tasks db'.tasks
  drawn : ∀ t ∈ db'.tasks, t.id ∈ db.tasks.map (·.id) ∨ t.id = "task_" ++ c.draw row.inputId
  plans : db'.plans = db.plans

/-- A route that moves no input. -/
abbrev Plain (c : Application) (db db' : Tables) (item : DialogueInput) (target : String)
    (taskId questionId : Option String) (own : List DialogueMessageRow) : Prop :=
  Effect c db db' (fun _ => false) target (c.inputRow item taskId questionId) own

theorem filter_false {α : Type} (l : List α) : l.filter (fun _ => false) = [] :=
  List.filter_eq_nil_iff.mpr fun _ _ => by simp

theorem updateWhere_false {α : Type} (f : α → α) (l : List α) : updateWhere (fun _ => false) f l = l :=
  updateWhere_eq_self fun _ _ => rfl

theorem insertRoutedInput_ok {taskId : String} (h : insertRoutedInput c db item taskId = .ok db') :
    db' = { db with
      inputs := db.inputs ++ [c.inputRow item (some taskId) none]
      messages := db.messages ++ [inputMessage (c.inputRow item (some taskId) none) taskId] } ∧
    ∀ i ∈ db.inputs, (c.inputRow item (some taskId) none).conflicts i = false := by
  obtain ⟨db1, h1, h2⟩ := bind_eq_ok h
  obtain ⟨rfl, hfresh, -⟩ := insertInput_ok h1
  obtain ⟨rfl, -⟩ := insertDialogueMessage_ok h2
  exact ⟨rfl, hfresh⟩

theorem attachInput_ok {taskId : String} (h : attachInput c db item taskId = .ok db') :
    ¬ TaskEnded c.scope taskId db ∧ (∀ i ∈ db.inputs, (c.inputRow item (some taskId) none).conflicts i = false) ∧
      db' = touchTask { db with
        inputs := db.inputs ++ [c.inputRow item (some taskId) none]
        messages := db.messages ++ [inputMessage (c.inputRow item (some taskId) none) taskId] }
        c.scope taskId c.now := by
  unfold attachInput at h
  split at h
  · cases h
  rename_i task htask
  split at h
  · cases h
  rename_i hactive
  obtain ⟨db1, h1, h⟩ := bind_eq_ok h
  obtain rfl := Except.ok.inj h
  obtain ⟨rfl, hfresh⟩ := insertRoutedInput_ok h1
  refine ⟨?_, hfresh, rfl⟩
  rintro ⟨t, ht, hended⟩
  obtain rfl := Option.some.inj (htask.symm.trans ht)
  exact hactive hended

/-- A task id that no row has is not the one of an ended task. -/
theorem not_ended_of_fresh {taskId : String} {scope : Scope} (h : taskId ∉ db.tasks.map (·.id)) :
    ¬ TaskEnded scope taskId db := by
  rintro ⟨t, ht, -⟩
  have hid := List.find?_some ht
  simp only [isTask, Bool.and_eq_true, decide_eq_true_eq] at hid
  exact h (List.mem_map.mpr ⟨t, List.mem_of_find?_eq_some ht, hid.2⟩)

theorem Counted.step {r s : TaskRow} (h : Counted r) (hstep : TaskStep r s) : Counted s := by
  unfold Counted at h ⊢
  obtain ⟨hstatus, hrevision⟩ | ⟨hactive, hended, hrevision⟩ := hstep.state
  · rw [hstatus, hrevision, h]
  · rw [if_neg hended, hrevision, h, if_pos hactive]

theorem tasks_trans {t t' t'' : List TaskRow} (h : Grows TaskStep Counted t t')
    (h' : Grows TaskStep Counted t' t'') : Grows TaskStep Counted t t'' :=
  .trans (fun _ _ _ => TaskStep.trans) (fun _ _ => Counted.step) h h'

theorem tasks_touched (tasks : List TaskRow) (scope : Scope) (taskId : String) (now : Int) :
    Grows TaskStep Counted tasks
      (updateWhere (isTask scope taskId) (fun t => { t with updatedAt := now }) tasks) :=
  .updateWhere (fun _ _ _ => ⟨rfl, rfl, rfl, rfl, .inl ⟨rfl, rfl⟩⟩) fun r _ _ => .refl r

/-- The tasks are those that were there. -/
theorem drawn_of_ids {tasks tasks' : List TaskRow} (h : tasks'.map (·.id) = tasks.map (·.id)) {taskId : String} :
    ∀ t ∈ tasks', t.id ∈ tasks.map (·.id) ∨ t.id = taskId :=
  fun _ ht => .inl (h ▸ List.mem_map_of_mem ht)

theorem ids_touched (tasks : List TaskRow) (scope : Scope) (taskId : String) (now : Int) :
    (updateWhere (isTask scope taskId) (fun t => { t with updatedAt := now }) tasks).map (·.id) =
      tasks.map (·.id) :=
  map_updateWhere tasks fun _ _ => rfl

/-- The tasks are those that were there and a new one. -/
theorem drawn_of_append {tasks : List TaskRow} {row : TaskRow} :
    ∀ t ∈ tasks ++ [row], t.id ∈ tasks.map (·.id) ∨ t.id = row.id := by
  intro t ht
  obtain ht | ht := List.mem_append.mp ht
  · exact .inl (List.mem_map_of_mem ht)
  · exact .inr (congrArg TaskRow.id (List.mem_singleton.mp ht))

theorem tasks_kept (tasks : List TaskRow) : Grows TaskStep Counted tasks tasks := .refl fun r _ => .refl r

/-- An input that is stored under a task with its transcript row. -/
theorem plain_of_routed {taskId : String} {tasks : List TaskRow} (hdb : db'.tasks = tasks)
    (hinputs : db'.inputs = db.inputs ++ [c.inputRow item (some taskId) none])
    (hmessages : db'.messages = db.messages ++ [inputMessage (c.inputRow item (some taskId) none) taskId])
    (hfresh : ∀ i ∈ db.inputs, (c.inputRow item (some taskId) none).conflicts i = false)
    (hcurrent : ¬ TaskEnded c.scope taskId db) (htasks : Grows TaskStep Counted db.tasks tasks)
    (hdrawn : ∀ t ∈ tasks, t.id ∈ db.tasks.map (·.id) ∨ t.id = c.newTaskId item) (hplans : db'.plans = db.plans) :
    Plain c db db' item taskId (some taskId) none [inputMessage (c.inputRow item (some taskId) none) taskId] where
  inputs := by rw [updateWhere_false, hinputs]
  messages := by rw [filter_false, List.map_nil, List.append_nil, hmessages]
  fresh := hfresh
  mine := by simp [inputMessage]
  here := ⟨rfl, fun _ h => by cases h⟩
  current := .inl hcurrent
  tasks := hdb ▸ htasks
  drawn := hdb ▸ hdrawn
  plans := hplans

theorem applyCreate_effect {s : RouteState} {route : DialogueRoute} {r : RouteState × Assigned}
    (h : applyCreate c s item route = .ok r) : ∃ taskId, r.1.db.questions = s.db.questions ∧
      Plain c s.db r.1.db item taskId (some taskId) none
        [inputMessage (c.inputRow item (some taskId) none) taskId] := by
  unfold applyCreate at h
  split at h
  · split at h
    · cases h
    obtain ⟨db1, h1, h⟩ := bind_eq_ok h
    obtain ⟨db2, h2, h⟩ := bind_eq_ok h
    obtain ⟨db3, h3, h⟩ := bind_eq_ok h
    obtain rfl := Except.ok.inj h
    obtain ⟨rfl, hnew⟩ := insertTask_ok h1
    obtain ⟨rfl, hfresh⟩ := insertRoutedInput_ok h2
    obtain ⟨focus, rfl⟩ := setFocus_ok h3
    refine ⟨_, rfl, plain_of_routed rfl rfl rfl hfresh (not_ended_of_fresh hnew) ?_ drawn_of_append rfl⟩
    exact .append (fun r _ => .refl r) (by simp [Counted, Application.taskRow])
  · cases h

theorem applyStatus_effect {s : RouteState} {route : DialogueRoute} {r : RouteState × Assigned}
    (h : applyStatus c s item route = .ok r) : ∃ taskId, r.1.db.questions = s.db.questions ∧
      Plain c s.db r.1.db item taskId (some taskId) none [] := by
  unfold applyStatus at h
  split at h
  · cases h
  rename_i taskId _
  split at h
  · cases h
  obtain ⟨db1, h1, h⟩ := bind_eq_ok h
  obtain rfl := Except.ok.inj h
  obtain ⟨rfl, hfresh, -⟩ := insertInput_ok h1
  refine ⟨taskId, rfl, ?_, ?_, hfresh, by simp, ⟨rfl, fun _ h => by cases h⟩, .inr ⟨rfl, fun _ => rfl⟩,
    tasks_kept _, drawn_of_ids rfl, rfl⟩
  · rw [updateWhere_false]
  · simp

theorem applyAttach_effect {s : RouteState} {route : DialogueRoute} {r : RouteState × Assigned}
    (h : applyAttach c s item route = .ok r) : ∃ taskId, r.1.db.questions = s.db.questions ∧
      Plain c s.db r.1.db item taskId (some taskId) none
        [inputMessage (c.inputRow item (some taskId) none) taskId] := by
  obtain ⟨taskId, -, h⟩ := bind_eq_ok h
  obtain ⟨db1, h1, h⟩ := bind_eq_ok h
  obtain ⟨db2, h2, h⟩ := bind_eq_ok h
  obtain rfl := Except.ok.inj h
  obtain ⟨hcurrent, hfresh, rfl⟩ := attachInput_ok h1
  obtain ⟨focus, rfl⟩ := setFocus_ok h2
  exact ⟨taskId, rfl, plain_of_routed rfl rfl rfl hfresh hcurrent (tasks_touched _ _ _ _)
    (drawn_of_ids (ids_touched _ _ _ _)) rfl⟩

theorem applyEnd_effect {status : TaskStatus} (hs : status ≠ .active) {reason : String} {s : RouteState}
    {route : DialogueRoute} {r : RouteState × Assigned} (h : applyEnd c status reason s item route = .ok r) :
    ∃ taskId, r.1.db.questions = s.db.questions ∧
      Plain c s.db r.1.db item taskId (some taskId) none
        [inputMessage (c.inputRow item (some taskId) none) taskId] := by
  obtain ⟨taskId, -, h⟩ := bind_eq_ok h
  split at h
  · cases h
  split at h
  · cases h
  obtain ⟨db1, h1, h⟩ := bind_eq_ok h
  obtain rfl := Except.ok.inj h
  obtain ⟨hcurrent, hfresh, rfl⟩ := attachInput_ok h1
  have hids : ∀ db : Tables, (endTask c db taskId status).tasks.map (·.id) = db.tasks.map (·.id) :=
    fun db => map_updateWhere db.tasks fun _ _ => rfl
  refine ⟨taskId, rfl, plain_of_routed rfl rfl rfl hfresh hcurrent ?_
    (drawn_of_ids ((hids _).trans (ids_touched _ _ _ _))) rfl⟩
  refine tasks_trans (tasks_touched _ _ _ _) (.updateWhere (fun r _ hp => ?_) fun r _ _ => .refl r)
  refine ⟨rfl, rfl, rfl, rfl, .inr ⟨?_, hs, rfl⟩⟩
  simpa using ((Bool.and_eq_true _ _).mp hp).2

/-- A question keeps whether it waits and what it was resolved to. -/
structure QuestionKept (q q' : QuestionRow) : Prop where
  id : q'.id = q.id
  scope : q'.scope = q.scope
  status : q'.status = q.status
  resolvedTaskId : q'.resolvedTaskId = q.resolvedTaskId

theorem questions_kept (h : db'.questions = db.questions) :
    Grows QuestionKept (fun _ => True) db.questions db'.questions :=
  h ▸ .refl fun _ _ => ⟨rfl, rfl, rfl, rfl⟩

theorem createOrExtendQuestion_keeps {route : DialogueRoute} {questionId text : String} {r : Tables × ℕ}
    (h : createOrExtendQuestion c db item route questionId text = .ok r) :
    r.1.inputs = db.inputs ∧ r.1.messages = db.messages ∧ r.1.tasks = db.tasks ∧ r.1.plans = db.plans ∧
      Grows QuestionKept (fun _ => True) db.questions r.1.questions := by
  have hrefl : ∀ q : QuestionRow, QuestionKept q q := fun _ => ⟨rfl, rfl, rfl, rfl⟩
  unfold createOrExtendQuestion at h
  split at h
  · unfold extendQuestion at h
    split at h
    · cases h
    split at h
    · cases h
    split at h
    · cases h
    obtain ⟨candidates, -, h⟩ := bind_eq_ok h
    split at h
    · obtain rfl := Except.ok.inj h
      exact ⟨rfl, rfl, rfl, rfl, .refl fun q _ => hrefl q⟩
    split at h
    · cases h
    dsimp only at h
    split at h
    · cases h
    obtain rfl := Except.ok.inj h
    exact ⟨rfl, rfl, rfl, rfl, .updateWhere (fun _ _ _ => ⟨rfl, rfl, rfl, rfl⟩) fun q _ _ => hrefl q⟩
  · unfold newQuestion at h
    split at h
    · cases h
    obtain ⟨candidates, -, h⟩ := bind_eq_ok h
    obtain ⟨db1, h1, h⟩ := bind_eq_ok h
    obtain rfl := Except.ok.inj h
    obtain ⟨rfl, -⟩ := insertQuestion_ok h1
    exact ⟨rfl, rfl, rfl, rfl, .append (fun q _ => hrefl q) fun _ _ => trivial⟩

theorem applyQuestion_effect {s : RouteState} {route : DialogueRoute} {r : RouteState × Assigned}
    (h : applyQuestion c s item route = .ok r) : ∃ questionId target,
      Grows QuestionKept (fun _ => True) s.db.questions r.1.db.questions ∧
      (∃ q, getQuestionRow r.1.db c.scope questionId = some q ∧ q.status = .pending) ∧
      Plain c s.db r.1.db item target none (some questionId) [] := by
  obtain ⟨questionId', revision', -, hassigned, -, hasking⟩ := applyQuestion_asking h
  unfold applyQuestion at h
  split at h
  · rename_i questionId text _ _
    obtain ⟨⟨db1, revision⟩, h1, h⟩ := bind_eq_ok h
    obtain ⟨db2, h2, h⟩ := bind_eq_ok h
    obtain rfl := Except.ok.inj h
    obtain ⟨rfl, rfl⟩ : questionId = questionId' ∧ revision = revision' := by simpa using hassigned
    obtain ⟨rfl, hfresh, -⟩ := insertInput_ok h2
    obtain ⟨hinputs, hmessages, htasks, hplans, hquestions⟩ := createOrExtendQuestion_keeps h1
    obtain ⟨q, hq, -, hasked⟩ := hasking.after
    refine ⟨questionId, "", hquestions, ⟨q, hq, hasked.pending⟩, ?_, ?_, ?_, by simp,
      ⟨rfl, fun _ h => by cases h⟩, .inr ⟨rfl, fun _ => rfl⟩, ?_, drawn_of_ids ?_, hplans⟩
    · simp only [updateWhere_false]
      exact congrArg (· ++ _) hinputs
    · simpa using hmessages
    · exact hinputs ▸ hfresh
    · exact htasks ▸ tasks_kept _
    · exact congrArg (List.map TaskRow.id) htasks
  · cases h

/-- The waiting inputs get their transcript rows, one after the other. -/
theorem assignInputs_messages {taskId : String} {olds : List InputRow}
    (h : olds.foldlM (assignInput c taskId) db = .ok db') :
    db'.messages = db.messages ++ olds.map (inputMessage · taskId) ∧ db'.tasks = db.tasks ∧
      db'.plans = db.plans := by
  induction olds generalizing db with
  | nil =>
    obtain rfl := Except.ok.inj h
    simp
  | cons old olds ih =>
    rw [List.foldlM_cons] at h
    obtain ⟨db1, h1, h⟩ := bind_eq_ok h
    obtain ⟨hmessages, htasks, hplans⟩ := ih h
    unfold assignInput at h1
    dsimp only at h1
    split at h1
    · cases h1
    obtain ⟨rfl, -⟩ := insertDialogueMessage_ok h1
    exact ⟨by rw [hmessages, List.append_assoc]; rfl, htasks, hplans⟩

theorem resolvedTask_effect {route : DialogueRoute} {question : QuestionRow} {request : String}
    {r : Tables × String} (h : resolvedTask c db item route question request = .ok r) :
    r.1.messages = db.messages ∧ Grows TaskStep Counted db.tasks r.1.tasks ∧ ¬ TaskEnded c.scope r.2 db ∧
      (∀ t ∈ r.1.tasks, t.id ∈ db.tasks.map (·.id) ∨ t.id = c.newTaskId item) ∧ r.1.plans = db.plans := by
  unfold resolvedTask at h
  split at h
  · split at h
    · cases h
    obtain ⟨db1, h1, h⟩ := bind_eq_ok h
    obtain rfl := Except.ok.inj h
    obtain ⟨rfl, hnew⟩ := insertTask_ok h1
    exact ⟨rfl, .append (fun r _ => .refl r) (by simp [Counted, Application.taskRow]), not_ended_of_fresh hnew,
      drawn_of_append, rfl⟩
  · split at h
    · cases h
    split at h
    · cases h
    split at h
    · cases h
    rename_i task htask
    split at h
    · cases h
    rename_i hcurrent
    obtain rfl := Except.ok.inj h
    refine ⟨rfl, tasks_kept _, ?_, drawn_of_ids rfl, rfl⟩
    rintro ⟨t, ht, hended⟩
    obtain rfl := Option.some.inj (htask.symm.trans ht)
    simp [hended] at hcurrent

/-- A pending question is resolved to a task, and the other questions are kept. -/
structure Resolves (c : Application) (db db' : Tables) (questionId taskId : String) : Prop where
  before : ∃ q, getQuestionRow db c.scope questionId = some q ∧ q.status = .pending
  after : ∃ q, getQuestionRow db' c.scope questionId = some q ∧ q.status = .resolved ∧
    q.resolvedTaskId = some taskId
  others : ∀ scope id, ¬ (scope = c.scope ∧ id = questionId) →
    getQuestionRow db' scope id = getQuestionRow db scope id

theorem closeQuestion_resolves {question : QuestionRow} {taskId : String}
    (hq : getQuestionRow db c.scope question.id = some question) (hpending : question.status = .pending)
    (h : closeQuestion c db question taskId = .ok db') : db'.messages = db.messages ∧ db'.tasks = db.tasks ∧
      db'.plans = db.plans ∧ Resolves c db db' question.id taskId := by
  unfold closeQuestion at h
  dsimp only at h
  split at h
  · cases h
  obtain rfl := Except.ok.inj h
  have hfind := fun scope id => getQuestionRow_updateWhere db scope (fun q => isQuestion c.scope question.id q &&
      decide (q.status = .pending) && decide (q.revision = question.revision))
    (f := fun q => { q with
      status := .resolved, revision := q.revision + 1, resolvedTaskId := some taskId,
      resolvedAt := some c.now }) (fun _ => ⟨rfl, rfl⟩) id
  obtain ⟨-, hscope, -⟩ := getQuestionRow_id hq
  refine ⟨rfl, rfl, rfl, ⟨question, hq, hpending⟩, ⟨{ question with
    status := .resolved, revision := question.revision + 1, resolvedTaskId := some taskId,
    resolvedAt := some c.now }, (hfind c.scope question.id).trans ?_, rfl, rfl⟩,
    fun scope id hne => (hfind scope id).trans ?_⟩
  · rw [hq, Option.map_some, if_pos (by simp [isQuestion, hscope, hpending])]
  · cases hother : getQuestionRow db scope id with
    | none => rfl
    | some q =>
      obtain ⟨-, hscope', hid'⟩ := getQuestionRow_id hother
      rw [Option.map_some, if_neg]
      intro hp
      simp only [isQuestion, Bool.and_eq_true, decide_eq_true_eq] at hp
      exact hne ⟨hscope'.symm.trans hp.1.1.1, hid'.symm.trans hp.1.1.2⟩

theorem resolveQuestion_effect (hkeys : Keyed db) {route : DialogueRoute} {questionId : String} {revision : Int}
    {r : Tables × String} (h : resolveQuestion c db item route questionId revision = .ok r) :
    Resolves c db r.1 questionId r.2 ∧
      Effect c db r.1 (waits c.scope questionId) r.2 (c.inputRow item (some r.2) none)
        [inputMessage (c.inputRow item (some r.2) none) r.2] := by
  obtain ⟨hinputs, -⟩ := resolveQuestion_inputs hkeys h
  unfold resolveQuestion at h
  split at h
  · cases h
  rename_i question hquestion
  split at h
  · cases h
  rename_i hcurrent
  obtain ⟨_, -, h⟩ := bind_eq_ok h
  split at h
  · cases h
  rename_i first rest hwaiting
  obtain ⟨⟨db1, taskId⟩, h1, h⟩ := bind_eq_ok h
  obtain ⟨db2, h2, h⟩ := bind_eq_ok h
  obtain ⟨db3, h3, h⟩ := bind_eq_ok h
  obtain ⟨db4, h4, h⟩ := bind_eq_ok h
  obtain rfl := Except.ok.inj h
  obtain ⟨-, -, rfl⟩ := getQuestionRow_id hquestion
  have hpending : question.status = .pending := by
    simp only [Bool.or_eq_true, decide_eq_true_eq, not_or, not_not] at hcurrent
    exact hcurrent.1
  obtain ⟨hinputs1, hquestions1⟩ := resolvedTask_keeps h1
  obtain ⟨hmessages1, htasks1, hended, hdrawn1, hplans1⟩ := resolvedTask_effect h1
  have hquestion1 : getQuestionRow db1 c.scope question.id = some question :=
    (congrArg (List.find? (isQuestion c.scope question.id)) hquestions1).trans hquestion
  obtain ⟨hmessages2, htasks2, hplans2, hresolves⟩ := closeQuestion_resolves hquestion1 hpending h2
  obtain ⟨hinputs3, hquestions3⟩ := assignInputs_inputs h3
  obtain ⟨hmessages3, htasks3, hplans3⟩ := assignInputs_messages h3
  obtain ⟨rfl, hfresh⟩ := insertRoutedInput_ok h4
  have hsame : db3.tasks = db1.tasks := htasks3.trans htasks2
  refine ⟨⟨⟨question, hquestion, hpending⟩, ?_, fun scope id hne => ?_⟩, hinputs, ?_, ?_, by simp [inputMessage],
    ⟨rfl, fun i hi => ?_⟩, .inl hended, ?_, fun t ht => ?_, hplans3.trans (hplans2.trans hplans1)⟩
  · obtain ⟨q, hq, hstatus, htask⟩ := hresolves.after
    exact ⟨q, (congrArg (List.find? (isQuestion c.scope question.id)) hquestions3).trans hq, hstatus, htask⟩
  · have hclosed := hresolves.others scope id hne
    exact ((congrArg (List.find? (isQuestion scope id)) hquestions3).trans hclosed).trans
      (congrArg (List.find? (isQuestion scope id)) hquestions1)
  · have hall : db3.messages = db.messages ++ (db.inputs.filter (waits c.scope question.id)).map
        (inputMessage · taskId) := by
      rw [hmessages3, hmessages2, hmessages1, ← hwaiting]
      rfl
    exact congrArg (· ++ _) hall
  · intro i hi
    have hmoved : (if waits c.scope question.id i then { i with taskId := some taskId } else i) ∈ db3.inputs := by
      have hmem := mem_updateWhere_of_mem (p := waits c.scope question.id)
        (f := fun i => { i with taskId := some taskId }) hi
      have hinputs' : db3.inputs ++ [c.inputRow item (some taskId) none] = _ := hinputs
      rw [List.append_left_inj] at hinputs'
      exact hinputs' ▸ hmem
    have hsame : (c.inputRow item (some taskId) none).conflicts
        (if waits c.scope question.id i then { i with taskId := some taskId } else i) =
          (c.inputRow item (some taskId) none).conflicts i := by
      cases waits c.scope question.id i <;> rfl
    exact hsame.symm.trans (hfresh _ hmoved)
  · simp only [waits, Bool.and_eq_true, decide_eq_true_eq] at hi
    exact hi.1.1
  · refine tasks_trans ?_ (tasks_touched _ _ _ _)
    exact hsame ▸ htasks1
  · have hmem : t.id ∈ db1.tasks.map (·.id) := by
      rw [← hsame, ← ids_touched db3.tasks c.scope taskId c.now]
      exact List.mem_map_of_mem ht
    obtain ⟨t', ht', hid⟩ := List.mem_map.mp hmem
    rw [← hid]
    exact hdrawn1 t' ht'

theorem applyResolveQuestion_effect {s : RouteState} (hkeys : Keyed s.db) {route : DialogueRoute}
    {r : RouteState × Assigned} (h : applyResolveQuestion c s item route = .ok r) : ∃ questionId taskId,
      Resolves c s.db r.1.db questionId taskId ∧
      Effect c s.db r.1.db (waits c.scope questionId) taskId (c.inputRow item (some taskId) none)
        [inputMessage (c.inputRow item (some taskId) none) taskId] := by
  unfold applyResolveQuestion at h
  split at h
  · split at h
    · cases h
    obtain ⟨⟨db1, taskId⟩, h1, h⟩ := bind_eq_ok h
    obtain ⟨db2, h2, h⟩ := bind_eq_ok h
    obtain rfl := Except.ok.inj h
    obtain ⟨focus, rfl⟩ := setFocus_ok h2
    obtain ⟨⟨hbefore, hafter, hothers⟩, heffect⟩ := resolveQuestion_effect hkeys h1
    exact ⟨_, _, ⟨hbefore, hafter, hothers⟩, heffect.inputs, heffect.messages, heffect.fresh, heffect.mine,
      heffect.here, heffect.current, heffect.tasks, heffect.drawn, heffect.plans⟩
  · cases h

end Effects

section Placement

variable {c : Application} {db db' : Tables} {moved : InputRow → Bool} {target : String} {row : InputRow}
  {own : List DialogueMessageRow}

/-- Every transcript row of an input has its input. -/
def Known (db : Tables) : Prop :=
  ∀ m ∈ db.messages, ∀ inputId, m.inputId = some inputId → ∃ i ∈ db.inputs, i.scope = m.scope ∧ i.inputId = inputId

/-- A transcript row that is named after an input is the row of this input. -/
def Labelled (db : Tables) : Prop :=
  ∀ m ∈ db.messages, ∀ inputId, m.messageId = "input_" ++ inputId → m.inputId = some inputId

theorem ne_of_not_conflicts {i : InputRow} (h : row.conflicts i = false) :
    ¬ (i.scope = row.scope ∧ i.inputId = row.inputId) := by
  rintro ⟨hscope, hid⟩
  simp [InputRow.conflicts, hscope, hid] at h

theorem input_keys (hkeys : Keyed db) : (db.inputs.map fun i => (i.scope, i.inputId)).Nodup := by
  rw [List.Nodup, List.pairwise_map]
  exact hkeys.inputs.imp fun {i j} hij he =>
    ne_of_not_conflicts hij ⟨(Prod.mk.inj he).1, (Prod.mk.inj he).2⟩

/-- The transcript rows of an input that was there before. -/
theorem Effect.inputMessages_old (h : Effect c db db' moved target row own) (hkeys : Keyed db) {i : InputRow}
    (hi : i ∈ db.inputs) :
    inputMessages db' i = inputMessages db i ++ if moved i then [inputMessage i target] else [] := by
  have hown : own.filter (fun m => m.scope = i.scope && m.inputId = some i.inputId) = [] := by
    refine List.filter_eq_nil_iff.mpr fun m hm => ?_
    obtain ⟨hscope, hid, -⟩ := h.mine m hm
    have hne := ne_of_not_conflicts (h.fresh i hi)
    rw [hscope, hid]
    simp only [Bool.and_eq_true, decide_eq_true_eq, Option.some.injEq]
    exact fun ⟨hs, hn⟩ => hne ⟨hs.symm, hn.symm⟩
  have hmoved : ((db.inputs.filter moved).map (inputMessage · target)).filter
      (fun m => m.scope = i.scope && m.inputId = some i.inputId) = if moved i then [inputMessage i target] else [] := by
    have hkey : ((fun m : DialogueMessageRow => decide (m.scope = i.scope) && decide (m.inputId = some i.inputId)) ∘
        (inputMessage · target)) = fun o => decide ((o.scope, o.inputId) = (i.scope, i.inputId)) := by
      funext o
      simp [inputMessage, Prod.ext_iff]
    rw [List.filter_map, hkey, List.filter_comm, filter_of_key (input_keys hkeys) hi, List.filter_singleton]
    split <;> simp [*]
  rw [inputMessages, h.messages, List.filter_append, List.filter_append, hown, hmoved, List.append_nil]
  rfl

/-- The transcript rows of the stored input. -/
theorem Effect.inputMessages_new (h : Effect c db db' moved target row own) (hknown : Known db) :
    inputMessages db' row = own := by
  have hother : ∀ i ∈ db.inputs, ¬ (i.scope = row.scope ∧ i.inputId = row.inputId) :=
    fun i hi => ne_of_not_conflicts (h.fresh i hi)
  rw [inputMessages, h.messages, List.filter_append, List.filter_append, List.filter_eq_nil_iff.mpr,
    List.filter_eq_nil_iff.mpr, List.nil_append, List.nil_append, List.filter_eq_self]
  · intro m hm
    obtain ⟨hscope, hid, -⟩ := h.mine m hm
    simp [hscope, hid]
  · intro m hm hp
    obtain ⟨i, hi, rfl⟩ := List.mem_map.mp hm
    simp only [Bool.and_eq_true, decide_eq_true_eq] at hp
    exact hother i (List.mem_of_mem_filter hi) ⟨hp.1, Option.some.inj hp.2⟩
  · intro m hm hp
    simp only [Bool.and_eq_true, decide_eq_true_eq] at hp
    obtain ⟨i, hi, hscope, hid⟩ := hknown m hm _ hp.2
    exact hother i hi ⟨hscope.trans hp.1, hid⟩

theorem Effect.known (h : Effect c db db' moved target row own) (hknown : Known db) : Known db' := by
  have hmem : ∀ i ∈ db.inputs, ∃ j ∈ db'.inputs, j.scope = i.scope ∧ j.inputId = i.inputId := by
    intro i hi
    have hj := mem_updateWhere_of_mem (p := moved) (f := fun i => { i with taskId := some target }) hi
    refine ⟨_, h.inputs ▸ List.mem_append_left _ hj, ?_⟩
    split <;> exact ⟨rfl, rfl⟩
  intro m hm inputId hid
  rw [h.messages, List.append_assoc] at hm
  obtain hm | hm := List.mem_append.mp hm
  · obtain ⟨i, hi, hscope, hid⟩ := hknown m hm inputId hid
    obtain ⟨j, hj, hscope', hid'⟩ := hmem i hi
    exact ⟨j, hj, hscope'.trans hscope, hid'.trans hid⟩
  obtain hm | hm := List.mem_append.mp hm
  · obtain ⟨i, hi, rfl⟩ := List.mem_map.mp hm
    obtain ⟨j, hj, hscope, hid'⟩ := hmem i (List.mem_of_mem_filter hi)
    exact ⟨j, hj, hscope, hid'.trans (Option.some.inj hid)⟩
  · obtain ⟨hscope, hid', -⟩ := h.mine m hm
    refine ⟨row, h.inputs ▸ List.mem_append_right _ (List.mem_singleton_self row), hscope.symm, ?_⟩
    exact Option.some.inj (hid'.symm.trans hid)

theorem Effect.labelled (h : Effect c db db' moved target row own) (hlabelled : Labelled db) : Labelled db' := by
  intro m hm inputId hid
  rw [h.messages, List.append_assoc] at hm
  obtain hm | hm := List.mem_append.mp hm
  · exact hlabelled m hm inputId hid
  obtain hm | hm := List.mem_append.mp hm
  · obtain ⟨i, hi, rfl⟩ := List.mem_map.mp hm
    exact congrArg some ((String.append_right_inj "input_").mp hid)
  · obtain ⟨-, hinput, -, hlabel⟩ := h.mine m hm
    rw [hinput, (String.append_right_inj "input_").mp (hlabel.symm.trans hid)]

/-- An ended task gets no user row. -/
theorem Effect.userMessages (h : Effect c db db' moved target row own) {scope : Scope} {taskId : String}
    (hended : TaskEnded scope taskId db) : userMessages db' scope taskId = userMessages db scope taskId := by
  have hnew : ∀ m ∈ (db.inputs.filter moved).map (inputMessage · target) ++ own,
      ¬ (m.scope = scope ∧ m.taskId = taskId) := by
    rintro m hm ⟨hscope, htask⟩
    have hboth : m.scope = c.scope ∧ m.taskId = target ∧ ((db.inputs.filter moved) ≠ [] ∨ own ≠ []) := by
      obtain hm | hm := List.mem_append.mp hm
      · obtain ⟨i, hi, rfl⟩ := List.mem_map.mp hm
        exact ⟨h.here.2 i (List.mem_filter.mp hi).2, rfl, .inl (List.ne_nil_of_mem hi)⟩
      · obtain ⟨hm', -, htask', -⟩ := h.mine m hm
        exact ⟨hm'.trans h.here.1, htask', .inr (List.ne_nil_of_mem hm)⟩
    obtain ⟨hhere, htarget, hsome⟩ := hboth
    obtain hcurrent | ⟨hown, hmoved⟩ := h.current
    · exact hcurrent (htarget ▸ htask ▸ hhere ▸ hscope ▸ hended)
    · have hnone : db.inputs.filter moved = [] := List.filter_eq_nil_iff.mpr fun i _ => by simp [hmoved i]
      exact hsome.elim (absurd hnone) (absurd hown)
  have hnone : ((db.inputs.filter moved).map (inputMessage · target) ++ own).filter
      (fun m => m.scope = scope && m.taskId = taskId && m.role = .user) = [] := by
    refine List.filter_eq_nil_iff.mpr fun m hm hp => hnew m hm ?_
    simp only [Bool.and_eq_true, decide_eq_true_eq] at hp
    exact hp.1
  rw [Dialogue.userMessages, h.messages, List.append_assoc, List.filter_append, hnone, List.append_nil]
  rfl

theorem Transcribed.congr {i j : InputRow} {taskId : String} (h : Transcribed db i taskId)
    (htask : j.taskId = i.taskId) (htext : j.text = i.text) (hactor : j.actorId = i.actorId)
    (hmessages : inputMessages db' j = inputMessages db i) : Transcribed db' j taskId := by
  obtain ⟨hassigned, m, hm, hrole, htask', htext', hactor'⟩ := h
  exact ⟨htask.trans hassigned, m, hmessages.trans hm, hrole, htask', htext'.trans htext.symm,
    hactor'.trans (congrArg some hactor.symm)⟩

/-- An input that a route does not move stays where it is. -/
theorem Placed.unmoved {i : InputRow} {a : RouteAction} (h : Placed db i a)
    (hmessages : inputMessages db' i = inputMessages db i)
    (hquestion : ∀ questionId q, i.questionId = some questionId → getQuestionRow db i.scope questionId = some q →
      (q.status = .pending → i.taskId = none) → ∃ q', getQuestionRow db' i.scope questionId = some q' ∧
        q'.status = q.status ∧ q'.resolvedTaskId = q.resolvedTaskId) : Placed db' i a := by
  have htranscribed : ∀ taskId, Transcribed db i taskId → Transcribed db' i taskId :=
    fun _ ht => ht.congr rfl rfl rfl hmessages
  cases a with
  | status => exact ⟨h.1, hmessages.trans h.2⟩
  | question =>
    obtain ⟨questionId, q, hid, hq, hplace⟩ := h
    have hwaits : q.status = .pending → i.taskId = none := by
      intro hpending
      obtain ⟨-, hnone, -⟩ | ⟨hresolved, -⟩ := hplace
      · exact hnone
      · rw [hpending] at hresolved
        cases hresolved
    obtain ⟨q', hq', hstatus, htask⟩ := hquestion questionId q hid hq hwaits
    refine ⟨questionId, q', hid, hq', ?_⟩
    rw [hstatus, htask]
    obtain ⟨hpending, hnone, hempty⟩ | ⟨hresolved, taskId, htarget, ht⟩ := hplace
    · exact .inl ⟨hpending, hnone, hmessages.trans hempty⟩
    · exact .inr ⟨hresolved, taskId, htarget, htranscribed taskId ht⟩
  | create | attach | resolveQuestion | close | cancel =>
    obtain ⟨taskId, ht⟩ := h
    exact ⟨taskId, htranscribed taskId ht⟩

/-- An input without a task waits for its question. -/
theorem Placed.waiting {i : InputRow} {a : RouteAction} (h : Placed db i a) (hnone : i.taskId = none)
    {questionId : String} {q : QuestionRow} (hid : i.questionId = some questionId)
    (hq : getQuestionRow db i.scope questionId = some q) (hpending : q.status = .pending) :
    a = .question ∧ inputMessages db i = [] := by
  cases a with
  | status => simp [Placed, hnone] at h
  | question =>
    obtain ⟨questionId', q', hid', hq', hplace⟩ := h
    obtain rfl := Option.some.inj (hid.symm.trans hid')
    obtain rfl := Option.some.inj (hq.symm.trans hq')
    obtain ⟨-, -, hempty⟩ | ⟨hresolved, -⟩ := hplace
    · exact ⟨rfl, hempty⟩
    · rw [hpending] at hresolved
      cases hresolved
  | create | attach | resolveQuestion | close | cancel =>
    obtain ⟨taskId, htask, -⟩ := h
    rw [hnone] at htask
    cases htask

theorem RoutedBy.congr {plans : List PlanRow} {i j : InputRow} {a : RouteAction} (h : RoutedBy plans i a)
    (hscope : j.scope = i.scope) (hplan : j.planId = i.planId) (hid : j.inputId = i.inputId) :
    RoutedBy plans j a := by
  obtain ⟨p, hp, hpscope, hpplan, plan, route, hdata, hroute, haction⟩ := h
  exact ⟨p, hp, hpscope.trans hscope.symm, hpplan.trans hplan.symm, plan, route, hdata, hid ▸ hroute, haction⟩

/-- Every input is where its route has put it. -/
def AllPlaced (plans : List PlanRow) (db : Tables) : Prop :=
  ∀ i ∈ db.inputs, ∃ a, RoutedBy plans i a ∧ Placed db i a

/-- A route that moves no input keeps the inputs that were there. -/
theorem AllPlaced.plain {plans : List PlanRow} (h : AllPlaced plans db) (hkeys : Keyed db)
    (heffect : Effect c db db' (fun _ => false) target row own)
    (hquestions : Grows QuestionKept (fun _ => True) db.questions db'.questions) {a : RouteAction}
    (hrow : RoutedBy plans row a) (hplaced : Placed db' row a) : AllPlaced plans db' := by
  intro i hi
  rw [heffect.inputs, updateWhere_false] at hi
  obtain hi | hi := List.mem_append.mp hi
  · obtain ⟨b, hrouted, hold⟩ := h i hi
    refine ⟨b, hrouted, hold.unmoved ?_ fun questionId q _ hq _ => ?_⟩
    · rw [heffect.inputMessages_old hkeys hi]
      simp
    · obtain ⟨q', hq', hkept⟩ := hquestions.find? (fun q _ q' hkept => by
        simp only [isQuestion, hkept.scope, hkept.id]) hq
      exact ⟨q', hq', hkept.status, hkept.resolvedTaskId⟩
  · obtain rfl := List.mem_singleton.mp hi
    exact ⟨a, hrow, hplaced⟩

/-- A resolution moves the inputs that wait for its question and keeps the others. -/
theorem AllPlaced.resolved {plans : List PlanRow} (h : AllPlaced plans db) (hkeys : Keyed db) {questionId : String}
    (heffect : Effect c db db' (waits c.scope questionId) target row own)
    (hresolves : Resolves c db db' questionId target) {a : RouteAction} (hrow : RoutedBy plans row a)
    (hplaced : Placed db' row a) : AllPlaced plans db' := by
  obtain ⟨q0, hq0, hpending0⟩ := hresolves.before
  obtain ⟨q1, hq1, hresolved1, htarget1⟩ := hresolves.after
  intro i hi
  rw [heffect.inputs] at hi
  obtain hi | hi := List.mem_append.mp hi
  · obtain ⟨o, ho, hwaits, rfl⟩ | ⟨ho, hwaits⟩ := mem_updateWhere.mp hi
    · obtain ⟨b, hrouted, hold⟩ := h o ho
      have hmessages := heffect.inputMessages_old hkeys ho
      rw [if_pos hwaits] at hmessages
      simp only [waits, Bool.and_eq_true, decide_eq_true_eq, Option.isNone_iff_eq_none] at hwaits
      obtain ⟨⟨hscope, hid⟩, hnone⟩ := hwaits
      obtain ⟨rfl, hempty⟩ := hold.waiting hnone hid (hscope ▸ hq0) hpending0
      rw [hempty, List.nil_append] at hmessages
      refine ⟨.question, hrouted.congr rfl rfl rfl, questionId, q1, hid, hscope ▸ hq1,
        .inr ⟨hresolved1, target, htarget1, rfl, inputMessage o target, hmessages, rfl, rfl, rfl, rfl⟩⟩
    · obtain ⟨b, hrouted, hold⟩ := h i ho
      refine ⟨b, hrouted, hold.unmoved ?_ fun id q hid hq hnone => ?_⟩
      · rw [heffect.inputMessages_old hkeys ho, hwaits]
        simp
      · by_cases hsame : i.scope = c.scope ∧ id = questionId
        · obtain ⟨hscope, rfl⟩ := hsame
          obtain rfl := Option.some.inj (hq0.symm.trans (hscope ▸ hq))
          simp [waits, hscope, hid, hnone hpending0] at hwaits
        · exact ⟨q, (hresolves.others i.scope id hsame).trans hq, rfl, rfl⟩
  · obtain rfl := List.mem_singleton.mp hi
    exact ⟨a, hrow, hplaced⟩

end Placement

section Plans

variable {c : Application} {db db' : Tables}

/-- The rows that say where the inputs are. -/
structure Conserved (plans : List PlanRow) (db : Tables) : Prop where
  known : Known db
  labelled : Labelled db
  placed : AllPlaced plans db

/-- Tasks are counted, and an ended task gets no user row. -/
structure Keeps (db db' : Tables) : Prop where
  tasks : Grows TaskStep Counted db.tasks db'.tasks
  ended : ∀ scope taskId, TaskEnded scope taskId db → userMessages db' scope taskId = userMessages db scope taskId

theorem TaskEnded.grows (h : Grows TaskStep Counted db.tasks db'.tasks) {scope : Scope} {taskId : String}
    (hended : TaskEnded scope taskId db) : TaskEnded scope taskId db' := by
  obtain ⟨t, ht, hstatus⟩ := hended
  obtain ⟨t', ht', hstep⟩ := h.find? (q := isTask scope taskId)
    (fun r _ s hs => by simp only [isTask, hs.scope, hs.id]) ht
  refine ⟨t', ht', ?_⟩
  obtain ⟨hsame, -⟩ | ⟨hactive, -, -⟩ := hstep.state
  · rwa [hsame]
  · exact absurd hactive hstatus

theorem Keeps.refl (db : Tables) : Keeps db db := ⟨tasks_kept _, fun _ _ _ => rfl⟩

theorem Keeps.trans {db'' : Tables} (h : Keeps db db') (h' : Keeps db' db'') : Keeps db db'' where
  tasks := tasks_trans h.tasks h'.tasks
  ended scope taskId hended :=
    (h'.ended scope taskId (hended.grows h.tasks)).trans (h.ended scope taskId hended)

theorem Effect.keeps {moved : InputRow → Bool} {target : String} {row : InputRow} {own : List DialogueMessageRow}
    (h : Effect c db db' moved target row own) : Keeps db db' :=
  ⟨h.tasks, fun _ _ hended => h.userMessages hended⟩

/-- The row of a plan with its scope, its id and its data. -/
def IsRecorded (c : Application) (plans : List PlanRow) : Prop :=
  ∃ p ∈ plans, p.scope = c.scope ∧ p.planId = c.plan.planId ∧ p.plan = planData c.plan

theorem routedBy_of_recorded {plans : List PlanRow} (h : IsRecorded c plans) {item : DialogueInput}
    {route : DialogueRoute} (hroute : routeFor c.plan item.inputId = .ok route) (taskId questionId : Option String) :
    RoutedBy plans (c.inputRow item taskId questionId) route.action := by
  obtain ⟨p, hp, hscope, hplan, hdata⟩ := h
  exact ⟨p, hp, hscope, hplan, c.plan, route, hdata, hroute, rfl⟩

theorem applyRoute_conserved {plans : List PlanRow} (hrecorded : IsRecorded c plans) {s : RouteState}
    (hkeys : Keyed s.db) (hs : Conserved plans s.db) {item : DialogueInput} {route : DialogueRoute}
    (hroute : routeFor c.plan item.inputId = .ok route) {r : RouteState × Assigned}
    (h : applyRoute c s item route = .ok r) : Conserved plans r.1.db ∧ Keeps s.db r.1.db := by
  have htranscribed : ∀ taskId, Effect c s.db r.1.db (fun _ => false) taskId (c.inputRow item (some taskId) none)
      [inputMessage (c.inputRow item (some taskId) none) taskId] →
      Transcribed r.1.db (c.inputRow item (some taskId) none) taskId :=
    fun taskId heffect => ⟨rfl, _, heffect.inputMessages_new hs.known, rfl, rfl, rfl, rfl⟩
  have hplain : (∀ taskId, Transcribed r.1.db (c.inputRow item (some taskId) none) taskId →
        Placed r.1.db (c.inputRow item (some taskId) none) route.action) →
      (∃ taskId, r.1.db.questions = s.db.questions ∧ Plain c s.db r.1.db item taskId (some taskId) none
        [inputMessage (c.inputRow item (some taskId) none) taskId]) →
      Conserved plans r.1.db ∧ Keeps s.db r.1.db := by
    rintro hplaced ⟨taskId, hquestions, heffect⟩
    exact ⟨⟨heffect.known hs.known, heffect.labelled hs.labelled,
      hs.placed.plain hkeys heffect (questions_kept hquestions) (routedBy_of_recorded hrecorded hroute _ _)
        (hplaced taskId (htranscribed taskId heffect))⟩, heffect.keeps⟩
  unfold applyRoute at h
  cases ha : route.action with
  | create =>
    exact hplain (fun taskId ht => ha ▸ ⟨taskId, ht⟩) (applyCreate_effect (by simpa [ha] using h))
  | attach =>
    exact hplain (fun taskId ht => ha ▸ ⟨taskId, ht⟩) (applyAttach_effect (by simpa [ha] using h))
  | close =>
    simp only [ha, applyClose] at h
    exact hplain (fun taskId ht => ha ▸ ⟨taskId, ht⟩) (applyEnd_effect (by decide) h)
  | cancel =>
    simp only [ha, applyCancel] at h
    exact hplain (fun taskId ht => ha ▸ ⟨taskId, ht⟩) (applyEnd_effect (by decide) h)
  | status =>
    obtain ⟨taskId, hquestions, heffect⟩ := applyStatus_effect (by simpa [ha] using h)
    refine ⟨⟨heffect.known hs.known, heffect.labelled hs.labelled,
      hs.placed.plain hkeys heffect (questions_kept hquestions) (routedBy_of_recorded hrecorded hroute _ _) ?_⟩,
      heffect.keeps⟩
    rw [ha]
    exact ⟨rfl, heffect.inputMessages_new hs.known⟩
  | question =>
    obtain ⟨questionId, target, hquestions, ⟨q, hq, hpending⟩, heffect⟩ :=
      applyQuestion_effect (by simpa [ha] using h)
    refine ⟨⟨heffect.known hs.known, heffect.labelled hs.labelled, hs.placed.plain hkeys heffect hquestions
      (routedBy_of_recorded hrecorded hroute _ _) ?_⟩, heffect.keeps⟩
    rw [ha]
    exact ⟨questionId, q, rfl, hq, .inl ⟨hpending, rfl, heffect.inputMessages_new hs.known⟩⟩
  | resolveQuestion =>
    obtain ⟨questionId, taskId, hresolves, heffect⟩ :=
      applyResolveQuestion_effect hkeys (by simpa [ha] using h)
    refine ⟨⟨heffect.known hs.known, heffect.labelled hs.labelled, hs.placed.resolved hkeys heffect hresolves
      (routedBy_of_recorded hrecorded hroute _ _) ?_⟩, heffect.keeps⟩
    rw [ha]
    exact ⟨taskId, rfl, _, heffect.inputMessages_new hs.known, rfl, rfl, rfl, rfl⟩

theorem applyRoutes_conserved {plans : List PlanRow} (hrecorded : IsRecorded c plans) {s : RouteState}
    (hkeys : Keyed s.db) (hs : Conserved plans s.db) {items : List DialogueInput}
    {r : RouteState × List (String × Assigned)} (h : applyRoutes c s items = .ok r) :
    Conserved plans r.1.db ∧ Keeps s.db r.1.db := by
  induction items generalizing s r with
  | nil =>
    obtain rfl := Except.ok.inj h
    exact ⟨hs, .refl s.db⟩
  | cons item items ih =>
    obtain ⟨route, hroute, h⟩ := bind_eq_ok h
    obtain ⟨⟨s1, assigned⟩, h1, h⟩ := bind_eq_ok h
    obtain ⟨⟨s2, others⟩, h2, h⟩ := bind_eq_ok h
    obtain rfl := Except.ok.inj h
    obtain ⟨hs1, hkeeps1⟩ := applyRoute_conserved hrecorded hkeys hs hroute h1
    obtain ⟨hs2, hkeeps2⟩ := ih ((applyRoute_step h1).keys hkeys) hs1 h2
    exact ⟨hs2, hkeeps1.trans hkeeps2⟩

theorem Conserved.mono {plans plans' : List PlanRow} (h : Conserved plans db) (hsub : ∀ p ∈ plans, p ∈ plans') :
    Conserved plans' db := by
  refine ⟨h.known, h.labelled, fun i hi => ?_⟩
  obtain ⟨a, ⟨p, hp, hrouted⟩, hplaced⟩ := h.placed i hi
  exact ⟨a, ⟨p, hsub p hp, hrouted⟩, hplaced⟩

theorem applyDialoguePlan_conserved (hkeys : Keyed db) (hdb : Conserved db.plans db)
    {r : Tables × DialoguePlanResult} (h : applyDialoguePlan c db = .ok r) :
    Conserved r.1.plans r.1 ∧ Keeps db r.1 := by
  obtain hsame | h := applyDialoguePlan_ok h
  · rw [hsame]
    exact ⟨hdb, .refl db⟩
  obtain ⟨s, assigned, hroutes, -, -, -, hinsert⟩ := commitPlan_ok h
  obtain ⟨hr, -⟩ := insertPlan_ok hinsert
  have hsub : ∀ p ∈ db.plans, p ∈ s.db.plans ++ [planRow c r.2] := by
    intro p hp
    obtain ⟨p', hp', rfl⟩ := (applyRoutes_step hroutes).plans.exists_of_mem hp
    exact List.mem_append_left _ hp'
  have hrecorded : IsRecorded c (s.db.plans ++ [planRow c r.2]) :=
    ⟨planRow c r.2, List.mem_append_right _ (List.mem_singleton_self _), rfl, rfl, rfl⟩
  obtain ⟨hs, hkeeps⟩ := applyRoutes_conserved hrecorded hkeys (hdb.mono hsub) hroutes
  rw [hr]
  exact ⟨⟨hs.known, hs.labelled, hs.placed⟩, hkeeps.tasks, hkeeps.ended⟩

/-- A call that is no plan leaves the inputs where they are. -/
theorem Conserved.of_same {plans : List PlanRow} (h : Conserved plans db) (hinputs : db'.inputs = db.inputs)
    (hquestions : db'.questions = db.questions) {new : List DialogueMessageRow}
    (hmessages : db'.messages = db.messages ++ new) (hnew : ∀ m ∈ new, m.inputId = none)
    (hnames : ∀ m ∈ new, ∀ inputId, m.messageId ≠ "input_" ++ inputId) : Conserved plans db' := by
  refine ⟨fun m hm inputId hid => ?_, fun m hm inputId hid => ?_, fun i hi => ?_⟩
  · rw [hmessages] at hm
    obtain hm | hm := List.mem_append.mp hm
    · exact hinputs ▸ h.known m hm inputId hid
    · rw [hnew m hm] at hid
      cases hid
  · rw [hmessages] at hm
    obtain hm | hm := List.mem_append.mp hm
    · exact h.labelled m hm inputId hid
    · exact absurd hid (hnames m hm inputId)
  · obtain ⟨a, hrouted, hplaced⟩ := h.placed i (hinputs ▸ hi)
    refine ⟨a, hrouted, hplaced.unmoved ?_ fun questionId q _ hq _ => ⟨q, ?_, rfl, rfl⟩⟩
    · have hnone : new.filter (fun m => m.scope = i.scope && m.inputId = some i.inputId) = [] :=
        List.filter_eq_nil_iff.mpr fun m hm => by simp [hnew m hm]
      rw [inputMessages, hmessages, List.filter_append, hnone, List.append_nil]
      rfl
    · exact (congrArg (List.find? (isQuestion i.scope questionId)) hquestions).trans hq

/-- The transcript row of a sent message is not named after an input. -/
theorem outbound_ne_input (a b : String) : "outbound_" ++ a ≠ "input_" ++ b := by
  intro h
  have hlist := congrArg String.toList h
  rw [String.toList_append, String.toList_append] at hlist
  have ho : "outbound_".toList = 'o' :: "utbound_".toList := by decide
  have hi : "input_".toList = 'i' :: "nput_".toList := by decide
  rw [ho, hi, List.cons_append, List.cons_append] at hlist
  exact absurd (List.cons.inj hlist).1 (by decide)

theorem perform_conserved (hid : (db.outbound.map (·.id)).Nodup) (hkeys : Keyed db) (call : Call)
    (hdb : Conserved db.plans db) :
    Conserved (perform db call).plans (perform db call) ∧ Keeps db (perform db call) := by
  generalize hdb' : perform db call = db'
  have hperformed : Performed db call db' := hdb' ▸ perform_performed hid call
  cases hperformed with
  | same => exact ⟨hdb, .refl db⟩
  | outbound | resolved =>
    exact ⟨hdb.of_same rfl rfl (List.append_nil _).symm (by simp) (by simp), tasks_kept _, fun _ _ _ => rfl⟩
  | planned h => exact applyDialoguePlan_conserved hkeys hdb h
  | sent _ _ _ hproj =>
    have htasks : Grows TaskStep Counted db.tasks db'.tasks := hproj.tasks.mono (fun _ _ _ h => h) fun _ h => h.elim
    obtain ⟨-, hmessages⟩ | ⟨taskId, externalId, now, -, hmessages, -⟩ := hproj.messages
    · refine ⟨hproj.plans ▸ hdb.of_same hproj.inputs hproj.questions (hmessages.trans (List.append_nil _).symm)
        (by simp) (by simp), htasks, fun _ _ _ => ?_⟩
      rw [userMessages, hmessages]
      rfl
    · refine ⟨hproj.plans ▸ hdb.of_same hproj.inputs hproj.questions hmessages (by simp [Outbound.assistantMessage])
        (by simpa [Outbound.assistantMessage] using outbound_ne_input _), htasks,
        fun _ _ _ => ?_⟩
      rw [userMessages, hmessages, List.filter_append]
      simp [Outbound.assistantMessage, userMessages]

theorem runCalls_conserved (calls : List Call) : Conserved (runCalls calls).plans (runCalls calls) ∧
    ∀ t ∈ (runCalls calls).tasks, Counted t := by
  induction calls using List.reverseRecOn with
  | nil =>
    refine ⟨⟨?_, ?_, ?_⟩, ?_⟩
    · intro m hm
      cases hm
    · intro m hm
      cases hm
    · intro i hi
      cases hi
    · intro t ht
      cases ht
  | append_singleton calls call ih =>
    rw [runCalls_snoc]
    obtain ⟨hconserved, hkeeps⟩ := perform_conserved (runCalls_distinct calls).ids (runCalls_keyed calls) call ih.1
    exact ⟨hconserved, hkeeps.tasks.forall_mem ih.2 (fun _ _ _ hstep h => h.step hstep) fun _ h => h⟩

theorem runCalls_keeps (calls later : List Call) : Keeps (runCalls calls) (runCalls (calls ++ later)) := by
  induction later using List.reverseRecOn with
  | nil =>
    rw [List.append_nil]
    exact .refl _
  | append_singleton later call ih =>
    rw [← List.append_assoc, runCalls_snoc]
    exact ih.trans (perform_conserved (runCalls_distinct _).ids (runCalls_keyed _) call (runCalls_conserved _).1).2

/-- One plan has routed an input, with one action. -/
theorem RoutedBy.unique (hkeys : Keyed db) {i : InputRow} {a b : RouteAction} (ha : RoutedBy db.plans i a)
    (hb : RoutedBy db.plans i b) : a = b := by
  obtain ⟨p, hp, hscope, hplan, plan, route, hdata, hroute, rfl⟩ := ha
  obtain ⟨p', hp', hscope', hplan', plan', route', hdata', hroute', rfl⟩ := hb
  obtain rfl := eq_of_key hkeys.plans hp hp' (Prod.ext (hscope.trans hscope'.symm) (hplan.trans hplan'.symm))
  obtain rfl := planData_inj (hdata.symm.trans hdata')
  rw [Except.ok.inj (hroute.symm.trans hroute')]

end Plans

/-- In every state that calls reach, every input is where its route has put it, every task is counted, and a
task that has ended gets no user row any more. -/
theorem dialogue_inputs_conserved (calls : List Call) :
    (∀ i ∈ (runCalls calls).inputs, (∃ a, RoutedBy (runCalls calls).plans i a) ∧
      ∀ a, RoutedBy (runCalls calls).plans i a → Placed (runCalls calls) i a) ∧
    (∀ t ∈ (runCalls calls).tasks, Counted t) ∧
    ∀ later scope taskId, TaskEnded scope taskId (runCalls calls) →
      userMessages (runCalls (calls ++ later)) scope taskId = userMessages (runCalls calls) scope taskId := by
  obtain ⟨hconserved, hcounted⟩ := runCalls_conserved calls
  refine ⟨fun i hi => ?_, hcounted, fun later => (runCalls_keeps calls later).ended⟩
  obtain ⟨a, hrouted, hplaced⟩ := hconserved.placed i hi
  exact ⟨⟨a, hrouted⟩, fun b hb => RoutedBy.unique (runCalls_keyed calls) hrouted hb ▸ hplaced⟩

end Soveren.Dialogue
