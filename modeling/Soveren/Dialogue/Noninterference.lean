import Mathlib.Data.Bool.Basic
import Soveren.Dialogue.Constraints
import Soveren.Relational.Confined

/-! Route plans of different conversations. A plan reads and writes the rows of its scope; the primary key of
the questions reaches across the scopes. -/
namespace Soveren.Dialogue
open Soveren.Relational Soveren.Conversation

section Parts

/-- The dialogue and outbound rows of the scopes that a condition selects. -/
def part (p : Scope → Bool) (db : Tables) : Tables where
  outbound := db.outbound.filter (p ·.scope)
  tasks := db.tasks.filter (p ·.scope)
  questions := db.questions.filter (p ·.scope)
  plans := db.plans.filter (p ·.scope)
  inputs := db.inputs.filter (p ·.scope)
  messages := db.messages.filter (p ·.scope)
  focus := db.focus.filter (p ·.scope)
  references := db.references.filter (p ·.scope)

/-- The rows of one scope. -/
def own (scope : Scope) : Tables → Tables := part (· = scope)

/-- The rows of the other scopes. -/
def others (scope : Scope) : Tables → Tables := part (· ≠ scope)

end Parts

section Reads

variable (db : Tables) (scope : Scope)

theorem getTaskRow_own (taskId : String) : getTaskRow (own scope db) scope taskId = getTaskRow db scope taskId :=
  find?_eq_filter_head? fun t ht => by simp only [isTask, Bool.and_eq_true] at ht; exact ht.1

theorem getQuestionRow_own (questionId : String) :
    getQuestionRow (own scope db) scope questionId = getQuestionRow db scope questionId :=
  find?_eq_filter_head? fun q hq => by simp only [isQuestion, Bool.and_eq_true] at hq; exact hq.1

theorem taskKeyHolds_own (taskId : Option String) :
    taskKeyHolds (own scope db) scope taskId = taskKeyHolds db scope taskId := by
  simp only [taskKeyHolds, getTaskRow_own]

theorem questionKeyHolds_own (questionId : Option String) :
    questionKeyHolds (own scope db) scope questionId = questionKeyHolds db scope questionId := by
  simp only [questionKeyHolds, getQuestionRow_own]

theorem anyInput_own (inputId : String) :
    (own scope db).inputs.any (isInput scope inputId) = db.inputs.any (isInput scope inputId) :=
  any_part fun i hi => by simp only [isInput, Bool.and_eq_true] at hi; exact hi.1

theorem inputKeyHolds_own (inputId : Option String) :
    inputKeyHolds (own scope db) scope inputId = inputKeyHolds db scope inputId := by
  simp only [inputKeyHolds, anyInput_own]

end Reads

section Statements

variable {db : Tables} {c : Application}

/-- A statement of a plan on the tables, and the same on the rows of its scope. -/
abbrev Local (c : Application) (db : Tables) (x y : Except StoreError Tables) : Prop :=
  Confined (own c.scope) (others c.scope) id (own c.scope) db x y

/-- A statement that also returns a value. -/
abbrev LocalTo {α : Type} (c : Application) (db : Tables) (x y : Except StoreError (Tables × α)) : Prop :=
  Confined (own c.scope) (others c.scope) Prod.fst (fun r => (own c.scope r.1, r.2)) db x y

/-- A row that is added to the scope of the plan. -/
theorem filter_snoc_own {α : Type} {scope : α → Scope} {row : α} (h : scope row = c.scope) (t : List α) :
    (t ++ [row]).filter (fun r => decide (scope r = c.scope)) =
      t.filter (fun r => decide (scope r = c.scope)) ++ [row] := by
  rw [List.filter_append, List.filter_cons_of_pos (by simpa using h), List.filter_nil]

theorem filter_snoc_others {α : Type} {scope : α → Scope} {row : α} (h : scope row = c.scope) (t : List α) :
    (t ++ [row]).filter (fun r => decide (scope r ≠ c.scope)) = t.filter (fun r => decide (scope r ≠ c.scope)) := by
  rw [List.filter_append, List.filter_cons_of_neg (by simpa using h), List.filter_nil, List.append_nil]

/-- A row of another scope decides nothing about a condition that its table checks. -/
theorem any_own {α : Type} {scope : α → Scope} {p : α → Bool} {t : List α}
    (h : ∀ r ∈ t, scope r ≠ c.scope → p r = false) :
    (t.filter fun r => decide (scope r = c.scope)).any p = t.any p := by
  rw [List.any_filter, Bool.eq_iff_iff]
  simp only [List.any_eq_true, Bool.and_eq_true, decide_eq_true_eq]
  constructor
  · rintro ⟨r, hr, -, hp⟩
    exact ⟨r, hr, hp⟩
  · rintro ⟨r, hr, hp⟩
    refine ⟨r, hr, ?_, hp⟩
    by_contra hne
    rw [h r hr hne] at hp
    cases hp

theorem insertTask_local (row : TaskRow) (hrow : row.scope = c.scope)
    (hfresh : ∀ t ∈ db.tasks, t.scope ≠ c.scope → t.id ≠ row.id) :
    Local c db (insertTask db row) (insertTask (own c.scope db) row) := by
  refine .guard ?_ ?_ ?_
  · rw [own, part, any_own fun t ht hne => by simpa using hfresh t ht hne]
  · simp only [own, part, filter_snoc_own hrow]
  · simp only [id, others, part, filter_snoc_others hrow]

theorem insertQuestion_local {row : QuestionRow} (hrow : row.scope = c.scope)
    (hfresh : ∀ q ∈ db.questions, q.scope ≠ c.scope → q.id ≠ row.id) :
    Local c db (insertQuestion db row) (insertQuestion (own c.scope db) row) := by
  refine .guard ?_ ?_ ?_
  · rw [own, part, any_own fun q hq hne => by simpa using hfresh q hq hne]
  · simp only [own, part, filter_snoc_own hrow]
  · simp only [id, others, part, filter_snoc_others hrow]

theorem insertPlan_local {row : PlanRow} (hrow : row.scope = c.scope) :
    Local c db (insertPlan db row) (insertPlan (own c.scope db) row) := by
  refine .guard ?_ ?_ ?_
  · rw [own, part, any_own fun p _ hne => by simp [hrow, hne]]
  · simp only [own, part, filter_snoc_own hrow]
  · simp only [id, others, part, filter_snoc_others hrow]

theorem insertInput_local {row : InputRow} (hrow : row.scope = c.scope) :
    Local c db (insertInput db row) (insertInput (own c.scope db) row) := by
  have hany : (own c.scope db).inputs.any row.conflicts = db.inputs.any row.conflicts :=
    any_own fun i _ hne => by simp [InputRow.conflicts, hrow, hne]
  refine .check Iff.rfl (.guard ?_ ?_ ?_)
  · rw [hany, hrow, taskKeyHolds_own, questionKeyHolds_own]
  · simp only [own, part, filter_snoc_own hrow]
  · simp only [id, others, part, filter_snoc_others hrow]

theorem insertDialogueMessage_local {row : DialogueMessageRow} (hrow : row.scope = c.scope) :
    Local c db (insertDialogueMessage db row) (insertDialogueMessage (own c.scope db) row) := by
  have hany : (own c.scope db).messages.any row.conflicts = db.messages.any row.conflicts :=
    any_own fun i _ hne => by simp [DialogueMessageRow.conflicts, hrow, hne]
  refine .guard ?_ ?_ ?_
  · rw [hany, hrow, taskKeyHolds_own, inputKeyHolds_own]
  · simp only [own, part, filter_snoc_own hrow]
  · simp only [id, others, part, filter_snoc_others hrow]

/-- An update of rows of the scope that leaves them there. -/
theorem updateWhere_parts {α : Type} {scope : α → Scope} {p : α → Bool} {f : α → α} (t : List α)
    (hp : ∀ r, p r = true → scope r = c.scope) (hf : ∀ r, scope (f r) = scope r) :
    (updateWhere p f t).filter (fun r => decide (scope r = c.scope)) =
        updateWhere p f (t.filter fun r => decide (scope r = c.scope)) ∧
      (updateWhere p f t).filter (fun r => decide (scope r ≠ c.scope)) =
        t.filter fun r => decide (scope r ≠ c.scope) := by
  constructor
  · exact filter_updateWhere t fun r _ => by rw [hf]
  · exact filter_updateWhere_of_disjoint t fun r hr => by simp [hf, hp r hr]

theorem setFocus_local (actorId taskId : String) (now : Int) :
    Local c db (setFocus db c.scope actorId taskId now) (setFocus (own c.scope db) c.scope actorId taskId now) := by
  have hmine : ∀ f : FocusRow, (decide (f.scope = c.scope) && decide (f.actorId = actorId)) = true →
      f.scope = c.scope := fun f hf => of_decide_eq_true (Bool.and_elim_left hf)
  have hany : (own c.scope db).focus.any (fun f => decide (f.scope = c.scope) && decide (f.actorId = actorId)) =
      db.focus.any (fun f => decide (f.scope = c.scope) && decide (f.actorId = actorId)) :=
    any_part fun f hf => decide_eq_true (hmine f hf)
  have hrow : FocusRow.scope ⟨c.scope, actorId, taskId, now⟩ = c.scope := rfl
  obtain ⟨hown, hrest⟩ := updateWhere_parts (f := fun f : FocusRow => { f with taskId := taskId, updatedAt := now })
    db.focus hmine fun _ => rfl
  unfold setFocus
  simp only [taskKeyHolds_own, hany]
  split
  · exact .error _
  split
  · exact .ok (by simp only [own, part, hown]) (by simp only [id, others, part, hrest])
  · exact .ok (by simp only [own, part, filter_snoc_own hrow])
      (by simp only [id, others, part, filter_snoc_others hrow])

theorem updateTasks_local {p : TaskRow → Bool} {f : TaskRow → TaskRow} (db : Tables)
    (hp : ∀ t, p t = true → t.scope = c.scope) (hf : ∀ t, (f t).scope = t.scope) :
    own c.scope { db with tasks := updateWhere p f db.tasks } =
        { own c.scope db with tasks := updateWhere p f (own c.scope db).tasks } ∧
      others c.scope { db with tasks := updateWhere p f db.tasks } = others c.scope db := by
  obtain ⟨hown, hrest⟩ := updateWhere_parts db.tasks hp hf
  exact ⟨by simp only [own, part, hown], by simp only [others, part, hrest]⟩

theorem updateQuestions_local {p : QuestionRow → Bool} {f : QuestionRow → QuestionRow} (db : Tables)
    (hp : ∀ q, p q = true → q.scope = c.scope) (hf : ∀ q, (f q).scope = q.scope) :
    own c.scope { db with questions := updateWhere p f db.questions } =
        { own c.scope db with questions := updateWhere p f (own c.scope db).questions } ∧
      others c.scope { db with questions := updateWhere p f db.questions } = others c.scope db := by
  obtain ⟨hown, hrest⟩ := updateWhere_parts db.questions hp hf
  exact ⟨by simp only [own, part, hown], by simp only [others, part, hrest]⟩

theorem updateInputs_local {p : InputRow → Bool} {f : InputRow → InputRow} (db : Tables)
    (hp : ∀ i, p i = true → i.scope = c.scope) (hf : ∀ i, (f i).scope = i.scope) :
    own c.scope { db with inputs := updateWhere p f db.inputs } =
        { own c.scope db with inputs := updateWhere p f (own c.scope db).inputs } ∧
      others c.scope { db with inputs := updateWhere p f db.inputs } = others c.scope db := by
  obtain ⟨hown, hrest⟩ := updateWhere_parts db.inputs hp hf
  exact ⟨by simp only [own, part, hown], by simp only [others, part, hrest]⟩

theorem suppress_local {p : OutboundRow → Bool} (hp : ∀ r, p r = true → r.scope = c.scope) (reason : String)
    (now : Int) (db : Tables) :
    own c.scope (suppress p reason now db) = suppress p reason now (own c.scope db) ∧
      others c.scope (suppress p reason now db) = others c.scope db := by
  obtain ⟨hown, hrest⟩ := updateWhere_parts
    (p := fun r : OutboundRow => p r && [OutboundStatus.queued, .retrying, .leased].contains r.status)
    (f := fun r => { r with
      status := .cancelled, lastError := some reason, leaseOwner := none, leaseUntil := none,
      leaseToken := none, updatedAt := now }) db.outbound
    (fun r hr => hp r (Bool.and_elim_left hr)) fun _ => rfl
  exact ⟨by simp only [own, part, suppress, hown], by simp only [others, part, suppress, hrest]⟩

theorem scope_of_isTask {taskId : String} {t : TaskRow} (h : isTask c.scope taskId t = true) : t.scope = c.scope :=
  of_decide_eq_true (Bool.and_elim_left h)

theorem scope_of_isQuestion {questionId : String} {q : QuestionRow} (h : isQuestion c.scope questionId q = true) :
    q.scope = c.scope :=
  of_decide_eq_true (Bool.and_elim_left h)

theorem scope_of_isInput {inputId : String} {i : InputRow} (h : isInput c.scope inputId i = true) : i.scope = c.scope :=
  of_decide_eq_true (Bool.and_elim_left h)

theorem touchTask_local (db : Tables) (taskId : String) (now : Int) :
    own c.scope (touchTask db c.scope taskId now) = touchTask (own c.scope db) c.scope taskId now ∧
      others c.scope (touchTask db c.scope taskId now) = others c.scope db :=
  updateTasks_local db (fun _ => scope_of_isTask) fun _ => rfl

theorem endTask_local (db : Tables) (taskId : String) (status : TaskStatus) :
    own c.scope (endTask c db taskId status) = endTask c (own c.scope db) taskId status ∧
      others c.scope (endTask c db taskId status) = others c.scope db :=
  updateTasks_local db (fun _ ht => scope_of_isTask (Bool.and_elim_left ht)) fun _ => rfl

end Statements

section Routes

variable {db : Tables} {c : Application} {item : DialogueInput}

/-- The task ids that are drawn for a plan are not those of other conversations. -/
def Clear (c : Application) (db : Tables) : Prop :=
  ∀ t ∈ db.tasks, t.scope ≠ c.scope → ∀ i ∈ c.plan.inputs, t.id ≠ c.newTaskId i

theorem Clear.of_others {db' : Tables} (h : Clear c db) (hrest : others c.scope db' = others c.scope db) :
    Clear c db' := by
  have htasks : db'.tasks.filter (fun t => decide (t.scope ≠ c.scope)) = _ := congrArg Tables.tasks hrest
  intro t ht hne
  have hmem : t ∈ db'.tasks.filter (fun t => decide (t.scope ≠ c.scope)) :=
    List.mem_filter.mpr ⟨ht, decide_eq_true hne⟩
  rw [htasks] at hmem
  exact h t (List.mem_of_mem_filter hmem) hne

theorem insertRoutedInput_local (taskId : String) :
    Local c db (insertRoutedInput c db item taskId) (insertRoutedInput c (own c.scope db) item taskId) :=
  (insertInput_local rfl).bind fun _ _ => insertDialogueMessage_local rfl

theorem attachInput_local (taskId : String) :
    Local c db (attachInput c db item taskId) (attachInput c (own c.scope db) item taskId) := by
  unfold attachInput
  rw [getTaskRow_own]
  split
  · exact .error _
  split
  · exact .error _
  · refine (insertRoutedInput_local taskId).bind fun db1 _ => ?_
    obtain ⟨hown, hrest⟩ := touchTask_local (c := c) db1 taskId c.now
    exact .ok hown.symm hrest

/-- The state of a plan on the rows of its scope. -/
def RouteState.own (c : Application) (s : RouteState) : RouteState := ⟨Dialogue.own c.scope s.db, s.localTasks⟩

/-- A route of a plan on the tables, and the same on the rows of its scope. -/
abbrev LocalRoute {α : Type} (c : Application) (s : RouteState) (x y : Except StoreError (RouteState × α)) : Prop :=
  Confined (own c.scope) (others c.scope) (fun r : RouteState × α => r.1.db) (fun r => (r.1.own c, r.2)) s.db x y

theorem applyCreate_local {s : RouteState} (hclear : Clear c s.db) (hitem : item ∈ c.plan.inputs)
    (route : DialogueRoute) : LocalRoute c s (applyCreate c s item route) (applyCreate c (s.own c) item route) := by
  unfold applyCreate
  simp only [RouteState.own]
  split
  · refine .check Iff.rfl ?_
    refine (insertTask_local (c.taskRow item _ item.text) rfl fun t ht hne =>
      hclear t ht hne item hitem).bind fun db1 _ => ?_
    refine (insertRoutedInput_local _).bind fun db2 _ => ?_
    exact (setFocus_local _ _ _).bind fun db3 _ => .ok rfl rfl
  · exact .error _

theorem applyStatus_local (s : RouteState) (route : DialogueRoute) :
    LocalRoute c s (applyStatus c s item route) (applyStatus c (s.own c) item route) := by
  unfold applyStatus
  simp only [RouteState.own, getTaskRow_own]
  split
  · exact .error _
  split
  · exact .error _
  · exact (insertInput_local rfl).bind fun db1 _ => .ok rfl rfl

theorem applyAttach_local (s : RouteState) (route : DialogueRoute) :
    LocalRoute c s (applyAttach c s item route) (applyAttach c (s.own c) item route) := by
  refine .lift fun taskId _ => ?_
  refine (attachInput_local taskId).bind fun db1 _ => ?_
  exact (setFocus_local _ _ _).bind fun db2 _ => .ok rfl rfl

theorem suppressTaskOutbound_local (db : Tables) (taskId reason : String) :
    own c.scope (suppressTaskOutbound c db taskId reason) = suppressTaskOutbound c (own c.scope db) taskId reason ∧
      others c.scope (suppressTaskOutbound c db taskId reason) = others c.scope db :=
  suppress_local (fun _ hr => of_decide_eq_true (Bool.and_elim_left hr)) _ _ _

theorem suppressQuestionOutbound_local (db : Tables) (questionId : String) :
    own c.scope (suppressQuestionOutbound c db questionId) = suppressQuestionOutbound c (own c.scope db) questionId ∧
      others c.scope (suppressQuestionOutbound c db questionId) = others c.scope db :=
  suppress_local (fun _ hr => of_decide_eq_true (Bool.and_elim_left hr)) _ _ _

theorem suppressQuestionGenerationOutbound_local (db : Tables) (questionId : String) (revision : ℕ) :
    own c.scope (suppressQuestionGenerationOutbound c db questionId revision) =
        suppressQuestionGenerationOutbound c (own c.scope db) questionId revision ∧
      others c.scope (suppressQuestionGenerationOutbound c db questionId revision) = others c.scope db :=
  suppress_local (fun _ hr => of_decide_eq_true
    (Bool.and_elim_left (Bool.and_elim_left hr))) _ _ _

theorem applyEnd_local (status : TaskStatus) (reason : String) (s : RouteState) (route : DialogueRoute) :
    LocalRoute c s (applyEnd c status reason s item route) (applyEnd c status reason (s.own c) item route) := by
  refine .lift fun taskId _ => ?_
  simp only [RouteState.own, getTaskRow_own]
  split
  · exact .error _
  split
  · exact .error _
  · refine (attachInput_local taskId).bind fun db1 _ => ?_
    obtain ⟨hended, hrest⟩ := endTask_local (c := c) db1 taskId status
    obtain ⟨hsuppressed, hrest'⟩ := suppressTaskOutbound_local (c := c) (endTask c db1 taskId status) taskId reason
    refine .ok ?_ (hrest'.trans hrest)
    simp only [hsuppressed, hended]

theorem questionCandidates_own (seen : List String) (candidates : List QuestionCandidate) :
    questionCandidates c (own c.scope db) seen candidates = questionCandidates c db seen candidates := by
  induction candidates generalizing seen with
  | nil => rfl
  | cons candidate rest ih => simp only [questionCandidates, getTaskRow_own, ih]

theorem replyReference_own : replyReference c (own c.scope db) item = replyReference c db item := by
  unfold replyReference
  congr 1
  funext id
  refine find?_eq_filter_head? fun r hr => ?_
  exact Bool.and_elim_left (Bool.and_elim_left hr)

/-- The condition of the updates of a question. -/
def isCurrent (c : Application) (question : QuestionRow) (q : QuestionRow) : Bool :=
  isQuestion c.scope question.id q && q.status = .pending && q.revision = question.revision

theorem scope_of_isCurrent {question q : QuestionRow} (h : isCurrent c question q = true) : q.scope = c.scope :=
  scope_of_isQuestion (Bool.and_elim_left (Bool.and_elim_left h))

theorem rowcount_current (question : QuestionRow) :
    rowcount (isCurrent c question) (own c.scope db).questions = rowcount (isCurrent c question) db.questions :=
  rowcount_part fun _ hq => decide_eq_true (scope_of_isCurrent hq)

theorem extendQuestion_local (route : DialogueRoute) (existing : QuestionRow) (text : String) :
    LocalTo c db (extendQuestion c db item route existing text)
      (extendQuestion c (own c.scope db) item route existing text) := by
  unfold extendQuestion
  rw [replyReference_own, questionCandidates_own]
  split
  · exact .error _
  split
  · exact .error _
  split
  · exact .error _
  refine .lift fun candidates _ => ?_
  split
  · exact .ok rfl rfl
  split
  · exact .error _
  change Confined _ _ _ _ _
    (if rowcount (isCurrent c existing) db.questions ≠ 1 then _ else _)
    (if rowcount (isCurrent c existing) (own c.scope db).questions ≠ 1 then _ else _)
  rw [rowcount_current]
  split
  · exact .error _
  · obtain ⟨hown, hrest⟩ := updateQuestions_local (p := isCurrent c existing) (f := fun q => { q with
      text := text, candidates := candidates, hasMoreCandidates := route.hasMoreCandidates,
      revision := q.revision + 1 }) db (fun _ => scope_of_isCurrent) fun _ => rfl
    obtain ⟨hsuppressed, hrest'⟩ := suppressQuestionGenerationOutbound_local (c := c) { db with
      questions := updateWhere (isCurrent c existing) (fun q => { q with
        text := text, candidates := candidates, hasMoreCandidates := route.hasMoreCandidates,
        revision := q.revision + 1 }) db.questions } existing.id existing.revision
    refine .ok ?_ (hrest'.trans hrest)
    rw [hown] at hsuppressed
    exact congrArg (·, existing.revision + 1) hsuppressed.symm

theorem newQuestion_local (route : DialogueRoute) {questionId : String} (text : String)
    (hfresh : route.questionRevision = none →
      ∀ candidates, questionCandidates c db [] route.candidates = .ok candidates →
        ∀ q ∈ db.questions, q.id ≠ questionId) :
    LocalTo c db (newQuestion c db item route questionId text)
      (newQuestion c (own c.scope db) item route questionId text) := by
  unfold newQuestion
  rw [questionCandidates_own]
  split
  · exact .error _
  · rename_i hrevision
    refine .lift fun candidates hcandidates => ?_
    refine (insertQuestion_local rfl fun q hq _ => ?_).bind fun db1 _ => .ok rfl rfl
    exact hfresh (by simpa using hrevision) candidates hcandidates q hq

theorem applyQuestion_local {s : RouteState} {route : DialogueRoute} (haction : route.action = .question)
    (hfree : disputes c s.db route = false) :
    LocalRoute c s (applyQuestion c s item route) (applyQuestion c (s.own c) item route) := by
  unfold applyQuestion
  split
  · rename_i questionId text hquestion _
    have hask : LocalTo c s.db (createOrExtendQuestion c s.db item route questionId text)
        (createOrExtendQuestion c (own c.scope s.db) item route questionId text) := by
      unfold createOrExtendQuestion
      rw [getQuestionRow_own]
      split
      · exact extendQuestion_local route _ text
      · rename_i hnone
        refine newQuestion_local route text fun hrevision candidates hcandidates q hq hid => ?_
        have hdisputes : disputes c s.db route = true :=
          disputes_iff.mpr ⟨haction, hrevision, ⟨candidates, hcandidates⟩, questionId, hquestion, hnone, q, hq, hid⟩
        cases hfree.symm.trans hdisputes
    exact hask.bind fun r _ => (insertInput_local rfl).bind fun db2 _ => .ok rfl rfl
  · exact .error _

theorem checkResolver_own (question : QuestionRow) :
    checkResolver c (own c.scope db) item question = checkResolver c db item question := by
  have hany : (own c.scope db).references.any (fun r => r.scope = c.scope && r.questionId = some question.id &&
      r.questionRevision = some question.revision) = db.references.any (fun r => r.scope = c.scope &&
        r.questionId = some question.id && r.questionRevision = some question.revision) :=
    any_part fun r hr => Bool.and_elim_left (Bool.and_elim_left hr)
  unfold checkResolver
  rw [replyReference_own, hany]

theorem waitingInputs_own (questionId : String) :
    waitingInputs c (own c.scope db) questionId = waitingInputs c db questionId :=
  filter_part fun _ hi => Bool.and_elim_left (Bool.and_elim_left hi)

theorem resolvedTask_local (hclear : Clear c db) (hitem : item ∈ c.plan.inputs) (route : DialogueRoute)
    (question : QuestionRow) (request : String) :
    LocalTo c db (resolvedTask c db item route question request)
      (resolvedTask c (own c.scope db) item route question request) := by
  unfold resolvedTask
  simp only [getTaskRow_own]
  split
  · split
    · exact .error _
    · refine (insertTask_local (c.taskRow item _ request) rfl fun t ht hne =>
        hclear t ht hne item hitem).bind fun db1 _ => ?_
      exact .ok rfl rfl
  · split
    · exact .error _
    split
    · exact .error _
    split
    · exact .error _
    split
    · exact .error _
    · exact .ok rfl rfl

theorem closeQuestion_local (question : QuestionRow) (taskId : String) :
    Local c db (closeQuestion c db question taskId) (closeQuestion c (own c.scope db) question taskId) := by
  change Confined _ _ _ _ _
    (if rowcount (isCurrent c question) db.questions ≠ 1 then _ else _)
    (if rowcount (isCurrent c question) (own c.scope db).questions ≠ 1 then _ else _)
  rw [rowcount_current]
  split
  · exact .error _
  · obtain ⟨hown, hrest⟩ := updateQuestions_local (p := isCurrent c question) (f := fun q => { q with
      status := .resolved, revision := q.revision + 1, resolvedTaskId := some taskId,
      resolvedAt := some c.now }) db (fun _ => scope_of_isCurrent) fun _ => rfl
    exact .ok hown.symm hrest

/-- The condition of the update that assigns an input. -/
def isWaiting (c : Application) (old : InputRow) (i : InputRow) : Bool :=
  isInput c.scope old.inputId i && i.taskId.isNone

theorem scope_of_isWaiting {old i : InputRow} (h : isWaiting c old i = true) : i.scope = c.scope :=
  scope_of_isInput (Bool.and_elim_left h)

theorem assignInput_local (taskId : String) {old : InputRow} (hold : old.scope = c.scope) :
    Local c db (assignInput c taskId db old) (assignInput c taskId (own c.scope db) old) := by
  have hcount : rowcount (isWaiting c old) (own c.scope db).inputs = rowcount (isWaiting c old) db.inputs :=
    rowcount_part fun _ hi => decide_eq_true (scope_of_isWaiting hi)
  change Confined _ _ _ _ _
    (if rowcount (isWaiting c old) db.inputs ≠ 1 then _ else _)
    (if rowcount (isWaiting c old) (own c.scope db).inputs ≠ 1 then _ else _)
  rw [hcount]
  split
  · exact .error _
  · let assigned : Tables := { db with
      inputs := updateWhere (isWaiting c old) (fun i => { i with taskId := some taskId }) db.inputs }
    obtain ⟨hown, hrest⟩ := updateInputs_local (p := isWaiting c old)
      (f := fun i => { i with taskId := some taskId }) db (fun _ => scope_of_isWaiting) fun _ => rfl
    have hinsert : Local c assigned (insertDialogueMessage assigned (inputMessage old taskId))
        (insertDialogueMessage (own c.scope assigned) (inputMessage old taskId)) := insertDialogueMessage_local hold
    rw [hown] at hinsert
    exact hinsert.of_rest hrest

/-- The waiting inputs are assigned one after the other. -/
theorem assignInputs_local (taskId : String) {olds : List InputRow} (holds : ∀ o ∈ olds, o.scope = c.scope)
    (db : Tables) : Local c db (olds.foldlM (assignInput c taskId) db)
      (olds.foldlM (assignInput c taskId) (own c.scope db)) := by
  induction olds generalizing db with
  | nil => exact .ok rfl rfl
  | cons old olds ih =>
    rw [List.foldlM_cons, List.foldlM_cons]
    exact (assignInput_local taskId (holds old List.mem_cons_self)).bind fun db1 _ =>
      ih (fun o ho => holds o (List.mem_cons_of_mem old ho)) db1

theorem resolveQuestion_local (hclear : Clear c db) (hitem : item ∈ c.plan.inputs) (route : DialogueRoute)
    (questionId : String) (revision : Int) :
    LocalTo c db (resolveQuestion c db item route questionId revision)
      (resolveQuestion c (own c.scope db) item route questionId revision) := by
  unfold resolveQuestion
  simp only [getQuestionRow_own, checkResolver_own, waitingInputs_own]
  split
  · exact .error _
  split
  · exact .error _
  refine .lift fun _ _ => ?_
  split
  · exact .error _
  rename_i question _ _ _ _ _ first rest hwaiting
  have hscopes : ∀ o ∈ first :: rest, o.scope = c.scope := by
    intro o ho
    rw [← hwaiting] at ho
    have hwaits := (List.mem_filter.mp ho).2
    exact of_decide_eq_true (Bool.and_elim_left (Bool.and_elim_left hwaits))
  refine (resolvedTask_local hclear hitem route question first.text).bind fun r _ => ?_
  refine (closeQuestion_local question r.2).bind fun db2 _ => ?_
  refine (assignInputs_local r.2 hscopes db2).bind fun db3 _ => ?_
  obtain ⟨hsuppressed, hrest⟩ := suppressQuestionOutbound_local (c := c) db3 question.id
  have hinsert : Local c (suppressQuestionOutbound c db3 question.id)
      (insertRoutedInput c (suppressQuestionOutbound c db3 question.id) item r.2)
      (insertRoutedInput c (own c.scope (suppressQuestionOutbound c db3 question.id)) item r.2) :=
    insertRoutedInput_local r.2
  rw [hsuppressed] at hinsert
  refine (hinsert.of_rest hrest).bind fun db4 _ => ?_
  obtain ⟨htouched, hrest'⟩ := touchTask_local (c := c) db4 r.2 c.now
  exact .ok (congrArg (·, r.2) htouched.symm) hrest'

theorem applyResolveQuestion_local {s : RouteState} (hclear : Clear c s.db) (hitem : item ∈ c.plan.inputs)
    (route : DialogueRoute) :
    LocalRoute c s (applyResolveQuestion c s item route) (applyResolveQuestion c (s.own c) item route) := by
  unfold applyResolveQuestion
  simp only [RouteState.own]
  split
  · refine .check Iff.rfl ?_
    refine (resolveQuestion_local hclear hitem route _ _).bind fun r _ => ?_
    exact (setFocus_local _ _ _).bind fun db2 _ => .ok rfl rfl
  · exact .error _

theorem applyRoute_local {s : RouteState} (hclear : Clear c s.db) (hitem : item ∈ c.plan.inputs)
    {route : DialogueRoute} (hfree : disputes c s.db route = false) :
    LocalRoute c s (applyRoute c s item route) (applyRoute c (s.own c) item route) := by
  unfold applyRoute
  cases ha : route.action with
  | create => exact applyCreate_local hclear hitem route
  | status => exact applyStatus_local s route
  | attach => exact applyAttach_local s route
  | question => exact applyQuestion_local ha hfree
  | resolveQuestion => exact applyResolveQuestion_local hclear hitem route
  | close => exact applyEnd_local _ _ s route
  | cancel => exact applyEnd_local _ _ s route

/-- The route asks under the id of a question of another conversation. -/
abbrev Disputes (c : Application) (s : RouteState) (_ : DialogueInput) (route : DialogueRoute) : Prop :=
  disputes c s.db route = true

/-- Routes that reach no such question have the same outcome without the other conversations. -/
theorem applyRoutes_local {s : RouteState} (hclear : Clear c s.db) {items : List DialogueInput}
    (hitems : ∀ item ∈ items, item ∈ c.plan.inputs) (hfree : ¬ Reaches c (Disputes c) s items) :
    LocalRoute c s (applyRoutes c s items) (applyRoutes c (s.own c) items) := by
  induction items generalizing s with
  | nil => exact .ok rfl rfl
  | cons item items ih =>
    refine .lift fun route hroute => ?_
    rw [reaches_cons_iff hroute, not_or, Bool.not_eq_true] at hfree
    have hhead := applyRoute_local hclear (hitems item List.mem_cons_self) hfree.1
    refine hhead.bind fun r hr => ?_
    have hrest := ih (hclear.of_others (hhead.frame r hr)) (fun i hi => hitems i (List.mem_cons_of_mem item hi))
      fun hreaches => hfree.2 ⟨r, hr, hreaches⟩
    exact hrest.bind fun r' _ => .ok rfl rfl

theorem finalAssignment_own (a : String × Assigned) :
    finalAssignment c (own c.scope db) a = finalAssignment c db a := by
  unfold finalAssignment
  simp only [getTaskRow_own]

theorem commitPlan_local (hclear : Clear c db)
    (hfree : (c.plan.inputs.any fun item => db.inputs.any (isInput c.scope item.inputId)) = false →
      ¬ Reaches c (Disputes c) ⟨db, []⟩ c.plan.inputs) :
    LocalTo c db (commitPlan c db) (commitPlan c (own c.scope db)) := by
  have hassigned : (c.plan.inputs.any fun item => (own c.scope db).inputs.any (isInput c.scope item.inputId)) =
      c.plan.inputs.any fun item => db.inputs.any (isInput c.scope item.inputId) := by
    simp only [anyInput_own]
  unfold commitPlan
  rw [hassigned]
  split
  · exact .error _
  · rename_i hnew
    have hroutes : LocalRoute c ⟨db, []⟩ (applyRoutes c ⟨db, []⟩ c.plan.inputs)
        (applyRoutes c ⟨own c.scope db, []⟩ c.plan.inputs) :=
      applyRoutes_local hclear (fun _ h => h) (hfree (Bool.eq_false_iff.mpr hnew))
    refine hroutes.bind fun r _ => ?_
    have hfinal : finalAssignment c (own c.scope r.1.db) = finalAssignment c r.1.db := by
      funext a
      exact finalAssignment_own a
    simp only [RouteState.own, hfinal]
    refine .lift fun assignments _ => ?_
    exact (insertPlan_local rfl).bind fun db1 _ => .ok rfl rfl

theorem applyDialoguePlan_local (hclear : Clear c db) (hfree : ¬ Commits c (Disputes c) db) :
    LocalTo c db (applyDialoguePlan c db) (applyDialoguePlan c (own c.scope db)) := by
  have hstored : (own c.scope db).plans.find? (fun p => p.scope = c.scope && p.planId = c.plan.planId) =
      db.plans.find? (fun p => p.scope = c.scope && p.planId = c.plan.planId) :=
    find?_eq_filter_head? fun p hp => Bool.and_elim_left hp
  unfold applyDialoguePlan
  rw [hstored]
  refine .lift fun _ hvalid => ?_
  cases hfind : db.plans.find? (fun p => p.scope = c.scope && p.planId = c.plan.planId) with
  | some previous =>
    simp only
    split
    · exact .error _
    split
    · exact .ok rfl rfl
    · exact .error _
  | none =>
    have hnone : storedPlan db c.plan = none := hfind
    exact commitPlan_local hclear fun hnew hreaches => hfree ⟨hvalid, hnone, hnew, hreaches⟩

end Routes

section Outcomes

variable {db : Tables} {c : Application}

/-- What a conversation sees of its plan: the result with its own rows, or the error. -/
def outcome (c : Application) (db : Tables) : Except StoreError (Tables × DialoguePlanResult) :=
  (applyDialoguePlan c db).map fun r => (own c.scope r.1, r.2)

/-- A plan has the same outcome in two stores and leaves the same rows of its conversation. -/
def SameOutcome (c : Application) (db₁ db₂ : Tables) : Prop :=
  outcome c db₁ = outcome c db₂ ∧
    own c.scope (perform db₁ (.applyPlan c)) = own c.scope (perform db₂ (.applyPlan c))

theorem Fresh.clear (h : Fresh c db) : Clear c db := fun t ht _ => h.unused t ht

theorem Reaches.mono {P Q : RouteState → DialogueInput → DialogueRoute → Prop} (hPQ : ∀ s item route, P s item route →
    Q s item route) {s : RouteState} {items : List DialogueInput} (h : Reaches c P s items) : Reaches c Q s items := by
  induction items generalizing s with
  | nil => exact h
  | cons item items ih =>
    obtain ⟨route, hroute, hhere | ⟨r, hr, hlater⟩⟩ := h
    · exact ⟨route, hroute, .inl (hPQ s item route hhere)⟩
    · exact ⟨route, hroute, .inr ⟨r, hr, ih hlater⟩⟩

/-- A plan that reaches a question of another conversation is broken. -/
theorem Broken.of_disputes (h : Commits c (Disputes c) db) : Broken c db :=
  ⟨h.1, h.2.1, h.2.2.1, h.2.2.2.mono fun _ _ _ => .inl⟩

theorem outcome_own (hfresh : Fresh c db) (h : ¬ Broken c db) : outcome c db = applyDialoguePlan c (own c.scope db) :=
  (applyDialoguePlan_local hfresh.clear fun hdisputes => h (.of_disputes hdisputes)).alone.symm

/-- The rows that a conversation has after its plan. -/
theorem own_applyPlan (c : Application) (db : Tables) : own c.scope (perform db (.applyPlan c)) =
    orKeep (own c.scope db) (outcome c db) := by
  cases h : applyDialoguePlan c db with
  | error e => simp only [perform, outcome, h, orKeep, Except.map]
  | ok r => simp only [perform, outcome, h, orKeep, Except.map]

theorem outcome_integrity_iff (calls : List Call) (hfresh : Fresh c (runCalls calls)) :
    outcome c (runCalls calls) = .error .integrityError ↔ Broken c (runCalls calls) := by
  rw [← applyDialoguePlan_integrity_iff (runCalls_keyed calls) (runCalls_conserved calls).1 hfresh, outcome]
  cases applyDialoguePlan c (runCalls calls) <;> simp [Except.map]

/-- A plan changes no row of another conversation. -/
theorem applyPlan_others (calls : List Call) (hfresh : Fresh c (runCalls calls)) :
    others c.scope (perform (runCalls calls) (.applyPlan c)) = others c.scope (runCalls calls) := by
  cases h : applyDialoguePlan c (runCalls calls) with
  | error e => simp only [perform, h, orKeep]
  | ok r =>
    have hfree : ¬ Commits c (Disputes c) (runCalls calls) := by
      intro hdisputes
      have hbroken := (outcome_integrity_iff calls hfresh).mpr (.of_disputes hdisputes)
      rw [outcome, h] at hbroken
      cases hbroken
    have hframe := (applyDialoguePlan_local hfresh.clear hfree).frame r h
    simpa only [perform, h, orKeep] using hframe

/-- In two stores with the same rows of a conversation, a plan changes no row of another conversation, and it
has the same outcome if and only if it is broken in both or in neither of them. -/
theorem plans_do_not_interfere (calls₁ calls₂ : List Call) (c : Application)
    (hown : own c.scope (runCalls calls₁) = own c.scope (runCalls calls₂))
    (hfresh₁ : Fresh c (runCalls calls₁)) (hfresh₂ : Fresh c (runCalls calls₂)) :
    (others c.scope (perform (runCalls calls₁) (.applyPlan c)) = others c.scope (runCalls calls₁) ∧
      others c.scope (perform (runCalls calls₂) (.applyPlan c)) = others c.scope (runCalls calls₂)) ∧
    (SameOutcome c (runCalls calls₁) (runCalls calls₂) ↔
      (Broken c (runCalls calls₁) ↔ Broken c (runCalls calls₂))) := by
  refine ⟨⟨applyPlan_others calls₁ hfresh₁, applyPlan_others calls₂ hfresh₂⟩, ?_⟩
  have hbroken₁ := outcome_integrity_iff calls₁ hfresh₁
  have hbroken₂ := outcome_integrity_iff calls₂ hfresh₂
  constructor
  · rintro ⟨houtcome, -⟩
    rw [← hbroken₁, ← hbroken₂, houtcome]
  · intro hsame
    have houtcome : outcome c (runCalls calls₁) = outcome c (runCalls calls₂) := by
      by_cases h₁ : Broken c (runCalls calls₁)
      · rw [hbroken₁.mpr h₁, hbroken₂.mpr (hsame.mp h₁)]
      · rw [outcome_own hfresh₁ h₁, outcome_own hfresh₂ fun h₂ => h₁ (hsame.mpr h₂), hown]
    exact ⟨houtcome, by rw [own_applyPlan, own_applyPlan, hown, houtcome]⟩

end Outcomes

section Example

theorem message_nonempty : [tableInput] ≠ [] :=
  List.cons_ne_nil _ _

theorem message_inputIds : ([tableInput].map (·.inputId)).Nodup :=
  List.nodup_singleton _

theorem message_routeIds (route : DialogueRoute) : ([route].map (·.inputId)).Nodup :=
  List.nodup_singleton _

theorem message_covered (route : DialogueRoute) (h : route.inputId = "i1") :
    ∀ i ∈ [tableInput].map (·.inputId), i ∈ [route].map (·.inputId) := by
  simp [tableInput, h]

theorem message_known (route : DialogueRoute) (h : route.inputId = "i1") :
    ∀ i ∈ [route].map (·.inputId), i ∈ [tableInput].map (·.inputId) := by
  simp [tableInput, h]

/-- One message with its route. -/
def messagePlan (scope : Scope) (route : DialogueRoute) (hroute : route.inputId = "i1")
    (trusted : Text.blank scope.tenantId = false ∧ Text.blank scope.sourceId = false) : Application where
  plan :=
    { planId := "p1"
      scope := scope
      inputs := [tableInput]
      routes := [route]
      named := table_named
      trusted := trusted
      nonempty := message_nonempty
      inputIds := message_inputIds
      routeIds := message_routeIds route
      covered := message_covered route hroute
      known := message_known route hroute }
  now := 1
  draw := id

/-- The message is held by a question. -/
def questionFields (questionId : String) : RouteFields :=
  { inputId := "i1", action := .question, questionId := some questionId, questionText := some "Which task?" }

theorem firstQuestion_valid : (questionFields "q1").wellFormed = true := by
  decide

theorem secondQuestion_valid : (questionFields "q2").wellFormed = true := by
  decide

def firstQuestion : DialogueRoute := ⟨questionFields "q1", firstQuestion_valid⟩

def secondQuestion : DialogueRoute := ⟨questionFields "q2", secondQuestion_valid⟩

theorem other_chat_trusted : Text.blank "t" = false ∧ Text.blank "other" = false := by
  decide

def asksHere : Application := messagePlan ⟨"t", "chat"⟩ firstQuestion rfl chat_trusted

/-- The calls of another conversation of the same tenant, under another question id. -/
def asksElsewhere : List Call := [.applyPlan (messagePlan ⟨"t", "other"⟩ secondQuestion rfl other_chat_trusted)]

/-- The calls of another conversation of the same tenant, under the same question id. -/
def asksTheSame : List Call := [.applyPlan (messagePlan ⟨"t", "other"⟩ firstQuestion rfl other_chat_trusted)]

theorem asksHere_fresh {db : Tables} (h : db.tasks = []) : Fresh asksHere db where
  unused t ht := by
    rw [h] at ht
    cases ht
  distinct := List.nodup_singleton _

/-- The plan routes one input. -/
theorem asksHere_broken {db : Tables} (h : Broken asksHere db) :
    Violates asksHere ⟨db, []⟩ tableInput firstQuestion := by
  obtain ⟨-, -, -, route, hroute, hviolates | ⟨r, -, hnone⟩⟩ := h
  · obtain rfl : firstQuestion = route := Except.ok.inj hroute
    exact hviolates
  · exact hnone.elim

theorem plans_do_not_interfere_example :
    SameOutcome asksHere (runCalls []) (runCalls asksElsewhere) := by
  have hown : own asksHere.scope (runCalls []) = own asksHere.scope (runCalls asksElsewhere) := by
    decide +kernel
  have htasks : (runCalls asksElsewhere).tasks = [] := by
    decide +kernel
  refine (plans_do_not_interfere [] asksElsewhere asksHere hown (asksHere_fresh rfl) (asksHere_fresh htasks)).2.mpr
    (iff_of_false (fun h => ?_) fun h => ?_)
  · obtain hdisputes | ⟨hrepeats, -⟩ := asksHere_broken h
    · exact absurd hdisputes (by decide +kernel)
    · exact absurd hrepeats (by decide +kernel)
  · obtain hdisputes | ⟨hrepeats, -⟩ := asksHere_broken h
    · exact absurd hdisputes (by decide +kernel)
    · exact absurd hrepeats (by decide +kernel)

/-- The plan is applied where the other conversation has no question, and refused where it has asked under the
same question id. -/
theorem foreign_question_id_refused :
    own asksHere.scope (runCalls []) = own asksHere.scope (runCalls asksTheSame) ∧
    Fresh asksHere (runCalls []) ∧ Fresh asksHere (runCalls asksTheSame) ∧
    (applyDialoguePlan asksHere (runCalls [])).isOk = true ∧
    applyDialoguePlan asksHere (runCalls asksTheSame) = .error .integrityError := by
  have hown : own asksHere.scope (runCalls []) = own asksHere.scope (runCalls asksTheSame) := by
    decide +kernel
  have htasks : (runCalls asksTheSame).tasks = [] := by
    decide +kernel
  have happlied : (applyDialoguePlan asksHere (runCalls [])).isOk = true := by
    decide +kernel
  exact ⟨hown, asksHere_fresh rfl, asksHere_fresh htasks, happlied, by decide +kernel⟩

end Example

end Soveren.Dialogue
