import Soveren.Dialogue.Conservation

/-! The uniqueness constraints that a plan can violate. The rows that it inserts have new keys, except that the
application chooses the ids of its questions and names the messages that its inputs come from. -/
namespace Soveren.Dialogue
open Soveren.Relational Soveren.Conversation

section Statement

variable (c : Application)

/-- The conversation has stored an input that comes from the same message. -/
def repeats (db : Tables) (item : DialogueInput) : Bool :=
  item.sourceMessageId.isSome && db.inputs.any fun i =>
    i.scope = c.scope && i.channel = item.channel && i.sourceMessageId = item.sourceMessageId

/-- The route asks a new question under the id of a question of another conversation. -/
def disputes (db : Tables) (route : DialogueRoute) : Bool :=
  route.action = .question && route.questionRevision.isNone &&
    (questionCandidates c db [] route.candidates).isOk &&
    route.questionId.any fun id => (getQuestionRow db c.scope id).isNone && db.questions.any (·.id = id)

theorem unsourced_optional (item : DialogueInput) :
    [none, item.replyToMessageId, item.messageThreadId].all (·.all (!Text.blank ·)) = true := by
  have h := item.optional
  simp only [List.all_cons, Bool.and_eq_true] at h ⊢
  exact ⟨rfl, h.2⟩

/-- The input without the message that it comes from. -/
def DialogueInput.unsourced (item : DialogueInput) : DialogueInput :=
  { item with sourceMessageId := none, optional := unsourced_optional item }

/-- The route inserts a row whose key is taken: that of a question, or that of an input which is accepted but
for its message. -/
def Violates (s : RouteState) (item : DialogueInput) (route : DialogueRoute) : Prop :=
  disputes c s.db route = true ∨ (repeats c s.db item = true ∧ (applyRoute c s item.unsourced route).isOk = true)

/-- The routes of the inputs reach one that meets a condition in the state before it. -/
def Reaches (P : RouteState → DialogueInput → DialogueRoute → Prop) : RouteState → List DialogueInput → Prop
  | _, [] => False
  | s, item :: rest => ∃ route, routeFor c.plan item.inputId = .ok route ∧
      (P s item route ∨ ∃ r, applyRoute c s item route = .ok r ∧ Reaches P r.1 rest)

/-- A plan is applied for the first time and reaches a route that meets a condition. -/
def Commits (P : RouteState → DialogueInput → DialogueRoute → Prop) (db : Tables) : Prop :=
  validatePlan c.plan = .ok () ∧ storedPlan db c.plan = none ∧
    (c.plan.inputs.any fun item => db.inputs.any (isInput c.scope item.inputId)) = false ∧
    Reaches c P ⟨db, []⟩ c.plan.inputs

/-- The plan violates a uniqueness constraint. -/
def Broken (db : Tables) : Prop := Commits c (Violates c) db

/-- The task ids that are drawn for a plan are new. -/
structure Fresh (db : Tables) : Prop where
  unused : ∀ t ∈ db.tasks, ∀ i ∈ c.plan.inputs, t.id ≠ c.newTaskId i
  distinct : (c.plan.inputs.map c.newTaskId).Nodup

end Statement

section Results

variable {α β γ δ : Type} {taken : Bool}

/-- What becomes of an input and of the same input without its message: both are refused, or the second is
accepted and the first, too, unless its message is taken. -/
inductive Stores (taken : Bool) : Except StoreError α → Except StoreError β → Prop
  | refused {e : StoreError} (he : e ≠ .integrityError) : Stores taken (.error e) (.error e)
  | violated {b : β} (htaken : taken = true) : Stores taken (.error .integrityError) (.ok b)
  | stored {a : α} {b : β} (hfree : taken = false) : Stores taken (.ok a) (.ok b)

theorem Stores.integrity_iff {x : Except StoreError α} {y : Except StoreError β} (h : Stores taken x y) :
    x = .error .integrityError ↔ taken = true ∧ y.isOk = true := by
  cases h with
  | refused he => simp [he, Except.isOk, Except.toBool]
  | violated htaken => simp [htaken, Except.isOk, Except.toBool]
  | stored hfree => simp [hfree]

/-- Steps that do not depend on the message come before. -/
theorem Stores.bind {x : Except StoreError γ} {f : γ → Except StoreError α} {g : γ → Except StoreError β}
    (hx : x ≠ .error .integrityError) (h : ∀ a, x = .ok a → Stores taken (f a) (g a)) :
    Stores taken (x >>= f) (x >>= g) := by
  cases x with
  | error e => exact .refused fun he => hx (congrArg _ he)
  | ok a => exact h a rfl

/-- Steps that cannot fail come after. -/
theorem Stores.followed {x : Except StoreError α} {y : Except StoreError β} {f : α → Except StoreError γ}
    {g : β → Except StoreError δ} (h : Stores taken x y) (hf : ∀ a, x = .ok a → ∃ r, f a = .ok r)
    (hg : ∀ b, y = .ok b → ∃ r, g b = .ok r) : Stores taken (x >>= f) (y >>= g) := by
  cases h with
  | refused he => exact .refused he
  | @violated b htaken =>
    obtain ⟨r, hr⟩ := hg b rfl
    change Stores taken (.error .integrityError) (g b)
    rw [hr]
    exact .violated htaken
  | @stored a b hfree =>
    obtain ⟨r, hr⟩ := hf a rfl
    obtain ⟨r', hr'⟩ := hg b rfl
    change Stores taken (f a) (g b)
    rw [hr, hr']
    exact .stored hfree

theorem ne_integrity_bind {x : Except StoreError α} {f : α → Except StoreError β}
    (hx : x ≠ .error .integrityError) (hf : ∀ a, x = .ok a → f a ≠ .error .integrityError) :
    x >>= f ≠ .error .integrityError := by
  cases x with
  | error e => exact fun he => hx (congrArg _ (Except.error.inj he))
  | ok a => exact hf a rfl

/-- An error is another one whatever is computed. -/
theorem error_ne_integrity {e : StoreError} (h : (.error e : Except StoreError α) ≠ .error .integrityError) :
    (.error e : Except StoreError β) ≠ .error .integrityError :=
  fun he => h (congrArg _ (Except.error.inj he))

theorem conflict_ne_integrity (message : String) :
    (conflict message : Except StoreError α) ≠ .error .integrityError := by
  simp [conflict]

theorem Stores.conflict (message : String) :
    Stores taken (Dialogue.conflict message : Except StoreError α) (Dialogue.conflict message : Except StoreError β) :=
  .refused (by simp)

end Results

section Statements

variable {c : Application} {db db' : Tables} {item : DialogueInput}

/-- The conversation has no transcript row for the input. -/
def Untold (c : Application) (db : Tables) (inputId : String) : Prop :=
  ∀ m ∈ db.messages, ¬ (m.scope = c.scope ∧ (m.messageId = "input_" ++ inputId ∨ m.inputId = some inputId))

/-- The conversation has neither the input nor a transcript row for it. -/
structure Unstored (c : Application) (db : Tables) (inputId : String) : Prop where
  input : ∀ i ∈ db.inputs, ¬ (i.scope = c.scope ∧ i.inputId = inputId)
  untold : Untold c db inputId

theorem Unstored.of_same {inputId : String} (h : Unstored c db inputId) (hinputs : db'.inputs = db.inputs)
    (hmessages : db'.messages = db.messages) : Unstored c db' inputId :=
  ⟨fun i hi => h.input i (hinputs ▸ hi), fun m hm => h.untold m (hmessages ▸ hm)⟩

theorem Unstored.of_known {inputId : String} (hknown : Known db) (hlabelled : Labelled db)
    (h : ∀ i ∈ db.inputs, ¬ (i.scope = c.scope ∧ i.inputId = inputId)) : Unstored c db inputId := by
  refine ⟨h, fun m hm ⟨hscope, hname⟩ => ?_⟩
  have hid : m.inputId = some inputId := hname.elim (hlabelled m hm inputId) id
  obtain ⟨i, hi, hsame, hinput⟩ := hknown m hm inputId hid
  exact h i hi ⟨hsame.trans hscope, hinput⟩

theorem insertTask_ne_integrity {row : TaskRow} (h : ∀ t ∈ db.tasks, t.id ≠ row.id) :
    insertTask db row ≠ .error .integrityError := by
  unfold insertTask
  rw [if_neg]
  · simp
  · simpa using h

theorem InputRow.conflicts_iff {row i : InputRow} : row.conflicts i = true ↔ i.scope = row.scope ∧
    (i.inputId = row.inputId ∨
      (i.channel = row.channel ∧ i.sourceMessageId.isSome = true) ∧ i.sourceMessageId = row.sourceMessageId) := by
  simp [InputRow.conflicts]

theorem insertInput_unfit {row : InputRow} (h : ¬ Fits row.occurredAt) : insertInput db row = .error bindingError :=
  if_pos h

theorem insertInput_fit {row : InputRow} (hfits : Fits row.occurredAt)
    (hplace : (row.taskId.isNone && row.questionId.isNone) = false)
    (htask : taskKeyHolds db row.scope row.taskId = true)
    (hquestion : questionKeyHolds db row.scope row.questionId = true) : insertInput db row =
      if db.inputs.any row.conflicts then .error .integrityError
      else .ok { db with inputs := db.inputs ++ [row] } := by
  rw [insertInput, if_neg (not_not.mpr hfits), hplace, htask, hquestion]
  simp only [Bool.not_true, Bool.or_false]

theorem insertInput_stores {taskId questionId : Option String} (hnew : Unstored c db item.inputId)
    (hplace : taskId.isSome ∨ questionId.isSome) (htask : taskKeyHolds db c.scope taskId = true)
    (hquestion : questionKeyHolds db c.scope questionId = true) :
    Stores (repeats c db item) (insertInput db (c.inputRow item taskId questionId))
      (insertInput db (c.inputRow item.unsourced taskId questionId)) := by
  have hnull : (taskId.isNone && questionId.isNone) = false := by
    cases taskId <;> cases questionId <;> simp_all
  have hfree : db.inputs.any (c.inputRow item.unsourced taskId questionId).conflicts = false := by
    refine List.any_eq_false.mpr fun i hi => ?_
    rw [InputRow.conflicts_iff]
    rintro ⟨hscope, hid | ⟨⟨-, hsome⟩, hsource⟩⟩
    · exact hnew.input i hi ⟨hscope, hid⟩
    · rw [hsource] at hsome
      cases hsome
  have htaken : db.inputs.any (c.inputRow item taskId questionId).conflicts = repeats c db item := by
    rw [repeats, Bool.eq_iff_iff, Bool.and_eq_true, List.any_eq_true, List.any_eq_true]
    constructor
    · rintro ⟨i, hi, hconflicts⟩
      obtain ⟨hscope, hid | ⟨⟨hchannel, hsome⟩, hsource⟩⟩ := InputRow.conflicts_iff.mp hconflicts
      · exact absurd ⟨hscope, hid⟩ (hnew.input i hi)
      · refine ⟨(congrArg Option.isSome hsource).symm.trans hsome, i, hi, ?_⟩
        simp only [Bool.and_eq_true, decide_eq_true_eq]
        exact ⟨⟨hscope, hchannel⟩, hsource⟩
    · rintro ⟨hsome, i, hi, hsame⟩
      simp only [Bool.and_eq_true, decide_eq_true_eq] at hsame
      obtain ⟨⟨hscope, hchannel⟩, hsource⟩ := hsame
      exact ⟨i, hi, InputRow.conflicts_iff.mpr
        ⟨hscope, .inr ⟨⟨hchannel, (congrArg Option.isSome hsource).trans hsome⟩, hsource⟩⟩⟩
  by_cases hfits : Fits item.occurredAt
  · have hrow : insertInput db (c.inputRow item taskId questionId) = _ := insertInput_fit hfits hnull htask hquestion
    have hrow' : insertInput db (c.inputRow item.unsourced taskId questionId) = _ :=
      insertInput_fit hfits hnull htask hquestion
    rw [hrow, hrow', htaken, hfree, if_neg Bool.false_ne_true]
    cases hrepeats : repeats c db item with
    | true => exact .violated rfl
    | false => exact .stored rfl
  · have hrefused : ∀ row : InputRow, row.occurredAt = item.occurredAt → insertInput db row = .error bindingError :=
      fun row hrow => insertInput_unfit (hrow ▸ hfits)
    rw [hrefused (c.inputRow item taskId questionId) rfl, hrefused (c.inputRow item.unsourced taskId questionId) rfl]
    exact .refused (by simp [bindingError])

theorem insertDialogueMessage_accepted {row : DialogueMessageRow} (hfree : ∀ m ∈ db.messages, row.conflicts m = false)
    (htask : taskKeyHolds db row.scope (some row.taskId) = true)
    (hinput : inputKeyHolds db row.scope row.inputId = true) :
    insertDialogueMessage db row = .ok { db with messages := db.messages ++ [row] } := by
  unfold insertDialogueMessage
  rw [if_neg]
  simp only [htask, hinput, Bool.not_true, Bool.or_false, List.any_eq_true, not_exists, not_and, Bool.not_eq_true]
  exact hfree

/-- The transcript row of an input that has none. -/
theorem inputMessage_accepted {row : InputRow} {taskId : String} (hscope : row.scope = c.scope)
    (huntold : Untold c db row.inputId) (htask : taskKeyHolds db c.scope (some taskId) = true)
    (hinput : inputKeyHolds db c.scope (some row.inputId) = true) :
    insertDialogueMessage db (inputMessage row taskId) =
      .ok { db with messages := db.messages ++ [inputMessage row taskId] } := by
  refine insertDialogueMessage_accepted (fun m hm => ?_) (by rw [← hscope] at htask; exact htask)
    (by rw [← hscope] at hinput; exact hinput)
  rw [Bool.eq_false_iff]
  intro hconflicts
  simp only [DialogueMessageRow.conflicts, Bool.and_eq_true, Bool.or_eq_true, decide_eq_true_eq] at hconflicts
  exact huntold m hm ⟨hconflicts.1.trans hscope, hconflicts.2.imp_right And.right⟩

theorem insertRoutedInput_stores {taskId : String} (hnew : Unstored c db item.inputId)
    (htask : taskKeyHolds db c.scope (some taskId) = true) :
    Stores (repeats c db item) (insertRoutedInput c db item taskId) (insertRoutedInput c db item.unsourced taskId) := by
  have htold : ∀ (item' : DialogueInput), item'.inputId = item.inputId → ∀ db1,
      insertInput db (c.inputRow item' (some taskId) none) = .ok db1 →
      ∃ db2, insertDialogueMessage db1 (inputMessage (c.inputRow item' (some taskId) none) taskId) = .ok db2 := by
    intro item' hid db1 h1
    obtain ⟨rfl, -, -⟩ := insertInput_ok h1
    refine ⟨_, inputMessage_accepted (c := c) rfl (fun m hm => ?_) htask ?_⟩
    · have hne := hnew.untold m hm
      rw [← hid] at hne
      exact hne
    · exact List.any_eq_true.mpr ⟨_, List.mem_append_right _ (List.mem_singleton_self _), by
        simp [isInput, Application.inputRow]⟩
  exact (insertInput_stores hnew (.inl rfl) htask rfl).followed (htold item rfl) (htold item.unsourced rfl)

theorem taskKeyHolds_of_some {taskId : String} {task : TaskRow} (h : getTaskRow db c.scope taskId = some task) :
    taskKeyHolds db c.scope (some taskId) = true := by
  simp [taskKeyHolds, h]

/-- A key holds after statements that keep the tasks. -/
theorem taskKeyHolds_of_mem {scope : Scope} {taskId : String} (h : taskKeyHolds db scope (some taskId) = true)
    (hkept : ∀ t ∈ db.tasks, ∃ t' ∈ db'.tasks, t'.id = t.id ∧ t'.scope = t.scope) :
    taskKeyHolds db' scope (some taskId) = true := by
  simp only [taskKeyHolds, getTaskRow, Option.all_some, List.find?_isSome, isTask, Bool.and_eq_true,
    decide_eq_true_eq] at h ⊢
  obtain ⟨t, ht, hscope, hid⟩ := h
  obtain ⟨t', ht', hid', hscope'⟩ := hkept t ht
  exact ⟨t', ht', hscope'.trans hscope, hid'.trans hid⟩

theorem taskKeyHolds_of_tasks {scope : Scope} {taskId : Option String} (hsame : db'.tasks = db.tasks)
    (h : taskKeyHolds db scope taskId = true) : taskKeyHolds db' scope taskId = true := by
  simp only [taskKeyHolds, getTaskRow, hsame] at h ⊢
  exact h

theorem setFocus_accepted {actorId taskId : String} {now : Int} (h : taskKeyHolds db c.scope (some taskId) = true) :
    ∃ db', setFocus db c.scope actorId taskId now = .ok db' := by
  unfold setFocus
  simp only [h, Bool.not_true, Bool.false_eq_true, if_false]
  split <;> exact ⟨_, rfl⟩

theorem focused {α : Type} {actorId taskId : String} {now : Int} {f : Tables → Except StoreError α}
    (h : taskKeyHolds db c.scope (some taskId) = true) (hf : ∀ db', ∃ r, f db' = .ok r) :
    ∃ r, (setFocus db c.scope actorId taskId now >>= f) = .ok r := by
  obtain ⟨db', h'⟩ : ∃ db', setFocus db c.scope actorId taskId now = .ok db' := setFocus_accepted h
  obtain ⟨r, hr⟩ := hf db'
  exact ⟨r, by rw [h']; exact hr⟩

theorem insertRoutedInput_task {taskId : String} (h : insertRoutedInput c db item taskId = .ok db') :
    taskKeyHolds db' c.scope (some taskId) = true := by
  obtain ⟨db1, h1, h2⟩ := bind_eq_ok h
  obtain ⟨rfl, -, htask⟩ := insertInput_ok h1
  obtain ⟨rfl, -⟩ := insertDialogueMessage_ok h2
  exact htask

theorem touchTask_task {scope : Scope} {taskId taskId' : String} {now : Int}
    (h : taskKeyHolds db scope (some taskId) = true) :
    taskKeyHolds (touchTask db scope taskId' now) scope (some taskId) = true := by
  refine taskKeyHolds_of_mem h fun t ht => ?_
  refine ⟨_, mem_updateWhere_of_mem ht, ?_⟩
  split <;> exact ⟨rfl, rfl⟩

end Statements

section Routes

variable {c : Application} {plans : List PlanRow} {db db' : Tables} {s : RouteState} {item : DialogueInput}

/-- The state before a plan routes an input. -/
structure Ready (c : Application) (plans : List PlanRow) (db : Tables) (item : DialogueInput) : Prop where
  keys : Keyed db
  conserved : Conserved plans db
  unassigned : ∀ i ∈ db.inputs, ¬ (i.scope = c.scope ∧ i.inputId = item.inputId)
  unused : ∀ t ∈ db.tasks, t.id ≠ c.newTaskId item

theorem Ready.unstored (h : Ready c plans db item) : Unstored c db item.inputId :=
  .of_known h.conserved.known h.conserved.labelled h.unassigned

theorem applyCreate_stores (h : Ready c plans s.db item) (route : DialogueRoute) :
    Stores (repeats c s.db item) (applyCreate c s item route) (applyCreate c s item.unsourced route) := by
  unfold applyCreate
  split
  · rename_i key title _ _
    split
    · exact .conflict _
    · refine .bind (x := insertTask s.db (c.taskRow item title item.text)) (insertTask_ne_integrity h.unused)
        fun db1 h1 => ?_
      obtain ⟨rfl, -⟩ := insertTask_ok h1
      have htask : taskKeyHolds { s.db with tasks := s.db.tasks ++ [c.taskRow item title item.text] } c.scope
          (some (c.newTaskId item)) = true :=
        List.find?_isSome.mpr ⟨_, List.mem_append_right _ (List.mem_singleton_self _), by
          simp [isTask, Application.taskRow]⟩
      have hnew : Unstored c { s.db with tasks := s.db.tasks ++ [c.taskRow item title item.text] } item.inputId :=
        h.unstored.of_same rfl rfl
      have hrouted := insertRoutedInput_stores hnew htask
      refine hrouted.followed ?_ ?_
      · exact fun db2 h2 => focused (insertRoutedInput_task h2) fun _ => ⟨_, rfl⟩
      · exact fun db2 h2 => focused (insertRoutedInput_task h2) fun _ => ⟨_, rfl⟩
  · exact .refused (by simp)

theorem applyStatus_stores (h : Ready c plans s.db item) (route : DialogueRoute) :
    Stores (repeats c s.db item) (applyStatus c s item route) (applyStatus c s item.unsourced route) := by
  unfold applyStatus
  split
  · exact .refused (by simp)
  split
  · exact .conflict _
  · rename_i task htask
    exact (insertInput_stores h.unstored (.inl rfl) (taskKeyHolds_of_some htask) rfl).followed
      (fun _ _ => ⟨_, rfl⟩) fun _ _ => ⟨_, rfl⟩

theorem attachInput_stores (hnew : Unstored c db item.inputId) (taskId : String) :
    Stores (repeats c db item) (attachInput c db item taskId) (attachInput c db item.unsourced taskId) := by
  unfold attachInput
  split
  · exact .conflict _
  rename_i task htask
  split
  · exact .conflict _
  · exact (insertRoutedInput_stores hnew (taskKeyHolds_of_some htask)).followed (fun _ _ => ⟨_, rfl⟩)
      fun _ _ => ⟨_, rfl⟩

theorem attachInput_task {taskId : String} (h : attachInput c db item taskId = .ok db') :
    taskKeyHolds db' c.scope (some taskId) = true := by
  unfold attachInput at h
  split at h
  · cases h
  split at h
  · cases h
  obtain ⟨db1, h1, h⟩ := bind_eq_ok h
  obtain rfl := Except.ok.inj h
  exact touchTask_task (insertRoutedInput_task h1)

theorem resolveTaskTarget_ne_integrity (route : DialogueRoute) (localTasks : List (String × String)) :
    resolveTaskTarget route localTasks ≠ .error .integrityError := by
  unfold resolveTaskTarget
  split
  · simp
  · split
    · simp
    · exact conflict_ne_integrity _

theorem applyAttach_stores (h : Ready c plans s.db item) (route : DialogueRoute) :
    Stores (repeats c s.db item) (applyAttach c s item route) (applyAttach c s item.unsourced route) := by
  refine .bind (resolveTaskTarget_ne_integrity route s.localTasks) fun taskId _ => ?_
  refine (attachInput_stores h.unstored taskId).followed ?_ ?_
  · exact fun db1 h1 => focused (attachInput_task h1) fun _ => ⟨_, rfl⟩
  · exact fun db1 h1 => focused (attachInput_task h1) fun _ => ⟨_, rfl⟩

theorem applyEnd_stores (h : Ready c plans s.db item) (status : TaskStatus) (reason : String)
    (route : DialogueRoute) : Stores (repeats c s.db item) (applyEnd c status reason s item route)
      (applyEnd c status reason s item.unsourced route) := by
  refine .bind (resolveTaskTarget_ne_integrity route s.localTasks) fun taskId _ => ?_
  split
  · exact .conflict _
  split
  · exact .conflict _
  · exact (attachInput_stores h.unstored taskId).followed (fun _ _ => ⟨_, rfl⟩) fun _ _ => ⟨_, rfl⟩

theorem questionCandidates_ne_integrity (seen : List String) (candidates : List QuestionCandidate) :
    questionCandidates c db seen candidates ≠ .error .integrityError := by
  induction candidates generalizing seen with
  | nil => simp [questionCandidates]
  | cons candidate rest ih =>
    unfold questionCandidates
    split
    · exact conflict_ne_integrity _
    split
    · exact conflict_ne_integrity _
    split
    · exact conflict_ne_integrity _
    · exact ne_integrity_bind (ih _) fun _ _ => by simp

theorem extendQuestion_ne_integrity (route : DialogueRoute) (existing : QuestionRow) (text : String) :
    extendQuestion c db item route existing text ≠ .error .integrityError := by
  unfold extendQuestion
  split
  · exact conflict_ne_integrity _
  split
  · exact conflict_ne_integrity _
  split
  · exact conflict_ne_integrity _
  refine ne_integrity_bind (questionCandidates_ne_integrity _ _) fun candidates _ => ?_
  split
  · simp
  split
  · exact conflict_ne_integrity _
  dsimp only
  split
  · exact conflict_ne_integrity _
  · simp

/-- A question that is asked under no other conversation's id is asked or refused. -/
theorem createOrExtendQuestion_ne_integrity {route : DialogueRoute} {questionId : String} (text : String)
    (haction : route.action = .question) (hid : route.questionId = some questionId)
    (h : disputes c db route = false) :
    createOrExtendQuestion c db item route questionId text ≠ .error .integrityError := by
  unfold createOrExtendQuestion
  split
  · exact extendQuestion_ne_integrity _ _ _
  · rename_i hnone
    unfold newQuestion
    split
    · exact conflict_ne_integrity _
    rename_i hrevision
    refine ne_integrity_bind (questionCandidates_ne_integrity _ _) fun candidates hcandidates => ?_
    have hrevision' : route.questionRevision.isNone = true := by simpa using hrevision
    have hfree : (db.questions.any (·.id = questionId)) = false := by
      simpa [disputes, haction, hid, hrevision', hcandidates, hnone, Except.isOk, Except.toBool] using h
    refine ne_integrity_bind ?_ fun _ _ => by simp
    unfold insertQuestion
    rw [hfree]
    simp

theorem createOrExtendQuestion_unsourced (route : DialogueRoute) (questionId text : String) :
    createOrExtendQuestion c db item.unsourced route questionId text =
      createOrExtendQuestion c db item route questionId text :=
  rfl

/-- The question is there once it is asked. -/
theorem createOrExtendQuestion_asks {route : DialogueRoute} {questionId text : String} {r : Tables × ℕ}
    (htext : route.questionText = some text) (h : createOrExtendQuestion c db item route questionId text = .ok r) :
    questionKeyHolds r.1 c.scope (some questionId) = true := by
  have hafter : ∃ q, getQuestionRow r.1 c.scope questionId = some q := by
    unfold createOrExtendQuestion at h
    split at h
    · rename_i existing hexisting
      obtain ⟨-, hasking⟩ := extendQuestion_asking hexisting htext h
      obtain ⟨q, hq, -⟩ := hasking.after
      exact ⟨q, hq⟩
    · rename_i hnone
      obtain ⟨-, hasking⟩ := newQuestion_asking hnone htext h
      obtain ⟨q, hq, -⟩ := hasking.after
      exact ⟨q, hq⟩
  obtain ⟨q, hq⟩ := hafter
  simp [questionKeyHolds, hq]

theorem applyQuestion_stores (h : Ready c plans s.db item) {route : DialogueRoute} (haction : route.action = .question)
    (hfree : disputes c s.db route = false) :
    Stores (repeats c s.db item) (applyQuestion c s item route) (applyQuestion c s item.unsourced route) := by
  unfold applyQuestion
  split
  · rename_i questionId text hid htext
    rw [createOrExtendQuestion_unsourced]
    refine .bind (createOrExtendQuestion_ne_integrity text haction hid hfree) fun r h1 => ?_
    obtain ⟨hinputs, hmessages, -⟩ := createOrExtendQuestion_keeps h1
    have hnew := h.unstored.of_same hinputs hmessages
    have hsame : repeats c r.1 item = repeats c s.db item := by rw [repeats, hinputs]; rfl
    have hstores : Stores (repeats c r.1 item) (insertInput r.1 (c.inputRow item none (some questionId)))
        (insertInput r.1 (c.inputRow item.unsourced none (some questionId))) :=
      insertInput_stores hnew (.inr rfl) rfl (createOrExtendQuestion_asks htext h1)
    rw [hsame] at hstores
    exact hstores.followed (fun _ _ => ⟨_, rfl⟩) fun _ _ => ⟨_, rfl⟩
  · exact .refused (by simp)

end Routes

section Resolutions

variable {c : Application} {plans : List PlanRow} {db db' : Tables} {s : RouteState} {item : DialogueInput}

theorem assignInput_ne_integrity {taskId : String} {old : InputRow} (hscope : old.scope = c.scope)
    (huntold : Untold c db old.inputId) (htask : taskKeyHolds db c.scope (some taskId) = true)
    (hstored : inputKeyHolds db c.scope (some old.inputId) = true) :
    assignInput c taskId db old ≠ .error .integrityError := by
  unfold assignInput
  dsimp only
  split
  · exact conflict_ne_integrity _
  · let assigned : Tables := { db with
      inputs := updateWhere (fun i => isInput c.scope old.inputId i && i.taskId.isNone)
        (fun i => { i with taskId := some taskId }) db.inputs }
    have hin : inputKeyHolds assigned c.scope (some old.inputId) = true := by
      obtain ⟨i, hi, hin⟩ := List.any_eq_true.mp hstored
      refine List.any_eq_true.mpr ⟨_, mem_updateWhere_of_mem hi, ?_⟩
      split <;> exact hin
    have hinsert : insertDialogueMessage assigned (inputMessage old taskId) = _ :=
      inputMessage_accepted hscope huntold htask hin
    exact fun he => by cases hinsert.symm.trans he

theorem assignInput_ok {taskId : String} {old : InputRow} (h : assignInput c taskId db old = .ok db') :
    db'.messages = db.messages ++ [inputMessage old taskId] ∧ db'.tasks = db.tasks ∧
      db'.inputs.map (fun i => (i.scope, i.inputId)) = db.inputs.map fun i => (i.scope, i.inputId) := by
  unfold assignInput at h
  dsimp only at h
  split at h
  · cases h
  obtain ⟨rfl, -⟩ := insertDialogueMessage_ok h
  exact ⟨rfl, rfl, map_updateWhere db.inputs fun _ _ => rfl⟩

theorem inputKeyHolds_iff {scope : Scope} {inputId : String} :
    inputKeyHolds db scope (some inputId) = true ↔ (scope, inputId) ∈ db.inputs.map fun i => (i.scope, i.inputId) := by
  simp [inputKeyHolds, isInput]

/-- Waiting inputs that have no transcript rows yet get them. -/
theorem assignInputs_ne_integrity {taskId : String} {olds : List InputRow} (hscopes : ∀ o ∈ olds, o.scope = c.scope)
    (hids : (olds.map (·.inputId)).Nodup) (huntold : ∀ o ∈ olds, Untold c db o.inputId)
    (htask : taskKeyHolds db c.scope (some taskId) = true)
    (hstored : ∀ o ∈ olds, inputKeyHolds db c.scope (some o.inputId) = true) :
    olds.foldlM (assignInput c taskId) db ≠ .error .integrityError := by
  induction olds generalizing db with
  | nil => simp [pure, Except.pure]
  | cons old olds ih =>
    rw [List.forall_mem_cons] at hscopes huntold hstored
    rw [List.map_cons, List.nodup_cons] at hids
    rw [List.foldlM_cons]
    refine ne_integrity_bind (assignInput_ne_integrity hscopes.1 huntold.1 htask hstored.1) fun db1 h1 => ?_
    obtain ⟨hmessages, htasks, hkeys⟩ := assignInput_ok h1
    refine ih hscopes.2 hids.2 (fun o ho m hm => ?_) ?_ fun o ho => ?_
    · rw [hmessages] at hm
      obtain hm | hm := List.mem_append.mp hm
      · exact huntold.2 o ho m hm
      · obtain rfl := List.mem_singleton.mp hm
        rintro ⟨-, hname⟩
        have hsame : old.inputId = o.inputId :=
          hname.elim (String.append_right_inj "input_").mp fun hid => Option.some.inj hid
        exact hids.1 (hsame ▸ List.mem_map_of_mem ho)
    · exact taskKeyHolds_of_tasks htasks htask
    · rw [inputKeyHolds_iff, hkeys, ← inputKeyHolds_iff]
      exact hstored.2 o ho

theorem waitingInputs_ids (hkeys : Keyed db) (questionId : String) :
    ((waitingInputs c db questionId).map (·.inputId)).Nodup := by
  rw [List.Nodup, List.pairwise_map]
  refine (hkeys.inputs.filter _).imp_of_mem fun {i j} hi hj hij hid => ?_
  have hscopes : ∀ o ∈ waitingInputs c db questionId, o.scope = c.scope := fun o ho =>
    of_decide_eq_true (Bool.and_elim_left (Bool.and_elim_left (List.mem_filter.mp ho).2))
  exact ne_of_not_conflicts hij ⟨(hscopes i hi).trans (hscopes j hj).symm, hid⟩

/-- The inputs that wait for a pending question have no transcript rows. -/
theorem waitingInputs_untold (h : Conserved plans db) {question : QuestionRow}
    (hquestion : getQuestionRow db c.scope question.id = some question) (hpending : question.status = .pending) :
    ∀ o ∈ waitingInputs c db question.id, Untold c db o.inputId := by
  rintro o ho m hm ⟨hscope, hname⟩
  obtain ⟨ho, hwaits⟩ := List.mem_filter.mp ho
  simp only [Bool.and_eq_true, decide_eq_true_eq, Option.isNone_iff_eq_none] at hwaits
  obtain ⟨a, -, hplaced⟩ := h.placed o ho
  obtain ⟨-, hnone⟩ := hplaced.waiting hwaits.2 hwaits.1.2 (hwaits.1.1 ▸ hquestion) hpending
  have hid : m.inputId = some o.inputId := hname.elim (h.labelled m hm o.inputId) id
  refine List.filter_eq_nil_iff.mp hnone m hm ?_
  simp [hid, hscope, hwaits.1.1]

theorem checkResolver_ne_integrity (question : QuestionRow) :
    checkResolver c db item question ≠ .error .integrityError := by
  unfold checkResolver
  split
  · split
    · simp
    · exact conflict_ne_integrity _
  split
  · exact conflict_ne_integrity _
  split
  · simp
  · exact conflict_ne_integrity _

theorem resolvedTask_ne_integrity (hunused : ∀ t ∈ db.tasks, t.id ≠ c.newTaskId item) (route : DialogueRoute)
    (question : QuestionRow) (request : String) :
    resolvedTask c db item route question request ≠ .error .integrityError := by
  unfold resolvedTask
  split
  · split
    · simp
    · exact ne_integrity_bind (insertTask_ne_integrity hunused) fun _ _ => by simp
  split
  · simp
  split
  · exact conflict_ne_integrity _
  split
  · exact conflict_ne_integrity _
  split
  · exact conflict_ne_integrity _
  · simp

theorem resolvedTask_task {route : DialogueRoute} {question : QuestionRow} {request : String} {r : Tables × String}
    (h : resolvedTask c db item route question request = .ok r) : taskKeyHolds r.1 c.scope (some r.2) = true := by
  unfold resolvedTask at h
  split at h
  · split at h
    · cases h
    obtain ⟨db1, h1, h⟩ := bind_eq_ok h
    obtain rfl := Except.ok.inj h
    obtain ⟨rfl, -⟩ := insertTask_ok h1
    exact List.find?_isSome.mpr ⟨_, List.mem_append_right _ (List.mem_singleton_self _), by
      simp [isTask, Application.taskRow]⟩
  · split at h
    · cases h
    split at h
    · cases h
    split at h
    · cases h
    rename_i task htask
    split at h
    · cases h
    obtain rfl := Except.ok.inj h
    exact taskKeyHolds_of_some htask

theorem closeQuestion_ne_integrity (question : QuestionRow) (taskId : String) :
    closeQuestion c db question taskId ≠ .error .integrityError := by
  unfold closeQuestion
  dsimp only
  split
  · exact conflict_ne_integrity _
  · simp

/-- An input is as new after a resolution has assigned other inputs as before it. -/
theorem assignInputs_unstored (hnew : Unstored c db item.inputId) {taskId : String} {olds : List InputRow}
    (holds : ∀ o ∈ olds, o ∈ db.inputs ∧ o.scope = c.scope) (h : olds.foldlM (assignInput c taskId) db = .ok db') :
    Unstored c db' item.inputId ∧ repeats c db' item = repeats c db item := by
  obtain ⟨hinputs, -⟩ := assignInputs_inputs h
  obtain ⟨hmessages, -⟩ := assignInputs_messages h
  refine ⟨⟨fun i hi => ?_, fun m hm => ?_⟩, ?_⟩
  · rw [hinputs] at hi
    obtain ⟨i', hi', rfl⟩ := List.mem_map.mp hi
    have hne := hnew.input i' hi'
    split <;> exact hne
  · rw [hmessages] at hm
    obtain hm | hm := List.mem_append.mp hm
    · exact hnew.untold m hm
    · obtain ⟨o, ho, rfl⟩ := List.mem_map.mp hm
      obtain ⟨hmem, hscope⟩ := holds o ho
      rintro ⟨-, hname⟩
      have hsame : o.inputId = item.inputId :=
        hname.elim (String.append_right_inj "input_").mp fun hid => Option.some.inj hid
      exact hnew.input o hmem ⟨hscope, hsame⟩
  · rw [repeats, hinputs, List.any_map]
    congr 2
    funext i
    simp only [Function.comp]
    split <;> rfl

theorem resolveQuestion_stores (h : Ready c plans db item) (route : DialogueRoute) (questionId : String)
    (revision : Int) : Stores (repeats c db item) (resolveQuestion c db item route questionId revision)
      (resolveQuestion c db item.unsourced route questionId revision) := by
  unfold resolveQuestion
  split
  · exact .conflict _
  rename_i question hquestion
  split
  · exact .conflict _
  rename_i hcurrent
  refine .bind (x := checkResolver c db item question) (checkResolver_ne_integrity question) fun _ _ => ?_
  split
  · exact .conflict _
  rename_i first rest hwaiting
  obtain ⟨-, -, rfl⟩ := getQuestionRow_id hquestion
  have hpending : question.status = .pending := by
    simp only [Bool.or_eq_true, decide_eq_true_eq, not_or, not_not] at hcurrent
    exact hcurrent.1
  refine .bind (x := resolvedTask c db item route question first.text)
    (resolvedTask_ne_integrity h.unused route question first.text) fun r h1 => ?_
  refine .bind (closeQuestion_ne_integrity question r.2) fun db2 h2 => ?_
  obtain ⟨hinputs1, hquestions1⟩ := resolvedTask_keeps h1
  obtain ⟨hmessages1, -⟩ := resolvedTask_effect h1
  have hquestion1 : getQuestionRow r.1 c.scope question.id = some question :=
    (congrArg (List.find? (isQuestion c.scope question.id)) hquestions1).trans hquestion
  obtain ⟨hinputs2, -⟩ := closeQuestion_keeps h2
  obtain ⟨hmessages2, htasks2, -⟩ := closeQuestion_resolves hquestion1 hpending h2
  have hinputs : db2.inputs = db.inputs := hinputs2.trans hinputs1
  have hmessages : db2.messages = db.messages := hmessages2.trans hmessages1
  have htask2 := taskKeyHolds_of_tasks htasks2 (resolvedTask_task h1)
  have holds : ∀ o ∈ first :: rest, o ∈ db2.inputs ∧ o.scope = c.scope := by
    rw [← hwaiting, hinputs]
    intro o ho
    obtain ⟨ho, hwaits⟩ := List.mem_filter.mp ho
    exact ⟨ho, of_decide_eq_true (Bool.and_elim_left (Bool.and_elim_left hwaits))⟩
  have huntold : ∀ o ∈ first :: rest, Untold c db2 o.inputId := by
    intro o ho m hm
    rw [← hwaiting] at ho
    exact waitingInputs_untold h.conserved hquestion hpending o ho m (hmessages ▸ hm)
  refine .bind (assignInputs_ne_integrity (fun o ho => (holds o ho).2) (hwaiting ▸ waitingInputs_ids h.keys _) huntold
    htask2 fun o ho => ?_) fun db3 h3 => ?_
  · exact List.any_eq_true.mpr ⟨o, (holds o ho).1, by simp [isInput, (holds o ho).2]⟩
  · obtain ⟨hnew, hrepeats⟩ := assignInputs_unstored (h.unstored.of_same hinputs hmessages) holds h3
    obtain ⟨-, htasks3, -⟩ := assignInputs_messages h3
    have htask3 := taskKeyHolds_of_tasks htasks3 htask2
    have hsame : repeats c db3 item = repeats c db item := by
      rw [hrepeats, repeats, hinputs]
      rfl
    have hnew' : Unstored c (suppressQuestionOutbound c db3 question.id) item.inputId := hnew.of_same rfl rfl
    have hstores := insertRoutedInput_stores hnew' htask3
    have hstores' : Stores (repeats c db item) _ _ := hsame ▸ hstores
    exact hstores'.followed (fun _ _ => ⟨_, rfl⟩) fun _ _ => ⟨_, rfl⟩

theorem resolveQuestion_task {route : DialogueRoute} {questionId : String} {revision : Int} {r : Tables × String}
    (h : resolveQuestion c db item route questionId revision = .ok r) :
    taskKeyHolds r.1 c.scope (some r.2) = true := by
  unfold resolveQuestion at h
  split at h
  · cases h
  split at h
  · cases h
  obtain ⟨_, -, h⟩ := bind_eq_ok h
  split at h
  · cases h
  obtain ⟨⟨db1, taskId⟩, h1, h⟩ := bind_eq_ok h
  obtain ⟨db2, h2, h⟩ := bind_eq_ok h
  obtain ⟨db3, h3, h⟩ := bind_eq_ok h
  obtain ⟨db4, h4, h⟩ := bind_eq_ok h
  obtain rfl := Except.ok.inj h
  exact touchTask_task (insertRoutedInput_task h4)

theorem applyResolveQuestion_stores (h : Ready c plans s.db item) (route : DialogueRoute) :
    Stores (repeats c s.db item) (applyResolveQuestion c s item route)
      (applyResolveQuestion c s item.unsourced route) := by
  unfold applyResolveQuestion
  split
  · split
    · exact .conflict _
    · refine (resolveQuestion_stores h route _ _).followed ?_ ?_
      · exact fun r hr => focused (resolveQuestion_task hr) fun _ => ⟨_, rfl⟩
      · exact fun r hr => focused (resolveQuestion_task hr) fun _ => ⟨_, rfl⟩
  · exact .refused (by simp)

end Resolutions

section Runs

variable {c : Application} {plans : List PlanRow} {db : Tables} {s : RouteState} {item : DialogueInput}

theorem applyRoute_stores (h : Ready c plans s.db item) {route : DialogueRoute}
    (hfree : disputes c s.db route = false) :
    Stores (repeats c s.db item) (applyRoute c s item route) (applyRoute c s item.unsourced route) := by
  unfold applyRoute
  cases ha : route.action with
  | create => exact applyCreate_stores h route
  | status => exact applyStatus_stores h route
  | attach => exact applyAttach_stores h route
  | question => exact applyQuestion_stores h ha hfree
  | resolveQuestion => exact applyResolveQuestion_stores h route
  | close => exact applyEnd_stores h _ _ route
  | cancel => exact applyEnd_stores h _ _ route

theorem disputes_iff {route : DialogueRoute} : disputes c db route = true ↔ route.action = .question ∧
    route.questionRevision = none ∧ (∃ candidates, questionCandidates c db [] route.candidates = .ok candidates) ∧
    ∃ id, route.questionId = some id ∧ getQuestionRow db c.scope id = none ∧ ∃ q ∈ db.questions, q.id = id := by
  have hok : (questionCandidates c db [] route.candidates).isOk = true ↔
      ∃ candidates, questionCandidates c db [] route.candidates = .ok candidates := by
    cases questionCandidates c db [] route.candidates <;> simp [Except.isOk, Except.toBool]
  simp only [disputes, Bool.and_eq_true, decide_eq_true_eq, Option.isNone_iff_eq_none, hok, Option.any_eq_true,
    List.any_eq_true, and_assoc]

/-- The question is inserted under an id that is taken. -/
theorem applyRoute_disputed {route : DialogueRoute} (h : disputes c s.db route = true) :
    applyRoute c s item route = .error .integrityError := by
  obtain ⟨haction, hrevision, ⟨candidates, hcandidates⟩, id, hid, hnone, q, hq, hsame⟩ := disputes_iff.mp h
  obtain ⟨text, htext⟩ : ∃ text, route.questionText = some text := by
    have hvalid := route.valid
    simp only [RouteFields.wellFormed, haction, Bool.and_eq_true] at hvalid
    cases htext : route.questionText with
    | none => simp [htext, isText] at hvalid
    | some text => exact ⟨text, rfl⟩
  have htaken : s.db.questions.any (·.id = id) = true := List.any_eq_true.mpr ⟨q, hq, decide_eq_true hsame⟩
  simp only [applyRoute, haction, applyQuestion, hid, htext, createOrExtendQuestion, hnone, newQuestion, hrevision,
    hcandidates, insertQuestion, htaken, Option.isSome_none, Bool.false_eq_true, if_false, if_true, bind, Except.bind]

theorem applyRoute_integrity_iff (h : Ready c plans s.db item) {route : DialogueRoute} :
    applyRoute c s item route = .error .integrityError ↔ Violates c s item route := by
  cases hdisputes : disputes c s.db route with
  | true => exact iff_of_true (applyRoute_disputed hdisputes) (.inl hdisputes)
  | false =>
    simp only [(applyRoute_stores h hdisputes).integrity_iff, Violates, hdisputes, Bool.false_eq_true, false_or]

theorem applyRoute_effect (hkeys : Keyed s.db) {route : DialogueRoute} {r : RouteState × Assigned}
    (h : applyRoute c s item route = .ok r) : ∃ moved target taskId questionId own,
      Effect c s.db r.1.db moved target (c.inputRow item taskId questionId) own := by
  unfold applyRoute at h
  cases ha : route.action with
  | create =>
    obtain ⟨taskId, -, heffect⟩ := applyCreate_effect (by simpa [ha] using h)
    exact ⟨_, _, _, _, _, heffect⟩
  | status =>
    obtain ⟨taskId, -, heffect⟩ := applyStatus_effect (by simpa [ha] using h)
    exact ⟨_, _, _, _, _, heffect⟩
  | attach =>
    obtain ⟨taskId, -, heffect⟩ := applyAttach_effect (by simpa [ha] using h)
    exact ⟨_, _, _, _, _, heffect⟩
  | question =>
    obtain ⟨questionId, target, -, -, heffect⟩ := applyQuestion_effect (by simpa [ha] using h)
    exact ⟨_, _, _, _, _, heffect⟩
  | resolveQuestion =>
    obtain ⟨questionId, taskId, -, heffect⟩ := applyResolveQuestion_effect hkeys (by simpa [ha] using h)
    exact ⟨_, _, _, _, _, heffect⟩
  | close =>
    simp only [ha, applyClose] at h
    obtain ⟨taskId, -, heffect⟩ := applyEnd_effect (by decide) h
    exact ⟨_, _, _, _, _, heffect⟩
  | cancel =>
    simp only [ha, applyCancel] at h
    obtain ⟨taskId, -, heffect⟩ := applyEnd_effect (by decide) h
    exact ⟨_, _, _, _, _, heffect⟩

/-- The state before a plan routes the rest of its inputs. -/
structure Prepared (c : Application) (plans : List PlanRow) (db : Tables) (items : List DialogueInput) : Prop where
  keys : Keyed db
  conserved : Conserved plans db
  unassigned : ∀ item ∈ items, ∀ i ∈ db.inputs, ¬ (i.scope = c.scope ∧ i.inputId = item.inputId)
  unused : ∀ item ∈ items, ∀ t ∈ db.tasks, t.id ≠ c.newTaskId item
  inputIds : (items.map (·.inputId)).Nodup
  taskIds : (items.map c.newTaskId).Nodup

theorem Prepared.head {items : List DialogueInput} (h : Prepared c plans db (item :: items)) : Ready c plans db item :=
  ⟨h.keys, h.conserved, h.unassigned item List.mem_cons_self, h.unused item List.mem_cons_self⟩

theorem Prepared.tail {items : List DialogueInput} (h : Prepared c plans s.db (item :: items))
    (hrecorded : IsRecorded c plans) {route : DialogueRoute} (hroute : routeFor c.plan item.inputId = .ok route)
    {r : RouteState × Assigned} (hr : applyRoute c s item route = .ok r) : Prepared c plans r.1.db items := by
  obtain ⟨hinput, hinputs⟩ := List.nodup_cons.mp h.inputIds
  obtain ⟨htask, htasks⟩ := List.nodup_cons.mp h.taskIds
  obtain ⟨moved, target, taskId, questionId, own, heffect⟩ := applyRoute_effect h.keys hr
  refine ⟨(applyRoute_step hr).keys h.keys, (applyRoute_conserved hrecorded h.keys h.conserved hroute hr).1,
    fun item' hitem' i hi => ?_, fun item' hitem' t ht hid => ?_, hinputs, htasks⟩
  · have hold := h.unassigned item' (List.mem_cons_of_mem item hitem')
    rw [heffect.inputs] at hi
    obtain hi | hi := List.mem_append.mp hi
    · obtain ⟨o, ho, -, rfl⟩ | ⟨ho, -⟩ := mem_updateWhere.mp hi
      · exact hold o ho
      · exact hold i ho
    · obtain rfl := List.mem_singleton.mp hi
      rintro ⟨-, hid⟩
      exact hinput (List.mem_map.mpr ⟨item', hitem', hid.symm⟩)
  · obtain hold | hnew := heffect.drawn t ht
    · obtain ⟨t', ht', hid'⟩ := List.mem_map.mp hold
      exact h.unused item' (List.mem_cons_of_mem item hitem') t' ht' (hid'.trans hid)
    · exact htask (List.mem_map.mpr ⟨item', hitem', hid.symm.trans hnew⟩)

theorem routeFor_ne_integrity (plan : DialoguePlan) (inputId : String) :
    routeFor plan inputId ≠ .error .integrityError := by
  unfold routeFor
  split <;> simp

theorem reaches_cons_iff {P : RouteState → DialogueInput → DialogueRoute → Prop} {items : List DialogueInput}
    {route : DialogueRoute} (hroute : routeFor c.plan item.inputId = .ok route) : Reaches c P s (item :: items) ↔
      P s item route ∨ ∃ r, applyRoute c s item route = .ok r ∧ Reaches c P r.1 items := by
  constructor
  · rintro ⟨route', hroute', h⟩
    obtain rfl := Except.ok.inj (hroute.symm.trans hroute')
    exact h
  · exact fun h => ⟨route, hroute, h⟩

/-- The routes violate a uniqueness constraint where they reach a route that does. -/
theorem applyRoutes_integrity_iff (hrecorded : IsRecorded c plans) {items : List DialogueInput}
    (h : Prepared c plans s.db items) :
    applyRoutes c s items = .error .integrityError ↔ Reaches c (Violates c) s items := by
  induction items generalizing s with
  | nil => simp [applyRoutes, Reaches]
  | cons item items ih =>
    cases hroute : routeFor c.plan item.inputId with
    | error e =>
      have hne := routeFor_ne_integrity c.plan item.inputId
      rw [hroute] at hne
      refine iff_of_false ?_ (by simp [Reaches, hroute])
      simpa [applyRoutes, hroute, bind, Except.bind] using hne
    | ok route =>
      rw [reaches_cons_iff hroute, ← applyRoute_integrity_iff h.head]
      cases h1 : applyRoute c s item route with
      | error e => simp [applyRoutes, hroute, h1, bind, Except.bind]
      | ok r =>
        have hrest := ih (h.tail hrecorded hroute h1)
        simp only [applyRoutes, hroute, h1, bind, Except.bind, reduceCtorEq, false_or, Except.ok.injEq,
          exists_eq_left', ← hrest]
        cases applyRoutes c r.1 items <;> simp

theorem applyRoutes_plans (hkeys : Keyed s.db) {items : List DialogueInput}
    {r : RouteState × List (String × Assigned)} (h : applyRoutes c s items = .ok r) : r.1.db.plans = s.db.plans := by
  induction items generalizing s r with
  | nil =>
    obtain rfl := Except.ok.inj h
    rfl
  | cons item items ih =>
    obtain ⟨route, -, h⟩ := bind_eq_ok h
    obtain ⟨⟨s1, assigned⟩, h1, h⟩ := bind_eq_ok h
    obtain ⟨⟨s2, others⟩, h2, h⟩ := bind_eq_ok h
    obtain rfl := Except.ok.inj h
    obtain ⟨_, _, _, _, _, heffect⟩ := applyRoute_effect hkeys h1
    exact (ih ((applyRoute_step h1).keys hkeys) h2).trans heffect.plans

theorem validatePlan_ne_integrity (plan : DialoguePlan) : validatePlan plan ≠ .error .integrityError := by
  have htitle : ∀ title, validateTitle title ≠ .error .integrityError := by
    intro title
    unfold validateTitle
    split <;> simp
  have hquestion : ∀ route, validateQuestion route ≠ .error .integrityError := by
    intro route
    unfold validateQuestion
    split
    · simp
    split
    · simp
    split
    · simp
    split <;> simp
  have hinput : ∀ item, validateInput plan item ≠ .error .integrityError := by
    intro item
    unfold validateInput
    split
    · simp
    split
    · simp
    refine ne_integrity_bind (routeFor_ne_integrity plan item.inputId) fun route _ => ?_
    split
    · exact htitle _
    · split
      · exact htitle _
      · simp
    · exact hquestion _
    all_goals simp
  unfold validatePlan
  split
  · simp
  · induction plan.inputs with
    | nil => simp [pure, Except.pure]
    | cons item items ih =>
      exact ne_integrity_bind (hinput item) fun _ _ => ih

theorem finalAssignments_ne_integrity (db : Tables) (assigned : List (String × Assigned)) :
    assigned.mapM (finalAssignment c db) ≠ .error .integrityError := by
  have hfinal : ∀ a, finalAssignment c db a ≠ .error .integrityError := by
    rintro ⟨inputId, taskId, questionId, questionRevision⟩
    unfold finalAssignment
    dsimp only
    split
    · simp
    split <;> simp
  induction assigned with
  | nil => simp [pure, Except.pure]
  | cons a assigned ih =>
    rw [List.mapM_cons]
    exact ne_integrity_bind (hfinal a) fun _ _ => ne_integrity_bind ih fun _ _ => by simp [pure, Except.pure]

theorem commitPlan_integrity_iff (hkeys : Keyed db) (hconserved : Conserved db.plans db) (hfresh : Fresh c db)
    (hnone : storedPlan db c.plan = none) : commitPlan c db = .error .integrityError ↔
      (c.plan.inputs.any fun item => db.inputs.any (isInput c.scope item.inputId)) = false ∧
        Reaches c (Violates c) ⟨db, []⟩ c.plan.inputs := by
  unfold commitPlan
  cases hassigned : c.plan.inputs.any fun item => db.inputs.any (isInput c.scope item.inputId) with
  | true => simp [conflict]
  | false =>
    have hrecorded : IsRecorded c (db.plans ++ [planRow c ⟨c.plan.planId, []⟩]) :=
      ⟨_, List.mem_append_right _ (List.mem_singleton_self _), rfl, rfl, rfl⟩
    have hprepared : Prepared c (db.plans ++ [planRow c ⟨c.plan.planId, []⟩]) db c.plan.inputs := by
      refine ⟨hkeys, hconserved.mono fun p hp => List.mem_append_left _ hp, fun item hitem i hi => ?_,
        fun item hitem t ht => hfresh.unused t ht item hitem, c.plan.inputIds, hfresh.distinct⟩
      have hno := List.any_eq_false.mp (Bool.eq_false_iff.mpr (List.any_eq_false.mp hassigned item hitem)) i hi
      simpa [isInput] using hno
    have hroutes := applyRoutes_integrity_iff (s := ⟨db, []⟩) hrecorded hprepared
    simp only [Bool.false_eq_true, if_false, true_and]
    rw [← hroutes]
    cases hrun : applyRoutes c ⟨db, []⟩ c.plan.inputs with
    | error e => simp [bind, Except.bind]
    | ok r =>
      obtain ⟨s', assigned⟩ := r
      have hinsert : ∀ result, insertPlan s'.db (planRow c result) =
          .ok { s'.db with plans := s'.db.plans ++ [planRow c result] } := by
        intro result
        unfold insertPlan
        rw [applyRoutes_plans hkeys hrun, if_neg]
        rw [Bool.not_eq_true, List.any_eq_false]
        exact List.find?_eq_none.mp hnone
      refine iff_of_false ?_ (by simp)
      change (assigned.mapM (finalAssignment c s'.db) >>= fun assignments =>
        insertPlan s'.db (planRow c ⟨c.plan.planId, assignments⟩) >>= fun db =>
          .ok (db, (⟨c.plan.planId, assignments⟩ : DialoguePlanResult))) ≠ .error .integrityError
      refine ne_integrity_bind (finalAssignments_ne_integrity s'.db assigned) fun assignments _ => ?_
      rw [hinsert]
      simp [bind, Except.bind]

/-- A plan violates a uniqueness constraint just where it is broken. -/
theorem applyDialoguePlan_integrity_iff (hkeys : Keyed db) (hconserved : Conserved db.plans db) (hfresh : Fresh c db) :
    applyDialoguePlan c db = .error .integrityError ↔ Broken c db := by
  unfold applyDialoguePlan Broken Commits
  cases hvalid : validatePlan c.plan with
  | error e =>
    have hne := validatePlan_ne_integrity c.plan
    rw [hvalid] at hne
    exact iff_of_false (error_ne_integrity hne) (by simp)
  | ok u =>
    cases hfind : db.plans.find? (fun p => p.scope = c.scope && p.planId = c.plan.planId) with
    | some previous =>
      have hstored : storedPlan db c.plan = some previous := hfind
      refine iff_of_false ?_ (by simp [hstored])
      change (if _ then _ else _) ≠ _
      split
      · exact conflict_ne_integrity _
      · split <;> simp
    | none =>
      have hstored : storedPlan db c.plan = none := hfind
      have hcommit := commitPlan_integrity_iff hkeys hconserved hfresh hstored
      simp only [hstored, true_and]
      exact hcommit

end Runs

end Soveren.Dialogue
