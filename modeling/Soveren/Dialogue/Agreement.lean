import Soveren.Conversation.Calls

/-! The result of a plan and the rows that it commits. The assignments are collected route by route; the
question of an earlier input can be refreshed or resolved by a later route of the same plan. -/
namespace Soveren.Dialogue
open Soveren.Relational Soveren.Conversation

section Statement

/-- An assignment says what the committed rows say about its input. -/
structure AssignmentAgrees (scope : Scope) (db : Tables) (a : DialogueAssignment) : Prop where
  task : ∃ input, db.inputs.find? (isInput scope a.inputId) = some input ∧ a.taskId = input.taskId
  state : ∀ taskId, a.taskId = some taskId → ∃ row, getTaskRow db scope taskId = some row ∧
    a.taskRevision = some row.revision ∧ a.taskStatus = some row.status
  question : ∀ input q questionId, db.inputs.find? (isInput scope a.inputId) = some input →
    input.taskId = none → input.questionId = some questionId →
    getQuestionRow db scope questionId = some q → q.status = .pending →
    a.questionRevision = some q.revision

/-- There is one assignment for each input, and each agrees with the committed rows. -/
def ResultAgrees (plan : DialoguePlan) (db : Tables) (result : DialoguePlanResult) : Prop :=
  result.assignments.map (·.inputId) = plan.inputs.map (·.inputId) ∧
    ∀ a ∈ result.assignments, AssignmentAgrees plan.scope db a

/-- The tasks that a route offers, with their revisions. -/
def offered (candidates : List QuestionCandidate) : List (String × ℕ) :=
  candidates.map fun x => (x.taskId, x.revision)

/-- Two routes ask the same. -/
def sameQuestion (r r' : RouteFields) : Bool :=
  r.questionText = r'.questionText && r.hasMoreCandidates = r'.hasMoreCandidates &&
    offered r.candidates = offered r'.candidates

/-- The later route resolves the question that the earlier one asks, or asks it in another way. -/
def disturbs (later earlier : RouteFields) : Bool :=
  earlier.action = .question && later.questionId = earlier.questionId &&
    (later.action = .resolveQuestion || (later.action = .question && !sameQuestion later earlier))

/-- No input of the plan is held by a question that a later route of the plan resolves or changes. -/
def Undisturbed (plan : DialoguePlan) : Prop :=
  plan.inputs.Pairwise fun i j => ∀ r r', routeFor plan i.inputId = .ok r →
    routeFor plan j.inputId = .ok r' → disturbs r'.toRouteFields r.toRouteFields = false

end Statement

section Snapshots

variable {c : Application} {db db' : Tables}

/-- The candidate shows the title and the request of its task. -/
def Shows (scope : Scope) (db : Tables) (x : QuestionCandidate) : Prop :=
  ∃ row, getTaskRow db scope x.taskId = some row ∧ x.title = row.title ∧
    x.excerpt = some (Text.clip 240 row.originalRequest)

theorem getTaskRow_step (h : PlanStep db db') {scope : Scope} {taskId : String} {row : TaskRow}
    (hrow : getTaskRow db scope taskId = some row) :
    ∃ row', getTaskRow db' scope taskId = some row' ∧ TaskStep row row' := by
  refine h.tasks.find? (fun r _ s hs => ?_) hrow
  simp only [isTask, hs.scope, hs.id]

theorem Shows.step (h : PlanStep db db') {scope : Scope} {x : QuestionCandidate}
    (hx : Shows scope db x) : Shows scope db' x := by
  obtain ⟨row, hrow, htitle, hexcerpt⟩ := hx
  obtain ⟨row', hrow', hstep⟩ := getTaskRow_step h hrow
  exact ⟨row', hrow', by rw [htitle, hstep.title], by rw [hexcerpt, hstep.originalRequest]⟩

theorem questionCandidates_ok {seen : List String} {candidates out : List QuestionCandidate}
    (h : questionCandidates c db seen candidates = .ok out) :
    offered out = offered candidates ∧ ∀ x ∈ out, Shows c.scope db x := by
  induction candidates generalizing seen out with
  | nil =>
    obtain rfl := Except.ok.inj h
    exact ⟨rfl, by simp⟩
  | cons candidate rest ih =>
    unfold questionCandidates at h
    split at h
    · cases h
    split at h
    · cases h
    rename_i task htask
    split at h
    · cases h
    rename_i hcurrent
    obtain ⟨out', hrest, h⟩ := bind_eq_ok h
    obtain rfl := Except.ok.inj h
    obtain ⟨hoffered, hshows⟩ := ih hrest
    have hid : task.id = candidate.taskId := by
      have hfound := List.find?_some htask
      simp only [isTask, Bool.and_eq_true, decide_eq_true_eq] at hfound
      exact hfound.2
    have hrevision : task.revision = candidate.revision := by
      simp only [Bool.or_eq_true, decide_eq_true_eq, not_or, not_not] at hcurrent
      exact hcurrent.2
    refine ⟨?_, fun x hx => ?_⟩
    · simp only [offered, List.map_cons, hid, hrevision] at hoffered ⊢
      rw [hoffered]
    · obtain rfl | hx := List.mem_cons.mp hx
      · exact ⟨task, by rw [hid]; exact htask, rfl, rfl⟩
      · exact hshows x hx

/-- What is offered decides what is shown. -/
theorem eq_of_offered {scope : Scope} {xs ys : List QuestionCandidate} (h : offered xs = offered ys)
    (hx : ∀ x ∈ xs, Shows scope db x) (hy : ∀ y ∈ ys, Shows scope db y) : xs = ys := by
  induction xs generalizing ys with
  | nil =>
    cases ys with
    | nil => rfl
    | cons y ys => cases h
  | cons x xs ih =>
    cases ys with
    | nil => cases h
    | cons y ys =>
      obtain ⟨hhead, htail⟩ := List.cons.inj h
      obtain ⟨hid, hrevision⟩ := Prod.mk.inj hhead
      obtain ⟨row, hrow, htitle, hexcerpt⟩ := hx x (by simp)
      obtain ⟨row', hrow', htitle', hexcerpt'⟩ := hy y (by simp)
      obtain rfl := Option.some.inj (hrow.symm.trans (hid ▸ hrow'))
      have hxy : x = y := by
        cases x
        cases y
        simp_all
      rw [hxy, ih htail (fun z hz => hx z (by simp [hz])) fun z hz => hy z (by simp [hz])]

end Snapshots

section Routes

variable {c : Application} {db db' : Tables}

/-- The input is stored under a task, and no question changes. -/
def RoutedTo (c : Application) (db db' : Tables) (item : DialogueInput) (taskId : String) : Prop :=
  db'.inputs = db.inputs ++ [c.inputRow item (some taskId) none] ∧ db'.questions = db.questions

theorem insertRoutedInput_routed {item : DialogueInput} {taskId : String}
    (h : insertRoutedInput c db item taskId = .ok db') : RoutedTo c db db' item taskId := by
  obtain ⟨db1, h1, h2⟩ := bind_eq_ok h
  obtain ⟨rfl, -⟩ := insertInput_ok h1
  obtain ⟨rfl, -⟩ := insertDialogueMessage_ok h2
  exact ⟨rfl, rfl⟩

theorem attachInput_routed {item : DialogueInput} {taskId : String}
    (h : attachInput c db item taskId = .ok db') : RoutedTo c db db' item taskId := by
  unfold attachInput at h
  split at h
  · cases h
  split at h
  · cases h
  obtain ⟨db1, h1, h⟩ := bind_eq_ok h
  obtain rfl := Except.ok.inj h
  obtain ⟨hinputs, hquestions⟩ := insertRoutedInput_routed h1
  exact ⟨hinputs, hquestions⟩

theorem applyCreate_routed {s : RouteState} {item : DialogueInput} {route : DialogueRoute}
    {r : RouteState × Assigned} (h : applyCreate c s item route = .ok r) :
    ∃ taskId, r.2 = (some taskId, none, none) ∧ RoutedTo c s.db r.1.db item taskId := by
  unfold applyCreate at h
  split at h
  · split at h
    · cases h
    obtain ⟨db1, h1, h⟩ := bind_eq_ok h
    obtain ⟨db2, h2, h⟩ := bind_eq_ok h
    obtain ⟨db3, h3, h⟩ := bind_eq_ok h
    obtain rfl := Except.ok.inj h
    obtain ⟨rfl, -⟩ := insertTask_ok h1
    obtain ⟨focus, rfl⟩ := setFocus_ok h3
    obtain ⟨hinputs, hquestions⟩ := insertRoutedInput_routed h2
    exact ⟨_, rfl, hinputs, hquestions⟩
  · cases h

theorem applyStatus_routed {s : RouteState} {item : DialogueInput} {route : DialogueRoute}
    {r : RouteState × Assigned} (h : applyStatus c s item route = .ok r) :
    ∃ taskId, r.2 = (some taskId, none, none) ∧ RoutedTo c s.db r.1.db item taskId := by
  unfold applyStatus at h
  split at h
  · cases h
  split at h
  · cases h
  obtain ⟨db1, h1, h⟩ := bind_eq_ok h
  obtain rfl := Except.ok.inj h
  obtain ⟨rfl, -⟩ := insertInput_ok h1
  exact ⟨_, rfl, rfl, rfl⟩

theorem applyAttach_routed {s : RouteState} {item : DialogueInput} {route : DialogueRoute}
    {r : RouteState × Assigned} (h : applyAttach c s item route = .ok r) :
    ∃ taskId, r.2 = (some taskId, none, none) ∧ RoutedTo c s.db r.1.db item taskId := by
  obtain ⟨taskId, -, h⟩ := bind_eq_ok h
  obtain ⟨db1, h1, h⟩ := bind_eq_ok h
  obtain ⟨db2, h2, h⟩ := bind_eq_ok h
  obtain rfl := Except.ok.inj h
  obtain ⟨focus, rfl⟩ := setFocus_ok h2
  obtain ⟨hinputs, hquestions⟩ := attachInput_routed h1
  exact ⟨taskId, rfl, hinputs, hquestions⟩

theorem applyEnd_routed {status : TaskStatus} {reason : String} {s : RouteState} {item : DialogueInput}
    {route : DialogueRoute} {r : RouteState × Assigned}
    (h : applyEnd c status reason s item route = .ok r) :
    ∃ taskId, r.2 = (some taskId, none, none) ∧ RoutedTo c s.db r.1.db item taskId := by
  obtain ⟨taskId, -, h⟩ := bind_eq_ok h
  split at h
  · cases h
  split at h
  · cases h
  obtain ⟨db1, h1, h⟩ := bind_eq_ok h
  obtain rfl := Except.ok.inj h
  obtain ⟨hinputs, hquestions⟩ := attachInput_routed h1
  exact ⟨taskId, rfl, hinputs, hquestions⟩

/-- A question is pending and says what the route asks. -/
structure Asked (scope : Scope) (db : Tables) (route : RouteFields) (q : QuestionRow) : Prop where
  pending : q.status = .pending
  text : route.questionText = some q.text
  more : q.hasMoreCandidates = route.hasMoreCandidates
  offers : offered q.candidates = offered route.candidates
  shows : ∀ x ∈ q.candidates, Shows scope db x

/-- A route asks a question: the other questions are kept, and a question that was there before has been
pending and is refreshed unless the route asks the same. -/
structure Asking (c : Application) (db db' : Tables) (route : RouteFields) (questionId : String)
    (revision : ℕ) : Prop where
  others : ∀ id, id ≠ questionId → getQuestionRow db' c.scope id = getQuestionRow db c.scope id
  after : ∃ q, getQuestionRow db' c.scope questionId = some q ∧ q.revision = revision ∧
    Asked c.scope db' route q
  before : ∀ q, getQuestionRow db c.scope questionId = some q → q.status = .pending ∧
    q.revision ≤ revision ∧ ∀ earlier, Asked c.scope db earlier q →
      (revision = q.revision ↔ sameQuestion route earlier = true)

theorem sameQuestion_iff {r r' : RouteFields} : sameQuestion r r' = true ↔
    r.questionText = r'.questionText ∧ r.hasMoreCandidates = r'.hasMoreCandidates ∧
      offered r.candidates = offered r'.candidates := by
  simp [sameQuestion, and_assoc]

/-- Whether a question changes is decided by what the routes offer. -/
theorem unchanged_iff {route earlier : RouteFields} {q : QuestionRow} {text : String}
    {candidates : List QuestionCandidate} (h : Asked c.scope db earlier q)
    (htext : route.questionText = some text) (hoffers : offered candidates = offered route.candidates)
    (hshows : ∀ x ∈ candidates, Shows c.scope db x) :
    (q.text = text ∧ q.candidates = candidates ∧ q.hasMoreCandidates = route.hasMoreCandidates) ↔
      sameQuestion route earlier = true := by
  rw [sameQuestion_iff, htext, h.text, ← h.more, ← hoffers, ← h.offers, Option.some.injEq]
  constructor
  · rintro ⟨rfl, rfl, hmore⟩
    exact ⟨rfl, hmore.symm, rfl⟩
  · rintro ⟨rfl, hmore, hsame⟩
    exact ⟨rfl, (eq_of_offered hsame hshows h.shows).symm, hmore.symm⟩

theorem getQuestionRow_id {scope : Scope} {questionId : String} {q : QuestionRow}
    (h : getQuestionRow db scope questionId = some q) : q ∈ db.questions ∧ q.scope = scope ∧ q.id = questionId := by
  have hfound := List.find?_some h
  simp only [isQuestion, Bool.and_eq_true, decide_eq_true_eq] at hfound
  exact ⟨List.mem_of_find?_eq_some h, hfound.1, hfound.2⟩

/-- A question is found again after a statement that keeps the keys. -/
theorem getQuestionRow_updateWhere (db : Tables) (scope : Scope) (p : QuestionRow → Bool)
    {f : QuestionRow → QuestionRow} (hf : ∀ q, (f q).id = q.id ∧ (f q).scope = q.scope) (id : String) :
    (updateWhere p f db.questions).find? (isQuestion scope id) =
      (getQuestionRow db scope id).map fun q => if p q then f q else q := by
  rw [updateWhere, List.find?_map, getQuestionRow]
  congr 1
  refine List.find?_congr fun q _ => ?_
  simp only [Function.comp, isQuestion]
  split
  · rw [(hf q).1, (hf q).2]
  · rfl

theorem extendQuestion_asking {item : DialogueInput} {route : DialogueRoute} {existing : QuestionRow}
    {questionId text : String} {r : Tables × ℕ} (hexisting : getQuestionRow db c.scope questionId = some existing)
    (htext : route.questionText = some text) (h : extendQuestion c db item route existing text = .ok r) :
    r.1.inputs = db.inputs ∧ Asking c db r.1 route.toRouteFields questionId r.2 := by
  obtain ⟨-, hscope, hid⟩ := getQuestionRow_id hexisting
  unfold extendQuestion at h
  split at h
  · cases h
  rename_i hpending
  split at h
  · cases h
  split at h
  · cases h
  obtain ⟨candidates, hcandidates, hbranch⟩ := bind_eq_ok h
  clear h
  obtain ⟨hoffers, hshows⟩ := questionCandidates_ok hcandidates
  have hsame : ∀ earlier, Asked c.scope db earlier existing → ((existing.text = text ∧
      existing.candidates = candidates ∧ existing.hasMoreCandidates = route.hasMoreCandidates) ↔
        sameQuestion route.toRouteFields earlier = true) :=
    fun earlier hearlier => unchanged_iff hearlier htext hoffers hshows
  rw [not_not] at hpending
  split at hbranch
  · rename_i hunchanged
    simp only [Bool.and_eq_true, decide_eq_true_eq] at hunchanged
    obtain ⟨⟨rfl, rfl⟩, hmore⟩ := hunchanged
    obtain rfl := Except.ok.inj hbranch
    refine ⟨rfl, fun _ _ => rfl, ⟨existing, hexisting, rfl, hpending, htext, hmore, hoffers, hshows⟩, ?_⟩
    intro q hq
    obtain rfl := Option.some.inj (hexisting.symm.trans hq)
    exact ⟨hpending, le_rfl, fun earlier hearlier => by simp [← hsame earlier hearlier, hmore]⟩
  · rename_i hchanged
    split at hbranch
    · cases hbranch
    dsimp only at hbranch
    split at hbranch
    · cases hbranch
    obtain rfl := Except.ok.inj hbranch
    have hfind := getQuestionRow_updateWhere db c.scope (fun q => isQuestion c.scope existing.id q &&
        decide (q.status = .pending) && decide (q.revision = existing.revision))
      (f := fun q => { q with
        text := text, candidates := candidates, hasMoreCandidates := route.hasMoreCandidates,
        revision := q.revision + 1 }) fun _ => ⟨rfl, rfl⟩
    refine ⟨rfl, fun id hne => ?_, ⟨{ existing with
      text := text, candidates := candidates, hasMoreCandidates := route.hasMoreCandidates,
      revision := existing.revision + 1 }, ?_, rfl, ?_⟩, fun q hq => ?_⟩
    · refine (hfind id).trans ?_
      cases hother : getQuestionRow db c.scope id with
      | none => rfl
      | some q =>
        have hq : q.id ≠ existing.id := by
          rw [(getQuestionRow_id hother).2.2, hid]
          exact hne
        rw [Option.map_some, if_neg (by simp [isQuestion, hq])]
    · refine (hfind questionId).trans ?_
      rw [hexisting, Option.map_some, if_pos (by simp [isQuestion, hscope, hpending])]
    · exact ⟨hpending, htext, rfl, hoffers, hshows⟩
    · obtain rfl := Option.some.inj (hexisting.symm.trans hq)
      refine ⟨hpending, Nat.le_succ _, fun earlier hearlier => ?_⟩
      rw [← hsame earlier hearlier]
      simp only [Bool.and_eq_true, decide_eq_true_eq, and_assoc] at hchanged
      exact iff_of_false (by simp) hchanged

theorem newQuestion_asking {item : DialogueInput} {route : DialogueRoute} {questionId text : String}
    {r : Tables × ℕ} (hnone : getQuestionRow db c.scope questionId = none)
    (htext : route.questionText = some text) (h : newQuestion c db item route questionId text = .ok r) :
    r.1.inputs = db.inputs ∧ Asking c db r.1 route.toRouteFields questionId r.2 := by
  unfold newQuestion at h
  split at h
  · cases h
  obtain ⟨candidates, hcandidates, h⟩ := bind_eq_ok h
  obtain ⟨hoffers, hshows⟩ := questionCandidates_ok hcandidates
  obtain ⟨db1, h1, h⟩ := bind_eq_ok h
  obtain ⟨rfl, -⟩ := insertQuestion_ok h1
  obtain rfl := Except.ok.inj h
  refine ⟨rfl, fun id hne => ?_, ⟨{
    id := questionId, scope := c.scope, actorId := item.actorId, text := text, status := .pending
    revision := 1, candidates := candidates, hasMoreCandidates := route.hasMoreCandidates
    resolvedTaskId := none, createdAt := c.now, resolvedAt := none }, ?_, rfl, ?_⟩, fun q hq => ?_⟩
  · simp [getQuestionRow, List.find?_append, isQuestion, Ne.symm hne]
  · rw [getQuestionRow] at hnone
    simp only [getQuestionRow, List.find?_append, hnone, Option.none_or]
    exact List.find?_cons_of_pos (by simp [isQuestion])
  · exact ⟨rfl, htext, rfl, hoffers, hshows⟩
  · rw [hnone] at hq
    cases hq

theorem applyQuestion_asking {s : RouteState} {item : DialogueInput} {route : DialogueRoute}
    {r : RouteState × Assigned} (h : applyQuestion c s item route = .ok r) :
    ∃ questionId revision, route.questionId = some questionId ∧
      r.2 = (none, some questionId, some revision) ∧
      r.1.db.inputs = s.db.inputs ++ [c.inputRow item none (some questionId)] ∧
      Asking c s.db r.1.db route.toRouteFields questionId revision := by
  unfold applyQuestion at h
  split at h
  · rename_i questionId text hquestion htext
    obtain ⟨⟨db1, revision⟩, h1, h⟩ := bind_eq_ok h
    obtain ⟨db2, h2, h⟩ := bind_eq_ok h
    obtain rfl := Except.ok.inj h
    obtain ⟨rfl, -⟩ := insertInput_ok h2
    obtain ⟨hinputs, hasking⟩ : db1.inputs = s.db.inputs ∧
        Asking c s.db db1 route.toRouteFields questionId revision := by
      unfold createOrExtendQuestion at h1
      split at h1
      · rename_i existing hexisting
        exact extendQuestion_asking hexisting htext h1
      · rename_i hnone
        exact newQuestion_asking hnone htext h1
    obtain ⟨q, hq, hrevision, hasked⟩ := hasking.after
    refine ⟨questionId, revision, hquestion, rfl, by simp [hinputs], hasking.others, ⟨q, hq, hrevision, ?_⟩,
      hasking.before⟩
    exact ⟨hasked.pending, hasked.text, hasked.more, hasked.offers, hasked.shows⟩
  · cases h

/-- The waiting inputs are moved to the task, one after the other. -/
theorem assignInputs_inputs {taskId : String} {olds : List InputRow}
    (h : olds.foldlM (assignInput c taskId) db = .ok db') :
    db'.inputs = db.inputs.map (fun i => if i.taskId.isNone && olds.any fun o => isInput c.scope o.inputId i
      then { i with taskId := some taskId } else i) ∧ db'.questions = db.questions := by
  induction olds generalizing db with
  | nil =>
    obtain rfl := Except.ok.inj h
    simp
  | cons old olds ih =>
    rw [List.foldlM_cons] at h
    obtain ⟨db1, h1, h⟩ := bind_eq_ok h
    obtain ⟨hrest, hquestions⟩ := ih h
    unfold assignInput at h1
    dsimp only at h1
    split at h1
    · cases h1
    obtain ⟨rfl, -⟩ := insertDialogueMessage_ok h1
    refine ⟨?_, hquestions⟩
    rw [hrest, updateWhere, List.map_map]
    refine List.map_congr_left fun i _ => ?_
    cases hnone : i.taskId with
    | some t => simp [hnone]
    | none => cases hin : isInput c.scope old.inputId i <;> simp [hnone, hin]

/-- The inputs that wait for the question. -/
def waits (scope : Scope) (questionId : String) (i : InputRow) : Bool :=
  i.scope = scope && i.questionId = some questionId && i.taskId.isNone

theorem input_eq_of_key (h : Keyed db) {i j : InputRow} (hi : i ∈ db.inputs) (hj : j ∈ db.inputs)
    (hscope : i.scope = j.scope) (hid : i.inputId = j.inputId) : i = j := by
  have hkeys : (db.inputs.map fun i => (i.scope, i.inputId)).Nodup := by
    rw [List.Nodup, List.pairwise_map]
    refine h.inputs.imp fun {i j} hij he => ?_
    simp [InputRow.conflicts, (Prod.mk.inj he).1, (Prod.mk.inj he).2] at hij
  exact eq_of_key hkeys hi hj (by rw [hscope, hid])

theorem resolvedTask_keeps {item : DialogueInput} {route : DialogueRoute} {question : QuestionRow}
    {request : String} {r : Tables × String} (h : resolvedTask c db item route question request = .ok r) :
    r.1.inputs = db.inputs ∧ r.1.questions = db.questions := by
  unfold resolvedTask at h
  split at h
  · split at h
    · cases h
    obtain ⟨db1, h1, h⟩ := bind_eq_ok h
    obtain ⟨rfl, -⟩ := insertTask_ok h1
    obtain rfl := Except.ok.inj h
    exact ⟨rfl, rfl⟩
  · split at h
    · cases h
    split at h
    · cases h
    split at h
    · cases h
    split at h
    · cases h
    obtain rfl := Except.ok.inj h
    exact ⟨rfl, rfl⟩

theorem closeQuestion_keeps {question : QuestionRow} {taskId : String}
    (h : closeQuestion c db question taskId = .ok db') : db'.inputs = db.inputs ∧
      ∀ id, id ≠ question.id → getQuestionRow db' c.scope id = getQuestionRow db c.scope id := by
  unfold closeQuestion at h
  dsimp only at h
  split at h
  · cases h
  obtain rfl := Except.ok.inj h
  refine ⟨rfl, fun id hne => ?_⟩
  rw [getQuestionRow, getQuestionRow_updateWhere db c.scope _ (by intro q; exact ⟨rfl, rfl⟩)]
  cases hq : getQuestionRow db c.scope id with
  | none => rfl
  | some q =>
    have hid : q.id ≠ question.id := by
      rw [(getQuestionRow_id hq).2.2]
      exact hne
    rw [Option.map_some, if_neg (by simp [isQuestion, hid])]

/-- The inputs that a resolution assigns are those that wait for the question. -/
theorem waitingInputs_any (hkeys : Keyed db) {questionId : String} {i : InputRow} (hi : i ∈ db.inputs) :
    (i.taskId.isNone && (waitingInputs c db questionId).any fun o => isInput c.scope o.inputId i) =
      waits c.scope questionId i := by
  rw [Bool.eq_iff_iff, Bool.and_eq_true, List.any_eq_true]
  constructor
  · rintro ⟨-, o, ho, hin⟩
    obtain ⟨ho, hwaits⟩ := List.mem_filter.mp ho
    simp only [isInput, Bool.and_eq_true, decide_eq_true_eq] at hin
    have hscope : o.scope = c.scope := by
      simp only [Bool.and_eq_true, decide_eq_true_eq] at hwaits
      exact hwaits.1.1
    obtain rfl := input_eq_of_key hkeys ho hi (hscope.trans hin.1.symm) hin.2.symm
    exact hwaits
  · intro hwaits
    refine ⟨?_, i, List.mem_filter.mpr ⟨hi, hwaits⟩, ?_⟩
    · simp only [waits, Bool.and_eq_true] at hwaits
      exact hwaits.2
    · simp only [waits, Bool.and_eq_true, decide_eq_true_eq] at hwaits
      simp [isInput, hwaits.1.1]

/-- A resolution moves the inputs that wait for the question and stores its own input. -/
theorem resolveQuestion_inputs (hkeys : Keyed db) {item : DialogueInput} {route : DialogueRoute}
    {questionId : String} {revision : Int} {r : Tables × String}
    (h : resolveQuestion c db item route questionId revision = .ok r) :
    r.1.inputs = updateWhere (waits c.scope questionId) (fun i => { i with taskId := some r.2 }) db.inputs ++
        [c.inputRow item (some r.2) none] ∧
      ∀ id, id ≠ questionId → getQuestionRow r.1 c.scope id = getQuestionRow db c.scope id := by
  unfold resolveQuestion at h
  split at h
  · cases h
  rename_i question hquestion
  split at h
  · cases h
  obtain ⟨_, -, h⟩ := bind_eq_ok h
  split at h
  · cases h
  rename_i first rest hwaiting
  obtain ⟨⟨db1, taskId⟩, h1, h⟩ := bind_eq_ok h
  obtain ⟨db2, h2, h⟩ := bind_eq_ok h
  obtain ⟨db3, h3, h⟩ := bind_eq_ok h
  obtain ⟨db4, h4, h⟩ := bind_eq_ok h
  obtain rfl := Except.ok.inj h
  obtain ⟨-, -, rfl⟩ := getQuestionRow_id hquestion
  obtain ⟨hinputs1, hquestions1⟩ := resolvedTask_keeps h1
  obtain ⟨hinputs2, hquestions2⟩ := closeQuestion_keeps h2
  obtain ⟨hinputs3, hquestions3⟩ := assignInputs_inputs h3
  obtain ⟨hinputs4, hquestions4⟩ := insertRoutedInput_routed h4
  constructor
  · have hmoved : db3.inputs = updateWhere (waits c.scope question.id)
        (fun i => { i with taskId := some taskId }) db.inputs := by
      rw [hinputs3, hinputs2, hinputs1, updateWhere, ← hwaiting]
      exact List.map_congr_left fun i hi => by rw [waitingInputs_any hkeys hi]
    rw [← hmoved]
    exact hinputs4
  · intro id hne
    have h4' : getQuestionRow (touchTask db4 c.scope taskId c.now) c.scope id = getQuestionRow db3 c.scope id :=
      congrArg (List.find? (isQuestion c.scope id)) hquestions4
    have h3' : getQuestionRow db3 c.scope id = getQuestionRow db2 c.scope id :=
      congrArg (List.find? (isQuestion c.scope id)) hquestions3
    have h1' : getQuestionRow db1 c.scope id = getQuestionRow db c.scope id :=
      congrArg (List.find? (isQuestion c.scope id)) hquestions1
    exact ((h4'.trans h3').trans (hquestions2 id hne)).trans h1'

/-- What one route does to the inputs and to the questions. -/
inductive RouteStep (c : Application) (db db' : Tables) (item : DialogueInput) (route : RouteFields) :
    Assigned → Prop
  | routed {taskId : String} (hother : route.action ≠ .question ∧ route.action ≠ .resolveQuestion)
      (h : RoutedTo c db db' item taskId) : RouteStep c db db' item route (some taskId, none, none)
  | asked {questionId : String} {revision : ℕ} (haction : route.action = .question)
      (hquestion : route.questionId = some questionId)
      (hinputs : db'.inputs = db.inputs ++ [c.inputRow item none (some questionId)])
      (h : Asking c db db' route questionId revision) :
      RouteStep c db db' item route (none, some questionId, some revision)
  | resolved {questionId taskId : String} (haction : route.action = .resolveQuestion)
      (hquestion : route.questionId = some questionId)
      (hinputs : db'.inputs = updateWhere (waits c.scope questionId)
        (fun i => { i with taskId := some taskId }) db.inputs ++ [c.inputRow item (some taskId) none])
      (hothers : ∀ id, id ≠ questionId → getQuestionRow db' c.scope id = getQuestionRow db c.scope id) :
      RouteStep c db db' item route (some taskId, some questionId, none)

theorem applyRoute_routeStep {s : RouteState} {item : DialogueInput} {route : DialogueRoute}
    {r : RouteState × Assigned} (hkeys : Keyed s.db) (h : applyRoute c s item route = .ok r) :
    RouteStep c s.db r.1.db item route.toRouteFields r.2 := by
  have hrouted : route.action ≠ .question ∧ route.action ≠ .resolveQuestion →
      (∃ taskId, r.2 = (some taskId, none, none) ∧ RoutedTo c s.db r.1.db item taskId) →
      RouteStep c s.db r.1.db item route.toRouteFields r.2 := by
    rintro hother ⟨taskId, hassigned, hto⟩
    rw [hassigned]
    exact .routed hother hto
  unfold applyRoute at h
  cases ha : route.action with
  | create => exact hrouted (by simp [ha]) (applyCreate_routed (by simpa [ha] using h))
  | status => exact hrouted (by simp [ha]) (applyStatus_routed (by simpa [ha] using h))
  | attach => exact hrouted (by simp [ha]) (applyAttach_routed (by simpa [ha] using h))
  | close =>
    simp only [ha, applyClose] at h
    exact hrouted (by simp [ha]) (applyEnd_routed h)
  | cancel =>
    simp only [ha, applyCancel] at h
    exact hrouted (by simp [ha]) (applyEnd_routed h)
  | question =>
    simp only [ha] at h
    obtain ⟨questionId, revision, hquestion, hassigned, hinputs, hasking⟩ := applyQuestion_asking h
    rw [hassigned]
    exact .asked ha hquestion hinputs hasking
  | resolveQuestion =>
    simp only [ha, applyResolveQuestion] at h
    split at h
    · rename_i questionId revision hquestion hrevision
      split at h
      · cases h
      obtain ⟨⟨db1, taskId⟩, h1, h⟩ := bind_eq_ok h
      obtain ⟨db2, h2, h⟩ := bind_eq_ok h
      obtain ⟨focus, rfl⟩ := setFocus_ok h2
      obtain rfl := Except.ok.inj h
      obtain ⟨hinputs, hothers⟩ := resolveQuestion_inputs hkeys h1
      exact .resolved ha hquestion hinputs hothers
    · cases h

end Routes

section Standing

variable {c : Application} {db db' : Tables} {later : List RouteFields} {inputId : String}
  {route : RouteFields}

/-- There is a row of the input with the task. -/
def Holds (scope : Scope) (db : Tables) (inputId : String) (taskId questionId : Option String) : Prop :=
  ∃ row ∈ db.inputs, isInput scope inputId row = true ∧ row.taskId = taskId ∧
    (taskId = none → row.questionId = questionId)

/-- How an input stands, with what was assigned to it, after the later routes of the plan. -/
inductive Stands (scope : Scope) (db : Tables) (later : List RouteFields) (inputId : String)
    (route : RouteFields) : Assigned → Prop
  | settled {taskId : String} {questionId : Option String} {revision : Option ℕ}
      (hother : route.action ≠ .question) (hrow : Holds scope db inputId (some taskId) none) :
      Stands scope db later inputId route (some taskId, questionId, revision)
  | held {questionId : String} {revision : ℕ} {q : QuestionRow} (haction : route.action = .question)
      (hquestion : route.questionId = some questionId)
      (hrow : Holds scope db inputId none (some questionId))
      (hfound : getQuestionRow db scope questionId = some q) (hpending : q.status = .pending)
      (hle : revision ≤ q.revision) (hsame : q.revision = revision → Asked scope db route q)
      (hiff : q.revision = revision ↔ ∀ r ∈ later, disturbs r route = false) :
      Stands scope db later inputId route (none, some questionId, some revision)
  | taken {questionId taskId : String} {revision : ℕ} (hrow : Holds scope db inputId (some taskId) none)
      (hlater : ∃ r ∈ later, disturbs r route = true) :
      Stands scope db later inputId route (none, some questionId, some revision)

/-- An input that has its task keeps it. -/
theorem Holds.step {item : DialogueInput} {r : RouteFields} {a : Assigned}
    (h : RouteStep c db db' item r a) {scope : Scope} {taskId : String}
    (hrow : Holds scope db inputId (some taskId) none) : Holds scope db' inputId (some taskId) none := by
  obtain ⟨row, hmem, hin, htask, hquestion⟩ := hrow
  refine ⟨row, ?_, hin, htask, hquestion⟩
  cases h with
  | routed hother h =>
    rw [h.1]
    exact List.mem_append_left _ hmem
  | asked haction hquestion hinputs h =>
    rw [hinputs]
    exact List.mem_append_left _ hmem
  | resolved haction hquestion hinputs hothers =>
    rw [hinputs]
    exact List.mem_append_left _ (mem_updateWhere_of_not hmem (by simp [waits, htask]))

theorem Asked.step {q : QuestionRow} (h : Asked c.scope db route q) (hstep : PlanStep db db') :
    Asked c.scope db' route q :=
  { h with shows := fun x hx => (h.shows x hx).step hstep }

/-- A route that asks nothing of the question leaves the input as it stands. -/
theorem Stands.keep {questionId : String} {revision : ℕ} {q : QuestionRow} {r : RouteFields}
    (haction : route.action = .question) (hquestion : route.questionId = some questionId)
    (hrow : Holds c.scope db' inputId none (some questionId)) (hplan : PlanStep db db')
    (hfound : getQuestionRow db' c.scope questionId = some q) (hpending : q.status = .pending)
    (hle : revision ≤ q.revision) (hsame : q.revision = revision → Asked c.scope db route q)
    (hiff : q.revision = revision ↔ ∀ r ∈ later, disturbs r route = false)
    (hr : disturbs r route = false) :
    Stands c.scope db' (later ++ [r]) inputId route (none, some questionId, some revision) := by
  refine .held haction hquestion hrow hfound hpending hle (fun he => (hsame he).step hplan) ?_
  rw [hiff]
  constructor
  · intro h x hx
    obtain hx | hx := List.mem_append.mp hx
    · exact h x hx
    · exact List.mem_singleton.mp hx ▸ hr
  · exact fun h x hx => h x (List.mem_append_left _ hx)

theorem disturbs_question {r : RouteFields} {questionId : String} (haction : route.action = .question)
    (hquestion : route.questionId = some questionId) :
    disturbs r route = true ↔ r.questionId = some questionId ∧ (r.action = .resolveQuestion ∨
      (r.action = .question ∧ sameQuestion r route = false)) := by
  simp [disturbs, haction, hquestion]

theorem not_disturbs_of_ne {r : RouteFields} {questionId : String} (hquestion : route.questionId = some questionId)
    (hne : r.questionId ≠ some questionId) : disturbs r route = false := by
  simp [disturbs, hquestion, hne]

theorem Stands.step {item : DialogueInput} {r : RouteFields} {a assigned : Assigned}
    (h : Stands c.scope db later inputId route assigned) (hstep : RouteStep c db db' item r a)
    (hplan : PlanStep db db') : Stands c.scope db' (later ++ [r]) inputId route assigned := by
  cases h with
  | settled hother hrow => exact .settled hother (hrow.step hstep)
  | taken hrow hlater =>
    obtain ⟨x, hx, hdisturbs⟩ := hlater
    exact .taken (hrow.step hstep) ⟨x, List.mem_append_left _ hx, hdisturbs⟩
  | @held questionId revision q haction hquestion hrow hfound hpending hle hsame hiff =>
    obtain ⟨row, hmem, hin, hnone, hrq⟩ := hrow
    cases hstep with
    | routed hother h =>
      refine .keep haction hquestion ⟨row, ?_, hin, hnone, hrq⟩ hplan ?_ hpending hle hsame hiff ?_
      · rw [h.1]
        exact List.mem_append_left _ hmem
      · exact (congrArg (List.find? (isQuestion c.scope questionId)) h.2).trans hfound
      · simp [disturbs, hother.1, hother.2]
    | @asked questionId' revision' hasks hquestion' hinputs h =>
      have hrow' : Holds c.scope db' inputId none (some questionId) := by
        refine ⟨row, ?_, hin, hnone, hrq⟩
        rw [hinputs]
        exact List.mem_append_left _ hmem
      by_cases he : questionId' = questionId
      · subst he
        obtain ⟨q', hq', hrevision, hasked⟩ := h.after
        obtain ⟨-, hmono, hchange⟩ := h.before q hfound
        have hback : q'.revision = revision → q.revision = revision := by omega
        have hr : q.revision = revision →
            (disturbs r route = false ↔ revision' = q.revision) := by
          intro he
          rw [hchange route (hsame he), Bool.eq_false_iff, Ne, disturbs_question haction hquestion]
          simp [hquestion', hasks]
        refine .held haction hquestion hrow' hq' hasked.pending (by omega) (fun he => ?_) ?_
        · have hsq := (hchange route (hsame (hback he))).mp (by omega)
          obtain ⟨htext, hmore, hoffers⟩ := sameQuestion_iff.mp hsq
          exact ⟨hasked.pending, htext ▸ hasked.text, hmore ▸ hasked.more, hoffers ▸ hasked.offers,
            hasked.shows⟩
        · constructor
          · intro he x hx
            obtain hx | hx := List.mem_append.mp hx
            · exact hiff.mp (hback he) x hx
            · rw [List.mem_singleton.mp hx]
              exact (hr (hback he)).mpr (by omega)
          · intro hall
            have hq := hiff.mpr fun x hx => hall x (List.mem_append_left _ hx)
            have hlast := (hr hq).mp (hall r (by simp))
            omega
      · refine .keep haction hquestion hrow' hplan ?_ hpending hle hsame hiff ?_
        · rw [h.others questionId (Ne.symm he), hfound]
        · exact not_disturbs_of_ne hquestion (by simpa [hquestion'] using he)
    | @resolved questionId' taskId hresolves hquestion' hinputs hothers =>
      by_cases he : questionId' = questionId
      · subst he
        have hwaits : waits c.scope questionId' row = true := by
          simp only [isInput, Bool.and_eq_true, decide_eq_true_eq] at hin
          simp [waits, hin.1, hnone, hrq rfl]
        refine .taken ⟨{ row with taskId := some taskId }, ?_, hin, rfl, by simp⟩ ⟨r, by simp, ?_⟩
        · rw [hinputs]
          have hmoved := mem_updateWhere_of_mem (p := waits c.scope questionId')
            (f := fun i => { i with taskId := some taskId }) hmem
          rw [hwaits, if_pos rfl] at hmoved
          exact List.mem_append_left _ hmoved
        · exact (disturbs_question haction hquestion).mpr ⟨hquestion', .inl hresolves⟩
      · refine .keep haction hquestion ⟨row, ?_, hin, hnone, hrq⟩ hplan ?_ hpending hle hsame hiff ?_
        · rw [hinputs]
          have hother : waits c.scope questionId' row = false := by
            simp [waits, hrq rfl, Ne.symm he]
          exact List.mem_append_left _ (mem_updateWhere_of_not hmem hother)
        · rw [hothers questionId (Ne.symm he), hfound]
        · exact not_disturbs_of_ne hquestion (by simpa [hquestion'] using he)

end Standing

section Plans

variable {c : Application} {db db' : Tables}

/-- The routes of the inputs, in their order. -/
def routesOf (plan : DialoguePlan) (items : List DialogueInput) : List RouteFields :=
  items.filterMap fun item => (plan.routes.find? (·.inputId = item.inputId)).map (·.toRouteFields)

theorem routeFor_eq_ok {plan : DialoguePlan} {inputId : String} {route : DialogueRoute} :
    routeFor plan inputId = .ok route ↔ plan.routes.find? (·.inputId = inputId) = some route := by
  unfold routeFor
  split
  · rename_i hnone
    simp [hnone]
  · rename_i route' hsome
    simp [hsome]

theorem routesOf_cons {plan : DialoguePlan} {item : DialogueInput} {items : List DialogueInput}
    {route : DialogueRoute} (h : routeFor plan item.inputId = .ok route) :
    routesOf plan (item :: items) = route.toRouteFields :: routesOf plan items := by
  simp [routesOf, routeFor_eq_ok.mp h]

theorem mem_routesOf {plan : DialoguePlan} {items : List DialogueInput} {r : RouteFields} :
    r ∈ routesOf plan items ↔ ∃ item ∈ items, ∃ route, routeFor plan item.inputId = .ok route ∧
      route.toRouteFields = r := by
  simp [routesOf, routeFor_eq_ok]

theorem Stands.routes {s : RouteState} {items : List DialogueInput}
    {result : RouteState × List (String × Assigned)} (hkeys : Keyed s.db)
    (h : applyRoutes c s items = .ok result) {later : List RouteFields} {inputId : String}
    {route : RouteFields} {assigned : Assigned} (hstands : Stands c.scope s.db later inputId route assigned) :
    Stands c.scope result.1.db (later ++ routesOf c.plan items) inputId route assigned := by
  induction items generalizing s result later with
  | nil =>
    obtain rfl := Except.ok.inj h
    simpa [routesOf] using hstands
  | cons item items ih =>
    obtain ⟨r, hr, h⟩ := bind_eq_ok h
    obtain ⟨⟨s1, a⟩, h1, h⟩ := bind_eq_ok h
    obtain ⟨⟨s2, others⟩, h2, h⟩ := bind_eq_ok h
    obtain rfl := Except.ok.inj h
    have hplan := applyRoute_step h1
    have hnext := ih (hplan.keys hkeys) h2 (hstands.step (applyRoute_routeStep hkeys h1) hplan)
    rwa [routesOf_cons hr, List.append_cons]

/-- Every input stands as its route and the later ones have left it. -/
inductive AllStand (c : Application) (db : Tables) : List DialogueInput → List (String × Assigned) → Prop
  | nil : AllStand c db [] []
  | cons {item : DialogueInput} {items : List DialogueInput} {route : DialogueRoute} {a : Assigned}
      {out : List (String × Assigned)} (hroute : routeFor c.plan item.inputId = .ok route)
      (h : Stands c.scope db (routesOf c.plan items) item.inputId route.toRouteFields a)
      (hrest : AllStand c db items out) : AllStand c db (item :: items) ((item.inputId, a) :: out)

/-- How an input stands right after its own route. -/
theorem RouteStep.stands {item : DialogueInput} {route : RouteFields} {a : Assigned}
    (h : RouteStep c db db' item route a) : Stands c.scope db' [] item.inputId route a := by
  have hself : ∀ taskId questionId, isInput c.scope item.inputId (c.inputRow item taskId questionId) = true := by
    simp [isInput, Application.inputRow]
  cases h with
  | routed hother h =>
    refine .settled hother.1 ⟨c.inputRow item (some _) none, ?_, hself _ _, rfl, by simp⟩
    simp [h.1]
  | asked haction hquestion hinputs h =>
    obtain ⟨q, hq, hrevision, hasked⟩ := h.after
    refine .held haction hquestion ⟨c.inputRow item none (some _), ?_, hself _ _, rfl, fun _ => rfl⟩ hq
      hasked.pending hrevision.ge (fun _ => hasked) (by simp [hrevision])
    simp [hinputs]
  | resolved haction hquestion hinputs hothers =>
    refine .settled (by simp [haction]) ⟨c.inputRow item (some _) none, ?_, hself _ _, rfl, by simp⟩
    simp [hinputs]

theorem applyRoutes_allStand {s : RouteState} {items : List DialogueInput}
    {result : RouteState × List (String × Assigned)} (hkeys : Keyed s.db)
    (h : applyRoutes c s items = .ok result) : AllStand c result.1.db items result.2 := by
  induction items generalizing s result with
  | nil =>
    obtain rfl := Except.ok.inj h
    exact .nil
  | cons item items ih =>
    obtain ⟨r, hr, h⟩ := bind_eq_ok h
    obtain ⟨⟨s1, a⟩, h1, h⟩ := bind_eq_ok h
    obtain ⟨⟨s2, others⟩, h2, h⟩ := bind_eq_ok h
    obtain rfl := Except.ok.inj h
    have hkeys1 := (applyRoute_step h1).keys hkeys
    have hhead := (applyRoute_routeStep hkeys h1).stands.routes hkeys1 h2
    exact .cons hr hhead (ih hkeys1 h2)

/-- The row of an input is found by its key. -/
theorem Holds.find? (hkeys : Keyed db) {scope : Scope} {inputId : String} {taskId questionId : Option String}
    (h : Holds scope db inputId taskId questionId) : ∃ row, db.inputs.find? (isInput scope inputId) = some row ∧
      row.taskId = taskId ∧ (taskId = none → row.questionId = questionId) := by
  obtain ⟨row, hmem, hin, htask, hquestion⟩ := h
  refine ⟨row, ?_, htask, hquestion⟩
  cases hfind : db.inputs.find? (isInput scope inputId) with
  | none => exact absurd hin (by simpa using List.find?_eq_none.mp hfind row hmem)
  | some row' =>
    have hin' := List.find?_some hfind
    simp only [isInput, Bool.and_eq_true, decide_eq_true_eq] at hin hin'
    rw [input_eq_of_key hkeys (List.mem_of_find?_eq_some hfind) hmem (hin'.1.trans hin.1.symm)
      (hin'.2.trans hin.2.symm)]

/-- The final assignment of an input agrees with the rows, if and only if no later route disturbs its
question. -/
theorem Stands.agrees_iff (hkeys : Keyed db) {later : List RouteFields} {inputId : String}
    {route : RouteFields} {assigned : Assigned} {a : DialogueAssignment}
    (h : Stands c.scope db later inputId route assigned)
    (hfinal : finalAssignment c db (inputId, assigned) = .ok a) :
    a.inputId = inputId ∧ (AssignmentAgrees c.scope db a ↔ ∀ r ∈ later, disturbs r route = false) := by
  cases h with
  | @settled taskId questionId revision hother hrow =>
    simp only [finalAssignment] at hfinal
    split at hfinal
    · cases hfinal
    rename_i task htask
    obtain rfl := Except.ok.inj hfinal
    obtain ⟨row, hfind, hid, -⟩ := hrow.find? hkeys
    refine ⟨rfl, iff_of_true ⟨⟨row, hfind, hid.symm⟩, ?_, ?_⟩ fun r _ => by simp [disturbs, hother]⟩
    · rintro _ ⟨⟩
      exact ⟨task, htask, rfl, rfl⟩
    · intro input q questionId hinput hnone
      obtain rfl := Option.some.inj (hfind.symm.trans hinput)
      rw [hid] at hnone
      cases hnone
  | @held questionId revision q haction hquestion hrow hfound hpending hle hsame hiff =>
    obtain rfl := Except.ok.inj hfinal
    obtain ⟨row, hfind, hid, hrq⟩ := hrow.find? hkeys
    refine ⟨rfl, Iff.trans ⟨fun hagrees => ?_, fun he => ⟨⟨row, hfind, hid.symm⟩, by simp, ?_⟩⟩ hiff⟩
    · exact (Option.some.inj (hagrees.question row q questionId hfind hid (hrq rfl) hfound hpending)).symm
    · intro input q' questionId' hinput hnone hheld hfound' _
      obtain rfl := Option.some.inj (hfind.symm.trans hinput)
      obtain rfl := Option.some.inj ((hrq rfl).symm.trans hheld)
      obtain rfl := Option.some.inj (hfound.symm.trans hfound')
      exact congrArg some he.symm
  | @taken questionId taskId revision hrow hlater =>
    obtain rfl := Except.ok.inj hfinal
    obtain ⟨row, hfind, hid, -⟩ := hrow.find? hkeys
    obtain ⟨r, hr, hdisturbs⟩ := hlater
    refine ⟨rfl, iff_of_false (fun hagrees => ?_) fun hall => by simp [hall r hr] at hdisturbs⟩
    obtain ⟨input, hinput, htask⟩ := hagrees.task
    obtain rfl := Option.some.inj (hfind.symm.trans hinput)
    rw [hid] at htask
    cases htask

theorem AllStand.agrees_iff (hkeys : Keyed db) {items : List DialogueInput} {out : List (String × Assigned)}
    {assignments : List DialogueAssignment} (h : AllStand c db items out)
    (hfinal : out.mapM (finalAssignment c db) = .ok assignments) :
    assignments.map (·.inputId) = items.map (·.inputId) ∧
      ((∀ a ∈ assignments, AssignmentAgrees c.scope db a) ↔
        items.Pairwise fun i j => ∀ r r', routeFor c.plan i.inputId = .ok r →
          routeFor c.plan j.inputId = .ok r' → disturbs r'.toRouteFields r.toRouteFields = false) := by
  induction h generalizing assignments with
  | nil =>
    obtain rfl := Except.ok.inj hfinal
    simp
  | @cons item items route a out hroute h hrest ih =>
    rw [List.mapM_cons] at hfinal
    obtain ⟨first, hfirst, hfinal⟩ := bind_eq_ok hfinal
    obtain ⟨others, hothers, hfinal⟩ := bind_eq_ok hfinal
    obtain rfl := Except.ok.inj hfinal
    obtain ⟨hids, hagree⟩ := ih hothers
    obtain ⟨hid, hhead⟩ := h.agrees_iff hkeys hfirst
    refine ⟨by simp [hid, hids], ?_⟩
    rw [List.forall_mem_cons, hhead, hagree, List.pairwise_cons]
    refine and_congr_left fun _ => ?_
    constructor
    · intro hall j hj r r' hr hr'
      obtain rfl := Except.ok.inj (hroute.symm.trans hr)
      exact hall _ (mem_routesOf.mpr ⟨j, hj, r', hr', rfl⟩)
    · intro hall x hx
      obtain ⟨j, hj, r', hr', rfl⟩ := mem_routesOf.mp hx
      exact hall j hj route r' hroute hr'

end Plans

/-- The result of a plan that is committed agrees with the committed rows, if and only if no route of the
plan resolves or changes the question of an earlier one. -/
theorem plan_result_agrees_iff (c : Application) (db db' : Tables) (result : DialoguePlanResult)
    (hkeys : Keyed db) (hnew : db.plans.find? (fun p => p.scope = c.scope && p.planId = c.plan.planId) = none)
    (h : applyDialoguePlan c db = .ok (db', result)) :
    ResultAgrees c.plan db' result ↔ Undisturbed c.plan := by
  obtain ⟨_, -, h⟩ := bind_eq_ok h
  rw [hnew] at h
  obtain ⟨s, assigned, hroutes, -, hfinal, -, hinsert⟩ := commitPlan_ok h
  obtain ⟨hdb, -⟩ := insertPlan_ok hinsert
  have hkeys' := (applyRoutes_step hroutes).keys hkeys
  obtain ⟨hids, hagree⟩ := (applyRoutes_allStand hkeys hroutes).agrees_iff hkeys' hfinal
  have hsame : ∀ a, AssignmentAgrees c.plan.scope db' a ↔ AssignmentAgrees c.scope s.db a := by
    intro a
    obtain rfl : db' = { s.db with plans := s.db.plans ++ [planRow c result] } := hdb
    exact ⟨fun h => ⟨h.task, h.state, h.question⟩, fun h => ⟨h.task, h.state, h.question⟩⟩
  rw [ResultAgrees, Undisturbed, ← hagree]
  simp only [hsame]
  exact and_iff_right hids

/-- Two messages of one user, both held by one routing question. The second message may change the
question. -/
def questionPlan (second : DialogueRoute) (h : second.inputId = "i2") : Application where
  plan :=
    { planId := "p1"
      scope := ⟨"tenant", "chat"⟩
      inputs := [
        { inputId := "i1", actorId := "user", text := "the blue one", occurredAt := 0, channel := "telegram" },
        { inputId := "i2", actorId := "user", text := "or the red one", occurredAt := 1, channel := "telegram" }]
      routes := [
        { inputId := "i1", action := .question, questionId := some "q1", questionText := some "Which task?" },
        second]
      routeIds := by simp [h]
      covered := by simp [h]
      known := by simp [h] }
  now := 2
  draw := id

/-- The second message is held by the question as it is. -/
def unchangedQuestion : Application := questionPlan
  { inputId := "i2", action := .question, questionId := some "q1", questionText := some "Which task?" } rfl

/-- The second message changes the question. -/
def changedQuestion : Application := questionPlan
  { inputId := "i2", action := .question, questionId := some "q1", questionRevision := some 1,
    questionText := some "Which of the two tasks?" } rfl

theorem plan_result_agrees_unchanged : ∃ db' result,
    applyDialoguePlan unchangedQuestion {} = .ok (db', result) ∧
      ResultAgrees unchangedQuestion.plan db' result := by
  have hok : (applyDialoguePlan unchangedQuestion {}).isOk = true := by
    decide +kernel
  cases h : applyDialoguePlan unchangedQuestion {} with
  | error e =>
    rw [h] at hok
    cases hok
  | ok r =>
    refine ⟨r.1, r.2, rfl, (plan_result_agrees_iff _ {} r.1 r.2 keyed_empty rfl h).mpr ?_⟩
    refine List.pairwise_pair.mpr fun r r' hr hr' => ?_
    obtain rfl := Except.ok.inj hr
    obtain rfl := Except.ok.inj hr'
    decide

/-- The first message is reported with the first revision of a question that has its second one. -/
theorem changed_question_reported_stale : ∃ db' result,
    applyDialoguePlan changedQuestion {} = .ok (db', result) ∧
      ¬ ResultAgrees changedQuestion.plan db' result := by
  have hrun : (applyDialoguePlan changedQuestion {}).toOption.any (fun r =>
      (r.2.assignments.any fun a => a.inputId = "i1" && a.questionRevision = some 1) &&
      ((r.1.inputs.find? (isInput ⟨"tenant", "chat"⟩ "i1")).any fun i => i.taskId = none &&
        i.questionId = some "q1") &&
      ((getQuestionRow r.1 ⟨"tenant", "chat"⟩ "q1").any fun q => q.status = .pending &&
        q.revision = 2)) = true := by
    decide +kernel
  cases h : applyDialoguePlan changedQuestion {} with
  | error e =>
    rw [h] at hrun
    cases hrun
  | ok r =>
    simp only [h, Except.toOption, Option.any_some, Bool.and_eq_true, List.any_eq_true,
      Option.any_eq_true, decide_eq_true_eq] at hrun
    obtain ⟨⟨⟨a, ha, hid, hrevision⟩, input, hfind, hnone, hheld⟩, q, hq, hpending, hcurrent⟩ := hrun
    refine ⟨r.1, r.2, rfl, fun hagrees => ?_⟩
    have hsays := (hagrees.2 a ha).question input q "q1" (by rw [hid]; exact hfind) hnone hheld hq hpending
    rw [hrevision, hcurrent] at hsays
    cases hsays

end Soveren.Dialogue
