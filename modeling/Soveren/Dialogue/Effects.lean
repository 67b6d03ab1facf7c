import Soveren.Outbound.Store
import Soveren.Dialogue.Store

/-! What a route plan can do to the rows that were there before it. -/
namespace Soveren.Dialogue
open Soveren.Relational Soveren.Conversation

/-- A message is left alone or, while it waits, cancelled. -/
def Suppressed (r s : OutboundRow) : Prop :=
  s = r ∨ ([OutboundStatus.queued, .retrying, .leased].contains r.status = true ∧
    ∃ reason now, s = Outbound.fail r .cancelled reason now)

/-- A task keeps its state or ends once. -/
structure TaskStep (r s : TaskRow) : Prop where
  id : s.id = r.id
  scope : s.scope = r.scope
  title : s.title = r.title
  originalRequest : s.originalRequest = r.originalRequest
  state : (s.status = r.status ∧ s.revision = r.revision) ∨
    (r.status = .active ∧ s.status ≠ .active ∧ s.revision = r.revision + 1)

/-- A question keeps its state, or a pending one is refreshed or resolved. -/
structure QuestionStep (r s : QuestionRow) : Prop where
  id : s.id = r.id
  scope : s.scope = r.scope
  state : (s.status = r.status ∧ s.revision = r.revision ∧ s.resolvedTaskId = r.resolvedTaskId) ∨
    (r.status = .pending ∧ r.revision < s.revision)

theorem Suppressed.trans {r s u : OutboundRow} (h : Suppressed r s) (h' : Suppressed s u) :
    Suppressed r u := by
  obtain rfl | ⟨hr, reason, now, rfl⟩ := h
  · exact h'
  · obtain rfl | ⟨hs, -⟩ := h'
    · exact .inr ⟨hr, reason, now, rfl⟩
    · simp [Outbound.fail, Outbound.unlease] at hs

theorem TaskStep.refl (r : TaskRow) : TaskStep r r := ⟨rfl, rfl, rfl, rfl, .inl ⟨rfl, rfl⟩⟩

theorem TaskStep.trans {r s u : TaskRow} (h : TaskStep r s) (h' : TaskStep s u) : TaskStep r u := by
  refine ⟨h'.id.trans h.id, h'.scope.trans h.scope, h'.title.trans h.title,
    h'.originalRequest.trans h.originalRequest, ?_⟩
  obtain ⟨hs, hr⟩ | ⟨hs, hn, hr⟩ := h.state
  · obtain ⟨hs', hr'⟩ | ⟨hs', hn', hr'⟩ := h'.state
    · exact .inl ⟨hs'.trans hs, hr'.trans hr⟩
    · exact .inr ⟨hs ▸ hs', hn', by rw [hr', hr]⟩
  · obtain ⟨hs', hr'⟩ | ⟨hs', -, -⟩ := h'.state
    · exact .inr ⟨hs, hs' ▸ hn, hr'.trans hr⟩
    · exact absurd hs' hn

theorem QuestionStep.refl (r : QuestionRow) : QuestionStep r r := ⟨rfl, rfl, .inl ⟨rfl, rfl, rfl⟩⟩

theorem QuestionStep.trans {r s u : QuestionRow} (h : QuestionStep r s) (h' : QuestionStep s u) :
    QuestionStep r u := by
  refine ⟨h'.id.trans h.id, h'.scope.trans h.scope, ?_⟩
  obtain ⟨hs, hr, ht⟩ | ⟨hs, hr⟩ := h.state
  · obtain ⟨hs', hr', ht'⟩ | ⟨hs', hr'⟩ := h'.state
    · exact .inl ⟨hs'.trans hs, hr'.trans hr, ht'.trans ht⟩
    · exact .inr ⟨hs ▸ hs', hr ▸ hr'⟩
  · obtain ⟨-, hr', -⟩ | ⟨-, hr'⟩ := h'.state
    · exact .inr ⟨hs, hr' ▸ hr⟩
    · exact .inr ⟨hs, hr.trans hr'⟩

/-- Everything a plan can do to the other rows of the tables. -/
structure PlanStep (db db' : Tables) : Prop where
  outbound : Grows Suppressed (fun _ => False) db.outbound db'.outbound
  tasks : Grows TaskStep (fun _ => True) db.tasks db'.tasks
  questions : Grows QuestionStep (fun _ => True) db.questions db'.questions
  messages : Grows (fun r s => s = r) (fun m => m.role = .user ∧ m.inputId.isSome) db.messages
    db'.messages
  plans : Grows (fun r s => s = r) (fun _ => True) db.plans db'.plans
  references : db'.references = db.references
  history : db'.history = db.history
  reconciliations : db'.reconciliations = db.reconciliations
  keys : Keyed db → Keyed db'

namespace PlanStep

variable {db db' db'' : Tables}

theorem refl (db : Tables) : PlanStep db db where
  outbound := .refl fun _ _ => .inl rfl
  tasks := .refl fun r _ => .refl r
  questions := .refl fun r _ => .refl r
  messages := .refl fun _ _ => rfl
  plans := .refl fun _ _ => rfl
  references := rfl
  history := rfl
  reconciliations := rfl
  keys := id

theorem trans (h : PlanStep db db') (h' : PlanStep db' db'') : PlanStep db db'' where
  outbound := .trans (fun _ _ _ => Suppressed.trans) (fun _ _ hf _ => hf) h.outbound h'.outbound
  tasks := .trans (fun _ _ _ => TaskStep.trans) (fun _ _ _ _ => trivial) h.tasks h'.tasks
  questions := .trans (fun _ _ _ => QuestionStep.trans) (fun _ _ _ _ => trivial) h.questions
    h'.questions
  messages := .trans (fun _ _ _ hs hu => hu.trans hs) (fun _ _ hm hs => hs ▸ hm) h.messages
    h'.messages
  plans := .trans (fun _ _ _ hs hu => hu.trans hs) (fun _ _ _ _ => trivial) h.plans h'.plans
  references := h'.references.trans h.references
  history := h'.history.trans h.history
  reconciliations := h'.reconciliations.trans h.reconciliations
  keys hk := h'.keys (h.keys hk)

/-- A statement that rewrites tasks. -/
theorem updateTasks {p : TaskRow → Bool} {f : TaskRow → TaskRow}
    (h : ∀ t ∈ db.tasks, p t = true → TaskStep t (f t)) (hid : ∀ t, (f t).id = t.id) :
    PlanStep db { db with tasks := updateWhere p f db.tasks } where
  __ := refl db
  tasks := .updateWhere h fun t _ _ => .refl t
  keys hk := { hk with tasks := (map_updateWhere (p := p) db.tasks fun t _ => hid t) ▸ hk.tasks }

/-- A statement that rewrites questions. -/
theorem updateQuestions {p : QuestionRow → Bool} {f : QuestionRow → QuestionRow}
    (h : ∀ q ∈ db.questions, p q = true → QuestionStep q (f q)) (hid : ∀ q, (f q).id = q.id) :
    PlanStep db { db with questions := updateWhere p f db.questions } where
  __ := refl db
  questions := .updateWhere h fun q _ _ => .refl q
  keys hk :=
    { hk with questions := (map_updateWhere (p := p) db.questions fun q _ => hid q) ▸ hk.questions }

theorem setFocusRows (focus : List FocusRow) : PlanStep db { db with focus := focus } where
  __ := refl db
  keys hk := { hk with }

end PlanStep

section Statements

variable {db db' : Tables} {c : Application}

theorem insertTask_ok {row : TaskRow} (h : insertTask db row = .ok db') :
    db' = { db with tasks := db.tasks ++ [row] } ∧ row.id ∉ db.tasks.map (·.id) := by
  unfold insertTask at h
  split at h
  · cases h
  · rename_i hno
    refine ⟨(Except.ok.inj h).symm, fun hmem => hno ?_⟩
    obtain ⟨t, ht, he⟩ := List.mem_map.mp hmem
    exact List.any_eq_true.mpr ⟨t, ht, by simpa using he⟩

theorem insertQuestion_ok {row : QuestionRow} (h : insertQuestion db row = .ok db') :
    db' = { db with questions := db.questions ++ [row] } ∧ row.id ∉ db.questions.map (·.id) := by
  unfold insertQuestion at h
  split at h
  · cases h
  · rename_i hno
    refine ⟨(Except.ok.inj h).symm, fun hmem => hno ?_⟩
    obtain ⟨t, ht, he⟩ := List.mem_map.mp hmem
    exact List.any_eq_true.mpr ⟨t, ht, by simpa using he⟩

theorem insertPlan_ok {row : PlanRow} (h : insertPlan db row = .ok db') :
    db' = { db with plans := db.plans ++ [row] } ∧
      ∀ p ∈ db.plans, ¬ (p.scope = row.scope ∧ p.planId = row.planId) := by
  unfold insertPlan at h
  split at h
  · cases h
  · rename_i hno
    refine ⟨(Except.ok.inj h).symm, fun p hp hk => hno ?_⟩
    exact List.any_eq_true.mpr ⟨p, hp, by simpa using hk⟩

theorem insertInput_ok {row : InputRow} (h : insertInput db row = .ok db') :
    db' = { db with inputs := db.inputs ++ [row] } ∧
      (∀ i ∈ db.inputs, row.conflicts i = false) ∧ taskKeyHolds db row.scope row.taskId = true := by
  unfold insertInput at h
  split at h
  · cases h
  split at h
  · cases h
  · rename_i hno
    simp only [Bool.or_eq_true, not_or, Bool.not_eq_true, List.any_eq_false, Bool.not_eq_false,
      Bool.not_eq_true'] at hno
    exact ⟨(Except.ok.inj h).symm, fun i hi => by simpa using hno.1.1.1 i hi, hno.1.2⟩

theorem insertDialogueMessage_ok {row : DialogueMessageRow}
    (h : insertDialogueMessage db row = .ok db') :
    db' = { db with messages := db.messages ++ [row] } ∧
      (∀ m ∈ db.messages, row.conflicts m = false) ∧
      taskKeyHolds db row.scope (some row.taskId) = true := by
  unfold insertDialogueMessage at h
  split at h
  · cases h
  · rename_i hno
    simp only [Bool.or_eq_true, not_or, Bool.not_eq_true, List.any_eq_false, Bool.not_eq_false,
      Bool.not_eq_true'] at hno
    exact ⟨(Except.ok.inj h).symm, fun m hm => by simpa using hno.1.1 m hm, hno.1.2⟩

theorem setFocus_ok {scope : Scope} {actorId taskId : String} {now : Int}
    (h : setFocus db scope actorId taskId now = .ok db') :
    ∃ focus, db' = { db with focus := focus } := by
  unfold setFocus at h
  dsimp only at h
  split at h
  · cases h
  · split at h
    · exact ⟨_, (Except.ok.inj h).symm⟩
    · exact ⟨_, (Except.ok.inj h).symm⟩

theorem touchTask_step (db : Tables) (scope : Scope) (taskId : String) (now : Int) :
    PlanStep db (touchTask db scope taskId now) :=
  .updateTasks (fun _ _ _ => ⟨rfl, rfl, rfl, rfl, .inl ⟨rfl, rfl⟩⟩) fun _ => rfl

theorem insertTask_step {row : TaskRow} (h : insertTask db row = .ok db') : PlanStep db db' := by
  obtain ⟨rfl, hnew⟩ := insertTask_ok h
  exact { PlanStep.refl db with
    tasks := .append (fun r _ => .refl r) fun _ _ => trivial
    keys := fun hk => { hk with tasks := nodup_append_key hk.tasks hnew } }

theorem insertQuestion_step {row : QuestionRow} (h : insertQuestion db row = .ok db') :
    PlanStep db db' := by
  obtain ⟨rfl, hnew⟩ := insertQuestion_ok h
  exact { PlanStep.refl db with
    questions := .append (fun r _ => .refl r) fun _ _ => trivial
    keys := fun hk => { hk with questions := nodup_append_key hk.questions hnew } }

theorem insertInput_step {row : InputRow} (h : insertInput db row = .ok db') : PlanStep db db' := by
  obtain ⟨rfl, hnew, -⟩ := insertInput_ok h
  exact { PlanStep.refl db with
    keys := fun hk => { hk with inputs := pairwise_append_row hk.inputs hnew } }

theorem setFocus_step {scope : Scope} {actorId taskId : String} {now : Int}
    (h : setFocus db scope actorId taskId now = .ok db') : PlanStep db db' := by
  obtain ⟨focus, rfl⟩ := setFocus_ok h
  exact .setFocusRows focus

theorem insertPlan_step {row : PlanRow} (h : insertPlan db row = .ok db') : PlanStep db db' := by
  obtain ⟨rfl, hnew⟩ := insertPlan_ok h
  refine { PlanStep.refl db with
    plans := .append (fun _ _ => rfl) fun _ _ => trivial
    keys := fun hk => { hk with plans := nodup_append_key hk.plans fun hmem => ?_ } }
  obtain ⟨p, hp, he⟩ := List.mem_map.mp hmem
  exact hnew p hp (by simpa using he)

theorem insertInputMessage_step {row : InputRow} {taskId : String}
    (h : insertDialogueMessage db (inputMessage row taskId) = .ok db') : PlanStep db db' := by
  obtain ⟨rfl, hnew, -⟩ := insertDialogueMessage_ok h
  exact { PlanStep.refl db with
    messages := .append (fun _ _ => rfl) (by simp [inputMessage])
    keys := fun hk => { hk with messages := pairwise_append_row hk.messages hnew } }

theorem suppress_step (p : OutboundRow → Bool) (reason : String) (now : Int) (db : Tables) :
    PlanStep db (suppress p reason now db) :=
  { PlanStep.refl db with
    outbound := .updateWhere (fun _ _ hp =>
        .inr ⟨((Bool.and_eq_true _ _).mp hp).2, reason, now, rfl⟩)
      fun _ _ _ => .inl rfl
    keys := fun hk => { hk with } }

theorem endTask_step {taskId : String} {status : TaskStatus} (hs : status ≠ .active) (db : Tables) :
    PlanStep db (endTask c db taskId status) := by
  refine .updateTasks (fun r _ hp => ⟨rfl, rfl, rfl, rfl, .inr ⟨?_, hs, rfl⟩⟩) fun _ => rfl
  simpa using ((Bool.and_eq_true _ _).mp hp).2

theorem insertRoutedInput_step {item : DialogueInput} {taskId : String}
    (h : insertRoutedInput c db item taskId = .ok db') : PlanStep db db' := by
  obtain ⟨db1, h1, h2⟩ := bind_eq_ok h
  exact (insertInput_step h1).trans (insertInputMessage_step h2)

theorem attachInput_step {item : DialogueInput} {taskId : String}
    (h : attachInput c db item taskId = .ok db') : PlanStep db db' := by
  unfold attachInput at h
  split at h
  · cases h
  · split at h
    · cases h
    · obtain ⟨db1, h1, h2⟩ := bind_eq_ok h
      obtain rfl := Except.ok.inj h2
      exact (insertRoutedInput_step h1).trans (touchTask_step _ _ _ _)

theorem applyCreate_step {s : RouteState} {item : DialogueInput} {route : DialogueRoute}
    {r : RouteState × Assigned} (h : applyCreate c s item route = .ok r) : PlanStep s.db r.1.db := by
  unfold applyCreate at h
  split at h
  · split at h
    · cases h
    · obtain ⟨db1, h1, h⟩ := bind_eq_ok h
      obtain ⟨db2, h2, h⟩ := bind_eq_ok h
      obtain ⟨db3, h3, h⟩ := bind_eq_ok h
      obtain rfl := Except.ok.inj h
      exact ((insertTask_step h1).trans (insertRoutedInput_step h2)).trans (setFocus_step h3)
  · cases h

theorem applyStatus_step {s : RouteState} {item : DialogueInput} {route : DialogueRoute}
    {r : RouteState × Assigned} (h : applyStatus c s item route = .ok r) : PlanStep s.db r.1.db := by
  unfold applyStatus at h
  split at h
  · cases h
  · split at h
    · cases h
    · obtain ⟨db1, h1, h⟩ := bind_eq_ok h
      obtain rfl := Except.ok.inj h
      exact insertInput_step h1

theorem applyAttach_step {s : RouteState} {item : DialogueInput} {route : DialogueRoute}
    {r : RouteState × Assigned} (h : applyAttach c s item route = .ok r) : PlanStep s.db r.1.db := by
  obtain ⟨taskId, -, h⟩ := bind_eq_ok h
  obtain ⟨db1, h1, h⟩ := bind_eq_ok h
  obtain ⟨db2, h2, h⟩ := bind_eq_ok h
  obtain rfl := Except.ok.inj h
  exact (attachInput_step h1).trans (setFocus_step h2)

theorem applyEnd_step {status : TaskStatus} (hs : status ≠ .active) {reason : String}
    {s : RouteState} {item : DialogueInput} {route : DialogueRoute} {r : RouteState × Assigned}
    (h : applyEnd c status reason s item route = .ok r) : PlanStep s.db r.1.db := by
  obtain ⟨taskId, -, h⟩ := bind_eq_ok h
  split at h
  · cases h
  · split at h
    · cases h
    · obtain ⟨db1, h1, h⟩ := bind_eq_ok h
      obtain rfl := Except.ok.inj h
      exact ((attachInput_step h1).trans (endTask_step hs _)).trans (suppress_step _ _ _ _)

theorem extendQuestion_step {item : DialogueInput} {route : DialogueRoute} {existing : QuestionRow}
    {text : String} {r : Tables × ℕ} (h : extendQuestion c db item route existing text = .ok r) :
    PlanStep db r.1 := by
  unfold extendQuestion at h
  split at h
  · cases h
  split at h
  · cases h
  split at h
  · cases h
  obtain ⟨candidates, -, h⟩ := bind_eq_ok h
  split at h
  · obtain rfl := Except.ok.inj h
    exact .refl db
  split at h
  · cases h
  dsimp only at h
  split at h
  · cases h
  obtain rfl := Except.ok.inj h
  refine PlanStep.trans (.updateQuestions ?_ ?_) (suppress_step _ _ _ _)
  rotate_left
  · exact fun _ => rfl
  refine fun q _ hp => ⟨rfl, rfl, .inr ⟨?_, Nat.lt_succ_self _⟩⟩
  simp only [Bool.and_eq_true, decide_eq_true_eq] at hp
  exact hp.1.2

theorem newQuestion_step {item : DialogueInput} {route : DialogueRoute} {questionId text : String}
    {r : Tables × ℕ} (h : newQuestion c db item route questionId text = .ok r) :
    PlanStep db r.1 := by
  unfold newQuestion at h
  split at h
  · cases h
  obtain ⟨candidates, -, h⟩ := bind_eq_ok h
  obtain ⟨db1, h1, h⟩ := bind_eq_ok h
  obtain rfl := Except.ok.inj h
  exact insertQuestion_step h1

theorem applyQuestion_step {s : RouteState} {item : DialogueInput} {route : DialogueRoute}
    {r : RouteState × Assigned} (h : applyQuestion c s item route = .ok r) :
    PlanStep s.db r.1.db := by
  unfold applyQuestion at h
  split at h
  · obtain ⟨⟨db1, revision⟩, h1, h⟩ := bind_eq_ok h
    obtain ⟨db2, h2, h⟩ := bind_eq_ok h
    obtain rfl := Except.ok.inj h
    have hq : PlanStep s.db db1 := by
      unfold createOrExtendQuestion at h1
      split at h1
      · exact extendQuestion_step h1
      · exact newQuestion_step h1
    exact hq.trans (insertInput_step h2)
  · cases h

theorem resolvedTask_step {item : DialogueInput} {route : DialogueRoute} {question : QuestionRow}
    {request : String} {r : Tables × String}
    (h : resolvedTask c db item route question request = .ok r) : PlanStep db r.1 := by
  unfold resolvedTask at h
  split at h
  · split at h
    · cases h
    · obtain ⟨db1, h1, h⟩ := bind_eq_ok h
      obtain rfl := Except.ok.inj h
      exact insertTask_step h1
  · split at h
    · cases h
    split at h
    · cases h
    split at h
    · cases h
    split at h
    · cases h
    obtain rfl := Except.ok.inj h
    exact .refl db

theorem closeQuestion_step {question : QuestionRow} {taskId : String}
    (h : closeQuestion c db question taskId = .ok db') : PlanStep db db' := by
  unfold closeQuestion at h
  dsimp only at h
  split at h
  · cases h
  obtain rfl := Except.ok.inj h
  refine .updateQuestions (fun q _ hp => ⟨rfl, rfl, .inr ⟨?_, Nat.lt_succ_self _⟩⟩) fun _ => rfl
  simp only [Bool.and_eq_true, decide_eq_true_eq] at hp
  exact hp.1.2

theorem assignInput_step {taskId : String} {old : InputRow}
    (h : assignInput c taskId db old = .ok db') : PlanStep db db' := by
  unfold assignInput at h
  dsimp only at h
  split at h
  · cases h
  · refine PlanStep.trans ?_ (insertInputMessage_step h)
    refine { PlanStep.refl db with keys := fun hk => { hk with inputs := ?_ } }
    rw [updateWhere, List.pairwise_map]
    refine hk.inputs.imp fun {i j} hij => ?_
    split <;> split <;> exact hij

/-- The waiting inputs are assigned one after the other. -/
theorem assignInputs_step {taskId : String} {olds : List InputRow}
    (h : olds.foldlM (assignInput c taskId) db = .ok db') : PlanStep db db' := by
  induction olds generalizing db with
  | nil =>
    obtain rfl := Except.ok.inj h
    exact .refl db
  | cons old olds ih =>
    rw [List.foldlM_cons] at h
    obtain ⟨db1, h1, h⟩ := bind_eq_ok h
    exact (assignInput_step h1).trans (ih h)

theorem resolveQuestion_step {item : DialogueInput} {route : DialogueRoute} {questionId : String}
    {revision : Int} {r : Tables × String}
    (h : resolveQuestion c db item route questionId revision = .ok r) : PlanStep db r.1 := by
  unfold resolveQuestion at h
  split at h
  · cases h
  split at h
  · cases h
  obtain ⟨_, -, h⟩ := bind_eq_ok h
  split at h
  · cases h
  obtain ⟨⟨db1, taskId⟩, h1, h⟩ := bind_eq_ok h
  obtain ⟨db2, h2, h⟩ := bind_eq_ok h
  obtain ⟨db3, h3, h⟩ := bind_eq_ok h
  obtain ⟨db4, h4, h⟩ := bind_eq_ok h
  obtain rfl := Except.ok.inj h
  have hclosed := ((resolvedTask_step h1).trans (closeQuestion_step h2)).trans (assignInputs_step h3)
  exact ((hclosed.trans (suppress_step _ _ _ _)).trans (insertRoutedInput_step h4)).trans
    (touchTask_step _ _ _ _)

theorem applyResolveQuestion_step {s : RouteState} {item : DialogueInput} {route : DialogueRoute}
    {r : RouteState × Assigned} (h : applyResolveQuestion c s item route = .ok r) :
    PlanStep s.db r.1.db := by
  unfold applyResolveQuestion at h
  split at h
  · split at h
    · cases h
    obtain ⟨⟨db1, taskId⟩, h1, h⟩ := bind_eq_ok h
    obtain ⟨db2, h2, h⟩ := bind_eq_ok h
    obtain rfl := Except.ok.inj h
    exact (resolveQuestion_step h1).trans (setFocus_step h2)
  · cases h

theorem applyRoute_step {s : RouteState} {item : DialogueInput} {route : DialogueRoute}
    {r : RouteState × Assigned} (h : applyRoute c s item route = .ok r) : PlanStep s.db r.1.db := by
  unfold applyRoute at h
  cases ha : route.action with
  | create => exact applyCreate_step (by simpa [ha] using h)
  | status => exact applyStatus_step (by simpa [ha] using h)
  | attach => exact applyAttach_step (by simpa [ha] using h)
  | question => exact applyQuestion_step (by simpa [ha] using h)
  | resolveQuestion => exact applyResolveQuestion_step (by simpa [ha] using h)
  | close =>
    simp only [ha, applyClose] at h
    exact applyEnd_step (by decide) h
  | cancel =>
    simp only [ha, applyCancel] at h
    exact applyEnd_step (by decide) h

theorem applyRoutes_step {s : RouteState} {items : List DialogueInput}
    {r : RouteState × List (String × Assigned)} (h : applyRoutes c s items = .ok r) :
    PlanStep s.db r.1.db := by
  induction items generalizing s r with
  | nil =>
    obtain rfl := Except.ok.inj h
    exact .refl s.db
  | cons item items ih =>
    obtain ⟨route, -, h⟩ := bind_eq_ok h
    obtain ⟨⟨s1, assigned⟩, h1, h⟩ := bind_eq_ok h
    obtain ⟨⟨s2, others⟩, h2, h⟩ := bind_eq_ok h
    obtain rfl := Except.ok.inj h
    have hrest : PlanStep s1.db s2.db := ih h2
    exact (applyRoute_step h1).trans hrest

/-- A plan that is not a replay routes its inputs and then records itself. -/
theorem commitPlan_ok {r : Tables × DialoguePlanResult} (h : commitPlan c db = .ok r) :
    ∃ s assigned, applyRoutes c ⟨db, []⟩ c.plan.inputs = .ok (s, assigned) ∧
      (∀ item ∈ c.plan.inputs, ∀ i ∈ db.inputs, isInput c.scope item.inputId i = false) ∧
      assigned.mapM (finalAssignment c s.db) = .ok r.2.assignments ∧
      r.2.planId = c.plan.planId ∧ insertPlan s.db (planRow c r.2) = .ok r.1 := by
  unfold commitPlan at h
  split at h
  · cases h
  · rename_i hno
    obtain ⟨⟨s, assigned⟩, h1, h⟩ := bind_eq_ok h
    obtain ⟨assignments, h2, h⟩ := bind_eq_ok h
    obtain ⟨db1, h3, h⟩ := bind_eq_ok h
    obtain rfl := Except.ok.inj h
    refine ⟨s, assigned, h1, fun item hi i hm => ?_, h2, rfl, h3⟩
    by_contra hc
    refine hno (List.any_eq_true.mpr ⟨item, hi, List.any_eq_true.mpr ⟨i, hm, by simpa using hc⟩⟩)

/-- A plan is a replay that changes nothing, or is committed now. -/
theorem applyDialoguePlan_ok {r : Tables × DialoguePlanResult}
    (h : applyDialoguePlan c db = .ok r) : r.1 = db ∨ commitPlan c db = .ok r := by
  obtain ⟨_, -, h⟩ := bind_eq_ok h
  split at h
  · split at h
    · cases h
    split at h
    · obtain rfl := Except.ok.inj h
      exact .inl rfl
    · cases h
  · exact .inr h

theorem applyDialoguePlan_step {r : Tables × DialoguePlanResult}
    (h : applyDialoguePlan c db = .ok r) : PlanStep db r.1 := by
  obtain hsame | h := applyDialoguePlan_ok h
  · rw [hsame]
    exact .refl db
  · obtain ⟨s, assigned, h1, -, -, -, h2⟩ := commitPlan_ok h
    exact (applyRoutes_step h1).trans (insertPlan_step h2)

end Statements

end Soveren.Dialogue
