import Soveren.Conversation.Calls

/-! A plan is applied as a whole, and its application is remembered: the same plan is answered
from its record, and another plan under its id is refused. -/
namespace Soveren.Dialogue
open Soveren.Relational Soveren.Conversation Soveren.Outbound

section Encoding

theorem RouteAction.name_inj {a b : RouteAction} (h : a.name = b.name) : a = b := by
  revert h
  cases a <;> cases b <;> decide

theorem inputData_inj {i j : DialogueInput} (h : inputData i = inputData j) : i = j := by
  simp only [inputData, Json.obj.injEq, List.cons.injEq, Prod.mk.injEq, Json.str.injEq,
    Json.int.injEq, true_and, and_true] at h
  obtain ⟨hactor, hchannel, hid, hthread, hat, hreply, hsource, htext⟩ := h
  cases i
  cases j
  simp only [DialogueInput.mk.injEq]
  exact ⟨hid, hactor, htext, hat, hchannel, Json.ofString?_inj hsource, Json.ofString?_inj hreply,
    Json.ofString?_inj hthread⟩

theorem candidateData_inj {x y : QuestionCandidate} (h : candidateData x = candidateData y) : x = y := by
  simp only [candidateData, Json.obj.injEq, List.cons.injEq, Prod.mk.injEq, Json.str.injEq,
    Json.int.injEq, true_and, and_true] at h
  obtain ⟨hexcerpt, hrevision, htask, htitle⟩ := h
  cases x
  cases y
  simp only [QuestionCandidate.mk.injEq]
  exact ⟨htask, htitle, Int.ofNat.inj hrevision, Json.ofString?_inj hexcerpt⟩

/-- A response text is there or the field is left out, so the two are told apart. -/
theorem routeData_inj {r s : RouteFields} (h : routeData r = routeData s) : r = s := by
  have hresponse : r.responseText = s.responseText := by
    have hget := congrArg (Json.get? "response_text") h
    cases hr : r.responseText <;> cases hs : s.responseText <;>
      simp_all [routeData, Json.get?]
  simp only [routeData, hresponse, Json.obj.injEq, List.cons_append, List.nil_append,
    List.cons.injEq, List.append_cancel_left_eq, Prod.mk.injEq, Json.str.injEq, Json.bool.injEq,
    Json.arr.injEq, true_and, and_true] at h
  obtain ⟨haction, hcand, hmore, hid, hq, hqrev, hqtext, htask, hkey, htitle⟩ := h
  cases r
  cases s
  simp only [RouteFields.mk.injEq] at hresponse ⊢
  exact ⟨hid, RouteAction.name_inj haction, Json.ofString?_inj htask, Json.ofString?_inj hkey,
    Json.ofString?_inj htitle, Json.ofString?_inj hq, Json.ofInt?_inj hqrev, Json.ofString?_inj hqtext,
    List.map_injective_iff.mpr (fun _ _ => candidateData_inj) hcand, hmore, hresponse⟩

/-- Plans that differ in any field have different data. -/
theorem planData_inj {p q : DialoguePlan} (h : planData p = planData q) : p = q := by
  simp only [planData, Json.obj.injEq, List.cons.injEq, Prod.mk.injEq, Json.str.injEq,
    Json.arr.injEq, true_and, and_true] at h
  obtain ⟨hinputs, hid, hroutes, hsource, htenant⟩ := h
  have hroute : Function.Injective fun r : DialogueRoute => routeData r.toRouteFields := by
    intro r s hrs
    cases r
    cases s
    obtain rfl := routeData_inj hrs
    rfl
  have hi := List.map_injective_iff.mpr (fun _ _ => inputData_inj) hinputs
  have hr := List.map_injective_iff.mpr hroute hroutes
  obtain ⟨pid, ⟨ptenant, psource⟩, pinputs, proutes⟩ := p
  obtain ⟨qid, ⟨qtenant, qsource⟩, qinputs, qroutes⟩ := q
  simp only at hid hsource htenant hi hr
  subst hid hsource htenant hi hr
  rfl

theorem taskStatusOf_name (s : TaskStatus) : taskStatusOf (taskStatusName s) = some s := by
  cases s <;> decide

theorem assignmentOf_data (a : DialogueAssignment) : assignmentOf (assignmentData a) = some a := by
  obtain ⟨inputId, taskId, questionId, taskRevision, questionRevision, taskStatus⟩ := a
  cases taskId <;> cases questionId <;> cases taskRevision <;> cases questionRevision <;>
    cases taskStatus <;>
    simp [assignmentOf, assignmentData, textField, countField, statusField, Json.get?, Json.ofString?,
      Json.ofInt?, taskStatusOf_name]

/-- A stored result is read back as it was. -/
theorem planResult_data (r : DialoguePlanResult) : planResult (resultData r) = some r := by
  have hitems : (r.assignments.map assignmentData).mapM assignmentOf = some r.assignments := by
    induction r.assignments with
    | nil => rfl
    | cons a rest ih => simp [List.mapM_cons, assignmentOf_data, ih]
  simp [planResult, resultData, Json.get?, hitems, Json.toStr]

end Encoding

section Plans

variable {db db' : Tables} {c : Application}

/-- Stored plans are never rewritten and never deleted. -/
abbrev Kept (t t' : List PlanRow) : Prop := Grows (fun r s => s = r) (fun _ => True) t t'

theorem Kept.refl (t : List PlanRow) : Kept t t := Grows.refl fun _ _ => rfl

theorem Kept.trans {t t' t'' : List PlanRow} (h : Kept t t') (h' : Kept t' t'') : Kept t t'' :=
  Grows.trans (fun _ _ _ hs hu => hu.trans hs) (fun _ _ _ _ => trivial) h h'

/-- Only a plan stores a plan. -/
theorem perform_plans (db : Tables) (call : Call) : Kept db.plans (perform db call).plans := by
  have hsame : Kept db.plans db.plans := .refl _
  cases call with
  | enqueue a =>
    refine orKeep_cases (P := fun d => Kept db.plans d.plans) db _ hsame fun db' result h => ?_
    obtain ⟨-, ⟨rfl, -⟩ | ⟨rfl, -⟩⟩ := enqueueOutboundWithResult_ok h
    · exact hsame
    · exact hsame
  | enqueueMany requests =>
    refine orKeep_cases (P := fun d => Kept db.plans d.plans) db _ hsame fun db' result h => ?_
    obtain ⟨new, rfl, -⟩ := enqueueOutboundMany_ok h
    exact hsame
  | claimDue a =>
    refine orKeep_cases (P := fun d => Kept db.plans d.plans) db _ hsame fun db' rows h => ?_
    obtain ⟨rfl, -⟩ := claimDue_ok h
    exact hsame
  | renewLease m k leaseSeconds now =>
    refine orKeep_cases (P := fun d => Kept db.plans d.plans) db _ hsame fun db' b h => ?_
    unfold Outbound.renewLease at h
    split at h
    · cases h
    · obtain ⟨rfl, -⟩ := Prod.mk.inj (Except.ok.inj h)
      exact hsame
  | markSending m k now =>
    simp only [perform, Outbound.markSending]
    split
    · exact hsame
    · split <;> exact hsame
  | markSent m k result historyHex now =>
    refine orKeep_cases (P := fun d => Kept db.plans d.plans) db _ hsame fun db' b h => ?_
    unfold Outbound.markSent at h
    dsimp only at h
    split at h
    · split at h
      · cases h
      · obtain ⟨⟨history, x⟩, -, h⟩ := bind_eq_ok h
        obtain ⟨db1, hproj, h⟩ := bind_eq_ok h
        obtain ⟨rfl, -⟩ := Prod.mk.inj (Except.ok.inj h)
        rw [(projectConfirmedDialogueMessage_ok hproj).plans]
        exact hsame
    · obtain ⟨rfl, -⟩ := Prod.mk.inj (Except.ok.inj h)
      exact hsame
  | markUncertain | markDeadLetter => exact hsame
  | markRetry m k runAfter lastError now =>
    simp only [perform, Outbound.markRetry]
    split <;> exact hsame
  | resolveOutbound resolution q =>
    refine orKeep_cases (P := fun d => Kept db.plans d.plans) db _ hsame fun db' result h => ?_
    obtain ⟨rfl, -⟩ | ⟨-, r, history, audit, -, -, -, -, rfl⟩ := resolveOutbound_ok h
    · exact hsame
    · exact hsame
  | applyPlan c =>
    exact orKeep_cases (P := fun d => Kept db.plans d.plans) db _ hsame fun db' result h =>
      (applyDialoguePlan_step h).plans

theorem foldl_plans (db : Tables) (calls : List Call) : Kept db.plans (calls.foldl perform db).plans := by
  induction calls generalizing db with
  | nil => exact .refl _
  | cons call calls ih => exact (perform_plans db call).trans (ih (perform db call))

/-- The record under the id of a plan. -/
def storedPlan (db : Tables) (plan : DialoguePlan) : Option PlanRow :=
  db.plans.find? fun p => p.scope = plan.scope && p.planId = plan.planId

/-- The routes of the plan were applied one after the other to `db`, to the last one, and the
plan was recorded with its result. -/
def Committed (c : Application) (db db' : Tables) (result : DialoguePlanResult) : Prop :=
  storedPlan db c.plan = none ∧ ∃ s assigned, applyRoutes c ⟨db, []⟩ c.plan.inputs = .ok (s, assigned) ∧
    assigned.map Prod.fst = c.plan.inputs.map (·.inputId) ∧
    result.assignments.map (·.inputId) = c.plan.inputs.map (·.inputId) ∧
    db' = { s.db with plans := s.db.plans ++ [planRow c result] }

theorem applyRoutes_ids {s s' : RouteState} {items : List DialogueInput}
    {assigned : List (String × Assigned)} (h : applyRoutes c s items = .ok (s', assigned)) :
    assigned.map Prod.fst = items.map (·.inputId) := by
  induction items generalizing s assigned with
  | nil =>
    obtain ⟨-, rfl⟩ := Prod.mk.inj (Except.ok.inj h)
    rfl
  | cons item items ih =>
    obtain ⟨route, -, h⟩ := bind_eq_ok h
    obtain ⟨⟨s1, a⟩, -, h⟩ := bind_eq_ok h
    obtain ⟨⟨s2, others⟩, hrest, h⟩ := bind_eq_ok h
    obtain ⟨rfl, rfl⟩ := Prod.mk.inj (Except.ok.inj h)
    simp [ih hrest]

theorem finalAssignments_ids {assigned : List (String × Assigned)} {assignments : List DialogueAssignment}
    (h : assigned.mapM (finalAssignment c db) = .ok assignments) :
    assignments.map (·.inputId) = assigned.map Prod.fst := by
  induction assigned generalizing assignments with
  | nil =>
    obtain rfl := Except.ok.inj h
    rfl
  | cons a rest ih =>
    rw [List.mapM_cons] at h
    obtain ⟨x, hx, h⟩ := bind_eq_ok h
    obtain ⟨xs, hxs, h⟩ := bind_eq_ok h
    obtain rfl := Except.ok.inj h
    have hid : x.inputId = a.1 := by
      unfold finalAssignment at hx
      dsimp only at hx
      split at hx
      · obtain rfl := Except.ok.inj hx
        rfl
      · split at hx
        · cases hx
        · obtain rfl := Except.ok.inj hx
          rfl
    simp [hid, ih hxs]

/-- An application that succeeds finds the plan's record or commits the plan, and either way
the record is there and holds the result. -/
theorem applyDialoguePlan_stored {result : DialoguePlanResult}
    (h : applyDialoguePlan c db = .ok (db', result)) :
    validatePlan c.plan = .ok () ∧ (db' = db ∨ Committed c db db' result) ∧
      ∃ row, storedPlan db' c.plan = some row ∧
        row.fingerprint = idempotencyFingerprint (planData c.plan) ∧ planResult row.result = some result := by
  obtain ⟨_, hvalid, h⟩ := bind_eq_ok h
  refine ⟨hvalid, ?_⟩
  split at h
  · rename_i row hrow
    split at h
    · cases h
    · rename_i hf
      split at h
      · rename_i r hr
        obtain ⟨rfl, rfl⟩ := Prod.mk.inj (Except.ok.inj h)
        exact ⟨.inl rfl, row, hrow, by simpa using hf, hr⟩
      · cases h
  · rename_i hnone
    obtain ⟨s, assigned, hroutes, -, hassign, hid, hins⟩ := commitPlan_ok h
    obtain ⟨hdb, hnew⟩ := insertPlan_ok hins
    have hids := applyRoutes_ids hroutes
    refine ⟨.inr ⟨hnone, s, assigned, hroutes, hids, (finalAssignments_ids hassign).trans hids, hdb⟩,
      planRow c result, ?_, rfl, planResult_data result⟩
    have hold : s.db.plans.find? (fun p => p.scope = c.plan.scope && p.planId = c.plan.planId) = none := by
      refine List.find?_eq_none.mpr fun p hp => ?_
      simpa [planRow, Application.scope] using hnew p hp
    simp only at hdb
    rw [storedPlan, hdb, List.find?_append, hold]
    simp [planRow, Application.scope]

/-- The record of a plan answers every later application under its id. -/
theorem applyDialoguePlan_recorded {c' : Application} {row : PlanRow} {result : DialoguePlanResult}
    (hrow : storedPlan db c.plan = some row)
    (hf : row.fingerprint = idempotencyFingerprint (planData c.plan))
    (hr : planResult row.result = some result) (hscope : c'.plan.scope = c.plan.scope)
    (hid : c'.plan.planId = c.plan.planId) (hvalid : validatePlan c'.plan = .ok ()) :
    applyDialoguePlan c' db = if c'.plan = c.plan then .ok (db, result)
      else .error (.dialogueConflict "dialogue plan id was reused with changed input") := by
  have hfind : db.plans.find? (fun p => p.scope = c'.scope && p.planId = c'.plan.planId) = some row := by
    simpa only [storedPlan, Application.scope, hscope, hid] using hrow
  simp only [applyDialoguePlan, hvalid, bind, Except.bind, hfind]
  by_cases hplan : c'.plan = c.plan
  · simp [hplan, hf, hr]
  · have hne : row.fingerprint ≠ idempotencyFingerprint (planData c'.plan) := by
      rw [hf]
      exact fun he => hplan (planData_inj he).symm
    simp [hplan, hne, conflict]

end Plans

/-- Whatever calls follow, the same plan returns its result again and another plan under its id
is refused, by the store's size limits if it exceeds them; neither changes a row. -/
def ReplayStable (c : Application) (db : Tables) (result : DialoguePlanResult) : Prop :=
  ∀ (later : List Call) (c' : Application), c'.plan.scope = c.plan.scope →
    c'.plan.planId = c.plan.planId →
    perform (later.foldl perform db) (.applyPlan c') = later.foldl perform db ∧
    (c'.plan = c.plan →
      applyDialoguePlan c' (later.foldl perform db) = .ok (later.foldl perform db, result)) ∧
    (c'.plan ≠ c.plan → applyDialoguePlan c' (later.foldl perform db) = match validatePlan c'.plan with
      | .ok () => .error (.dialogueConflict "dialogue plan id was reused with changed input")
      | .error e => .error e)

theorem replayStable {db db' : Tables} {c : Application} {result : DialoguePlanResult}
    (h : applyDialoguePlan c db = .ok (db', result)) : ReplayStable c db' result := by
  obtain ⟨hvalid, -, row, hrow, hf, hr⟩ := applyDialoguePlan_stored h
  intro later c' hscope hid
  obtain ⟨s, hs, rfl⟩ := (foldl_plans db' later).find? (fun r _ s hs => by rw [hs]) hrow
  have hrecorded := applyDialoguePlan_recorded hs hf hr hscope hid
  cases hv : validatePlan c'.plan with
  | ok u =>
    rw [hrecorded hv]
    by_cases hplan : c'.plan = c.plan
    · refine ⟨?_, fun _ => if_pos hplan, fun hne => absurd hplan hne⟩
      simp only [perform, hrecorded hv, if_pos hplan, orKeep]
    · refine ⟨?_, fun he => absurd he hplan, fun _ => if_neg hplan⟩
      simp only [perform, hrecorded hv, if_neg hplan, orKeep]
  | error e =>
    have herror : applyDialoguePlan c' (later.foldl perform db') = .error e := by
      simp only [applyDialoguePlan, hv, bind, Except.bind]
    refine ⟨by simp only [perform, herror, orKeep], fun he => ?_, fun _ => herror⟩
    rw [he, hvalid] at hv
    cases hv

/-- A plan is applied as a whole or not at all, and an applied plan is remembered. -/
theorem plan_atomic_and_replay_stable (db : Tables) (c : Application) :
    match applyDialoguePlan c db with
    | .error _ => perform db (.applyPlan c) = db
    | .ok (db', result) => (db' = db ∨ Committed c db db' result) ∧ ReplayStable c db' result := by
  split
  · rename_i e h
    simp only [perform, h, orKeep]
  · rename_i db' result h
    exact ⟨(applyDialoguePlan_stored h).2.1, replayStable h⟩

section Example

def tableInput : DialogueInput where
  inputId := "i1"
  actorId := "user"
  text := "a table"
  occurredAt := 0
  channel := "telegram"
  optional := no_references

def createRoute : DialogueRoute where
  inputId := "i1"
  action := .create
  taskKey := some "new:i1"
  title := some "table"

/-- The same route with a title of 257 characters. -/
def longTitleRoute : DialogueRoute where
  inputId := "i1"
  action := .create
  taskKey := some "new:i1"
  title := some (String.ofList (List.replicate 257 'x'))
  valid := by decide +kernel

theorem table_named : Text.blank "p1" = false := by
  decide

theorem chat_trusted : Text.blank "t" = false ∧ Text.blank "chat" = false := by
  decide

def tablePlan : Application where
  plan :=
    { planId := "p1"
      scope := ⟨"t", "chat"⟩
      inputs := [tableInput]
      routes := [createRoute]
      named := table_named
      trusted := chat_trusted }
  now := 0
  draw := id

def longTitlePlan : Application where
  plan :=
    { planId := "p1"
      scope := ⟨"t", "chat"⟩
      inputs := [tableInput]
      routes := [longTitleRoute]
      named := table_named
      trusted := chat_trusted }
  now := 1
  draw := id

/-- A changed plan whose title is too long is refused for its title. -/
theorem changed_plan_refused_by_limits : ∃ r, applyDialoguePlan tablePlan {} = .ok r ∧
    longTitlePlan.plan ≠ tablePlan.plan ∧ longTitlePlan.plan.scope = tablePlan.plan.scope ∧
    longTitlePlan.plan.planId = tablePlan.plan.planId ∧
    applyDialoguePlan longTitlePlan r.1 =
      .error (.valueError "task title must contain 1 to 256 characters") := by
  have hok : (applyDialoguePlan tablePlan {}).toOption.isSome = true := by decide +kernel
  have hlong : validatePlan longTitlePlan.plan =
      .error (.valueError "task title must contain 1 to 256 characters") := by decide +kernel
  cases h : applyDialoguePlan tablePlan {} with
  | error e => simp [h, Except.toOption] at hok
  | ok r =>
    refine ⟨r, rfl, by decide +kernel, rfl, rfl, ?_⟩
    simp only [applyDialoguePlan, hlong, bind, Except.bind]

/-- The plan is answered from its record after other calls. -/
theorem plan_replayed_after_calls : ∃ r, applyDialoguePlan tablePlan {} = .ok r ∧
    applyDialoguePlan { tablePlan with now := 9 } ([Call.applyPlan longTitlePlan].foldl perform r.1) =
      .ok ([Call.applyPlan longTitlePlan].foldl perform r.1, r.2) := by
  have hok : (applyDialoguePlan tablePlan {}).toOption.isSome = true := by decide +kernel
  have hthm := plan_atomic_and_replay_stable {} tablePlan
  cases h : applyDialoguePlan tablePlan {} with
  | error e => simp [h, Except.toOption] at hok
  | ok r =>
    rw [h] at hthm
    exact ⟨r, rfl, (hthm.2 [.applyPlan longTitlePlan] { tablePlan with now := 9 } rfl rfl).2.1 rfl⟩

end Example

end Soveren.Dialogue
