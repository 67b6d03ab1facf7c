import Soveren.Conversation.Calls

/-! Task fencing of outbound messages. Suppression reaches only the rows that wait when a task
ends; every other row is stopped at admission, because an ended task stays ended and a
superseded generation of a question stays superseded. -/
namespace Soveren.Dialogue
open Soveren.Relational Soveren.Conversation Soveren.Outbound Soveren.Reconciliation

/-- The task or the question generation that a message belongs to is current. -/
def ReferenceCurrent (db : Tables) (r : OutboundRow) : Prop :=
  (∀ taskId revision valid, r.taskReference = some (.task taskId revision valid) →
    ∃ t, getTaskRow db r.scope taskId = some t ∧ t.scope = r.scope ∧ t.status = .active ∧
      t.revision = revision) ∧
  (∀ questionId revision valid, r.taskReference = some (.question questionId revision valid) →
    ∃ q, getQuestionRow db r.scope questionId = some q ∧ q.scope = r.scope ∧ q.status = .pending ∧
      q.revision = revision)

/-- The task has ended. -/
def TaskEnded (scope : Scope) (taskId : String) (db : Tables) : Prop :=
  ∃ t, getTaskRow db scope taskId = some t ∧ t.status ≠ .active

/-- The question is resolved or has left the generation `n`. -/
def Superseded (scope : Scope) (questionId : String) (n : ℕ) (db : Tables) : Prop :=
  ∃ q, getQuestionRow db scope questionId = some q ∧ (q.status = .resolved ∨ n < q.revision)

theorem getTaskRow_scope {db : Tables} {scope : Scope} {taskId : String} {t : TaskRow}
    (h : getTaskRow db scope taskId = some t) : t.scope = scope ∧ t.id = taskId := by
  simpa [isTask] using List.find?_some h

theorem getQuestionRow_scope {db : Tables} {scope : Scope} {questionId : String} {q : QuestionRow}
    (h : getQuestionRow db scope questionId = some q) : q.scope = scope ∧ q.id = questionId := by
  simpa [isQuestion] using List.find?_some h

theorem referenceCurrent_of_admission {db : Tables} {r : OutboundRow}
    (h : taskAdmissionIsCurrent db r = true) : ReferenceCurrent db r := by
  constructor
  · intro taskId revision valid hr
    simp only [taskAdmissionIsCurrent, hr, Option.all_some, referenceIsCurrent,
      Option.any_eq_true_iff_get, Bool.and_eq_true, decide_eq_true_eq] at h
    obtain ⟨hsome, hactive, hrev⟩ := h
    obtain ⟨t, ht⟩ := Option.isSome_iff_exists.mp hsome
    simp only [ht, Option.get_some] at hactive hrev
    exact ⟨t, ht, (getTaskRow_scope ht).1, hactive, hrev⟩
  · intro questionId revision valid hr
    simp only [taskAdmissionIsCurrent, hr, Option.all_some, referenceIsCurrent,
      Option.any_eq_true_iff_get, Bool.and_eq_true, decide_eq_true_eq] at h
    obtain ⟨hsome, hpending, hrev⟩ := h
    obtain ⟨q, hq⟩ := Option.isSome_iff_exists.mp hsome
    simp only [hq, Option.get_some] at hpending hrev
    exact ⟨q, hq, (getQuestionRow_scope hq).1, hpending, hrev⟩

/-- A message enters `sending` only through an admission. -/
theorem RowStep.admission {db : Tables} {call : Call} {r s : OutboundRow}
    (h : RowStep db call r s) (hs : s.status = .sending) (hr : r.status ≠ .sending) :
    taskAdmissionIsCurrent db r = true := by
  cases h with
  | admitted _ hc => exact hc
  | same | renewed => exact absurd hs hr
  | swept h =>
    cases h with
    | same => exact absurd hs hr
    | lost | exhausted | blocked => simp [fail, unlease] at hs
  | leased => simp [ClaimArgs.lease] at hs
  | refused | uncertain | dead => simp [fail, unlease] at hs
  | sent => simp [sentRow, unlease] at hs
  | retried _ hst =>
    obtain rfl | rfl := hst
    · simp [fail, unlease] at hs
    · simp [fail, unlease] at hs
  | @resolved resolution =>
    cases resolution <;> simp [Reconciliation.OutboundResolution.write,
      Reconciliation.OutboundResolution.status, unlease] at hs
  | suppressed h =>
    obtain rfl | ⟨-, reason, now, rfl⟩ := h
    · exact absurd hs hr
    · simp [fail, unlease] at hs

theorem TaskEnded.perform {scope : Scope} {taskId : String} {db : Tables}
    (hid : (db.outbound.map (·.id)).Nodup) (call : Call) (h : TaskEnded scope taskId db) :
    TaskEnded scope taskId (perform db call) := by
  obtain ⟨t, ht, hended⟩ := h
  obtain ⟨t', ht', hstep⟩ := (perform_performed hid call).dialogue.getTaskRow ht
  refine ⟨t', ht', ?_⟩
  obtain ⟨hs, -⟩ | ⟨hactive, -, -⟩ := hstep.state
  · exact hs ▸ hended
  · exact absurd hactive hended

theorem Superseded.perform {scope : Scope} {questionId : String} {n : ℕ} {db : Tables}
    (hid : (db.outbound.map (·.id)).Nodup) (call : Call) (h : Superseded scope questionId n db) :
    Superseded scope questionId n (perform db call) := by
  obtain ⟨q, hq, hpast⟩ := h
  obtain ⟨q', hq', hstep⟩ := (perform_performed hid call).dialogue.getQuestionRow hq
  refine ⟨q', hq', ?_⟩
  obtain ⟨hs, hr, -⟩ | ⟨hpending, hlt⟩ := hstep.state
  · rw [hs, hr]
    exact hpast
  · obtain hres | hn := hpast
    · simp [hres] at hpending
    · exact .inr (hn.trans hlt)

/-- A message that is being sent was being sent before the call or is admitted by it. -/
theorem sending_cases (calls : List Call) (call : Call) {s : OutboundRow}
    (hs : s ∈ (runCalls (calls ++ [call])).outbound) (hsending : s.status = .sending) :
    (∃ r ∈ (runCalls calls).outbound, r.id = s.id ∧ r.status = .sending) ∨
      ReferenceCurrent (runCalls calls) s := by
  rw [runCalls_snoc] at hs
  obtain ⟨r, hr, hstep⟩ | ⟨a, -, rfl, -⟩ := (perform_outbound (runCalls_distinct calls).ids call).of_mem hs
  · by_cases hrs : r.status = .sending
    · exact .inl ⟨r, hr, hstep.content.id.symm, hrs⟩
    · have hcur := referenceCurrent_of_admission (RowStep.admission hstep hsending hrs)
      have hc := hstep.content
      refine .inr ⟨fun taskId revision valid href => ?_, fun questionId revision valid href => ?_⟩
      · exact hc.scope ▸ hcur.1 taskId revision valid (hc.taskReference ▸ href)
      · exact hc.scope ▸ hcur.2 questionId revision valid (hc.taskReference ▸ href)
  · simp [EnqueueArgs.row] at hsending

theorem not_taskEnded_of_current {db : Tables} {s : OutboundRow} {taskId : String}
    (h : ReferenceCurrent db s) (ht : s.taskId = some taskId) : ¬ TaskEnded s.scope taskId db := by
  rintro ⟨t, htask, hended⟩
  cases href : s.taskReference with
  | none => simp [OutboundRow.taskId, href] at ht
  | some reference =>
    cases reference with
    | question => simp [OutboundRow.taskId, href, OutboundTaskReference.taskId?] at ht
    | task t' revision valid =>
      obtain rfl : t' = taskId := by
        simpa [OutboundRow.taskId, href, OutboundTaskReference.taskId?] using ht
      obtain ⟨x, hx, -, hactive, -⟩ := h.1 t' revision valid href
      obtain rfl := Option.some.inj (hx.symm.trans htask)
      exact hended hactive

theorem not_superseded_of_current {db : Tables} {s : OutboundRow} {questionId : String} {n : ℕ}
    (h : ReferenceCurrent db s) (hq : s.questionId = some questionId)
    (hn : s.questionRevision = some n) : ¬ Superseded s.scope questionId n db := by
  rintro ⟨q, hquestion, hpast⟩
  cases href : s.taskReference with
  | none => simp [OutboundRow.questionId, href] at hq
  | some reference =>
    cases reference with
    | task => simp [OutboundRow.questionId, href, OutboundTaskReference.questionId?] at hq
    | question q' revision valid =>
      obtain rfl : q' = questionId := by
        simpa [OutboundRow.questionId, href, OutboundTaskReference.questionId?] using hq
      obtain rfl : revision = n := by
        simpa [OutboundRow.questionRevision, href, OutboundTaskReference.questionRevision?] using hn
      obtain ⟨x, hx, -, hpending, hrev⟩ := h.2 q' revision valid href
      obtain rfl := Option.some.inj (hx.symm.trans hquestion)
      obtain hres | hlt := hpast
      · simp [hres] at hpending
      · omega

/-- A message enters `sending` only while its task is active at its revision, or its question
pending at its generation; so nothing of a task that a plan has ended, or of a generation that
a plan has superseded, ever enters it again. -/
theorem task_fencing (calls : List Call) (call : Call) :
    (∀ s ∈ (runCalls (calls ++ [call])).outbound, s.status = .sending →
      (∀ r ∈ (runCalls calls).outbound, r.id = s.id → r.status ≠ .sending) →
      ReferenceCurrent (runCalls calls) s) ∧
    (∀ earlier c later, calls = earlier ++ .applyPlan c :: later →
      (∀ scope taskId, TaskEnded scope taskId (runCalls (earlier ++ [.applyPlan c])) →
        ∀ s ∈ (runCalls (calls ++ [call])).outbound, s.scope = scope → s.taskId = some taskId →
          s.status = .sending → ∃ r ∈ (runCalls calls).outbound, r.id = s.id ∧ r.status = .sending) ∧
      (∀ scope questionId n,
        Superseded scope questionId n (runCalls (earlier ++ [.applyPlan c])) →
        ∀ s ∈ (runCalls (calls ++ [call])).outbound, s.scope = scope →
          s.questionId = some questionId → s.questionRevision = some n →
          s.status = .sending →
            ∃ r ∈ (runCalls calls).outbound, r.id = s.id ∧ r.status = .sending)) := by
  refine ⟨fun s hs hsending hnew => ?_, fun earlier c later hcalls => ⟨?_, ?_⟩⟩
  · obtain ⟨r, hr, hid, hrs⟩ | hcur := sending_cases calls call hs hsending
    · exact absurd hrs (hnew r hr hid)
    · exact hcur
  · intro scope taskId hended s hs hscope htask hsending
    obtain hold | hcur := sending_cases calls call hs hsending
    · exact hold
    · have hlater : TaskEnded scope taskId (runCalls calls) := by
        rw [hcalls, List.append_cons]
        exact runCalls_append_keeps (J := fun db => Distinct db.outbound) runCalls_distinct
          (fun db x hd h => h.perform hd.ids x) hended later
      exact absurd (hscope ▸ hlater) (not_taskEnded_of_current hcur htask)
  · intro scope questionId n hpast s hs hscope hquestion hn hsending
    obtain hold | hcur := sending_cases calls call hs hsending
    · exact hold
    · have hlater : Superseded scope questionId n (runCalls calls) := by
        rw [hcalls, List.append_cons]
        exact runCalls_append_keeps (J := fun db => Distinct db.outbound) runCalls_distinct
          (fun db x hd h => h.perform hd.ids x) hpast later
      exact absurd (hscope ▸ hlater) (not_superseded_of_current hcur hquestion hn)

def taskInput (inputId : String) (present : [inputId, "user", "telegram", "a table"].all
    (!Text.blank ·) = true := by decide) : DialogueInput where
  inputId := inputId
  actorId := "user"
  text := "a table"
  occurredAt := 0
  channel := "telegram"
  present := present
  optional := no_references

def openTask : Application where
  plan :=
    { planId := "open"
      scope := ⟨"t", "chat"⟩
      inputs := [taskInput "1"]
      routes := [{ inputId := "1", action := .create, taskKey := some "new:1", title := some "table" }] }
  now := 0
  draw := id

def closeTask : Application where
  plan :=
    { planId := "close"
      scope := ⟨"t", "chat"⟩
      inputs := [taskInput "2"]
      routes := [{ inputId := "2", action := .close, taskId := some "task_1" }] }
  now := 2
  draw := id

def taskMessage : EnqueueArgs where
  messageHex := "1"
  tenantId := "t"
  sourceId := "chat"
  channel := "telegram"
  destinationId := "42"
  text := "for how many"
  idempotencyKey := "reply"
  taskReference := some (.task "task_1" 1 (by decide))
  now := 0

def claimMessage (leaseToken : String) (now : Int) : ClaimArgs where
  channel := "telegram"
  limit := 5
  leaseOwner := "w"
  leaseSeconds := 60
  now := now
  leaseToken := leaseToken

def resolveMessage : OutboundRequest where
  request :=
    { recordId := "r"
      effectId := "out_1"
      tenantId := "t"
      sourceId := "chat"
      requestKey := "k"
      actorId := "op"
      evidence := [("seen", .bool true)]
      now := 101 }
  historyHex := "h"

/-- A message that is being sent when its task closes comes back through a resolution. -/
def returningCalls : List Call := [.applyPlan openTask, .enqueue taskMessage,
  .claimDue (claimMessage "k1" 0), .markSending "out_1" "k1" 1, .applyPlan closeTask,
  .claimDue (claimMessage "k2" 100), .resolveOutbound .notSent resolveMessage,
  .claimDue (claimMessage "k3" 102)]

theorem task_fencing_of_returning_message :
    (runCalls returningCalls).outbound.map (·.status) = [.leased] ∧
    (runCalls (returningCalls ++ [.markSending "out_1" "k3" 103])).outbound.map (·.status) =
      [.cancelled] ∧
    TaskEnded ⟨"t", "chat"⟩ "task_1" (runCalls (returningCalls.take 4 ++ [.applyPlan closeTask])) ∧
    (∀ s ∈ (runCalls (returningCalls ++ [.markSending "out_1" "k3" 103])).outbound,
      s.scope = ⟨"t", "chat"⟩ → s.taskId = some "task_1" → s.status = .sending →
        ∃ r ∈ (runCalls returningCalls).outbound, r.id = s.id ∧ r.status = .sending) := by
  have hended : TaskEnded ⟨"t", "chat"⟩ "task_1"
      (runCalls (returningCalls.take 4 ++ [.applyPlan closeTask])) :=
    ⟨_, rfl, by decide +kernel⟩
  refine ⟨by decide +kernel, by decide +kernel, hended, ?_⟩
  exact ((task_fencing returningCalls (.markSending "out_1" "k3" 103)).2 (returningCalls.take 4)
    closeTask (returningCalls.drop 5) rfl).1 _ _ hended

end Soveren.Dialogue
