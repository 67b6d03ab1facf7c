import Soveren.Reconciliation.System

/-! Uncertain effects leave their status through an audited resolution only. -/
namespace Soveren.Reconciliation
open Soveren.Relational Soveren.Queue Soveren.Actions Soveren.Outbound

inductive Call where
  | insertAction (a : InsertActionArgs)
  | insertActionAndExecutionEvent (a : InsertActionArgs) (enqueueWhenApproved : Bool)
      (eventId : String) (eventNow : Int)
  | approveAction (k : ActionRef) (approverId : String) (now : Int)
  | approveActionAndEnqueue (k : ActionRef) (approverId recipient eventId : String)
      (now eventNow : Int)
  | denyAction (k : ActionRef) (approverId : String) (now : Int)
  | markExecuting (k : ActionRef) (now : Int)
  | markQueued (k : ActionRef) (result : Json) (now : Int)
  | markExecuted (k : ActionRef) (result : Json) (now : Int)
  | markFailed (k : ActionRef) (error : String) (now : Int)
  | markRetryable (k : ActionRef) (error : String) (now : Int)
  | markUncertain (k : ActionRef) (error : String) (now : Int)
  | resolveAction (resolution : ActionResolution) (q : Request) (eventId : String)
  | queue (op : QueueOp)
  /-- the outbound and dialogue stores, with `resolve_outbound` among them -/
  | conversation (call : Conversation.Call)

/-- The queue's table after a call, or what the call raises. -/
def queueOutcome (t : List EventRow) : QueueOp → Except StoreError (List EventRow)
  | .enqueue a => (enqueue t a).map (·.1)
  | .claimDue a => (claimDue t a).map (·.1)
  | .renewLease e k leaseSeconds now => (renewLease t e k leaseSeconds now).map (·.1)
  | .markDone e k now => .ok (markDone t e k now).1
  | .markDeadLetter e k lastError now => .ok (markDeadLetter t e k lastError now).1
  | .markRetry e k runAfter lastError now => .ok (markRetry t e k runAfter lastError now).1

/-- The conversation's tables after a call, or what the call raises. -/
def conversationOutcome (db : Conversation.Tables) :
    Conversation.Call → Except StoreError Conversation.Tables
  | .enqueue a => (enqueueOutboundWithResult db a).map (·.1)
  | .enqueueMany requests => (enqueueOutboundMany db requests).map (·.1)
  | .claimDue a => (Outbound.claimDue db a).map (·.1)
  | .renewLease m k leaseSeconds now => (Outbound.renewLease db m k leaseSeconds now).map (·.1)
  | .markSending m k now => .ok (markSending db m k now).1
  | .markSent m k result historyHex now => (markSent db m k result historyHex now).map (·.1)
  | .markUncertain m k lastError now => .ok (Outbound.markUncertain db m k lastError now).1
  | .markDeadLetter m k lastError now => .ok (Outbound.markDeadLetter db m k lastError now).1
  | .markRetry m k runAfter lastError now => .ok (Outbound.markRetry db m k runAfter lastError now).1
  | .resolveOutbound resolution q => (resolveOutbound db resolution q).map (·.1)
  | .applyPlan c => (Dialogue.applyDialoguePlan c db).map (·.1)

/-- A store operation that is one statement or one transaction of its own. -/
def atomic (f : Database → Except StoreError Database) :
    EStateM StoreError Database (Option ReconciliationResult) := do
  execute f
  return none

/-- A guarded transition of one action. -/
def moveAction (f : List ActionRow → List ActionRow × Bool) :
    EStateM StoreError Database (Option ReconciliationResult) :=
  atomic fun db => .ok { db with actions := (f db.actions).1 }

/-- A call on the database: its answer, if it reconciles, or what it raises, and the tables
it leaves. -/
def attempt : Call → EStateM StoreError Database (Option ReconciliationResult)
  | .insertAction a => atomic fun db =>
      (insertAction db.actions a).map fun p => { db with actions := p.1 }
  | .insertActionAndExecutionEvent a w eventId eventNow => atomic fun db =>
      (insertActionAndExecutionEvent db.actionTables a w eventId eventNow).map
        fun p => db.setActionTables p.1
  | .approveAction k approverId now => moveAction (approveAction · k approverId now)
  | .approveActionAndEnqueue k approverId recipient eventId now eventNow => atomic fun db =>
      (approveActionAndEnqueue db.actionTables k approverId recipient eventId now eventNow).map
        fun p => db.setActionTables p.1
  | .denyAction k approverId now => moveAction (denyAction · k approverId now)
  | .markExecuting k now => moveAction (markExecuting · k now)
  | .markQueued k result now => moveAction (markQueued · k result now)
  | .markExecuted k result now => moveAction (markExecuted · k result now)
  | .markFailed k error now => moveAction (markFailed · k error now)
  | .markRetryable k error now => moveAction (markRetryable · k error now)
  | .markUncertain k error now => moveAction (Actions.markUncertain · k error now)
  | .resolveAction resolution q eventId =>
      some <$> reconcile q (resolveActionStatements resolution q eventId)
  | .queue op => atomic fun db => (queueOutcome db.events op).map fun t => { db with events := t }
  | .conversation (.resolveOutbound resolution q) =>
      some <$> reconcile q.request (resolveOutboundStatements resolution q)
  | .conversation call => atomic fun db =>
      (conversationOutcome db.conversation call).map db.setConversation

/-- The tables after a call. -/
def perform (db : Database) (call : Call) : Database := stateAfter (attempt call db)

/-- The tables after a sequence of calls on an empty database. -/
def runCalls (calls : List Call) : Database := calls.foldl perform {}

/-- The columns of the audit table's unique index. -/
def ReconciliationRow.key (x : ReconciliationRow) : String × String × EffectType × String :=
  (x.tenantId, x.sourceId, x.effectType, x.requestKey)

def Request.key (q : Request) (effectType : EffectType) : String × String × EffectType × String :=
  (q.tenantId, q.sourceId, effectType, q.requestKey)

/-- An applied request adds its audit row under a new key. -/
theorem record_ok {t t' : List ReconciliationRow} {effectType : EffectType}
    {resolution resultStatus : String} {q : Request}
    (h : record t effectType resolution resultStatus q = .ok t') :
    t' = t ++ [q.row effectType resolution resultStatus] ∧ q.key effectType ∉ t.map (·.key) := by
  unfold record at h
  split at h
  · cases h
  · rename_i hno
    refine ⟨(Except.ok.inj h).symm, fun hmem => hno ?_⟩
    obtain ⟨x, hx, he⟩ := List.mem_map.mp hmem
    simp only [ReconciliationRow.key, Request.key, Prod.mk.injEq] at he
    exact List.any_eq_true.mpr ⟨x, hx, by simp [he]⟩

/-- With unique keys a recorded request is answered from its own row. -/
theorem existing_eq {t : List ReconciliationRow} (hkeys : (t.map (·.key)).Nodup)
    {effectType : EffectType} {resolution : String} {q : Request} {x : ReconciliationRow}
    (hx : x ∈ t) (hkey : x.key = q.key effectType) :
    existing t effectType resolution q = (do
      requireIdempotentReplay (x.effectId = q.effectId && x.resolution = resolution &&
        x.actorId = q.actorId && x.evidence = q.evidenceJson)
        (effectType.name ++ " reconciliation") q.requestKey x.id
      .ok (some ⟨q.effectId, x.resultStatus, false⟩)) := by
  have hfind : (t.find? fun r => r.tenantId = q.tenantId && r.sourceId = q.sourceId &&
      r.effectType = effectType && r.requestKey = q.requestKey) = some x := by
    rw [← find?_of_key hkeys hx]
    refine List.find?_congr fun r _ => ?_
    simp only [hkey]
    simp [ReconciliationRow.key, Request.key, Bool.and_assoc]
  unfold existing
  rw [hfind]

section Perform

variable {db : Database}

theorem atomic_run (f : Database → Except StoreError Database) (db : Database) :
    atomic f db = settle db ((f db).map fun s => (s, none)) := by
  cases h : f db with
  | error e => simp [atomic, execute, h, settle, Except.map]
  | ok s => simp [atomic, execute, h, settle, Except.map]

/-- Every call commits its whole effect or none. -/
theorem attempt_settle (call : Call) (db : Database) :
    ∃ r, attempt call db = settle db r := by
  cases call with
  | resolveAction resolution q eventId =>
    exact ⟨_, map_settle some (reconcile_action db resolution q eventId)⟩
  | conversation call =>
    cases call with
    | resolveOutbound resolution q =>
      exact ⟨_, map_settle some (reconcile_outbound db resolution q)⟩
    | enqueue | enqueueMany | claimDue | renewLease | markSending | markSent | markUncertain
    | markDeadLetter | markRetry | applyPlan => exact ⟨_, atomic_run _ db⟩
  | insertAction | insertActionAndExecutionEvent | approveAction | approveActionAndEnqueue
  | denyAction | markExecuting | markQueued | markExecuted | markFailed | markRetryable
  | markUncertain | queue => exact ⟨_, atomic_run _ db⟩

theorem attempt_error {call : Call} {db' : Database} {e : StoreError}
    (h : attempt call db = .error e db') : db' = db := by
  obtain ⟨r, hr⟩ := attempt_settle call db
  exact settle_error (hr.symm.trans h)

theorem stateAfter_atomic {P : Database → Prop} {f : Database → Except StoreError Database}
    (h0 : P db) (h : ∀ s, f db = .ok s → P s) : P (stateAfter (atomic f db)) := by
  rw [atomic_run]
  refine stateAfter_settle h0 fun s a hs => ?_
  obtain ⟨s', hs', he⟩ := map_eq_ok hs
  obtain ⟨rfl, -⟩ := Prod.mk.inj he
  exact h s' hs'

theorem orKeep_eq {α : Type} (db : Conversation.Tables)
    (r : Except StoreError (Conversation.Tables × α)) (s : Database) (hs : s.conversation = db) :
    stateAfter (settle (α := Option ReconciliationResult) s (((r.map (·.1)).map s.setConversation).map
      fun t => (t, none))) = s.setConversation (Conversation.orKeep db r) := by
  subst hs
  cases r with
  | error e => rfl
  | ok p => rfl

/-- On the conversation's tables the calls are those of the conversation. -/
theorem perform_conversation (db : Database) (call : Conversation.Call) :
    perform db (.conversation call) =
      db.setConversation (Conversation.perform db.conversation call) := by
  unfold perform attempt
  cases call with
  | resolveOutbound resolution q =>
    dsimp only
    rw [map_settle some (reconcile_outbound db resolution q)]
    change _ = db.setConversation
      (Conversation.orKeep db.conversation (resolveOutbound db.conversation resolution q))
    cases resolveOutbound db.conversation resolution q with
    | error e => rfl
    | ok p => rfl
  | markSending | markUncertain | markDeadLetter | markRetry => rfl
  | enqueue | enqueueMany | claimDue | renewLease | markSent | applyPlan =>
    dsimp only
    rw [atomic_run]
    exact orKeep_eq _ _ db rfl

/-- The change that leaves an uncertain action alone. -/
def Unmoved (r s : ActionRow) : Prop := s.ref = r.ref ∧ (r.status = .uncertain → s = r)

/-- What a call can do to the actions and to the audit rows. -/
inductive Performed (db : Database) : Call → Database → Prop
  | same (call : Call) : Performed db call db
  | actions {call : Call} {actions : List ActionRow} {events : List EventRow}
      (h : Grows Unmoved (fun _ => True) db.actions actions)
      (hid : (db.actions.map (·.id)).Nodup → (actions.map (·.id)).Nodup) :
      Performed db call { db with actions := actions, events := events }
  | resolved {resolution : ActionResolution} {q : Request} {eventId : String}
      {events : List EventRow} {audit : List ReconciliationRow}
      (h : record db.audit .action resolution.name resolution.status.name q = .ok audit) :
      Performed db (.resolveAction resolution q eventId) (db.setActionTables
        ⟨(transition [.uncertain] (resolution.write q) db.actions q.actionRef).1, events, audit⟩)
  | conversation (call : Conversation.Call) : Performed db (.conversation call)
      (db.setConversation (Conversation.perform db.conversation call))

theorem Unmoved.refl (r : ActionRow) : Unmoved r r := ⟨rfl, fun _ => rfl⟩

theorem transition_grows {admitted : List ActionStatus} {f : ActionRow → ActionRow}
    (hadmitted : ActionStatus.uncertain ∉ admitted) (hf : ∀ r, (f r).ref = r.ref)
    (t : List ActionRow) (k : ActionRef) :
    Grows Unmoved (fun _ => True) t (transition admitted f t k).1 := by
  refine .updateWhere (fun r _ hp => ⟨hf r, fun hu => ?_⟩) fun r _ _ => .refl r
  simp only [Bool.and_eq_true, List.contains_iff_mem] at hp
  exact absurd (hu ▸ hp.2) hadmitted

theorem perform_moveAction {call : Call} {admitted : List ActionStatus}
    {f : ActionRow → ActionRow} {k : ActionRef}
    (hcall : attempt call = moveAction (transition admitted f · k))
    (hadmitted : ActionStatus.uncertain ∉ admitted) (hf : ∀ r, (f r).ref = r.ref) :
    Performed db call (perform db call) := by
  unfold perform
  rw [hcall]
  refine stateAfter_atomic (.same call) fun s hs => ?_
  obtain rfl := Except.ok.inj hs
  exact .actions (transition_grows hadmitted hf db.actions k) fun h => by
    rwa [transition_ids hf]

theorem insertAction_grows {t t' : List ActionRow} {a : InsertActionArgs} {id : String}
    {created : Bool} (h : insertAction t a = .ok (t', id, created)) :
    Grows Unmoved (fun _ => True) t t' ∧ ((t.map (·.id)).Nodup → (t'.map (·.id)).Nodup) := by
  obtain ⟨-, -, ⟨rfl, -, hnew⟩ | rfl⟩ := insertAction_ok h
  · exact ⟨.append (fun r _ => .refl r) fun _ _ => trivial, fun hid => nodup_append_key hid hnew⟩
  · exact ⟨.refl fun r _ => .refl r, fun hid => hid⟩

theorem perform_performed (db : Database) (call : Call) : Performed db call (perform db call) := by
  cases call with
  | insertAction a =>
    refine stateAfter_atomic (.same _) fun s hs => ?_
    obtain ⟨⟨t, id, created⟩, hins, rfl⟩ := map_eq_ok hs
    obtain ⟨hg, hid⟩ := insertAction_grows hins
    exact .actions hg hid
  | insertActionAndExecutionEvent a w eventId eventNow =>
    refine stateAfter_atomic (.same _) fun s hs => ?_
    obtain ⟨⟨t, result⟩, hins, rfl⟩ := map_eq_ok hs
    obtain ⟨id, created, hact, hrec, -⟩ := insertActionAndExecutionEvent_ok hins
    obtain ⟨hg, hid⟩ := insertAction_grows hact
    obtain ⟨actions, events, audit⟩ := t
    obtain rfl : audit = db.audit := hrec
    exact .actions hg hid
  | approveActionAndEnqueue k approverId recipient eventId now eventNow =>
    refine stateAfter_atomic (.same _) fun s hs => ?_
    obtain ⟨⟨t, result⟩, happ, rfl⟩ := map_eq_ok hs
    obtain ⟨hact, hrec, -⟩ := approveActionAndEnqueue_ok happ
    obtain ⟨actions, events, audit⟩ := t
    obtain rfl : audit = db.audit := hrec
    obtain rfl : actions = (approveAction db.actions k approverId now).1 := hact
    refine .actions (transition_grows (by decide) (by exact fun _ => rfl) db.actions k) fun h => ?_
    rwa [approveAction_ids]
  | approveAction k approverId now => exact perform_moveAction rfl (by decide) (by exact fun _ => rfl)
  | denyAction k approverId now => exact perform_moveAction rfl (by decide) (by exact fun _ => rfl)
  | markExecuting k now => exact perform_moveAction rfl (by decide) (by exact fun _ => rfl)
  | markQueued k result now => exact perform_moveAction rfl (by decide) (by exact fun _ => rfl)
  | markExecuted k result now => exact perform_moveAction rfl (by decide) (by exact fun _ => rfl)
  | markFailed k error now => exact perform_moveAction rfl (by decide) (by exact fun _ => rfl)
  | markRetryable k error now => exact perform_moveAction rfl (by decide) (by exact fun _ => rfl)
  | markUncertain k error now => exact perform_moveAction rfl (by decide) (by exact fun _ => rfl)
  | resolveAction resolution q eventId =>
    unfold perform
    rw [attempt, map_settle some (reconcile_action db resolution q eventId)]
    refine stateAfter_settle (.same _) fun s a hs => ?_
    obtain ⟨p, hp, he⟩ := map_eq_ok hs
    obtain ⟨⟨t, result⟩, hres, rfl⟩ := map_eq_ok hp
    obtain ⟨rfl, -⟩ := Prod.mk.inj he
    obtain rfl | ⟨hrec, hact, -⟩ := resolveAction_ok hres
    · exact .same _
    · obtain ⟨actions, events, audit⟩ := t
      obtain rfl : actions = (transition [.uncertain] (resolution.write q) db.actions
        q.actionRef).1 := hact
      exact .resolved hrec
  | queue op =>
    refine stateAfter_atomic (.same _) fun s hs => ?_
    obtain ⟨t, -, rfl⟩ := map_eq_ok hs
    exact .actions (.refl fun r _ => .refl r) id
  | conversation call =>
    rw [perform_conversation]
    exact .conversation call

theorem perform_resolveOutbound (db : Conversation.Tables) (resolution : OutboundResolution)
    (q : OutboundRequest) :
    Conversation.perform db (.resolveOutbound resolution q) = db ∨
    ∃ history audit, record db.reconciliations .outbound resolution.name
        (statusName resolution.status) q.request = .ok audit ∧
      Conversation.perform db (.resolveOutbound resolution q) = { db with
        outbound := updateWhere (fun r => q.request.names r && r.status = .uncertain)
          (resolution.write q) db.outbound
        history := history
        reconciliations := audit } := by
  simp only [Conversation.perform]
  cases h : resolveOutbound db resolution q with
  | error e => exact .inl rfl
  | ok p =>
    obtain ⟨he, -⟩ | ⟨-, r, history, audit, -, -, -, hrec, he⟩ := Conversation.resolveOutbound_ok h
    · exact .inl he
    · exact .inr ⟨history, audit, hrec, he⟩

/-- The audit rows after a conversation's call. -/
theorem conversation_audit (db : Conversation.Tables) (hid : (db.outbound.map (·.id)).Nodup)
    (call : Conversation.Call) :
    (Conversation.perform db call).reconciliations = db.reconciliations ∨
    ∃ resolution q, call = .resolveOutbound resolution q ∧
      record db.reconciliations .outbound resolution.name (statusName resolution.status) q.request =
        .ok (Conversation.perform db call).reconciliations := by
  by_cases hcall : ∃ resolution q, call = .resolveOutbound resolution q
  · obtain ⟨resolution, q, rfl⟩ := hcall
    obtain he | ⟨history, audit, hrec, he⟩ := perform_resolveOutbound db resolution q
    · exact .inl (by rw [he])
    · exact .inr ⟨resolution, q, rfl, by rw [he, hrec]⟩
  · left
    have hp := Conversation.perform_performed hid call
    generalize Conversation.perform db call = db' at hp ⊢
    cases hp with
    | same => rfl
    | outbound => rfl
    | sent _ _ _ hproj => exact hproj.reconciliations
    | resolved => exact absurd ⟨_, _, rfl⟩ hcall
    | planned h => exact (Dialogue.applyDialoguePlan_step h).reconciliations

/-- Ids, message keys and recorded request keys are unique. -/
structure Unique (db : Database) : Prop where
  ids : (db.actions.map (·.id)).Nodup
  outbound : Conversation.Distinct db.conversation.outbound
  keys : (db.audit.map (·.key)).Nodup

theorem Unique.record {t t' : List ReconciliationRow} {effectType : EffectType}
    {resolution resultStatus : String} {q : Request} (h : (t.map (·.key)).Nodup)
    (hrec : record t effectType resolution resultStatus q = .ok t') : (t'.map (·.key)).Nodup := by
  obtain ⟨rfl, hnew⟩ := record_ok hrec
  exact nodup_append_key h hnew

theorem Performed.unique {call : Call} {db' : Database} (hp : Performed db call db')
    (h : Unique db) : Unique db' := by
  cases hp with
  | same => exact h
  | actions _ hid => exact ⟨hid h.ids, h.outbound, h.keys⟩
  | @resolved resolution q eventId events audit hrec =>
    refine ⟨?_, h.outbound, Unique.record h.keys hrec⟩
    have hids : (transition [.uncertain] (resolution.write q) db.actions q.actionRef).1.map (·.id) =
        db.actions.map (·.id) := transition_ids (resolution.write_ref q) db.actions q.actionRef
    exact hids ▸ h.ids
  | conversation call =>
    refine ⟨h.ids, Conversation.perform_distinct h.outbound call, ?_⟩
    obtain hsame | ⟨resolution, q, -, hrec⟩ := conversation_audit db.conversation h.outbound.ids call
    · have hkeys := h.keys
      rwa [Database.audit, ← hsame] at hkeys
    · exact Unique.record h.keys hrec

theorem runCalls_unique (calls : List Call) : Unique (runCalls calls) := by
  induction calls using List.reverseRecOn with
  | nil => exact ⟨List.nodup_nil, List.Pairwise.nil, List.nodup_nil⟩
  | append_singleton calls call ih =>
    rw [runCalls, List.foldl_append]
    exact (perform_performed _ call).unique ih

/-- An action leaves its uncertain status in the transaction that records its resolution. -/
def ActionAudited (call : Call) (db db' : Database) (r s : ActionRow) : Prop :=
  s.status = .uncertain ∨ ∃ resolution q eventId, call = .resolveAction resolution q eventId ∧
    q.actionRef = r.ref ∧ s.status = resolution.status ∧
    db'.audit = db.audit ++ [q.row .action resolution.name s.status.name]

/-- A message leaves its uncertain status in the transaction that records its resolution. -/
def OutboundAudited (call : Call) (db db' : Database) (r s : Conversation.OutboundRow) : Prop :=
  s.status = .uncertain ∨ ∃ resolution q, call = .conversation (.resolveOutbound resolution q) ∧
    q.request.names r = true ∧ s.status = resolution.status ∧
    db'.audit = db.audit ++ [q.request.row .outbound resolution.name (statusName s.status)]

theorem Performed.actionAudited {call : Call} {db' : Database} (hp : Performed db call db') :
    Grows (fun r s => s.id = r.id ∧ (r.status = .uncertain → ActionAudited call db db' r s))
      (fun _ => True) db.actions db'.actions := by
  have hsame : ∀ db', Grows (fun r s => s.id = r.id ∧
      (r.status = .uncertain → ActionAudited call db db' r s)) (fun _ => True) db.actions
      db.actions := fun db' => .refl fun r _ => ⟨rfl, .inl⟩
  cases hp with
  | same => exact hsame db
  | conversation call => exact hsame _
  | actions h =>
    refine h.mono (fun r _ s hs => ⟨congrArg ActionRef.id hs.1, fun hu => .inl ?_⟩) fun _ h => h
    rw [hs.2 hu, hu]
  | @resolved resolution q eventId events audit hrec =>
    refine .updateWhere (fun r _ hp => ?_) fun r _ _ => ⟨rfl, .inl⟩
    simp only [Bool.and_eq_true, ActionRef.is_iff] at hp
    refine ⟨congrArg ActionRef.id (resolution.write_ref q r), fun hu => .inr ?_⟩
    refine ⟨resolution, q, eventId, rfl, hp.1.symm, resolution.write_status q r, ?_⟩
    rw [resolution.write_status q r]
    exact (record_ok hrec).1

theorem OutboundResolution.write_status (resolution : OutboundResolution) (q : OutboundRequest)
    (r : Conversation.OutboundRow) : (resolution.write q r).status = resolution.status := by
  cases resolution <;> rfl

/-- Only a resolution moves an uncertain message. -/
theorem eq_of_uncertain {db : Conversation.Tables} {call : Conversation.Call}
    {r s : Conversation.OutboundRow} (h : Conversation.RowStep db call r s)
    (hr : r.status = .uncertain) (hcall : ∀ resolution q, call ≠ .resolveOutbound resolution q) :
    s = r := by
  cases h with
  | same => rfl
  | swept h => exact h.eq_of_settled (.inl hr)
  | leased h =>
    have := Conversation.isCandidate_status h
    simp [hr] at this
  | renewed h | admitted h | refused h | sent h | uncertain h | dead h | retried h =>
    have := (Conversation.holds_iff.mp h).2.1
    simp [hr] at this
  | resolved => exact absurd rfl (hcall _ _)
  | suppressed h =>
    obtain rfl | ⟨hs, -⟩ := h
    · rfl
    · simp [hr] at hs

theorem Performed.outboundAudited {call : Call} {db' : Database} (h : Unique db)
    (hp : Performed db call db') :
    Grows (fun r s => s.id = r.id ∧ (r.status = .uncertain → OutboundAudited call db db' r s))
      (fun _ => True) db.conversation.outbound db'.conversation.outbound := by
  have hsame : ∀ db', Grows (fun r s => s.id = r.id ∧
      (r.status = .uncertain → OutboundAudited call db db' r s)) (fun _ => True)
      db.conversation.outbound db.conversation.outbound := fun db' => .refl fun r _ => ⟨rfl, .inl⟩
  cases hp with
  | same => exact hsame db
  | actions => exact hsame _
  | resolved => exact hsame _
  | conversation call =>
    by_cases hcall : ∃ resolution q, call = .resolveOutbound resolution q
    · obtain ⟨resolution, q, rfl⟩ := hcall
      obtain he | ⟨history, audit, hrec, he⟩ :=
        perform_resolveOutbound db.conversation resolution q
      · rw [he]
        exact hsame _
      · rw [he]
        refine .updateWhere (fun r _ hp => ?_) fun r _ _ => ⟨rfl, .inl⟩
        simp only [Bool.and_eq_true] at hp
        refine ⟨by cases resolution <;> rfl, fun _ => .inr ⟨resolution, q, rfl, hp.1, ?_, ?_⟩⟩
        · exact resolution.write_status q r
        · rw [resolution.write_status q r]
          exact (record_ok hrec).1
    · refine (Conversation.perform_outbound h.outbound.ids call).mono (fun r _ s hs => ?_)
        fun _ _ => trivial
      refine ⟨hs.content.id, fun hu => .inl ?_⟩
      rw [eq_of_uncertain hs hu fun resolution q he => hcall ⟨resolution, q, he⟩, hu]

end Perform

/-- The effect type, the resolution and the request of a call that reconciles. -/
def Call.request : Call → Option (EffectType × String × Request)
  | .resolveAction resolution q _ => some (.action, resolution.name, q)
  | .conversation (.resolveOutbound resolution q) => some (.outbound, resolution.name, q.request)
  | _ => none

/-- A recorded row answers the request of the same key, resolution, actor and evidence. -/
def ReconciliationRow.answers (x : ReconciliationRow) (resolution : String) (q : Request) : Prop :=
  x.effectId = q.effectId ∧ x.resolution = resolution ∧ x.actorId = q.actorId ∧
    x.evidence = q.evidenceJson

/-- What a call does to uncertain effects, to recorded requests and when it raises. -/
structure Audited (db : Database) (call : Call) : Prop where
  actions : ∀ r ∈ db.actions, r.status = .uncertain →
    ∃ s, (perform db call).actions.filter (·.id = r.id) = [s] ∧
      ActionAudited call db (perform db call) r s
  outbound : ∀ r ∈ db.conversation.outbound, r.status = .uncertain →
    ∃ s, (perform db call).conversation.outbound.filter (·.id = r.id) = [s] ∧
      OutboundAudited call db (perform db call) r s
  replayed : ∀ effectType resolution q, call.request = some (effectType, resolution, q) →
    q.validate = .ok () → ∀ x ∈ db.audit, x.key = q.key effectType → x.answers resolution q →
      attempt call db = .ok (some ⟨q.effectId, x.resultStatus, false⟩) db
  conflicting : ∀ effectType resolution q, call.request = some (effectType, resolution, q) →
    q.validate = .ok () → ∀ x ∈ db.audit, x.key = q.key effectType → ¬ x.answers resolution q →
      attempt call db = .error (.idempotencyConflict (effectType.name ++ " reconciliation")
        q.requestKey x.id) db
  refused : ∀ effectType resolution q, call.request = some (effectType, resolution, q) →
    ∀ e, q.validate = .error e → attempt call db = .error e db
  raised : ∀ e db', attempt call db = .error e db' → db' = db

section Recorded

variable {db : Database} {effectType : EffectType} {resolution : String} {q : Request}
  {x : ReconciliationRow}

theorem existing_replay (hkeys : (db.audit.map (·.key)).Nodup) (hx : x ∈ db.audit)
    (hkey : x.key = q.key effectType) (h : x.answers resolution q) :
    existing db.audit effectType resolution q = .ok (some ⟨q.effectId, x.resultStatus, false⟩) := by
  obtain ⟨h1, h2, h3, h4⟩ := h
  rw [existing_eq hkeys hx hkey]
  simp [requireIdempotentReplay, h1, h2, h3, h4, bind, Except.bind]

theorem existing_conflict (hkeys : (db.audit.map (·.key)).Nodup) (hx : x ∈ db.audit)
    (hkey : x.key = q.key effectType) (h : ¬ x.answers resolution q) :
    existing db.audit effectType resolution q =
      .error (.idempotencyConflict (effectType.name ++ " reconciliation") q.requestKey x.id) := by
  have hb : (x.effectId = q.effectId && x.resolution = resolution && x.actorId = q.actorId &&
      x.evidence = q.evidenceJson) = false := by
    refine Bool.eq_false_iff.mpr fun hb => h ?_
    simpa [ReconciliationRow.answers, and_assoc] using hb
  rw [existing_eq hkeys hx hkey, hb]
  rfl

/-- A call that reconciles checks its request and then looks for its recorded answer. -/
theorem attempt_reconcile {call : Call} (h : call.request = some (effectType, resolution, q)) :
    ∃ next, attempt call = some <$> reconcile q (do
      match ← query fun db : Database => existing db.audit effectType resolution q with
      | some recorded => return recorded
      | none => next) := by
  unfold Call.request at h
  split at h
  · obtain ⟨rfl, rfl, rfl⟩ := Prod.mk.inj (Option.some.inj h) |>.imp id Prod.mk.inj
    exact ⟨_, rfl⟩
  · obtain ⟨rfl, rfl, rfl⟩ := Prod.mk.inj (Option.some.inj h) |>.imp id Prod.mk.inj
    exact ⟨_, rfl⟩
  · cases h

end Recorded

/-- In every state that store calls reach and for every further call: an uncertain action or
message keeps its status unless the call resolves it and records the resolution with it; a
checked request whose key is recorded changes nothing and is answered from its row or raises a
conflict; and a call that raises leaves every table as it was. -/
theorem uncertain_effects_are_audited (calls : List Call) (call : Call) :
    Audited (runCalls calls) call := by
  have hu := runCalls_unique calls
  have hu' : Unique (perform (runCalls calls) call) := (perform_performed _ call).unique hu
  constructor
  case actions =>
    intro r hr hunc
    obtain ⟨s, hs, -, haudited⟩ := (perform_performed _ call).actionAudited.filter_key hu'.ids
      (fun _ _ h => h.1) hr
    exact ⟨s, hs, haudited hunc⟩
  case outbound =>
    intro r hr hunc
    obtain ⟨s, hs, -, haudited⟩ := ((perform_performed _ call).outboundAudited hu).filter_key
      hu'.outbound.ids (fun _ _ h => h.1) hr
    exact ⟨s, hs, haudited hunc⟩
  case replayed =>
    intro effectType resolution q hq hv x hx hkey hanswers
    obtain ⟨next, hnext⟩ := attempt_reconcile hq
    rw [hnext]
    refine map_ok some ?_
    rw [reconcile_eq hv]
    exact transaction_replay (existing_replay hu.keys hx hkey hanswers)
  case conflicting =>
    intro effectType resolution q hq hv x hx hkey hanswers
    obtain ⟨next, hnext⟩ := attempt_reconcile hq
    rw [hnext]
    refine map_error some ?_
    rw [reconcile_eq hv]
    exact transaction_conflict (existing_conflict hu.keys hx hkey hanswers)
  case refused =>
    intro effectType resolution q hq e hv
    obtain ⟨next, hnext⟩ := attempt_reconcile hq
    rw [hnext]
    exact map_error some (reconcile_refused hv)
  case raised =>
    intro e db' h
    exact attempt_error h

def mailAction : InsertActionArgs where
  actionHex := "1"
  tenantId := "t"
  sourceId := "s"
  kind := "mail"
  payload := .obj []
  approvalPolicy := "auto"
  now := 1

/-- An action found executed after an uncertain end. -/
def resolvedCalls : List Call :=
  let k : ActionRef := ⟨"act_1", "t", "s"⟩
  [.insertAction mailAction, .markExecuting k 2, .markUncertain k "timeout" 3,
    .resolveAction .executed ⟨"rec_1", "act_1", "t", "s", "key", "op", [("seen", .bool true)], 4⟩
      "ev"]

/-- The request again, without the actor who makes it. -/
def unsignedRequest : Request :=
  ⟨"rec_2", "act_1", "t", "s", "key", "", [("seen", .bool true)], 5⟩

/-- The key of the request is recorded, and the request is neither answered with the recorded result nor
refused as a conflict. -/
theorem unsigned_replay_is_refused :
    ∃ x ∈ (runCalls resolvedCalls).audit, x.key = unsignedRequest.key .action ∧
      ¬ ((∃ db, attempt (.resolveAction .executed unsignedRequest "ev2") (runCalls resolvedCalls) =
          .ok (some ⟨unsignedRequest.effectId, x.resultStatus, false⟩) db) ∨
        ∃ db resource key existingId, attempt (.resolveAction .executed unsignedRequest "ev2")
          (runCalls resolvedCalls) = .error (.idempotencyConflict resource key existingId) db) := by
  have hrefused : attempt (.resolveAction .executed unsignedRequest "ev2") (runCalls resolvedCalls) =
      .error (.valueError "tenant_id, source_id, request_key, and actor_id must be non-empty")
        (runCalls resolvedCalls) := map_error some (reconcile_refused (by decide +kernel))
  have hrecorded : ((runCalls resolvedCalls).audit.map (·.key)) = [unsignedRequest.key .action] := by
    decide +kernel
  obtain ⟨x, hx, hkey⟩ := List.mem_map.mp (hrecorded ▸ List.mem_singleton_self _)
  refine ⟨x, hx, hkey, ?_⟩
  rw [hrefused]
  rintro (⟨db, hok⟩ | ⟨db, resource, key, existingId, herr⟩)
  · cases hok
  · cases herr

end Soveren.Reconciliation
