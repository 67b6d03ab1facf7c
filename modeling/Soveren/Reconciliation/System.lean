import Soveren.Relational.Transaction
import Soveren.Queue.Fencing
import Soveren.Actions.Effects
import Soveren.Conversation.Calls

/-! The two reconciliations statement by statement, and the store calls on actions, queue
events and conversations that run beside them on one database. -/
namespace Soveren.Reconciliation
open Soveren.Relational Soveren.Queue Soveren.Actions Soveren.Outbound

/-- The tables of one database file; the audit rows are those of the conversation tables. -/
structure Database where
  actions : List ActionRow := []
  events : List EventRow := []
  conversation : Conversation.Tables := {}

namespace Database

def audit (db : Database) : List ReconciliationRow := db.conversation.reconciliations

def actionTables (db : Database) : Actions.Tables := ⟨db.actions, db.events, db.audit⟩

def setActionTables (db : Database) (t : Actions.Tables) : Database where
  actions := t.actions
  events := t.events
  conversation := { db.conversation with reconciliations := t.reconciliations }

def setConversation (db : Database) (t : Conversation.Tables) : Database :=
  { db with conversation := t }

def setOutbound (db : Database) (t : List Conversation.OutboundRow) : Database :=
  { db with conversation := { db.conversation with outbound := t } }

def setHistory (db : Database) (t : List History.ConversationMessageRow) : Database :=
  { db with conversation := { db.conversation with history := t } }

def setAudit (db : Database) (t : List ReconciliationRow) : Database :=
  { db with conversation := { db.conversation with reconciliations := t } }

end Database

/-- `_require_uncertain` on the row that was read. -/
def requireUncertain {ρ : Type} (row : Option ρ) (isUncertain : ρ → Bool) (status : ρ → String)
    (effectName effectId : String) : Except StoreError ρ :=
  match row with
  | none => .error (.keyError (effectName ++ " not found: " ++ effectId))
  | some r =>
    if isUncertain r then .ok r
    else .error (.valueError (effectName ++ " " ++ effectId ++ " is not uncertain: " ++ status r))

def Request.actionRef (q : Request) : ActionRef := ⟨q.effectId, q.tenantId, q.sourceId⟩

/-- `_record` as a statement. -/
def recordStatement (effectType : EffectType) (resolution resultStatus : String) (q : Request) :
    EStateM StoreError Database Unit :=
  execute fun db => (record db.audit effectType resolution resultStatus q).map db.setAudit

/-- The statements of `resolve_action` from the read of the action to the audit insert. -/
def applyActionResolution (resolution : ActionResolution) (q : Request) (eventId : String) :
    EStateM StoreError Database ReconciliationResult := do
  let row ← query fun db => requireUncertain (getAction db.actions q.actionRef)
    (·.status = .uncertain) (·.status.name) "action" q.effectId
  execute fun db => .ok { db with
    actions := (transition [.uncertain] (resolution.write q) db.actions q.actionRef).1 }
  execute fun db => (resolution.requeue db.events q.actionRef q.requestKey eventId row.sourceEventId
    q.now).map fun events => { db with events := events }
  recordStatement .action resolution.name resolution.status.name q
  return ⟨q.effectId, resolution.status.name, true⟩

/-- The statements between `BEGIN IMMEDIATE` and `COMMIT` of `resolve_action`. -/
def resolveActionStatements (resolution : ActionResolution) (q : Request) (eventId : String) :
    EStateM StoreError Database ReconciliationResult := do
  match ← query fun db : Database => existing db.audit .action resolution.name q with
  | some recorded => return recorded
  | none => applyActionResolution resolution q eventId

/-- The statements of `resolve_outbound` from the read of the message to the audit insert. -/
def applyOutboundResolution (resolution : OutboundResolution) (q : OutboundRequest) :
    EStateM StoreError Database ReconciliationResult := do
  let row ← query fun db => requireUncertain (db.conversation.outbound.find? q.request.names)
    (·.status = .uncertain) (fun r => statusName r.status) "outbound message" q.request.effectId
  execute fun db => .ok (db.setOutbound (updateWhere
    (fun r => q.request.names r && r.status = .uncertain) (resolution.write q)
    db.conversation.outbound))
  execute fun db => (resolution.project db.conversation.history row q).map db.setHistory
  recordStatement .outbound resolution.name (statusName resolution.status) q.request
  return ⟨q.request.effectId, statusName resolution.status, true⟩

/-- The statements between `BEGIN IMMEDIATE` and `COMMIT` of `resolve_outbound`. -/
def resolveOutboundStatements (resolution : OutboundResolution) (q : OutboundRequest) :
    EStateM StoreError Database ReconciliationResult := do
  match ← query fun db : Database => existing db.audit .outbound resolution.name q.request with
  | some recorded => return recorded
  | none => applyOutboundResolution resolution q

/-- The request is checked before the transaction begins. -/
def reconcile (q : Request) (body : EStateM StoreError Database ReconciliationResult) :
    EStateM StoreError Database ReconciliationResult := do
  query fun _ => q.validate
  transaction body

section Statements

variable {db : Database} {q : Request} {body : EStateM StoreError Database ReconciliationResult}

/-- A checked request runs its transaction; a refused one runs nothing. -/
theorem reconcile_eq (hv : q.validate = .ok ()) : reconcile q body db = transaction body db := by
  simp [reconcile, query, hv]

theorem reconcile_refused {e : StoreError} (hv : q.validate = .error e) :
    reconcile q body db = .error e db := by
  simp [reconcile, query, hv]

theorem transaction_replay {effectType : EffectType} {resolution : String}
    {next : EStateM StoreError Database ReconciliationResult} {recorded : ReconciliationResult}
    (hx : existing db.audit effectType resolution q = .ok (some recorded)) :
    transaction (do
      match ← query fun db : Database => existing db.audit effectType resolution q with
      | some recorded => return recorded
      | none => next) db = .ok recorded db := by
  simp [transaction, query, hx]

theorem transaction_conflict {effectType : EffectType} {resolution : String}
    {next : EStateM StoreError Database ReconciliationResult} {e : StoreError}
    (hx : existing db.audit effectType resolution q = .error e) :
    transaction (do
      match ← query fun db : Database => existing db.audit effectType resolution q with
      | some recorded => return recorded
      | none => next) db = .error e db := by
  simp [transaction, query, hx]

theorem transaction_new {effectType : EffectType} {resolution : String}
    {next : EStateM StoreError Database ReconciliationResult}
    (hx : existing db.audit effectType resolution q = .ok none) :
    transaction (do
      match ← query fun db : Database => existing db.audit effectType resolution q with
      | some recorded => return recorded
      | none => next) db = transaction next db := by
  simp [transaction, query, hx]

/-- The statements do what the reconciliation of an action does as one function. -/
theorem reconcile_action (db : Database) (resolution : ActionResolution) (q : Request)
    (eventId : String) :
    reconcile q (resolveActionStatements resolution q eventId) db =
      settle db ((resolveAction db.actionTables resolution q eventId).map fun p =>
        (db.setActionTables p.1, p.2)) := by
  unfold resolveAction
  simp only [Database.actionTables]
  cases hv : q.validate with
  | error e =>
    rw [reconcile_refused hv]
    rfl
  | ok u =>
    rw [reconcile_eq hv]
    unfold resolveActionStatements
    cases hx : existing db.audit .action resolution.name q with
    | error e =>
      rw [transaction_conflict hx]
      rfl
    | ok recorded =>
      cases recorded with
      | some recorded =>
        rw [transaction_replay hx]
        rfl
      | none =>
        rw [transaction_new hx]
        simp only [transaction, applyActionResolution, bind_run, query, requireUncertain,
          Request.actionRef]
        cases getAction db.actions ⟨q.effectId, q.tenantId, q.sourceId⟩ with
        | none => simp [bind, Except.bind, Except.map, settle]
        | some row =>
          by_cases hu : row.status = .uncertain
          · simp only [bind, Except.bind, hu, execute, decide_true, if_true, ne_eq, not_true_eq_false,
              if_false]
            cases resolution.requeue db.events ⟨q.effectId, q.tenantId, q.sourceId⟩ q.requestKey
              eventId row.sourceEventId q.now with
            | error e => simp [Except.map, settle]
            | ok events =>
              simp only [Except.map, recordStatement, execute, Database.audit]
              cases record db.conversation.reconciliations .action resolution.name
                resolution.status.name q with
              | error e => simp [settle]
              | ok audit => simp [settle, Database.setAudit, Database.setActionTables]
          · simp [bind, Except.bind, Except.map, settle, hu]

/-- The statements do what the reconciliation of a message does as one function. -/
theorem reconcile_outbound (db : Database) (resolution : OutboundResolution) (q : OutboundRequest) :
    reconcile q.request (resolveOutboundStatements resolution q) db =
      settle db ((resolveOutbound db.conversation resolution q).map fun p =>
        (db.setConversation p.1, p.2)) := by
  unfold resolveOutbound
  cases hv : q.request.validate with
  | error e =>
    rw [reconcile_refused hv]
    rfl
  | ok u =>
    rw [reconcile_eq hv]
    unfold resolveOutboundStatements
    cases hx : existing db.audit .outbound resolution.name q.request with
    | error e =>
      rw [transaction_conflict hx]
      simp only [Database.audit] at hx
      rw [hx]
      rfl
    | ok recorded =>
      cases recorded with
      | some recorded =>
        rw [transaction_replay hx]
        simp only [Database.audit] at hx
        rw [hx]
        rfl
      | none =>
        rw [transaction_new hx]
        simp only [Database.audit] at hx
        rw [hx]
        simp only [transaction, applyOutboundResolution, bind_run, query, requireUncertain]
        cases db.conversation.outbound.find? q.request.names with
        | none => simp [bind, Except.bind, Except.map, settle]
        | some row =>
          by_cases hu : row.status = .uncertain
          · simp only [bind, Except.bind, hu, execute, decide_true, if_true, ne_eq, not_true_eq_false,
              if_false, Database.setOutbound]
            cases resolution.project db.conversation.history row q with
            | error e => simp [Except.map, settle]
            | ok history =>
              simp only [Except.map, recordStatement, execute, Database.audit, Database.setHistory]
              cases record db.conversation.reconciliations .outbound resolution.name
                (statusName resolution.status) q.request with
              | error e => simp [settle]
              | ok audit => simp [settle, Database.setAudit, Database.setConversation]
          · simp [bind, Except.bind, Except.map, settle, hu]

end Statements

end Soveren.Reconciliation
