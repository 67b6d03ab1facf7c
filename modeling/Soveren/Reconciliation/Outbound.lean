import Soveren.Outbound.Store

/-! The reconciliation of uncertain outbound messages. -/
namespace Soveren.Reconciliation
open Soveren.Relational Soveren.History Soveren.Conversation Soveren.Outbound

inductive OutboundResolution where
  | sent | failed | notSent
  deriving DecidableEq, Repr

def OutboundResolution.name : OutboundResolution → String
  | .sent => "sent"
  | .failed => "failed"
  | .notSent => "not_sent"

/-- The status that a resolution leaves. -/
def OutboundResolution.status : OutboundResolution → OutboundStatus
  | .sent => .sent
  | .failed => .deadLetter
  | .notSent => .queued

def statusName : OutboundStatus → String
  | .queued => "queued"
  | .leased => "leased"
  | .sending => "sending"
  | .sent => "sent"
  | .retrying => "retrying"
  | .uncertain => "uncertain"
  | .deadLetter => "dead_letter"
  | .cancelled => "cancelled"

/-- A reconciliation request for an outbound message and the times it gives. -/
structure OutboundRequest where
  request : Request
  effectAt : Option Int := none
  retryAt : Option Int := none
  historyHex : String

/-- The condition `id = ? AND tenant_id = ? AND source_id = ?`. -/
def Request.names (q : Request) (r : OutboundRow) : Bool :=
  r.id = q.effectId && r.tenantId = q.tenantId && r.sourceId = q.sourceId

/-- What a resolution writes to the message's row. -/
def OutboundResolution.write (resolution : OutboundResolution) (q : OutboundRequest)
    (r : OutboundRow) : OutboundRow :=
  let row := unlease r resolution.status q.request.now
  match resolution with
  | .sent => { row with
      sentAt := some (q.effectAt.getD q.request.now)
      result := some q.request.evidenceJson
      lastError := none }
  | .failed => { row with
      sentAt := none
      result := some q.request.evidenceJson
      lastError := some (errorText q.request resolution.name) }
  | .notSent => { row with
      sentAt := none
      result := none
      lastError := none
      runAfter := q.retryAt.getD q.request.now }

/-- A message resolved as sent joins the history. -/
def OutboundResolution.project (resolution : OutboundResolution) (t : List ConversationMessageRow)
    (row : OutboundRow) (q : OutboundRequest) : Except StoreError (List ConversationMessageRow) :=
  match resolution with
  | .sent => (recordMessage t (sentRecord row q.historyHex (q.effectAt.getD q.request.now))).map (·.1)
  | .failed | .notSent => .ok t

def resolveOutbound (db : Tables) (resolution : OutboundResolution) (q : OutboundRequest) :
    Except StoreError (Tables × ReconciliationResult) := do
  q.request.validate
  match ← existing db.reconciliations .outbound resolution.name q.request with
  | some recorded => .ok (db, recorded)
  | none =>
    match db.outbound.find? q.request.names with
    | none => .error (.keyError ("outbound message not found: " ++ q.request.effectId))
    | some row =>
      if row.status ≠ .uncertain then
        .error (.valueError ("outbound message " ++ q.request.effectId ++ " is not uncertain: " ++
          statusName row.status))
      else do
        let outbound := updateWhere (fun r => q.request.names r && r.status = .uncertain)
          (resolution.write q) db.outbound
        let history ← resolution.project db.history row q
        let audit ← record db.reconciliations .outbound resolution.name
          (statusName resolution.status) q.request
        .ok ({ db with outbound := outbound, history := history, reconciliations := audit },
          ⟨q.request.effectId, statusName resolution.status, true⟩)

end Soveren.Reconciliation
