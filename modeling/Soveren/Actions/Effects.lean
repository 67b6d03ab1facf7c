import Soveren.Actions.Store
import Soveren.Queue.Durable
import Soveren.Reconciliation.Audit

/-! Transactions over the `actions`, `event_queue` and `effect_reconciliations` tables. A
transaction that raises is rolled back, so an error carries no tables. -/
namespace Soveren.Actions
open Soveren.Relational Soveren.Queue Soveren.Reconciliation

structure Tables where
  actions : List ActionRow := []
  events : List EventRow := []
  reconciliations : List ReconciliationRow := []
  deriving DecidableEq

/-- The payload of an `ExecuteAction` event. -/
def executionPayload (k : ActionRef) : Json :=
  .obj [("action_id", .str k.id), ("source_id", .str k.sourceId)]

/-- The `ExecuteAction` event of an action. -/
def executionEvent (eventId : String) (k : ActionRef) (recipient idempotencyKey : String)
    (sourceEventId : Option String) (now : Int) : EnqueueArgs where
  eventId := eventId
  tenantId := k.tenantId
  recipient := recipient
  messageType := "ExecuteAction"
  payload := executionPayload k
  idempotencyKey := idempotencyKey
  correlationId := some k.id
  causationId := sourceEventId
  now := now

def executionKey (actionId : String) : String := "execute-action:" ++ actionId

structure ActionDispatchResult where
  actionId : String
  created : Bool
  status : Option ActionStatus
  deriving DecidableEq, Repr

def insertActionAndExecutionEvent (db : Tables) (a : InsertActionArgs) (enqueueWhenApproved : Bool)
    (eventId : String) (eventNow : Int) : Except StoreError (Tables × ActionDispatchResult) := do
  let (actions, actionId, created) ← insertAction db.actions a
  let k : ActionRef := ⟨actionId, a.tenantId, a.sourceId⟩
  let status := (getAction actions k).map (·.status)
  let result : ActionDispatchResult := ⟨actionId, created, status⟩
  if enqueueWhenApproved && status = some .approved then
    let (events, _) ← enqueue db.events
      (executionEvent eventId k "actions" (executionKey actionId) a.sourceEventId eventNow)
    .ok ({ db with actions := actions, events := events }, result)
  else .ok ({ db with actions := actions }, result)

structure ApprovalResult where
  actionId : String
  status : ActionStatus
  transitioned : Bool
  executionEventId : Option String
  executionEventCreated : Bool
  deriving DecidableEq, Repr

/-- Approve an action and durably enqueue execution in one transaction. -/
def approveActionAndEnqueue (db : Tables) (k : ActionRef) (approverId recipient eventId : String)
    (now eventNow : Int) : Except StoreError (Tables × ApprovalResult) :=
  match getAction db.actions k with
  | none => .error (.keyError ("action not found: " ++ k.id))
  | some _ =>
    let (actions, transitioned) := approveAction db.actions k approverId now
    match getAction actions k with
    | none => .error (.runtimeError ("action disappeared during approval: " ++ k.id))
    | some action =>
      if action.status = .approved then do
        let (events, created) ← enqueue db.events
          (executionEvent eventId k recipient (executionKey k.id) action.sourceEventId eventNow)
        let db' := { db with actions := actions, events := events }
        match created with
        | some id => .ok (db', ⟨k.id, action.status, transitioned, some id, true⟩)
        | none => match byKey events k.tenantId (executionKey k.id) with
          | none => .error (.runtimeError "approved action has no durable execution event")
          | some existing => .ok (db', ⟨k.id, action.status, transitioned, some existing.id, false⟩)
      else .ok ({ db with actions := actions }, ⟨k.id, action.status, transitioned, none, false⟩)

inductive ActionResolution where
  | executed | failed | notExecuted
  deriving DecidableEq, Repr

def ActionResolution.name : ActionResolution → String
  | .executed => "executed"
  | .failed => "failed"
  | .notExecuted => "not_executed"

def ActionStatus.name : ActionStatus → String
  | .pending => "pending"
  | .approved => "approved"
  | .denied => "denied"
  | .queued => "queued"
  | .executing => "executing"
  | .executed => "executed"
  | .failed => "failed"
  | .cancelled => "cancelled"
  | .uncertain => "uncertain"

/-- The columns a resolution writes. -/
def ActionResolution.write (resolution : ActionResolution) (q : Request) (r : ActionRow) : ActionRow :=
  match resolution with
  | .executed => { r with status := .executed, executedAt := some q.now,
                          result := some q.evidenceJson, lastError := none, updatedAt := q.now }
  | .failed => { r with status := .failed, result := some q.evidenceJson,
                        lastError := some (errorText q resolution.name), updatedAt := q.now }
  | .notExecuted => { r with status := .approved, result := none, lastError := none,
                             updatedAt := q.now }

def ActionResolution.status : ActionResolution → ActionStatus
  | .executed => .executed
  | .failed => .failed
  | .notExecuted => .approved

def reconcileKey (actionId requestKey : String) : String :=
  "reconcile-action:" ++ actionId ++ ":" ++ requestKey

/-- The new execution event of an action that was found not executed. -/
def ActionResolution.requeue (resolution : ActionResolution) (t : List EventRow) (k : ActionRef)
    (requestKey eventId : String) (sourceEventId : Option String) (now : Int) :
    Except StoreError (List EventRow) :=
  match resolution with
  | .executed | .failed => .ok t
  | .notExecuted => do
    let (events, created) ← enqueue t
      (executionEvent eventId k "actions" (reconcileKey k.id requestKey) sourceEventId now)
    match created with
    | none => .error (.runtimeError
        "reconciliation execution event already exists without an audit record")
    | some _ => .ok events

def resolveAction (db : Tables) (resolution : ActionResolution) (q : Request) (eventId : String) :
    Except StoreError (Tables × ReconciliationResult) := do
  q.validate
  match ← existing db.reconciliations .action resolution.name q with
  | some recorded => .ok (db, recorded)
  | none =>
    let k : ActionRef := ⟨q.effectId, q.tenantId, q.sourceId⟩
    match getAction db.actions k with
    | none => .error (.keyError ("action not found: " ++ q.effectId))
    | some row =>
      if row.status ≠ .uncertain then
        .error (.valueError
          ("action " ++ q.effectId ++ " is not uncertain: " ++ row.status.name))
      else do
        let (actions, _) := transition [.uncertain] (resolution.write q) db.actions k
        let events ← resolution.requeue db.events k q.requestKey eventId row.sourceEventId q.now
        let audit ← record db.reconciliations .action resolution.name resolution.status.name q
        .ok (⟨actions, events, audit⟩, ⟨q.effectId, resolution.status.name, true⟩)

theorem insertAction_ok {t t' : List ActionRow} {a : InsertActionArgs} {id : String} {created : Bool}
    (h : insertAction t a = .ok (t', id, created)) :
    Text.blank a.tenantId = false ∧ Text.blank a.sourceId = false ∧
    ((t' = t ++ [a.row] ∧ id = a.actionId ∧ a.actionId ∉ t.map (·.id)) ∨ t' = t) := by
  unfold insertAction at h
  obtain ⟨u, hv, h⟩ := bind_eq_ok h
  have hblank : Text.blank a.tenantId = false ∧ Text.blank a.sourceId = false := by
    by_contra hc
    simp only [validateConversation] at hv
    split at hv
    · cases hv
    · simp_all
  refine ⟨hblank.1, hblank.2, ?_⟩
  split at h
  · obtain ⟨_, -, h⟩ := bind_eq_ok h
    cases h
    exact .inr rfl
  · split at h
    · cases h
    · rename_i hnew
      cases h
      refine .inl ⟨rfl, rfl, fun hmem => hnew ?_⟩
      obtain ⟨r, hr, he⟩ := List.mem_map.mp hmem
      exact List.any_eq_true.mpr ⟨r, hr, by simpa using he⟩

/-- A dispatched action is appended or replayed; its event follows when it is approved. -/
theorem insertActionAndExecutionEvent_ok {db db' : Tables} {a : InsertActionArgs} {w : Bool}
    {eventId : String} {eventNow : Int} {res : ActionDispatchResult}
    (h : insertActionAndExecutionEvent db a w eventId eventNow = .ok (db', res)) :
    ∃ id created, insertAction db.actions a = .ok (db'.actions, id, created) ∧
      db'.reconciliations = db.reconciliations ∧
      (db'.events = db.events ∧ (w = true →
          ∀ r, getAction db'.actions ⟨id, a.tenantId, a.sourceId⟩ = some r → r.status ≠ .approved) ∨
        (∃ r, getAction db'.actions ⟨id, a.tenantId, a.sourceId⟩ = some r ∧ r.status = .approved) ∧
        ∃ res', enqueue db.events (executionEvent eventId ⟨id, a.tenantId, a.sourceId⟩ "actions"
          (executionKey id) a.sourceEventId eventNow) = .ok (db'.events, res')) := by
  unfold insertActionAndExecutionEvent at h
  obtain ⟨⟨actions, id, created⟩, hins, h⟩ := bind_eq_ok h
  refine ⟨id, created, ?_⟩
  dsimp only at h
  split at h
  · rename_i hw
    obtain ⟨⟨events, res'⟩, henq, h⟩ := bind_eq_ok h
    cases h
    simp only [Bool.and_eq_true, decide_eq_true_eq, Option.map_eq_some_iff] at hw
    exact ⟨hins, rfl, .inr ⟨hw.2, res', henq⟩⟩
  · rename_i hw
    cases h
    refine ⟨hins, rfl, .inl ⟨rfl, fun hwt r hr hs => hw ?_⟩⟩
    simp [hwt, hr, hs]

/-- An approval writes the action row; an approved action's event is enqueued with it. -/
theorem approveActionAndEnqueue_ok {db db' : Tables} {k : ActionRef}
    {approverId recipient eventId : String} {now eventNow : Int} {res : ApprovalResult}
    (h : approveActionAndEnqueue db k approverId recipient eventId now eventNow = .ok (db', res)) :
    db'.actions = (approveAction db.actions k approverId now).1 ∧
      db'.reconciliations = db.reconciliations ∧
      (db'.events = db.events ∧
          (∀ r, getAction db'.actions k = some r → r.status ≠ .approved) ∨
        (∃ r, getAction db'.actions k = some r ∧ r.status = .approved) ∧
        ∃ source res', enqueue db.events (executionEvent eventId k recipient (executionKey k.id)
          source eventNow) = .ok (db'.events, res')) := by
  unfold approveActionAndEnqueue at h
  split at h
  · cases h
  · dsimp only at h
    split at h
    · cases h
    · rename_i action haction
      split at h
      · rename_i hs
        obtain ⟨⟨events, created⟩, henq, h⟩ := bind_eq_ok h
        cases created with
        | some id =>
          cases h
          exact ⟨rfl, rfl, .inr ⟨⟨action, haction, hs⟩, _, _, henq⟩⟩
        | none =>
          dsimp only at h
          split at h
          · cases h
          · cases h
            exact ⟨rfl, rfl, .inr ⟨⟨action, haction, hs⟩, _, _, henq⟩⟩
      · rename_i hs
        cases h
        refine ⟨rfl, rfl, .inl ⟨rfl, fun r hr => ?_⟩⟩
        rw [haction] at hr
        exact Option.some.inj hr ▸ hs

theorem ActionResolution.write_ref (resolution : ActionResolution) (q : Request) (r : ActionRow) :
    (resolution.write q r).ref = r.ref := by
  cases resolution <;> rfl

theorem ActionResolution.write_status (resolution : ActionResolution) (q : Request) (r : ActionRow) :
    (resolution.write q r).status = resolution.status := by
  cases resolution <;> rfl

/-- A reconciliation is a replay, or settles an uncertain action, or makes it executable again
together with a fresh event. -/
theorem resolveAction_ok {db db' : Tables} {resolution : ActionResolution} {q : Request}
    {eventId : String} {res : ReconciliationResult}
    (h : resolveAction db resolution q eventId = .ok (db', res)) :
    db' = db ∨
    (record db.reconciliations .action resolution.name resolution.status.name q =
        .ok db'.reconciliations ∧
      db'.actions = (transition [.uncertain] (resolution.write q) db.actions
        ⟨q.effectId, q.tenantId, q.sourceId⟩).1 ∧
      (db'.events = db.events ∧ resolution ≠ .notExecuted ∨
        ∃ source id, enqueue db.events (executionEvent eventId
          ⟨q.effectId, q.tenantId, q.sourceId⟩ "actions" (reconcileKey q.effectId q.requestKey)
          source q.now) = .ok (db'.events, some id))) := by
  unfold resolveAction at h
  obtain ⟨_, -, h⟩ := bind_eq_ok h
  obtain ⟨replay, -, h⟩ := bind_eq_ok h
  cases replay with
  | some recorded =>
    cases h
    exact .inl rfl
  | none =>
    dsimp only at h
    split at h
    · cases h
    · split at h
      · cases h
      · right
        obtain ⟨events, hev, h⟩ := bind_eq_ok h
        obtain ⟨audit, hrec, h⟩ := bind_eq_ok h
        cases h
        refine ⟨hrec, rfl, ?_⟩
        cases resolution with
        | executed => exact .inl ⟨(Except.ok.inj hev).symm, by simp⟩
        | failed => exact .inl ⟨(Except.ok.inj hev).symm, by simp⟩
        | notExecuted =>
          obtain ⟨⟨events', created⟩, henq, hev⟩ := bind_eq_ok hev
          cases created with
          | none => cases hev
          | some id =>
            cases hev
            exact .inr ⟨_, _, henq⟩

end Soveren.Actions
