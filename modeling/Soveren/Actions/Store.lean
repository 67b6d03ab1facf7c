import Soveren.Relational.Table
import Soveren.Storage.Idempotency

/-! The `actions` table. The guarded transitions are one statement with a set of admitted
statuses; each keeps its own name and values. -/
namespace Soveren.Actions
open Soveren.Relational

inductive ActionStatus where
  | pending | approved | denied | queued | executing | executed | failed | cancelled | uncertain
  deriving DecidableEq, Repr

structure ActionRow where
  id : String
  tenantId : String
  sourceId : String
  runId : Option String
  kind : String
  payload : Json
  status : ActionStatus
  approvalPolicy : String
  sourceEventId : Option String
  idempotencyKey : Option String
  approvedBy : Option String
  approvedAt : Option Int
  executedAt : Option Int
  result : Option Json
  lastError : Option String
  createdAt : Int
  updatedAt : Int
  deriving DecidableEq

/-- The columns that address one action inside its conversation. -/
structure ActionRef where
  id : String
  tenantId : String
  sourceId : String
  deriving DecidableEq

/-- The condition `id = ? AND tenant_id = ? AND source_id = ?`. -/
def ActionRef.is (k : ActionRef) (r : ActionRow) : Bool :=
  r.id = k.id && r.tenantId = k.tenantId && r.sourceId = k.sourceId

/-- The arguments of `insertAction`; `actionHex` is the drawn part of the new action's id. -/
structure InsertActionArgs where
  actionHex : String
  tenantId : String
  sourceId : String
  kind : String
  payload : Json
  runId : Option String := none
  approvalPolicy : String := "manual"
  sourceEventId : Option String := none
  idempotencyKey : Option String := none
  now : Int

def InsertActionArgs.actionId (a : InsertActionArgs) : String := "act_" ++ a.actionHex

def validateConversation (tenantId sourceId : String) : Except StoreError Unit :=
  if Text.blank tenantId || Text.blank sourceId then
    .error (.valueError "tenant_id and source_id must be non-empty")
  else .ok ()

def requireActionReplay (row : ActionRow) (key : String) (a : InsertActionArgs) :
    Except StoreError Unit :=
  requireIdempotentReplay (row.kind = a.kind && storedJsonMatches row.payload a.payload &&
    row.runId = a.runId && row.approvalPolicy = a.approvalPolicy &&
    row.sourceEventId = a.sourceEventId) "action" key row.id

/-- The row that `insertAction` inserts. -/
def InsertActionArgs.row (a : InsertActionArgs) : ActionRow where
  id := a.actionId
  tenantId := a.tenantId
  sourceId := a.sourceId
  runId := a.runId
  kind := a.kind
  payload := a.payload
  status := if a.approvalPolicy = "auto" then .approved else .pending
  approvalPolicy := a.approvalPolicy
  sourceEventId := a.sourceEventId
  idempotencyKey := a.idempotencyKey
  approvedBy := none
  approvedAt := none
  executedAt := none
  result := none
  lastError := none
  createdAt := a.now
  updatedAt := a.now

def byIdempotencyKey (t : List ActionRow) (a : InsertActionArgs) : Option (String × ActionRow) :=
  a.idempotencyKey.bind fun key =>
    (t.find? fun r => r.tenantId = a.tenantId && r.sourceId = a.sourceId &&
      r.idempotencyKey = some key).map (key, ·)

/-- Create an action. Return its id and whether it was created. -/
def insertAction (t : List ActionRow) (a : InsertActionArgs) :
    Except StoreError (List ActionRow × String × Bool) := do
  validateConversation a.tenantId a.sourceId
  match byIdempotencyKey t a with
  | some (key, existing) => do
    requireActionReplay existing key a
    .ok (t, existing.id, false)
  | none =>
    -- No row has the key, so a failed insert can only be a duplicate id.
    if t.any (·.id = a.actionId) then .error .integrityError
    else .ok (t ++ [a.row], a.actionId, true)

def getAction (t : List ActionRow) (k : ActionRef) : Option ActionRow := t.find? k.is

/-- `UPDATE actions SET f WHERE <k> AND status IN admitted`, with whether a row changed. -/
def transition (admitted : List ActionStatus) (f : ActionRow → ActionRow) (t : List ActionRow)
    (k : ActionRef) : List ActionRow × Bool :=
  let p := fun r : ActionRow => k.is r && admitted.contains r.status
  (updateWhere p f t, 0 < rowcount p t)

def approveAction (t : List ActionRow) (k : ActionRef) (approverId : String) (now : Int) :
    List ActionRow × Bool :=
  transition [.pending]
    (fun r => { r with status := .approved, approvedBy := some approverId,
                       approvedAt := some now, updatedAt := now }) t k

def denyAction (t : List ActionRow) (k : ActionRef) (approverId : String) (now : Int) :
    List ActionRow × Bool :=
  transition [.pending]
    (fun r => { r with status := .denied, approvedBy := some approverId,
                       approvedAt := some now, updatedAt := now }) t k

def markExecuting (t : List ActionRow) (k : ActionRef) (now : Int) : List ActionRow × Bool :=
  transition [.approved, .queued] (fun r => { r with status := .executing, updatedAt := now }) t k

def markQueued (t : List ActionRow) (k : ActionRef) (result : Json) (now : Int) :
    List ActionRow × Bool :=
  transition [.executing]
    (fun r => { r with status := .queued, result := some result, lastError := none,
                       updatedAt := now }) t k

def markExecuted (t : List ActionRow) (k : ActionRef) (result : Json) (now : Int) :
    List ActionRow × Bool :=
  transition [.executing, .queued]
    (fun r => { r with status := .executed, executedAt := some now, result := some result,
                       updatedAt := now }) t k

def markFailed (t : List ActionRow) (k : ActionRef) (error : String) (now : Int) :
    List ActionRow × Bool :=
  transition [.approved, .executing, .queued]
    (fun r => { r with status := .failed, lastError := some (Text.clip 500 error),
                       result := some (.obj [("error", .str error)]), updatedAt := now }) t k

def markRetryable (t : List ActionRow) (k : ActionRef) (error : String) (now : Int) :
    List ActionRow × Bool :=
  transition [.executing]
    (fun r => { r with status := .queued, lastError := some (Text.clip 500 error),
                       updatedAt := now }) t k

def markUncertain (t : List ActionRow) (k : ActionRef) (error : String) (now : Int) :
    List ActionRow × Bool :=
  transition [.executing]
    (fun r => { r with
      status := .uncertain
      lastError := some (Text.clip 500 error)
      result := some (.obj [("error", .str error), ("execution", .str "uncertain")])
      updatedAt := now }) t k

def ActionRow.ref (r : ActionRow) : ActionRef := ⟨r.id, r.tenantId, r.sourceId⟩

theorem ActionRef.is_iff {k : ActionRef} {r : ActionRow} : k.is r = true ↔ r.ref = k := by
  cases k
  simp [ActionRef.is, ActionRow.ref, and_assoc]

theorem getAction_ref {t : List ActionRow} {k : ActionRef} {r : ActionRow}
    (h : getAction t k = some r) : r.ref = k :=
  ActionRef.is_iff.mp (List.find?_some h)

theorem mem_of_getAction {t : List ActionRow} {k : ActionRef} {r : ActionRow}
    (h : getAction t k = some r) : r ∈ t := List.mem_of_find?_eq_some h

/-- With distinct ids a row is found under its own reference. -/
theorem getAction_of_mem {t : List ActionRow} (hid : (t.map (·.id)).Nodup) {r : ActionRow}
    (hr : r ∈ t) : getAction t r.ref = some r := by
  cases h : getAction t r.ref with
  | none =>
    have := List.find?_eq_none.mp h r hr
    exact absurd (ActionRef.is_iff.mpr rfl) this
  | some s =>
    have hs : s.id = r.id := congrArg ActionRef.id (getAction_ref h)
    rw [eq_of_key hid (mem_of_getAction h) hr hs]

theorem transition_ids {admitted : List ActionStatus} {f : ActionRow → ActionRow}
    (hf : ∀ r, (f r).ref = r.ref) (t : List ActionRow) (k : ActionRef) :
    (transition admitted f t k).1.map (·.id) = t.map (·.id) :=
  map_updateWhere t fun r _ => congrArg ActionRef.id (hf r)

/-- A transition rewrites the addressed row when its status is admitted, and no other. -/
theorem getAction_transition {admitted : List ActionStatus} {f : ActionRow → ActionRow}
    (hf : ∀ r, (f r).ref = r.ref) (t : List ActionRow) (k k' : ActionRef) :
    getAction (transition admitted f t k).1 k' =
      (getAction t k').map fun r => if k' = k ∧ r.status ∈ admitted then f r else r := by
  simp only [getAction, transition, updateWhere, List.find?_map]
  have hp : (k'.is ∘ fun r => if k.is r && admitted.contains r.status then f r else r) = k'.is := by
    funext r
    by_cases h : (k.is r && admitted.contains r.status) = true
    · simp only [Function.comp, h, if_true]
      exact Bool.eq_iff_iff.mpr (by rw [ActionRef.is_iff, ActionRef.is_iff, hf])
    · simp only [Function.comp_apply, if_neg h]
  rw [hp]
  cases h : t.find? k'.is with
  | none => rfl
  | some r =>
    have hr : r.ref = k' := ActionRef.is_iff.mp (List.find?_some h)
    have hk : k.is r = true ↔ k' = k := by rw [ActionRef.is_iff, hr]
    simp only [Option.map_some, Bool.and_eq_true, hk, List.contains_iff_mem]

theorem transition_snd {admitted : List ActionStatus} {f : ActionRow → ActionRow}
    {t : List ActionRow} (hid : (t.map (·.id)).Nodup) (k : ActionRef) :
    (transition admitted f t k).2 = true ↔ ∃ r, getAction t k = some r ∧ r.status ∈ admitted := by
  simp only [transition, rowcount, decide_eq_true_eq, List.countP_pos_iff, Bool.and_eq_true,
    ActionRef.is_iff, List.contains_iff_mem]
  constructor
  · rintro ⟨r, hr, rfl, hs⟩
    exact ⟨r, getAction_of_mem hid hr, hs⟩
  · rintro ⟨r, hr, hs⟩
    exact ⟨r, mem_of_getAction hr, getAction_ref hr, hs⟩

/-- A refused transition changes nothing. -/
theorem transition_eq_self {admitted : List ActionStatus} {f : ActionRow → ActionRow}
    {t : List ActionRow} {k : ActionRef} (h : (transition admitted f t k).2 = false) :
    (transition admitted f t k).1 = t := by
  refine updateWhere_eq_self_of_rowcount ?_
  simpa [transition] using h

theorem approveAction_ids (t : List ActionRow) (k : ActionRef) (approverId : String) (now : Int) :
    (approveAction t k approverId now).1.map (·.id) = t.map (·.id) :=
  transition_ids (by exact fun _ => rfl) t k

theorem denyAction_ids (t : List ActionRow) (k : ActionRef) (approverId : String) (now : Int) :
    (denyAction t k approverId now).1.map (·.id) = t.map (·.id) :=
  transition_ids (by exact fun _ => rfl) t k

/-- An inserted action has an id that no row has. -/
theorem nodup_append_row {t : List ActionRow} (hid : (t.map (·.id)).Nodup) {row : ActionRow}
    (hn : row.id ∉ t.map (·.id)) : ((t ++ [row]).map (·.id)).Nodup := by
  rw [List.map_append, List.map_singleton]
  refine List.nodup_append.mpr ⟨hid, List.nodup_singleton _, ?_⟩
  rintro x hx y hy rfl
  exact hn (List.mem_singleton.mp hy ▸ hx)

theorem getAction_append {t : List ActionRow} {row r : ActionRow} {k : ActionRef}
    (h : getAction (t ++ [row]) k = some r) :
    getAction t k = some r ∨ (getAction t k = none ∧ r = row ∧ row.ref = k) := by
  unfold getAction at h ⊢
  rw [List.find?_append] at h
  cases hk : t.find? k.is with
  | some x => simpa [hk] using h
  | none =>
    rw [hk, Option.none_or, List.find?_singleton] at h
    split at h
    · rename_i hrow
      exact .inr ⟨rfl, (Option.some.inj h).symm, ActionRef.is_iff.mp hrow⟩
    · cases h

theorem getAction_append_of_some {t : List ActionRow} {r : ActionRow} {k : ActionRef}
    (h : getAction t k = some r) (row : ActionRow) : getAction (t ++ [row]) k = some r := by
  unfold getAction at h ⊢
  rw [List.find?_append, h, Option.some_or]

end Soveren.Actions
