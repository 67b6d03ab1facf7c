import Soveren.Relational.Table
import Soveren.Storage.Idempotency

/-! The `conversation_messages` table: one row per direction and source message. -/
namespace Soveren.History
open Soveren.Relational

inductive MessageDirection where
  | inbound | outbound
  deriving DecidableEq, Repr

structure ConversationMessageRow where
  id : String
  tenantId : String
  sourceId : String
  channel : String
  direction : MessageDirection
  authorId : Option String
  authorUsername : Option String
  authorDisplayName : Option String
  text : String
  sourceMessageId : String
  sourceEventId : Option String
  metadata : Json
  occurredAt : Int
  createdAt : Int
  deriving DecidableEq

/-- The arguments of `recordMessage`; `historyHex` is the drawn part of the new row's id. -/
structure RecordArgs where
  historyHex : String
  tenantId : String
  sourceId : String
  channel : String
  direction : MessageDirection
  text : String
  sourceMessageId : String
  occurredAt : Int
  authorId : Option String := none
  authorUsername : Option String := none
  authorDisplayName : Option String := none
  sourceEventId : Option String := none
  metadata : Json := .obj []
  now : Int

def validateScope (tenantId sourceId : String) : Except StoreError Unit :=
  if Text.blank tenantId || Text.blank sourceId then
    .error (.valueError "tenant_id and source_id must be non-empty")
  else .ok ()

def RecordArgs.validate (a : RecordArgs) : Except StoreError Unit := do
  validateScope a.tenantId a.sourceId
  if Text.blank a.channel || Text.blank a.sourceMessageId then
    .error (.valueError "channel and source_message_id must be non-empty")
  else if a.occurredAt < 0 then .error (.valueError "occurred_at must be a non-negative integer")
  else .ok ()

def normalizeAuthorDisplayName (value : Option String) : Option String :=
  value.bind fun v => Text.orNone (Text.strip v)

def normalizeAuthorUsername (value : Option String) : Option String :=
  value.bind fun v => Text.orNone (Text.strip (Text.lstrip '@' (Text.strip v)))

/-- The row that `recordMessage` inserts. -/
def RecordArgs.row (a : RecordArgs) : ConversationMessageRow where
  id := "history_" ++ a.historyHex
  tenantId := a.tenantId
  sourceId := a.sourceId
  channel := a.channel
  direction := a.direction
  authorId := a.authorId
  authorUsername := normalizeAuthorUsername a.authorUsername
  authorDisplayName := normalizeAuthorDisplayName a.authorDisplayName
  text := a.text
  sourceMessageId := a.sourceMessageId
  sourceEventId := a.sourceEventId
  metadata := a.metadata
  occurredAt := a.occurredAt
  createdAt := a.now

/-- The unique key of a row. -/
def ConversationMessageRow.key (r : ConversationMessageRow) :
    String × String × MessageDirection × String :=
  (r.tenantId, r.sourceId, r.direction, r.sourceMessageId)

def RecordArgs.replays (a : RecordArgs) (existing : ConversationMessageRow) : Bool :=
  existing.channel = a.row.channel && existing.authorId = a.row.authorId &&
    existing.authorUsername = a.row.authorUsername &&
    existing.authorDisplayName = a.row.authorDisplayName && existing.text = a.row.text &&
    existing.sourceEventId = a.row.sourceEventId &&
    storedJsonMatches existing.metadata a.row.metadata && existing.occurredAt = a.row.occurredAt

def recordMessage (t : List ConversationMessageRow) (a : RecordArgs) :
    Except StoreError (List ConversationMessageRow × String × Bool) := do
  a.validate
  if t.any (fun r => r.id = a.row.id || r.key = a.row.key) then
    match t.find? (fun r => r.key = a.row.key) with
    | none => .error .integrityError
    | some existing => do
      requireIdempotentReplay (a.replays existing) "conversation message" a.sourceMessageId existing.id
      .ok (t, existing.id, false)
  else .ok (t ++ [a.row], a.row.id, true)

/-- A message is recorded once: it is appended under an unused key, or was there already. -/
theorem recordMessage_ok {t t' : List ConversationMessageRow} {a : RecordArgs} {id : String}
    {created : Bool} (h : recordMessage t a = .ok (t', id, created)) :
    (t' = t ++ [a.row] ∧ a.row.id ∉ t.map (·.id) ∧ a.row.key ∉ t.map (·.key)) ∨
      (t' = t ∧ ∃ r ∈ t, r.key = a.row.key ∧ a.replays r = true) := by
  unfold recordMessage at h
  obtain ⟨_, -, h⟩ := bind_eq_ok h
  split at h
  · split at h
    · cases h
    · rename_i r hr
      obtain ⟨_, hreplay, h⟩ := bind_eq_ok h
      cases h
      refine .inr ⟨rfl, r, List.mem_of_find?_eq_some hr, ?_, requireIdempotentReplay_ok hreplay⟩
      simpa using List.find?_some hr
  · rename_i hnew
    cases h
    have hno : ∀ r ∈ t, r.id ≠ a.row.id ∧ r.key ≠ a.row.key := by
      intro r hr
      by_contra hc
      refine hnew (List.any_eq_true.mpr ⟨r, hr, ?_⟩)
      simpa [← not_and_or, imp_iff_not_or] using hc
    refine .inl ⟨rfl, fun hm => ?_, fun hm => ?_⟩
    · obtain ⟨r, hr, he⟩ := List.mem_map.mp hm
      exact (hno r hr).1 he
    · obtain ⟨r, hr, he⟩ := List.mem_map.mp hm
      exact (hno r hr).2 he

end Soveren.History
