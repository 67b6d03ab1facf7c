import Soveren.Outbound.Store

/-! Durable delivery of long Telegram texts: each part is an outbound message of its own, and
the parts of one text form one ordering. -/
namespace Soveren.Outbound
open Soveren.Conversation

def telegramTextLimit : ℕ := 4096

def partMetadataKey : String := "_soveren_telegram_part"

/-- `text[offset : offset + limit] for offset in range(0, len(text), limit)`. -/
def splitParts (limit : ℕ) (text : String) : List String :=
  (List.range ((Text.len text + limit - 1) / limit)).map fun i =>
    String.ofList ((text.toList.drop (i * limit)).take limit)

def splitTelegramText (text : String) (limit : ℕ) : Except StoreError (List String) :=
  if text = "" then .error (.valueError "text must be non-empty")
  else if limit < 1 then .error (.valueError "limit must be positive")
  else .ok (splitParts limit text)

/-- A text to deliver; `messageHex` draws the id of each part. -/
structure TelegramText where
  messageHex : ℕ → String
  tenantId : String
  sourceId : String
  destinationId : String
  text : String
  idempotencyKey : String
  payload : Json := .obj []
  priority : Int := 100
  runAfter : Option Int := none
  maxAttempts : ℕ := 5
  correlationId : Option String := none
  now : Int

/-- The request of part `index` of `count`. -/
def TelegramText.request (a : TelegramText) (count index : ℕ) (part : String) : EnqueueArgs where
  messageHex := a.messageHex index
  tenantId := a.tenantId
  sourceId := a.sourceId
  channel := "telegram"
  destinationId := a.destinationId
  text := part
  idempotencyKey := a.idempotencyKey ++ ":part:" ++ toString index
  payload := a.payload.set partMetadataKey (.obj [("count", .int count), ("index", .int index)])
  priority := a.priority
  runAfter := a.runAfter
  maxAttempts := a.maxAttempts
  correlationId := a.correlationId
  orderingKey := if 1 < count then some a.idempotencyKey else none
  orderingPosition := if 1 < count then some index else none
  now := a.now

def TelegramText.requests (a : TelegramText) (parts : List String) : List EnqueueArgs :=
  (parts.zipIdx 1).map fun (part, index) => a.request parts.length index part

/-- The requests of `enqueue_telegram_text`, which it enqueues in one transaction. -/
def telegramRequests (a : TelegramText) : Except StoreError (List EnqueueArgs) :=
  if Text.blank a.idempotencyKey then .error (.valueError "idempotency_key must be non-empty")
  else if (a.payload.get? partMetadataKey).isSome then
    .error (.valueError "payload key '_soveren_telegram_part' is reserved")
  else do
    let parts ← splitTelegramText a.text telegramTextLimit
    if 1 < parts.length && (a.payload.getSome? "parse_mode").isSome then
      .error (.valueError "long Telegram text with parse_mode must be rendered or split by the app")
    else .ok (a.requests parts)

def enqueueTelegramText (db : Tables) (a : TelegramText) :
    Except StoreError (Tables × List (Option String)) := do
  let requests ← telegramRequests a
  enqueueOutboundMany db requests

/-- The first parts of a text are its first characters. -/
theorem flatten_parts {α : Type} (l : List α) (n k : ℕ) :
    ((List.range k).map fun i => (l.drop (i * n)).take n).flatten = l.take (k * n) := by
  induction k with
  | zero => simp
  | succ k ih =>
    rw [List.range_succ, List.map_append, List.flatten_append, ih, Nat.succ_mul, List.take_add]
    simp

theorem join_take_splitParts (limit : ℕ) (text : String) (k : ℕ) :
    (String.join ((splitParts limit text).take k)).toList <+: text.toList := by
  rw [String.toList_join, splitParts, ← List.map_take, List.take_range, List.flatMap_map,
    List.flatMap_def]
  simp only [String.toList_ofList]
  rw [flatten_parts]
  exact List.take_prefix _ _

example : splitParts 2 "abcde" = ["ab", "cd", "e"] := by decide

theorem requests_length (a : TelegramText) (parts : List String) :
    (a.requests parts).length = parts.length := by
  simp [TelegramText.requests]

theorem requests_get (a : TelegramText) (parts : List String) {i : ℕ} {x : EnqueueArgs}
    (h : (a.requests parts)[i]? = some x) :
    ∃ part, parts[i]? = some part ∧ x = a.request parts.length (i + 1) part := by
  simp only [TelegramText.requests, List.getElem?_map, List.getElem?_zipIdx, Option.map_map,
    Option.map_eq_some_iff] at h
  obtain ⟨part, hp, rfl⟩ := h
  exact ⟨part, hp, by simp [Nat.add_comm]⟩

/-- The texts of the requests are the parts. -/
theorem requests_text (a : TelegramText) (parts : List String) :
    (a.requests parts).map (·.text) = parts := by
  rw [TelegramText.requests, List.map_map]
  have : ((·.text) ∘ fun x : String × ℕ => a.request parts.length x.2 x.1) = Prod.fst := by
    funext x
    rfl
  rw [this, List.zipIdx_map_fst]

theorem telegramRequests_ok {a : TelegramText} {requests : List EnqueueArgs}
    (h : telegramRequests a = .ok requests) :
    requests = a.requests (splitParts telegramTextLimit a.text) := by
  unfold telegramRequests at h
  split at h
  · cases h
  split at h
  · cases h
  obtain ⟨parts, hp, h⟩ := bind_eq_ok h
  unfold splitTelegramText at hp
  split at hp
  · cases hp
  split at hp
  · cases hp
  obtain rfl := Except.ok.inj hp
  split at h
  · cases h
  · exact (Except.ok.inj h).symm

end Soveren.Outbound
