import Soveren.Queue.Fencing
import Soveren.Batching.Worker

/-! Conservation of inbound messages. A stored message belongs to one batch for good, and the
event that publishes a routed batch lists it once, in every run in which a batch is routed
with as many messages as the routing worker has loaded. -/
namespace Soveren.Batching
open Soveren.Relational Soveren.Process Soveren.Queue Soveren.Run

/-- The columns of a batch row that no decision rewrites. -/
def BatchRow.head (b : BatchRow) : String × String × String × BatchStatus :=
  (b.id, b.tenantId, b.sourceId, b.status)

def Tables.heads (db : Tables) : List (String × String × String × BatchStatus) :=
  db.batches.map BatchRow.head

/-- The columns that identify a message. -/
def BatchMessageRow.key (m : BatchMessageRow) : String × String × String :=
  (m.tenantId, m.sourceId, m.rawEventId)

/-- The payload of an event lists a message, and no other item has its raw event id. -/
def CarriedOnce (payload : Json) (m : BatchMessageRow) : Prop :=
  ∃ items, payload.get? "batch_messages" = some (.arr items) ∧ m.payload ∈ items ∧
    items.countP (fun j => j.get? "raw_event_id" = some (.str m.rawEventId)) = 1

theorem messagePayload_rawEventId (m : InboundMessage) :
    (messagePayload m).get? "raw_event_id" = some (.str m.rawEventId) := by
  unfold messagePayload
  rw [Json.get?_set_of_ne (by decide), Json.get?_set_of_ne (by decide),
    Json.get?_set_of_ne (by decide), Json.get?_set]

section StoreCalls

variable {db db' : Tables}

theorem openBatch_head {m : InboundMessage} {b : BatchRow}
    (h : openBatch db.batches m.tenantId m.channel m.sourceId = some b) :
    (b.id, m.tenantId, m.sourceId, BatchStatus.collecting) ∈ db.heads := by
  obtain ⟨hb, hp⟩ := mem_selectOrdered.mp (List.mem_of_mem_head? h)
  simp only [Bool.and_eq_true, decide_eq_true_eq] at hp
  obtain ⟨⟨⟨ht, -⟩, hs⟩, hc⟩ := hp
  refine List.mem_map.mpr ⟨b, hb, ?_⟩
  simp [BatchRow.head, ht, hs, hc]

theorem insertBatch_ok {t t' : List BatchRow} {row : BatchRow} (h : insertBatch t row = .ok t') :
    t' = t ++ [row] ∧ row.id ∉ t.map (·.id) := by
  unfold insertBatch at h
  split at h
  · cases h
  · rename_i hnone
    refine ⟨(Except.ok.inj h).symm, fun hmem => hnone ?_⟩
    obtain ⟨b, hb, he⟩ := List.mem_map.mp hmem
    exact List.any_eq_true.mpr ⟨b, hb, by simp [he]⟩

theorem insertMessage_ok {t t' : List BatchMessageRow} {row : BatchMessageRow}
    (h : insertMessage t row = .ok t') : t' = t ++ [row] ∧ row.key ∉ t.map (·.key) := by
  unfold insertMessage at h
  split at h
  · cases h
  · rename_i hnone
    refine ⟨(Except.ok.inj h).symm, fun hmem => hnone ?_⟩
    obtain ⟨x, hx, he⟩ := List.mem_map.mp hmem
    simp only [BatchMessageRow.key, Prod.mk.injEq] at he
    exact List.any_eq_true.mpr ⟨x, hx, by simp [he]⟩

/-- The batch of a message collects, and is the only one added, if any is. -/
theorem batchFor_ok {m : InboundMessage} {d : Drawn} {now : Int} {batches : List BatchRow}
    {batchId : String} (h : batchFor db.batches m d now = .ok (batches, batchId)) :
    (batchId, m.tenantId, m.sourceId, .collecting) ∈ batches.map BatchRow.head ∧
      (batches = db.batches ∨ (batchId ∉ db.batches.map (·.id) ∧ batches.map BatchRow.head =
        db.heads ++ [(batchId, m.tenantId, m.sourceId, .collecting)])) := by
  unfold batchFor at h
  split at h
  · rename_i b hb
    obtain ⟨rfl, rfl⟩ := Prod.mk.inj (Except.ok.inj h)
    exact ⟨openBatch_head hb, .inl rfl⟩
  · cases hi : insertBatch db.batches (m.batchRow d now) with
    | error e => simp [hi, Except.map] at h
    | ok t =>
      obtain ⟨rfl, hfresh⟩ := insertBatch_ok hi
      simp only [hi, Except.map, Except.ok.injEq, Prod.mk.injEq] at h
      obtain ⟨rfl, rfl⟩ := h
      have hhead : (db.batches ++ [m.batchRow d now]).map BatchRow.head =
          db.heads ++ [((m.batchRow d now).id, m.tenantId, m.sourceId, .collecting)] := by
        rw [List.map_append]
        rfl
      exact ⟨hhead ▸ List.mem_append_right _ (List.mem_singleton_self _), .inr ⟨hfresh, hhead⟩⟩

/-- A message is a replay, or joins a collecting batch that was there or is new. -/
theorem appendInboundMessage_ok {m : InboundMessage} {d : Drawn} {now : Int} {r : Option String}
    (h : appendInboundMessage db m d now = .ok (db', r)) :
    db' = db ∨ ∃ row : BatchMessageRow,
      db'.messages = db.messages ++ [row] ∧ db'.events = db.events ∧
      row.key ∉ db.messages.map (·.key) ∧
      row.payload.get? "raw_event_id" = some (.str row.rawEventId) ∧
      (row.batchId, row.tenantId, row.sourceId, BatchStatus.collecting) ∈ db'.heads ∧
      (db'.heads = db.heads ∨ (row.batchId ∉ db.batches.map (·.id) ∧
        db'.heads = db.heads ++ [(row.batchId, row.tenantId, row.sourceId, .collecting)])) := by
  unfold appendInboundMessage at h
  split at h
  · obtain ⟨_, -, h⟩ := bind_eq_ok h
    exact .inl (Prod.mk.inj (Except.ok.inj h)).1.symm
  split at h
  · cases h
  · obtain ⟨⟨batches, batchId⟩, hbatch, h⟩ := bind_eq_ok h
    obtain ⟨messages, hmessages, h⟩ := bind_eq_ok h
    obtain ⟨text, -, h⟩ := bind_eq_ok h
    obtain ⟨⟨history, _, _⟩, -, h⟩ := bind_eq_ok h
    obtain ⟨rfl, -⟩ := Prod.mk.inj (Except.ok.inj h)
    obtain ⟨rfl, hkey⟩ := insertMessage_ok hmessages
    obtain ⟨hin, hnew⟩ := batchFor_ok hbatch
    refine .inr ⟨m.messageRow d batchId now, rfl, rfl, hkey, messagePayload_rawEventId m, ?_⟩
    -- the counters of the batch are not part of its head
    simp only [Tables.heads]
    rw [map_updateWhere]
    · refine ⟨hin, ?_⟩
      obtain rfl | hnew := hnew
      · exact .inl rfl
      · exact .inr hnew
    · intro b _
      rfl

theorem storeDecision_heads (db : Tables) (batchId : String) (decision : BatchDecision)
    (tenantId sourceId : String) (state : Option BatchState) (now : Int) :
    (storeDecision db batchId decision tenantId sourceId state now).heads = db.heads :=
  map_updateWhere db.batches fun _ _ => rfl

/-- The collecting batch that `routeBatch` addresses. -/
def RouteArgs.head (a : RouteArgs) (status : BatchStatus) :
    String × String × String × BatchStatus := (a.batchId, a.tenantId, a.sourceId, status)

theorem markRouted_found {a : RouteArgs} {now : Int} :
    (markRouted db.batches a.batchId a.tenantId a.sourceId now).2 = true ↔
      a.head .collecting ∈ db.heads := by
  have hcond : ∀ b : BatchRow, (isBatch a.batchId a.tenantId a.sourceId b &&
      b.status = .collecting) = true ↔ b.head = a.head .collecting := fun b => by
    simp [isBatch, BatchRow.head, RouteArgs.head, and_assoc]
  simp only [markRouted, rowcount, ne_eq, ← Nat.pos_iff_ne_zero, List.countP_pos_iff, hcond]
  simp [Tables.heads]

/-- Routing moves the addressed batch from collecting to routed and nothing else. -/
theorem mem_heads_markRouted {a : RouteArgs} {now : Int}
    {h : String × String × String × BatchStatus}
    (hh : h ∈ (markRouted db.batches a.batchId a.tenantId a.sourceId now).1.map BatchRow.head) :
    h ∈ db.heads ∨ (h = a.head .routed ∧ a.head .collecting ∈ db.heads) := by
  obtain ⟨b, hb, rfl⟩ := List.mem_map.mp hh
  obtain ⟨b0, hb0, hp, rfl⟩ | ⟨hb, -⟩ := mem_updateWhere.mp hb
  · simp only [isBatch, Bool.and_eq_true, decide_eq_true_eq] at hp
    obtain ⟨⟨⟨hi, ht⟩, hs⟩, hc⟩ := hp
    refine .inr ⟨by simp [BatchRow.head, RouteArgs.head, hi, ht, hs], ?_⟩
    exact List.mem_map.mpr ⟨b0, hb0, by simp [BatchRow.head, RouteArgs.head, hi, ht, hs, hc]⟩
  · exact .inl (List.mem_map_of_mem hb)

theorem markRouted_keeps_ids (t : List BatchRow) (batchId tenantId sourceId : String) (now : Int) :
    (markRouted t batchId tenantId sourceId now).1.map (fun b => (b.id, b.tenantId, b.sourceId)) =
      t.map fun b => (b.id, b.tenantId, b.sourceId) :=
  map_updateWhere t fun _ _ => rfl

theorem mem_batchMessages {batchId tenantId sourceId : String} {j : Json} :
    j ∈ batchMessages db batchId tenantId sourceId ↔
      ∃ m ∈ db.messages, inBatch batchId tenantId sourceId m = true ∧ m.payload = j := by
  simp [batchMessages, mem_selectOrdered, and_assoc]

theorem batchMessages_length (batchId tenantId sourceId : String) :
    (batchMessages db batchId tenantId sourceId).length =
      rowcount (inBatch batchId tenantId sourceId) db.messages := by
  simp [batchMessages, selectOrdered, rowcount, List.countP_eq_length_filter]

theorem loadState_some {extractFeatures : Json → Option Json → MessageFeatures}
    {batchId tenantId sourceId : String} {w : Windows} {now : Int} {s : BatchState}
    (h : loadState extractFeatures db batchId tenantId sourceId w now = some s) :
    s.messages = batchMessages db s.batchId s.tenantId s.sourceId := by
  unfold loadState at h
  obtain ⟨b, hb, rfl⟩ := Option.map_eq_some_iff.mp h
  have hp := List.find?_some hb
  simp only [isBatch, Bool.and_eq_true, decide_eq_true_eq] at hp
  simp [hp]

end StoreCalls

/-- The event that a loaded state is published as. -/
structure Publishes (c : Config) (s : BatchState) (a : RouteArgs) : Prop where
  batchId : a.batchId = s.batchId
  tenantId : a.tenantId = s.tenantId
  sourceId : a.sourceId = s.sourceId
  messageType : a.messageType = c.outputMessageType
  idempotencyKey : a.idempotencyKey = inboundBatchKey s.batchId
  messages : a.payload.get? "batch_messages" = some (.arr s.messages)
  count : a.payload.get? "batch_message_count" = some (.int s.messages.length)

/-- A run routes only the state it loaded last, which is its phase. -/
def protocol (c : Config) : Protocol Op Res where
  Phase := Option BatchState
  allowed φ o := match o with
    | .routeBatch a => ∃ s, φ = some s ∧ Publishes c s a
    | _ => True
  next φ o r := match o with
    | .loadState _ _ _ _ => r
    | _ => φ

section Follows

variable {c : Config}

theorem batchPayload_ok {s : BatchState} {payload : Json} (h : batchPayload s = .ok payload) :
    payload.get? "batch_messages" = some (.arr s.messages) ∧
      payload.get? "batch_message_count" = some (.int s.messages.length) := by
  unfold batchPayload at h
  split at h
  · obtain rfl := Except.ok.inj h
    constructor
    · rw [Json.get?_set_of_ne (by decide), Json.get?_set_of_ne (by decide), Json.get?_set]
    · rw [Json.get?_set_of_ne (by decide), Json.get?_set_of_ne (by decide),
        Json.get?_set_of_ne (by decide), Json.get?_set]
  · cases h

theorem flushBatch_follows (s : BatchState) (causationId : String) :
    Follows (protocol c) (some s) (flushBatch c s causationId) := by
  unfold flushBatch
  split
  · trivial
  · rename_i payload hp
    obtain ⟨hm, hc⟩ := batchPayload_ok hp
    exact ⟨⟨s, rfl, rfl, rfl, rfl, rfl, rfl, hm, hc⟩, fun _ => trivial⟩

theorem evaluateAndMaybeFlush_follows (w : Windows) (φ : Option BatchState)
    (batchId tenantId sourceId causationId : String) :
    Follows (protocol c) φ (evaluateAndMaybeFlush c w batchId tenantId sourceId causationId) := by
  refine ⟨trivial, fun state => ⟨trivial, fun _ => ?_⟩⟩
  cases (state : Option BatchState) with
  | none => trivial
  | some s =>
    simp only [Proc.bind]
    split
    · exact flushBatch_follows s causationId
    · exact ⟨trivial, fun _ => ⟨trivial, fun _ => trivial⟩⟩

theorem processBody_follows (w : Windows) (φ : Option BatchState) (e : QueueEvent) :
    Follows (protocol c) φ (processBody c w e) := by
  unfold processBody
  split
  · split
    · trivial
    · refine ⟨trivial, fun stored => ?_⟩
      cases (stored : Except StoreError (Option String)) with
      | error err => trivial
      | ok batchId =>
        cases batchId with
        | none => trivial
        | some batchId => exact evaluateAndMaybeFlush_follows w φ _ _ _ _
  · split
    · split
      · trivial
      · trivial
      · exact evaluateAndMaybeFlush_follows w φ _ _ _ _
    · trivial

/-- Every run keeps to the protocol. -/
theorem process_follows (w : Windows) (e : QueueEvent) :
    Follows (protocol c) none (process c w e) := by
  refine follows_bind (processBody_follows w none e) fun φ outcome => ?_
  cases outcome with
  | ok _ => exact ⟨trivial, fun _ => trivial⟩
  | error text => exact ⟨trivial, fun _ => ⟨trivial, fun _ => trivial⟩⟩

end Follows

/-- The queue holds each id and each key once, and a fingerprint is the one of its row. -/
structure QueueInv (t : List EventRow) : Prop where
  ids : (t.map (·.id)).Nodup
  keys : (t.map fun r => (r.tenantId, r.idempotencyKey)).Nodup
  fingerprints : ∀ r ∈ t, ∃ a : EnqueueArgs, r.idempotencyFingerprint = some a.fingerprint ∧
    r.payload = a.payload ∧ r.messageType = a.messageType

/-- The published event of batch `i` that carries message `m`. -/
def Published (c : Config) (t : List EventRow) (tenantId i : String) (m : BatchMessageRow) : Prop :=
  ∃ r ∈ t, r.tenantId = tenantId ∧ r.idempotencyKey = inboundBatchKey i ∧
    r.messageType = c.outputMessageType ∧ CarriedOnce r.payload m

structure TablesInv (c : Config) (db : Tables) : Prop where
  batchIds : (db.heads.map (·.1)).Nodup
  messageKeys : (db.messages.map (·.key)).Nodup
  rawEventIds : ∀ m ∈ db.messages, m.payload.get? "raw_event_id" = some (.str m.rawEventId)
  owned : ∀ m ∈ db.messages, ∃ st, (m.batchId, m.tenantId, m.sourceId, st) ∈ db.heads
  queue : QueueInv db.events
  routed : ∀ i t s, (i, t, s, .routed) ∈ db.heads → ∀ m ∈ db.messages, m.batchId = i →
    Published c db.events t i m

/-- A loaded state lists messages that are stored in its batch, each once. -/
structure Snapshot (db : Tables) (s : BatchState) : Prop where
  nodup : s.messages.Nodup
  stored : ∀ j ∈ s.messages, ∃ m ∈ db.messages,
    inBatch s.batchId s.tenantId s.sourceId m = true ∧ m.payload = j

section Invariant

variable {c : Config} {db db' : Tables}

theorem tablesInv_empty (c : Config) : TablesInv c {} := by
  constructor <;> simp [Tables.heads]
  constructor <;> simp

theorem QueueInv.apply {t : List EventRow} (h : QueueInv t) (op : QueueOp) :
    QueueInv (Queue.apply t op) where
  ids := apply_ids_nodup h.ids op
  keys := apply_keys_nodup h.ids h.keys op
  fingerprints r hr := by
    obtain ⟨x, hx, hstep⟩ | ⟨a, rfl, rfl, -⟩ := mem_apply h.ids hr
    · have hc := hstep.content_eq
      simp only [EventRow.content, Prod.mk.injEq] at hc
      obtain ⟨a, hf, hp, hm⟩ := h.fingerprints x hx
      exact ⟨a, by simp [hc, hf], by simp [hc, hp], by simp [hc, hm]⟩
    · exact ⟨a, rfl, rfl, rfl⟩

theorem Published.apply {t : List EventRow} {tenantId i : String} {m : BatchMessageRow}
    (hid : (t.map (·.id)).Nodup) (h : Published c t tenantId i m) (op : QueueOp) :
    Published c (Queue.apply t op) tenantId i m := by
  obtain ⟨r, hr, ht, hk, hm, hp⟩ := h
  obtain ⟨x, hx, hstep⟩ := exists_apply hid op hr
  have hkey := hstep.key_eq
  have hc := hstep.content_eq
  simp only [EventRow.content, Prod.mk.injEq] at hkey hc
  refine ⟨x, hx, by simp [hkey, ht], by simp [hkey, hk], by simp [hc, hm], ?_⟩
  rw [hc.2.2.2.1]
  exact hp

theorem TablesInv.setEvents (h : TablesInv c db) (op : QueueOp) :
    TablesInv c { db with events := Queue.apply db.events op } :=
  { h with
    queue := h.queue.apply op
    routed := fun i t s hh m hm hi => (h.routed i t s hh m hm hi).apply h.queue.ids op }

/-- A fingerprint determines the payload and the type of its event. -/
theorem fingerprint_inj {a b : EnqueueArgs} (h : a.fingerprint = b.fingerprint) :
    a.payload = b.payload ∧ a.messageType = b.messageType := by
  simp only [EnqueueArgs.fingerprint, Soveren.idempotencyFingerprint, Json.obj.injEq,
    List.cons.injEq, Prod.mk.injEq, Json.str.injEq, true_and] at h
  exact ⟨h.2.2.2.2.1, h.2.2.2.1⟩

/-- After an enqueue the event with its key has its payload and its type. -/
theorem enqueue_found {t t' : List EventRow} {a : EnqueueArgs} {r : Option String}
    (hinv : QueueInv t) (h : enqueue t a = .ok (t', r)) :
    ∃ x ∈ t', x.tenantId = a.tenantId ∧ x.idempotencyKey = a.idempotencyKey ∧
      x.messageType = a.messageType ∧ x.payload = a.payload := by
  obtain ⟨rfl, -, -, -⟩ | ⟨rfl, -, x, hx, hreplay⟩ := enqueue_ok h
  · exact ⟨a.row, by simp, rfl, rfl, rfl, rfl⟩
  · have hmem := List.mem_of_find?_eq_some hx
    have hkey := List.find?_some hx
    simp only [Bool.and_eq_true, decide_eq_true_eq] at hkey
    obtain ⟨b, hf, hp, hm⟩ := hinv.fingerprints x hmem
    simp only [replayMatches, hf, decide_eq_true_eq] at hreplay
    obtain ⟨hpay, htype⟩ := fingerprint_inj hreplay
    exact ⟨x, hmem, hkey.1, hkey.2, hm.trans htype, hp.trans hpay⟩

/-- The owner of a message is known by the batch id. -/
theorem TablesInv.scope_eq (h : TablesInv c db) {m : BatchMessageRow} (hm : m ∈ db.messages)
    {t s : String} {st : BatchStatus} (hh : (m.batchId, t, s, st) ∈ db.heads) :
    m.tenantId = t ∧ m.sourceId = s := by
  obtain ⟨st', hown⟩ := h.owned m hm
  have := eq_of_key h.batchIds hown hh rfl
  simp only [Prod.mk.injEq] at this
  exact ⟨this.2.1, this.2.2.1⟩

theorem TablesInv.batchMessages_nodup (h : TablesInv c db) (batchId tenantId sourceId : String) :
    (batchMessages db batchId tenantId sourceId).Nodup := by
  have hperm := (List.perm_insertionSort messageOrder
    (db.messages.filter (inBatch batchId tenantId sourceId))).map BatchMessageRow.payload
  refine hperm.nodup_iff.mpr (List.Nodup.map_on ?_ (h.messageKeys.of_map.filter _))
  intro x hx y hy hxy
  obtain ⟨hx, hx'⟩ := List.mem_filter.mp hx
  obtain ⟨hy, hy'⟩ := List.mem_filter.mp hy
  have hraw : x.rawEventId = y.rawEventId := by
    have := (h.rawEventIds x hx).symm.trans (hxy ▸ h.rawEventIds y hy)
    simpa using this
  simp only [inBatch, Bool.and_eq_true, decide_eq_true_eq] at hx' hy'
  refine eq_of_key h.messageKeys hx hy ?_
  simp [BatchMessageRow.key, hx', hy', hraw]

/-- What a run loads is a snapshot. -/
theorem TablesInv.snapshot (h : TablesInv c db)
    {extractFeatures : Json → Option Json → MessageFeatures} {batchId tenantId sourceId : String}
    {w : Windows} {now : Int} {s : BatchState}
    (hs : loadState extractFeatures db batchId tenantId sourceId w now = some s) :
    Snapshot db s := by
  have hm := loadState_some hs
  exact ⟨hm ▸ h.batchMessages_nodup _ _ _, fun j hj => mem_batchMessages.mp (hm ▸ hj)⟩

theorem Snapshot.mono {s : BatchState} (h : Snapshot db s)
    (hsub : ∀ m ∈ db.messages, m ∈ db'.messages) : Snapshot db' s :=
  ⟨h.nodup, fun j hj => let ⟨m, hm, hb⟩ := h.stored j hj; ⟨m, hsub m hm, hb⟩⟩

/-- A snapshot as large as its batch lists every message of the batch. -/
theorem Snapshot.complete {s : BatchState} (h : Snapshot db s)
    (hcount : s.messages.length = rowcount (inBatch s.batchId s.tenantId s.sourceId) db.messages)
    {m : BatchMessageRow} (hm : m ∈ db.messages)
    (hb : inBatch s.batchId s.tenantId s.sourceId m = true) : m.payload ∈ s.messages := by
  have hsub : s.messages ⊆ batchMessages db s.batchId s.tenantId s.sourceId :=
    fun j hj => mem_batchMessages.mpr (h.stored j hj)
  have hperm := (List.subperm_of_subset h.nodup hsub).perm_of_length_le (by rw [batchMessages_length, hcount])
  exact hperm.mem_iff.mpr (mem_batchMessages.mpr ⟨m, hm, hb, rfl⟩)

/-- No other message of a snapshot has the raw event id of one of its messages. -/
theorem TablesInv.countP_snapshot (h : TablesInv c db) {s : BatchState} (hs : Snapshot db s)
    {m : BatchMessageRow} (hm : m ∈ db.messages)
    (hb : inBatch s.batchId s.tenantId s.sourceId m = true) (hin : m.payload ∈ s.messages) :
    s.messages.countP (fun j => j.get? "raw_event_id" = some (.str m.rawEventId)) = 1 := by
  rw [← List.count_eq_one_of_mem hs.nodup hin, List.count]
  refine List.countP_congr fun j hj => ?_
  obtain ⟨x, hx, hxb, rfl⟩ := hs.stored j hj
  simp only [inBatch, Bool.and_eq_true, decide_eq_true_eq] at hb hxb
  simp only [h.rawEventIds x hx, Option.some.injEq, Json.str.injEq, decide_eq_true_eq, beq_iff_eq]
  constructor
  · intro hraw
    have : x = m := eq_of_key h.messageKeys hx hm (by simp [BatchMessageRow.key, hb, hxb, hraw])
    rw [this]
  · intro hpay
    have := (h.rawEventIds x hx).symm.trans (hpay ▸ h.rawEventIds m hm)
    simpa using this

theorem TablesInv.append (h : TablesInv c db) {m : InboundMessage} {d : Drawn} {now : Int}
    {r : Option String} (ha : appendInboundMessage db m d now = .ok (db', r)) :
    TablesInv c db' := by
  obtain rfl | ⟨row, hmsgs, hevents, hkey, hraw, hin, hheads⟩ := appendInboundMessage_ok ha
  · exact h
  have hids : (db'.heads.map (·.1)).Nodup := by
    obtain hheads | ⟨hfresh, hheads⟩ := hheads
    · exact hheads ▸ h.batchIds
    · rw [hheads, List.map_append]
      refine List.nodup_append.mpr ⟨h.batchIds, List.nodup_singleton _, ?_⟩
      rintro x hx y hy rfl
      obtain rfl := List.mem_singleton.mp hy
      exact hfresh (by simpa [Tables.heads, BatchRow.head] using hx)
  have hold : ∀ x ∈ db.heads, x ∈ db'.heads := by
    obtain hheads | ⟨-, hheads⟩ := hheads
    · exact fun x hx => hheads ▸ hx
    · exact fun x hx => hheads ▸ List.mem_append_left _ hx
  refine ⟨hids, ?_, ?_, ?_, hevents ▸ h.queue, ?_⟩
  · rw [hmsgs, List.map_append]
    refine List.nodup_append.mpr ⟨h.messageKeys, List.nodup_singleton _, ?_⟩
    rintro x hx y hy rfl
    obtain rfl := List.mem_singleton.mp hy
    exact hkey hx
  · intro x hx
    obtain hx | hx := List.mem_append.mp (hmsgs ▸ hx)
    · exact h.rawEventIds x hx
    · exact List.mem_singleton.mp hx ▸ hraw
  · intro x hx
    obtain hx | hx := List.mem_append.mp (hmsgs ▸ hx)
    · exact (h.owned x hx).imp fun st hst => hold _ hst
    · exact ⟨.collecting, List.mem_singleton.mp hx ▸ hin⟩
  · intro i t s hrouted x hx hi
    -- the batch that received the message collects, so it is not the routed one
    have hne : row.batchId ≠ i := by
      rintro rfl
      have := eq_of_key hids hrouted hin rfl
      simp at this
    obtain hx | hx := List.mem_append.mp (hmsgs ▸ hx)
    · have hrouted' : (i, t, s, BatchStatus.routed) ∈ db.heads := by
        obtain hheads | ⟨-, hheads⟩ := hheads
        · exact hheads ▸ hrouted
        · obtain hr | hr := List.mem_append.mp (hheads ▸ hrouted)
          · exact hr
          · simp at hr
      exact hevents ▸ h.routed i t s hrouted' x hx hi
    · exact absurd (List.mem_singleton.mp hx ▸ hi) hne

theorem TablesInv.storeDecision (h : TablesInv c db) (batchId : String) (decision : BatchDecision)
    (tenantId sourceId : String) (state : Option BatchState) (now : Int) :
    TablesInv c (storeDecision db batchId decision tenantId sourceId state now) := by
  have hheads := storeDecision_heads db batchId decision tenantId sourceId state now
  refine ⟨hheads ▸ h.batchIds, h.messageKeys, h.rawEventIds, ?_, h.queue, ?_⟩
  · intro m hm
    rw [hheads]
    exact h.owned m hm
  · intro i t s hh
    rw [hheads] at hh
    exact h.routed i t s hh

/-- A batch is routed with as many messages as it holds. -/
def routesWhole (db : Tables) (a : RouteArgs) : Bool :=
  !(markRouted db.batches a.batchId a.tenantId a.sourceId 0).2 ||
    a.payload.get? "batch_message_count" =
      some (.int (rowcount (inBatch a.batchId a.tenantId a.sourceId) db.messages))

theorem routesWhole_count {a : RouteArgs} {s : BatchState} (hp : Publishes c s a)
    (hw : routesWhole db a = true) (hin : a.head .collecting ∈ db.heads) :
    s.messages.length = rowcount (inBatch s.batchId s.tenantId s.sourceId) db.messages := by
  have hfound : (markRouted db.batches a.batchId a.tenantId a.sourceId 0).2 = true :=
    markRouted_found.mpr hin
  rw [routesWhole, hfound, Bool.not_true, Bool.false_or, decide_eq_true_eq, hp.count, hp.batchId,
    hp.tenantId, hp.sourceId] at hw
  exact Int.ofNat.inj (Json.int.inj (Option.some.inj hw))

theorem TablesInv.route (h : TablesInv c db) {a : RouteArgs} {s : BatchState} {eventId : String}
    {now eventNow : Int} {b : Bool} (hs : Snapshot db s) (hp : Publishes c s a)
    (hw : routesWhole db a = true) (hr : routeBatch db a eventId now eventNow = .ok (db', b)) :
    TablesInv c db' := by
  unfold routeBatch at hr
  by_cases hf : (markRouted db.batches a.batchId a.tenantId a.sourceId now).2 = true
  · have hin := markRouted_found.mp hf
    simp only [hf, if_true] at hr
    obtain ⟨⟨events, _⟩, henq, hr⟩ := bind_eq_ok hr
    obtain ⟨rfl, -⟩ := Prod.mk.inj (Except.ok.inj hr)
    have happly : Queue.apply db.events (.enqueue (a.event eventId eventNow)) = events := by
      simp only [Queue.apply, henq]
    have hscopes := markRouted_keeps_ids db.batches a.batchId a.tenantId a.sourceId now
    have hq := h.queue.apply (.enqueue (a.event eventId eventNow))
    rw [happly] at hq
    refine ⟨?_, h.messageKeys, h.rawEventIds, ?_, hq, ?_⟩
    · have hids := congrArg (List.map Prod.fst) hscopes
      simp only [List.map_map] at hids
      have hold := h.batchIds
      simp only [Tables.heads, List.map_map] at hold ⊢
      exact hids ▸ hold
    · intro m hm
      obtain ⟨st, hown⟩ := h.owned m hm
      have hscope : (m.batchId, m.tenantId, m.sourceId) ∈
          db.batches.map fun b => (b.id, b.tenantId, b.sourceId) := by
        obtain ⟨b0, hb0, he⟩ := List.mem_map.mp hown
        simp only [BatchRow.head, Prod.mk.injEq] at he
        exact List.mem_map.mpr ⟨b0, hb0, by simp [he]⟩
      rw [← hscopes] at hscope
      obtain ⟨b1, hb1, he⟩ := List.mem_map.mp hscope
      simp only [Prod.mk.injEq] at he
      exact ⟨b1.status, List.mem_map.mpr ⟨b1, hb1, by simp [BatchRow.head, he]⟩⟩
    · intro i t src hrouted m hm hi
      obtain hold | ⟨hnew, -⟩ := mem_heads_markRouted hrouted
      · have hpub := (h.routed i t src hold m hm hi).apply h.queue.ids
          (.enqueue (a.event eventId eventNow))
        rw [happly] at hpub
        exact hpub
      · -- the batch routed now: its messages are those of the snapshot
        simp only [RouteArgs.head, Prod.mk.injEq] at hnew
        obtain ⟨rfl, rfl, rfl, -⟩ := hnew
        have hown : (m.batchId, a.tenantId, a.sourceId, .collecting) ∈ db.heads := hi ▸ hin
        obtain ⟨ht, hsrc⟩ := h.scope_eq hm hown
        have hb : inBatch s.batchId s.tenantId s.sourceId m = true := by
          simp [inBatch, hi, ht, hsrc, hp.batchId, hp.tenantId, hp.sourceId]
        have hmem := hs.complete (routesWhole_count hp hw hin) hm hb
        obtain ⟨x, hx, hxt, hxk, hxm, hxp⟩ := enqueue_found h.queue henq
        refine ⟨x, hx, hxt, hxk.trans ?_, hxm.trans hp.messageType, s.messages, ?_, hmem,
          h.countP_snapshot hs hm hb hmem⟩
        · rw [hp.batchId]
          exact hp.idempotencyKey
        · rw [hxp]
          exact hp.messages
  · have hf' : (markRouted db.batches a.batchId a.tenantId a.sourceId now).2 = false := by
      simpa using hf
    simp only [hf', Bool.false_eq_true, if_false] at hr
    obtain ⟨rfl, -⟩ := Prod.mk.inj (Except.ok.inj hr)
    have hsame : (markRouted db.batches a.batchId a.tenantId a.sourceId now).1 = db.batches :=
      updateWhere_eq_self_of_rowcount (by simpa [markRouted] using hf')
    rw [hsame]
    exact h

end Invariant

/-- The operation a run performs next. -/
def System.nextOp (s : System) (i : ℕ) : Option Op :=
  s.runs[i]?.bind fun run => match run.program with
    | .ret _ => none
    | .call o _ => some o

/-- A batch that a step routes has no message that the routing run has not loaded. -/
def routesLoaded (s : System) : Label → Bool
  | .advance i _ _ => match s.nextOp i with
    | some (.routeBatch a) => routesWhole s.tables a
    | _ => true
  | _ => true

/-- A run keeps to the protocol, and the state it loaded last is a snapshot. -/
def RunInv (c : Config) (db : Tables) (run : Run) : Prop :=
  ∃ φ : Option BatchState, Follows (protocol c) φ run.program ∧ ∀ s, φ = some s → Snapshot db s

structure SystemInv (c : Config) (s : System) : Prop where
  tables : TablesInv c s.tables
  runs : ∀ run ∈ s.runs, RunInv c s.tables run

section Steps

variable {extractFeatures : Json → Option Json → MessageFeatures} {c : Config}

theorem keepOnError_ok {α : Type} {db : Tables} {r : Except StoreError (Tables × α)}
    {P : Tables → Prop} (h0 : P db) (h : ∀ db' a, r = .ok (db', a) → P db') :
    P (keepOnError db r).1 := by
  cases r with
  | error e => exact h0
  | ok p => exact h p.1 p.2 rfl

/-- No operation drops a message. -/
theorem performOp_messages (extractFeatures : Json → Option Json → MessageFeatures) (db : Tables)
    (e : QueueEvent) (now : Int) (d : Drawn) (o : Op) :
    ∀ m ∈ db.messages, m ∈ (performOp extractFeatures db e now d o).1.messages := by
  intro m hm
  cases o with
  | time | loadState | storeDecision | markDone | markRetry => exact hm
  | appendInboundMessage x =>
    refine keepOnError_ok (P := fun db => m ∈ db.messages) hm fun db' r h => ?_
    obtain rfl | ⟨row, hmsgs, -⟩ := appendInboundMessage_ok h
    · exact hm
    · exact hmsgs ▸ List.mem_append_left _ hm
  | routeBatch a =>
    refine keepOnError_ok (P := fun db => m ∈ db.messages) hm fun db' r h => ?_
    unfold routeBatch at h
    dsimp only at h
    split at h
    · obtain ⟨_, -, h⟩ := bind_eq_ok h
      obtain ⟨rfl, -⟩ := Prod.mk.inj (Except.ok.inj h)
      exact hm
    · obtain ⟨rfl, -⟩ := Prod.mk.inj (Except.ok.inj h)
      exact hm
  | enqueueFlush recipient state causationId runAfter =>
    refine keepOnError_ok (P := fun db => m ∈ db.messages) hm fun db' r h => ?_
    cases henq : enqueue db.events (flushEvent d.eventId recipient state causationId runAfter now) with
    | error _ => simp [henq, Except.map] at h
    | ok p =>
      simp only [henq, Except.map, Except.ok.injEq, Prod.mk.injEq] at h
      exact h.1 ▸ hm

theorem performOp_tablesInv {db : Tables} {e : QueueEvent} {now : Int} {d : Drawn} {o : Op}
    {φ : Option BatchState} (h : TablesInv c db) (hφ : ∀ s, φ = some s → Snapshot db s)
    (hallowed : (protocol c).allowed φ o)
    (hroute : ∀ a, o = .routeBatch a → routesWhole db a = true) :
    TablesInv c (performOp extractFeatures db e now d o).1 := by
  cases o with
  | time | loadState => exact h
  | appendInboundMessage m => exact keepOnError_ok h fun db' r ha => h.append ha
  | storeDecision batchId decision tenantId sourceId state =>
    exact h.storeDecision batchId decision tenantId sourceId state now
  | routeBatch a =>
    obtain ⟨s, hs, hp⟩ := hallowed
    exact keepOnError_ok h fun db' r ha => h.route (hφ s hs) hp (hroute a rfl) ha
  | enqueueFlush recipient state causationId runAfter =>
    refine keepOnError_ok h fun db' r ha => ?_
    cases henq : enqueue db.events (flushEvent d.eventId recipient state causationId runAfter now) with
    | error _ => simp [henq, Except.map] at ha
    | ok p =>
      simp only [henq, Except.map, Except.ok.injEq, Prod.mk.injEq] at ha
      have happly : Queue.apply db.events
          (.enqueue (flushEvent d.eventId recipient state causationId runAfter now)) = p.1 := by
        simp only [Queue.apply, henq]
      exact ha.1 ▸ happly ▸ h.setEvents _
  | markDone => exact h.setEvents (.markDone e.id e.leaseToken now)
  | markRetry runAfter lastError =>
    exact h.setEvents (.markRetry e.id e.leaseToken runAfter lastError now)

theorem RunInv.mono {db db' : Tables} {run : Run} (h : RunInv c db run)
    (hsub : ∀ m ∈ db.messages, m ∈ db'.messages) : RunInv c db' run :=
  h.imp fun _ ⟨hf, hs⟩ => ⟨hf, fun s e => (hs s e).mono hsub⟩

/-- A call on the queue alone leaves the runs as they are. -/
theorem SystemInv.setEvents {s : System} (h : SystemInv c s) (op : QueueOp) :
    SystemInv c { s with tables.events := Queue.apply s.tables.events op } where
  tables := h.tables.setEvents op
  runs run hrun := (h.runs run hrun).mono fun _ hm => hm

theorem advance_systemInv {s t : System} {i : ℕ} {now : Int} {d : Drawn} (h : SystemInv c s)
    (hc : routesLoaded s (.advance i now d) = true)
    (hstep : advance extractFeatures s i now d = some t) : SystemInv c t := by
  unfold advance at hstep
  cases hrun : s.runs[i]? with
  | none => simp [hrun] at hstep
  | some run =>
    obtain ⟨φ, hfollows, hsnap⟩ := h.runs run (List.mem_of_getElem? hrun)
    cases hprog : run.program with
    | ret a => simp [hrun, hprog] at hstep
    | call o k =>
      simp only [hrun, hprog, Option.some.injEq] at hstep
      subst hstep
      rw [hprog] at hfollows
      have hroute : ∀ a, o = .routeBatch a → routesWhole s.tables a = true := by
        rintro a rfl
        simpa [routesLoaded, System.nextOp, hrun, hprog] using hc
      have hsub := performOp_messages extractFeatures s.tables run.event now d o
      refine ⟨performOp_tablesInv h.tables hsnap hfollows.1 hroute, forall_set ?_ ?_⟩
      · exact fun y hy => (h.runs y hy).mono hsub
      · refine ⟨_, hfollows.2 _, fun st hst => ?_⟩
        -- the phase changes only when a state is loaded
        cases o with
        | loadState batchId tenantId sourceId w => exact h.tables.snapshot hst
        | time | appendInboundMessage | storeDecision | routeBatch | enqueueFlush | markDone
        | markRetry => exact (hsnap st hst).mono hsub

theorem step_systemInv {s t : System} {l : Label} (h : SystemInv c s)
    (hc : routesLoaded s l = true) (hstep : step extractFeatures c s l = some t) :
    SystemInv c t := by
  cases l with
  | enqueue a =>
    have hinv := h.setEvents (.enqueue a)
    simp only [step] at hstep
    cases henq : enqueue s.tables.events a with
    | error e => simp_all
    | ok p =>
      simp only [henq, Option.some.injEq] at hstep
      simp only [Queue.apply, henq] at hinv
      exact hstep ▸ hinv
  | claim a w =>
    have hinv := h.setEvents (.claimDue a)
    simp only [step] at hstep
    cases hcl : claimDue s.tables.events a with
    | error e => simp_all
    | ok p =>
      simp only [hcl, Option.some.injEq] at hstep
      simp only [Queue.apply, hcl] at hinv
      subst hstep
      refine ⟨hinv.tables, fun run hrun => ?_⟩
      obtain hrun | hrun := List.mem_append.mp hrun
      · exact hinv.runs run hrun
      · obtain ⟨r, -, rfl⟩ := List.mem_map.mp hrun
        exact ⟨none, process_follows w (rowToQueueEvent r), fun s hs => by cases hs⟩
  | renew eventId leaseToken leaseSeconds now =>
    have hinv := h.setEvents (.renewLease eventId leaseToken leaseSeconds now)
    simp only [step] at hstep
    cases hr : renewLease s.tables.events eventId leaseToken leaseSeconds now with
    | error e => simp_all
    | ok p =>
      simp only [hr, Option.some.injEq] at hstep
      simp only [Queue.apply, hr] at hinv
      exact hstep ▸ hinv
  | advance i now d => exact advance_systemInv h hc hstep

end Steps

instance (payload : Json) (m : BatchMessageRow) : Decidable (CarriedOnce payload m) :=
  match h : payload.get? "batch_messages" with
  | some (.arr items) => decidable_of_iff (m.payload ∈ items ∧
      items.countP (fun j => j.get? "raw_event_id" = some (.str m.rawEventId)) = 1) (by
        simp [CarriedOnce, h])
  | some .null | some (.bool _) | some (.int _) | some (.float _) | some (.str _)
  | some (.obj _) | none => isFalse (by simp [CarriedOnce, h])

/-- Each stored message belongs to exactly one batch, and the event of a routed batch carries
it exactly once. -/
def Conserved (c : Config) (db : Tables) : Prop :=
  ∀ m ∈ db.messages, ∃ b ∈ db.batches,
    (b.id = m.batchId ∧ b.tenantId = m.tenantId ∧ b.sourceId = m.sourceId) ∧
    (∀ b' ∈ db.batches, b'.id = m.batchId → b' = b) ∧
    (b.status = .routed → ∃ e ∈ byKey db.events b.tenantId (inboundBatchKey b.id),
      e.messageType = c.outputMessageType ∧ CarriedOnce e.payload m)

instance (c : Config) (db : Tables) : Decidable (Conserved c db) := by
  unfold Conserved
  infer_instance

theorem conserved_of_inv {c : Config} {db : Tables} (h : TablesInv c db) : Conserved c db := by
  intro m hm
  obtain ⟨st, hown⟩ := h.owned m hm
  obtain ⟨b, hb, he⟩ := List.mem_map.mp hown
  simp only [BatchRow.head, Prod.mk.injEq] at he
  have hids : (db.batches.map (·.id)).Nodup := by
    have := h.batchIds
    rwa [Tables.heads, List.map_map] at this
  refine ⟨b, hb, ⟨he.1, he.2.1, he.2.2.1⟩, fun b' hb' hid => ?_, fun hrouted => ?_⟩
  · exact eq_of_key hids hb' hb (hid.trans he.1.symm)
  · have hhead : (b.id, b.tenantId, b.sourceId, BatchStatus.routed) ∈ db.heads :=
      List.mem_map.mpr ⟨b, hb, by simp [BatchRow.head, hrouted]⟩
    obtain ⟨r, hr, ht, hk, htype, hcarried⟩ := h.routed _ _ _ hhead m hm he.1.symm
    obtain ⟨x, hx⟩ : ∃ x, byKey db.events b.tenantId (inboundBatchKey b.id) = some x := by
      rw [← Option.isSome_iff_exists, byKey, List.find?_isSome]
      exact ⟨r, hr, by simp [ht, hk]⟩
    have hxk := List.find?_some hx
    simp only [Bool.and_eq_true, decide_eq_true_eq] at hxk
    have : x = r := eq_of_key h.queue.keys (List.mem_of_find?_eq_some hx) hr (by simp [hxk, ht, hk])
    exact ⟨x, hx, this ▸ htype, this ▸ hcarried⟩

/-- In every run whose steps route only batches that are loaded whole, no message is lost or
duplicated. -/
theorem inbound_messages_conserved (extractFeatures : Json → Option Json → MessageFeatures)
    (c : Config) (ls : List Label) (s : System)
    (hm : Meets (step extractFeatures c) (fun s l => routesLoaded s l = true) {} ls)
    (h : exec (step extractFeatures c) {} ls = some s) : Conserved c s.tables := by
  have h0 : SystemInv c {} := ⟨tablesInv_empty c, by simp⟩
  have hinv := exec_invariant_of_meets (fun _ _ _ hI hC hS => step_systemInv hI hC hS) h0 hm h
  exact conserved_of_inv hinv.tables

def received (eventId rawEventId : String) : EnqueueArgs where
  eventId := eventId
  tenantId := "t"
  recipient := "batching"
  messageType := "InboundMessageReceived"
  payload := .obj [("channel", .str "telegram"), ("message_at", .int 0),
    ("raw_event_id", .str rawEventId), ("source_id", .str "chat"), ("text", .str "hello")]
  idempotencyKey := rawEventId
  now := 0

def claimOne (leaseOwner leaseToken : String) : ClaimArgs where
  recipient := "batching"
  limit := 1
  leaseOwner := leaseOwner
  leaseSeconds := 60
  now := 100
  leaseToken := leaseToken

/-- Two messages of one conversation, each claimed by a worker of its own; the first is stored. -/
def twoReceived : List Label := [.enqueue (received "evt_1" "r1"), .enqueue (received "evt_2" "r2"),
  .claim (claimOne "w0" "k0") {}, .claim (claimOne "w1" "k1") {},
  .advance 0 100 { batchHex := "1", messageHex := "1", historyHex := "1" }]

/-- The second message is stored after the first worker has loaded the batch and before it
routes it. -/
def staleFlush : List Label := twoReceived ++ [.advance 0 100 {}, .advance 0 100 {},
  .advance 1 100 { messageHex := "2", historyHex := "2" }, .advance 0 100 { eventId := "evt_3" }]

/-- The second message is stored before the first worker loads the batch. -/
def wholeFlush : List Label := twoReceived ++ [
  .advance 1 100 { messageHex := "2", historyHex := "2" }, .advance 0 100 {}, .advance 0 100 {},
  .advance 0 100 { eventId := "evt_3" }]

/-- The worker that flushes a batch it has loaded earlier loses the message in between. -/
theorem message_lost_by_stale_flush :
    ∃ s, exec (step (fun _ _ => {}) {}) {} staleFlush = some s ∧ ¬ Conserved {} s.tables := by
  have h : (exec (step (fun _ _ => {}) {}) {} staleFlush).map (fun s => decide (Conserved {} s.tables))
      = some false := by decide +kernel
  obtain ⟨s, hs, hc⟩ := Option.map_eq_some_iff.mp h
  exact ⟨s, hs, of_decide_eq_false hc⟩

theorem inbound_messages_conserved_two :
    ∃ s, exec (step (fun _ _ => {}) {}) {} wholeFlush = some s ∧
      s.tables.batches.map (·.status) = [.routed] ∧ s.tables.messages.length = 2 ∧
      Conserved {} s.tables := by
  have h : (exec (step (fun _ _ => {}) {}) {} wholeFlush).map
      (fun s => (s.tables.batches.map (·.status), s.tables.messages.length)) =
        some ([.routed], 2) := by decide
  obtain ⟨s, hs, hc⟩ := Option.map_eq_some_iff.mp h
  simp only [Prod.mk.injEq] at hc
  have hm : Meets (step (fun _ _ => {}) {}) (fun s l => routesLoaded s l = true) {} wholeFlush := by
    decide +kernel
  exact ⟨s, hs, hc.1, hc.2, inbound_messages_conserved _ {} wholeFlush s hm hs⟩

end Soveren.Batching
