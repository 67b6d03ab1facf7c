import Mathlib.Data.Set.Finite.Lemmas
import Soveren.Batching.Conservation

/-! No collecting batch is left without an event that evaluates it. A flush event is done only
after its run has scheduled a later one, so the latest flush event of a batch is never done. -/
namespace Soveren.Batching
open Soveren.Relational Soveren.Process Soveren.Queue Soveren.Run

/-- The address of a batch: its id, its tenant and its source. -/
abbrev Address := String × String × String

/-- The batch that a flush event names. -/
def namedBatch (e : QueueEvent) : Option Address :=
  if e.messageType = "FlushInboundBatch" then
    (e.payload.get? "batch_id").bind fun batchId =>
      (e.payload.get? "source_id").map fun sourceId =>
        (batchId.toStr, e.tenantId, sourceId.toStr)
  else none

/-- The message that an event delivers. -/
def deliveredMessage (e : QueueEvent) : Option InboundMessage :=
  if e.messageType = "InboundMessageReceived" then (messageFromEvent e).toOption else none

/-- How far a run has come with its event. -/
inductive Phase where
  | start
  /-- the message is stored in a batch that no longer collects -/
  | skipped
  | evaluating (k : Address)
  /-- loaded a state that is to wait -/
  | waiting (k : Address) (st : BatchState) (w : Windows)
  | timed (k : Address) (st : BatchState) (w : Windows) (now : Int)
  /-- loaded a state that is to be flushed -/
  | flushing (k : Address) (st : BatchState)
  | closed (k : Address)
  | scheduled (k : Address) (runAfter : Int)
  | failed
  | failedAt (now : Int)

def Phase.afterTime (now : Int) : Phase → Phase
  | .waiting k st w => .timed k st w now
  | _ => .failedAt now

def Phase.afterAppend (e : QueueEvent) (m : InboundMessage) :
    Except StoreError (Option String) → Phase
  | .ok (some batchId) => .evaluating (batchId, e.tenantId, m.sourceId)
  | .ok none => .skipped
  | .error _ => .failed

def Phase.afterLoad (k : Address) (w : Windows) : Option BatchState → Phase
  | none => .closed k
  | some st => if (decideBatch (some st)).action = .flush then .flushing k st else .waiting k st w

def Phase.afterRoute (φ : Phase) : Except StoreError Bool → Phase
  | .ok _ => match φ with
    | .flushing k _ => .closed k
    | _ => .failed
  | .error _ => .failed

def Phase.afterEnqueue (runAfter : Int) (φ : Phase) : Except StoreError (Option String) → Phase
  | .ok _ => match φ with
    | .timed k _ _ _ => .scheduled k runAfter
    | _ => .failed
  | .error _ => .failed

/-- The order in which a run on event `e` performs its operations. -/
def evaluation (c : Config) (e : QueueEvent) : Protocol Op Res where
  Phase := Phase
  allowed φ o := match o with
    | .time | .storeDecision _ _ _ _ _ => True
    | .appendInboundMessage m => φ = .start ∧ deliveredMessage e = some m
    | .loadState batchId tenantId sourceId _ => φ = .evaluating (batchId, tenantId, sourceId) ∨
        (φ = .start ∧ namedBatch e = some (batchId, tenantId, sourceId))
    | .routeBatch a => ∃ k st, φ = .flushing k st ∧
        (a.batchId, a.tenantId, a.sourceId) = (st.batchId, st.tenantId, st.sourceId)
    | .enqueueFlush recipient st _ runAfter => recipient = c.recipient ∧ ∃ k w now,
        φ = .timed k st w now ∧ runAfter = nextFlushDeadline st.firstMessageAt st.lastMessageAt now
          w.quietWindowS w.maxWindowS
    | .markDone => φ = .skipped ∨ (∃ k, φ = .closed k) ∨ (∃ k runAfter, φ = .scheduled k runAfter) ∨
        (e.messageType ≠ "InboundMessageReceived" ∧ e.messageType ≠ "FlushInboundBatch")
    | .markRetry runAfter _ => ∃ now, φ = .failedAt now ∧ runAfter = now + retryBackoffS
  next φ o r := match o with
    | .time => φ.afterTime r
    | .appendInboundMessage m => Phase.afterAppend e m r
    | .loadState batchId tenantId sourceId w => Phase.afterLoad (batchId, tenantId, sourceId) w r
    | .routeBatch _ => φ.afterRoute r
    | .enqueueFlush _ _ _ runAfter => φ.afterEnqueue runAfter r
    | .storeDecision _ _ _ _ _ | .markDone | .markRetry _ _ => φ

section Follows

variable {c : Config} {e : QueueEvent}

/-- Where the body of a run may end: done with its event, or to retry it. -/
def Outcome (e : QueueEvent) (φ : Phase) : Except String Unit → Prop
  | .ok _ => (evaluation {} e).allowed φ .markDone
  | .error _ => ∀ now, φ.afterTime now = .failedAt now

theorem flushBatch_ends {φ : Phase} {k : Address} {st : BatchState} (hφ : φ = .flushing k st)
    (causationId : String) :
    Ends (evaluation c e) (Outcome e) φ (flushBatch c st causationId) := by
  subst hφ
  unfold flushBatch
  split
  · exact fun _ => rfl
  · refine ⟨⟨k, st, rfl, rfl⟩, fun routed => ?_⟩
    cases (routed : Except StoreError Bool) with
    | ok b => exact .inr (.inl ⟨k, rfl⟩)
    | error err => exact fun _ => rfl

theorem scheduleFlush_ends {φ : Phase} {k : Address} {st : BatchState} {w : Windows}
    (hφ : φ = .waiting k st w) (causationId : String) :
    Ends (evaluation c e) (Outcome e) φ (scheduleFlush c w st causationId) := by
  subst hφ
  refine ⟨trivial, fun now => ⟨⟨rfl, k, w, now, rfl, rfl⟩, fun enqueued => ?_⟩⟩
  cases (enqueued : Except StoreError (Option String)) with
  | ok r => exact .inr (.inr (.inl ⟨k, _, rfl⟩))
  | error err => exact fun _ => rfl

theorem evaluateAndMaybeFlush_ends (w : Windows) {φ : Phase}
    {batchId tenantId sourceId : String} (causationId : String)
    (h : (evaluation c e).allowed φ (.loadState batchId tenantId sourceId w)) :
    Ends (evaluation c e) (Outcome e) φ
      (evaluateAndMaybeFlush c w batchId tenantId sourceId causationId) := by
  refine ⟨h, fun state => ⟨trivial, fun _ => ?_⟩⟩
  cases (state : Option BatchState) with
  | none => exact .inr (.inl ⟨_, rfl⟩)
  | some st =>
    simp only [Proc.bind]
    split
    · rename_i hflush
      exact flushBatch_ends (if_pos hflush) causationId
    · rename_i hflush
      exact scheduleFlush_ends (if_neg hflush) causationId

theorem processBody_ends (w : Windows) :
    Ends (evaluation c e) (Outcome e) .start (processBody c w e) := by
  unfold processBody
  split
  · rename_i htype
    split
    · exact fun _ => rfl
    · rename_i m hm
      refine ⟨⟨rfl, by simp [deliveredMessage, htype, hm, Except.toOption]⟩, fun stored => ?_⟩
      cases (stored : Except StoreError (Option String)) with
      | error err => exact fun _ => rfl
      | ok batchId =>
        cases batchId with
        | none => exact .inl rfl
        | some batchId => exact evaluateAndMaybeFlush_ends w _ (.inl rfl)
  · rename_i htype
    split
    · rename_i hflush
      split
      · exact fun _ => rfl
      · exact fun _ => rfl
      · rename_i batchId sourceId hb hs
        exact evaluateAndMaybeFlush_ends w _ (.inr ⟨rfl, by simp [namedBatch, hflush, hb, hs]⟩)
    · rename_i hflush
      exact .inr (.inr (.inr ⟨htype, hflush⟩))

/-- Every run keeps to the evaluation of its event. -/
theorem process_evaluates (w : Windows) (e : QueueEvent) :
    Follows (evaluation c e) .start (process c w e) := by
  refine (Ends.bind (Q := fun _ _ => True) (processBody_ends w) fun φ outcome h => ?_).follows
  cases outcome with
  | ok _ => exact ⟨h, fun _ => trivial⟩
  | error text => exact ⟨trivial, fun now => ⟨⟨now, h now, rfl⟩, fun _ => trivial⟩⟩

end Follows

def InboundMessage.key (x : InboundMessage) : String × String × String :=
  (x.tenantId, x.sourceId, x.rawEventId)

def BatchMessageRow.address (m : BatchMessageRow) : Address := (m.batchId, m.tenantId, m.sourceId)

/-- The batch at an address collects messages. -/
def Collects (db : Tables) (k : Address) : Prop :=
  (k.1, k.2.1, k.2.2, BatchStatus.collecting) ∈ db.heads

/-- The row is what the store keeps of a message, so that the message again is a replay. -/
def BatchMessageRow.Stores (m : BatchMessageRow) (x : InboundMessage) : Prop :=
  m.key = x.key ∧ m.channel = x.channel ∧ m.sourceEventId = x.sourceEventId ∧
    m.messageAt = x.messageAt ∧ m.payload = messagePayload x

/-- A flush event of the worker's recipient for the batch at an address. -/
def IsFlush (c : Config) (r : EventRow) (k : Address) : Prop :=
  r.recipient = c.recipient ∧ namedBatch (rowToQueueEvent r) = some k

/-- What is needed for an event to be done: each batch that it evaluates and that still
collects has a flush event, a later one if the event is a flush itself. -/
structure Justified (c : Config) (db : Tables) (r : EventRow) : Prop where
  flush : ∀ k, namedBatch (rowToQueueEvent r) = some k → Collects db k →
    ∃ f ∈ db.events, IsFlush c f k ∧ r.runAfter < f.runAfter
  delivery : ∀ x, deliveredMessage (rowToQueueEvent r) = some x →
    ∃ m ∈ db.messages, m.key = x.key ∧
      (Collects db m.address → ∃ f ∈ db.events, IsFlush c f m.address)

/-- Ids, keys and owners of batches and messages. -/
structure Keys (db : Tables) : Prop where
  batchIds : (db.heads.map (·.1)).Nodup
  messageKeys : (db.messages.map (·.key)).Nodup
  owned : ∀ m ∈ db.messages, ∃ st, (m.batchId, m.tenantId, m.sourceId, st) ∈ db.heads
  nonempty : ∀ h ∈ db.heads, ∃ m ∈ db.messages, m.address = (h.1, h.2.1, h.2.2.1)

/-- The events in order with the batches at clock `now`. -/
structure Wake (c : Config) (now : Int) (db : Tables) : Prop where
  ids : (db.events.map (·.id)).Nodup
  stamped : ∀ r ∈ db.events, ∃ a : EnqueueArgs, r.idempotencyFingerprint = some a.fingerprint ∧
    r.recipient = a.recipient ∧ r.messageType = a.messageType ∧ r.payload = a.payload ∧
    ∀ runAfter, a.runAfter = some runAfter → runAfter ≤ r.runAfter
  leased : ∀ r ∈ db.events, r.status = .leased → r.runAfter ≤ now
  source : ∀ m ∈ db.messages, ∃ r ∈ db.events, r.recipient = c.recipient ∧
    ∃ x, deliveredMessage (rowToQueueEvent r) = some x ∧ m.Stores x
  justified : ∀ r ∈ db.events, r.status = .done → Justified c db r

section Events

variable {c : Config} {db db' : Tables} {now : Int}

/-- What an event is about depends on its id and its content. -/
theorem messageFromEvent_congr {e e' : QueueEvent} (hid : e.id = e'.id)
    (ht : e.tenantId = e'.tenantId) (hp : e.payload = e'.payload) :
    messageFromEvent e = messageFromEvent e' := by
  simp only [messageFromEvent, hid, ht, hp]

theorem RowStep.about {op : QueueOp} {r s : EventRow} (h : RowStep op r s) :
    namedBatch (rowToQueueEvent s) = namedBatch (rowToQueueEvent r) ∧
      deliveredMessage (rowToQueueEvent s) = deliveredMessage (rowToQueueEvent r) ∧
      s.recipient = r.recipient := by
  have hc := h.content_eq
  simp only [EventRow.content, Prod.mk.injEq] at hc
  obtain ⟨ht, hr, hm, hp, -⟩ := hc
  have ht' : (rowToQueueEvent s).tenantId = (rowToQueueEvent r).tenantId := ht
  have hm' : (rowToQueueEvent s).messageType = (rowToQueueEvent r).messageType := hm
  have hp' : (rowToQueueEvent s).payload = (rowToQueueEvent r).payload := hp
  have he : messageFromEvent (rowToQueueEvent s) = messageFromEvent (rowToQueueEvent r) :=
    messageFromEvent_congr h.id_eq ht' hp'
  exact ⟨by simp only [namedBatch, ht', hm', hp'], by simp only [deliveredMessage, he, hm'], hr⟩

/-- A retry does not move its event to an earlier time. -/
def Forward (t : List EventRow) (op : QueueOp) : Prop :=
  ∀ e k runAfter lastError now, op = .markRetry e k runAfter lastError now →
    ∀ r ∈ t, holds e k r = true → r.runAfter ≤ runAfter

theorem RowStep.runAfter_le {t : List EventRow} {op : QueueOp} {r s : EventRow}
    (h : RowStep op r s) (hop : Forward t op) (hr : r ∈ t) : r.runAfter ≤ s.runAfter := by
  cases h with
  | same | bury | lease | renew | done | dead => exact le_rfl
  | retry hh => exact hop _ _ _ _ _ rfl r hr hh

/-- A flush event stays, and stays as late as it is. -/
theorem exists_flush_apply {op : QueueOp} (hid : (db.events.map (·.id)).Nodup)
    (hop : Forward db.events op) {f : EventRow} (hf : f ∈ db.events) {k : Address}
    (hk : IsFlush c f k) : ∃ f' ∈ Queue.apply db.events op, IsFlush c f' k ∧
      f.runAfter ≤ f'.runAfter := by
  obtain ⟨f', hf', hstep⟩ := exists_apply hid op hf
  obtain ⟨hn, -, hr⟩ := RowStep.about hstep
  exact ⟨f', hf', ⟨hr.trans hk.1, hn.trans hk.2⟩, RowStep.runAfter_le hstep hop hf⟩

/-- A done row was done, or its holder has just marked it. -/
theorem RowStep.of_done {op : QueueOp} {r s : EventRow} (h : RowStep op r s)
    (hs : s.status = .done) :
    s = r ∨ ∃ e k t, op = .markDone e k t ∧ holds e k r = true ∧ s = r.unlease .done t := by
  cases h with
  | same => exact .inl rfl
  | bury => simp [ClaimArgs.bury, EventRow.unlease] at hs
  | lease => simp [ClaimArgs.lease] at hs
  | renew hh => simp [(Queue.holds_iff.mp hh).2.1] at hs
  | done hh => exact .inr ⟨_, _, _, rfl, hh, rfl⟩
  | dead => simp [EventRow.unlease] at hs
  | retry hh hst =>
    simp only [EventRow.unlease] at hs
    rw [hst] at hs
    split at hs <;> cases hs

theorem Justified.apply {op : QueueOp} {r s : EventRow} (hid : (db.events.map (·.id)).Nodup)
    (hop : Forward db.events op) (h : Justified c db r)
    (hn : namedBatch (rowToQueueEvent s) = namedBatch (rowToQueueEvent r))
    (hd : deliveredMessage (rowToQueueEvent s) = deliveredMessage (rowToQueueEvent r))
    (hrun : s.runAfter = r.runAfter) :
    Justified c { db with events := Queue.apply db.events op } s where
  flush k hk hc := by
    obtain ⟨f, hf, hflush, hlt⟩ := h.flush k (hn ▸ hk) hc
    obtain ⟨f', hf', hflush', hle⟩ := exists_flush_apply hid hop hf hflush
    exact ⟨f', hf', hflush', by omega⟩
  delivery x hx := by
    obtain ⟨m, hm, hkey, hflush⟩ := h.delivery x (hd ▸ hx)
    refine ⟨m, hm, hkey, fun hc => ?_⟩
    obtain ⟨f, hf, hflush⟩ := hflush hc
    obtain ⟨f', hf', hflush', -⟩ := exists_flush_apply hid hop hf hflush
    exact ⟨f', hf', hflush'⟩

/-- A queue call keeps the events in order if its retries go forward, its leases are due and
what it marks done is justified. -/
theorem Wake.apply {op : QueueOp} (h : Wake c now db) (hop : Forward db.events op) {now' : Int}
    (hnow : now ≤ now') (hclaim : ∀ a, op = .claimDue a → a.now ≤ now')
    (hdone : ∀ e k t, op = .markDone e k t → ∀ r ∈ db.events, holds e k r = true →
      Justified c db r) :
    Wake c now' { db with events := Queue.apply db.events op } where
  ids := apply_ids_nodup h.ids op
  stamped s hs := by
    obtain ⟨r, hr, hstep⟩ | ⟨a, rfl, rfl, -⟩ := mem_apply h.ids hs
    · obtain ⟨a, hf, hrec, hm, hp, hrun⟩ := h.stamped r hr
      have hc := hstep.content_eq
      simp only [EventRow.content, Prod.mk.injEq] at hc
      refine ⟨a, by simp [hc, hf], by simp [hc, hrec], by simp [hc, hm], by simp [hc, hp], ?_⟩
      exact fun D hD => (hrun D hD).trans (RowStep.runAfter_le hstep hop hr)
    · exact ⟨a, rfl, rfl, rfl, rfl, fun D hD => by simp [EnqueueArgs.row, hD]⟩
  leased s hs hst := by
    obtain ⟨r, hr, hstep⟩ | ⟨a, rfl, rfl, -⟩ := mem_apply h.ids hs
    · cases hstep with
      | same => exact (h.leased _ hr hst).trans hnow
      | bury => simp [ClaimArgs.bury, EventRow.unlease] at hst
      | lease hc =>
        simp only [ClaimArgs.isCandidate, Bool.and_eq_true, decide_eq_true_eq] at hc
        exact hc.1.2.trans (hclaim _ rfl)
      | renew hh => exact (h.leased r hr (Queue.holds_iff.mp hh).2.1).trans hnow
      | done | dead => simp [EventRow.unlease] at hst
      | retry hh hstatus =>
        simp only [EventRow.unlease] at hst
        rw [hstatus] at hst
        split at hst <;> cases hst
    · simp [EnqueueArgs.row] at hst
  source m hm := by
    obtain ⟨r, hr, hrec, x, hx, hstores⟩ := h.source m hm
    obtain ⟨s, hs, hstep⟩ := exists_apply h.ids op hr
    obtain ⟨-, hd, hrec'⟩ := RowStep.about hstep
    exact ⟨s, hs, hrec'.trans hrec, x, hd.trans hx, hstores⟩
  justified s hs hst := by
    obtain ⟨r, hr, hstep⟩ | ⟨a, rfl, rfl, -⟩ := mem_apply h.ids hs
    · obtain rfl | ⟨e, k, t, hmark, hh, rfl⟩ := RowStep.of_done hstep hst
      · exact (h.justified s hr hst).apply h.ids hop rfl rfl rfl
      · obtain ⟨hn, hd, -⟩ := RowStep.about hstep
        exact (hdone e k t hmark r hr hh).apply h.ids hop hn hd rfl
    · simp [EnqueueArgs.row] at hst

/-- What a transaction on batches and messages changes: rows are added, and a batch that
collects afterwards did so before or is new and unnamed. -/
structure BatchChange (db db' : Tables) : Prop where
  events : db'.events = db.events
  messages : ∀ m ∈ db.messages, m ∈ db'.messages
  collects : ∀ k, Collects db' k → Collects db k ∨ (k.1 ∉ db.heads.map (·.1) ∧
    ∀ r ∈ db.events, namedBatch (rowToQueueEvent r) ≠ some k)

theorem Keys.mem_ids (h : Keys db) {m : BatchMessageRow} (hm : m ∈ db.messages) :
    m.batchId ∈ db.heads.map (·.1) := by
  obtain ⟨st, hst⟩ := h.owned m hm
  exact List.mem_map_of_mem hst

theorem Wake.change (h : Wake c now db) (hkeys : Keys db) (hch : BatchChange db db')
    (hsource : ∀ m ∈ db'.messages, m ∈ db.messages ∨ ∃ r ∈ db.events, r.recipient = c.recipient ∧
      ∃ x, deliveredMessage (rowToQueueEvent r) = some x ∧ m.Stores x) :
    Wake c now db' where
  ids := hch.events ▸ h.ids
  stamped r hr := h.stamped r (hch.events ▸ hr)
  leased r hr := h.leased r (hch.events ▸ hr)
  source m hm := by
    rw [hch.events]
    obtain hm | hnew := hsource m hm
    · exact h.source m hm
    · exact hnew
  justified r hr hst := by
    rw [hch.events] at hr
    have hj := h.justified r hr hst
    refine ⟨fun k hk hc => ?_, fun x hx => ?_⟩
    · rw [hch.events]
      obtain hc | ⟨-, hno⟩ := hch.collects k hc
      · exact hj.flush k hk hc
      · exact absurd hk (hno r hr)
    · obtain ⟨m, hm, hkey, hflush⟩ := hj.delivery x hx
      refine ⟨m, hch.messages m hm, hkey, fun hc => ?_⟩
      rw [hch.events]
      obtain hc | ⟨hnew, -⟩ := hch.collects _ hc
      · exact hflush hc
      · exact absurd (hkeys.mem_ids hm) hnew

end Events

section Batches

variable {c : Config} {db db' : Tables} {now : Int}

theorem batchFor_id {t batches : List BatchRow} {x : InboundMessage} {d : Drawn} {batchId : String}
    (h : batchFor t x d now = .ok (batches, batchId)) :
    batches = t ∨ batchId = "ib_" ++ d.batchHex := by
  unfold batchFor at h
  split at h
  · obtain ⟨rfl, -⟩ := Prod.mk.inj (Except.ok.inj h)
    exact .inl rfl
  · obtain ⟨t', -, he⟩ := map_eq_ok h
    exact .inr (Prod.mk.inj he).2.symm

theorem existingMessage_some {x : InboundMessage} {m : BatchMessageRow} {b : BatchRow}
    (h : existingMessage db x = some (m, b)) :
    m ∈ db.messages ∧ m.key = x.key ∧ b ∈ db.batches ∧ b.id = m.batchId := by
  obtain ⟨m', hm', h⟩ := List.exists_of_findSome?_eq_some h
  split at h
  · rename_i hkey
    obtain ⟨b', hb', he⟩ := Option.map_eq_some_iff.mp h
    obtain ⟨rfl, rfl⟩ := Prod.mk.inj he
    simp only [Bool.and_eq_true, decide_eq_true_eq] at hkey
    have hid := List.find?_some hb'
    refine ⟨hm', by simp [BatchMessageRow.key, InboundMessage.key, hkey], ?_, by simpa using hid⟩
    exact List.mem_of_find?_eq_some hb'
  · cases h

/-- A message is found in its batch, or joins one that collects. -/
theorem appendInboundMessage_cases {x : InboundMessage} {d : Drawn} {r : Option String}
    (h : appendInboundMessage db x d now = .ok (db', r)) :
    (db' = db ∧ ∃ m ∈ db.messages, m.key = x.key ∧ ∃ b ∈ db.batches, b.id = m.batchId ∧
      r = if b.status = .collecting then some m.batchId else none) ∨
    ∃ m : BatchMessageRow, db'.messages = db.messages ++ [m] ∧ db'.events = db.events ∧
      m.Stores x ∧ r = some m.batchId ∧ m.key ∉ db.messages.map (·.key) ∧
      (m.batchId, m.tenantId, m.sourceId, BatchStatus.collecting) ∈ db'.heads ∧
      (db'.heads = db.heads ∨ (m.batchId = "ib_" ++ d.batchHex ∧
        m.batchId ∉ db.batches.map (·.id) ∧
        db'.heads = db.heads ++ [(m.batchId, m.tenantId, m.sourceId, .collecting)])) := by
  unfold appendInboundMessage at h
  split at h
  · rename_i m b hex
    obtain ⟨_, -, h⟩ := bind_eq_ok h
    obtain ⟨rfl, rfl⟩ := Prod.mk.inj (Except.ok.inj h)
    obtain ⟨hm, hkey, hb, hid⟩ := existingMessage_some hex
    exact .inl ⟨rfl, m, hm, hkey, b, hb, hid, rfl⟩
  split at h
  · cases h
  · obtain ⟨⟨batches, batchId⟩, hbatch, h⟩ := bind_eq_ok h
    obtain ⟨messages, hmessages, h⟩ := bind_eq_ok h
    obtain ⟨text, -, h⟩ := bind_eq_ok h
    obtain ⟨⟨history, _, _⟩, -, h⟩ := bind_eq_ok h
    obtain ⟨rfl, rfl⟩ := Prod.mk.inj (Except.ok.inj h)
    obtain ⟨rfl, hkey⟩ := insertMessage_ok hmessages
    obtain ⟨hin, hnew⟩ := batchFor_ok hbatch
    refine .inr ⟨x.messageRow d batchId now, rfl, rfl, ⟨rfl, rfl, rfl, rfl, rfl⟩, rfl, hkey, ?_⟩
    simp only [Tables.heads]
    rw [map_updateWhere]
    · refine ⟨hin, ?_⟩
      obtain rfl | ⟨hfresh, hheads⟩ := hnew
      · exact .inl rfl
      · obtain rfl | hid := batchFor_id hbatch
        · exact .inl rfl
        · exact .inr ⟨hid, hfresh, hheads⟩
    · intro b _
      rfl

theorem mem_ids_iff {i : String} : i ∈ db.heads.map (·.1) ↔ i ∈ db.batches.map (·.id) := by
  simp [Tables.heads, BatchRow.head]

theorem Keys.append (h : Keys db) {x : InboundMessage} {d : Drawn} {r : Option String}
    (ha : appendInboundMessage db x d now = .ok (db', r)) : Keys db' := by
  obtain ⟨rfl, -⟩ | ⟨m, hmsgs, -, -, -, hkey, hin, hheads⟩ := appendInboundMessage_cases ha
  · exact h
  have hold : ∀ y ∈ db.heads, y ∈ db'.heads := by
    obtain hheads | ⟨-, -, hheads⟩ := hheads
    · exact fun y hy => hheads ▸ hy
    · exact fun y hy => hheads ▸ List.mem_append_left _ hy
  refine ⟨?_, hmsgs ▸ nodup_append_key h.messageKeys hkey, fun y hy => ?_, fun y hy => ?_⟩
  · obtain hheads | ⟨-, hfresh, hheads⟩ := hheads
    · exact hheads ▸ h.batchIds
    · rw [hheads]
      exact nodup_append_key h.batchIds fun hmem => hfresh (mem_ids_iff.mp hmem)
  · obtain hy | hy := List.mem_append.mp (hmsgs ▸ hy)
    · exact (h.owned y hy).imp fun st hst => hold _ hst
    · exact ⟨.collecting, List.mem_singleton.mp hy ▸ hin⟩
  · have hcases : y ∈ db.heads ∨ y = (m.batchId, m.tenantId, m.sourceId, .collecting) := by
      obtain hheads | ⟨-, -, hheads⟩ := hheads
      · exact .inl (hheads ▸ hy)
      · exact (List.mem_append.mp (hheads ▸ hy)).imp id List.mem_singleton.mp
    obtain hy | rfl := hcases
    · obtain ⟨m', hm', he⟩ := h.nonempty y hy
      exact ⟨m', hmsgs ▸ List.mem_append_left _ hm', he⟩
    · exact ⟨m, hmsgs ▸ List.mem_append_right _ (List.mem_singleton_self m), rfl⟩

/-- Drawn batch ids are new: no queued flush names one. -/
def BatchIdFresh (db : Tables) (d : Drawn) : Prop :=
  ∀ r ∈ db.events, (namedBatch (rowToQueueEvent r)).map (·.1) ≠ some ("ib_" ++ d.batchHex)

instance (db : Tables) (d : Drawn) : Decidable (BatchIdFresh db d) := by
  unfold BatchIdFresh
  infer_instance

theorem append_change {x : InboundMessage} {d : Drawn} {r : Option String}
    (hfresh : BatchIdFresh db d) (ha : appendInboundMessage db x d now = .ok (db', r)) :
    BatchChange db db' := by
  obtain ⟨rfl, -⟩ | ⟨m, hmsgs, hevents, -, -, -, -, hheads⟩ := appendInboundMessage_cases ha
  · exact ⟨rfl, fun _ h => h, fun _ h => .inl h⟩
  refine ⟨hevents, fun y hy => hmsgs ▸ List.mem_append_left _ hy, fun k hk => ?_⟩
  obtain hheads | ⟨hid, hnew, hheads⟩ := hheads
  · exact .inl (by rwa [Collects, hheads] at hk)
  · rw [Collects, hheads] at hk
    obtain hk | hk := List.mem_append.mp hk
    · exact .inl hk
    · have hk' : k.1 = m.batchId := congrArg Prod.fst (List.mem_singleton.mp hk)
      refine .inr ⟨fun hmem => hnew (hk' ▸ mem_ids_iff.mp hmem), fun r hr hnamed => ?_⟩
      exact hfresh r hr (by simp [hnamed, hk', hid])

theorem Keys.heads (h : Keys db) (hheads : db'.heads = db.heads)
    (hmsgs : db'.messages = db.messages) : Keys db' :=
  ⟨hheads ▸ h.batchIds, hmsgs ▸ h.messageKeys, hheads ▸ hmsgs ▸ h.owned,
    hheads ▸ hmsgs ▸ h.nonempty⟩

/-- Routing: some batch no longer collects, and the event that publishes it is queued. -/
theorem routeBatch_cases {a : RouteArgs} {eventId : String} {eventNow : Int} {b : Bool}
    (h : routeBatch db a eventId now eventNow = .ok (db', b)) :
    db'.batches = (markRouted db.batches a.batchId a.tenantId a.sourceId now).1 ∧
      db'.messages = db.messages ∧ (db'.events = db.events ∨
        db'.events = Queue.apply db.events (.enqueue (a.event eventId eventNow))) := by
  unfold routeBatch at h
  dsimp only at h
  split at h
  · obtain ⟨⟨events, _⟩, henq, h⟩ := bind_eq_ok h
    obtain ⟨rfl, -⟩ := Prod.mk.inj (Except.ok.inj h)
    exact ⟨rfl, rfl, .inr (by simp only [Queue.apply, henq])⟩
  · obtain ⟨rfl, -⟩ := Prod.mk.inj (Except.ok.inj h)
    exact ⟨rfl, rfl, .inl rfl⟩

/-- The head of a batch after routing. -/
theorem markRouted_heads (t : List BatchRow) (a : RouteArgs) (now : Int) :
    ∀ h ∈ (markRouted t a.batchId a.tenantId a.sourceId now).1.map BatchRow.head,
      h ≠ a.head .collecting ∧ ∃ st, (h.1, h.2.1, h.2.2.1, st) ∈ t.map BatchRow.head ∧
        (h.2.2.2 = .collecting → st = .collecting) := by
  intro h hh
  obtain ⟨b, hb, rfl⟩ := List.mem_map.mp hh
  obtain ⟨b0, hb0, hp, rfl⟩ | ⟨hb, hp⟩ := mem_updateWhere.mp hb
  · refine ⟨by simp [BatchRow.head, RouteArgs.head], b0.status, ?_, fun hc => by cases hc⟩
    exact List.mem_map.mpr ⟨b0, hb0, rfl⟩
  · refine ⟨fun he => ?_, b.status, List.mem_map.mpr ⟨b, hb, rfl⟩, fun hc => hc⟩
    simp only [BatchRow.head, RouteArgs.head, Prod.mk.injEq] at he
    simp [isBatch, he] at hp

theorem Keys.route (h : Keys db) (a : RouteArgs) {now : Int}
    (hb : db'.batches = (markRouted db.batches a.batchId a.tenantId a.sourceId now).1)
    (hm : db'.messages = db.messages) : Keys db' := by
  have hids : db'.batches.map (fun b => (b.id, b.tenantId, b.sourceId)) =
      db.batches.map fun b => (b.id, b.tenantId, b.sourceId) := by
    rw [hb]
    exact markRouted_keeps_ids db.batches a.batchId a.tenantId a.sourceId now
  refine ⟨?_, hm ▸ h.messageKeys, fun m hmem => ?_, fun y hy => ?_⟩
  · have hfst := congrArg (List.map Prod.fst) hids
    have hold := h.batchIds
    simp only [Tables.heads, List.map_map] at hfst hold ⊢
    exact hfst ▸ hold
  · obtain ⟨st, hst⟩ := h.owned m (hm ▸ hmem)
    obtain ⟨b0, hb0, he⟩ := List.mem_map.mp hst
    have hscope : (b0.id, b0.tenantId, b0.sourceId) ∈
        db'.batches.map fun b => (b.id, b.tenantId, b.sourceId) := hids ▸ List.mem_map_of_mem hb0
    obtain ⟨b1, hb1, he1⟩ := List.mem_map.mp hscope
    simp only [BatchRow.head, Prod.mk.injEq] at he he1
    exact ⟨b1.status, List.mem_map.mpr ⟨b1, hb1, by simp [BatchRow.head, he, he1]⟩⟩
  · rw [Tables.heads, hb] at hy
    obtain ⟨-, st, hst, -⟩ := markRouted_heads db.batches a now y hy
    rw [hm]
    exact h.nonempty (y.1, y.2.1, y.2.2.1, st) hst

theorem route_change (a : RouteArgs) {now : Int}
    (hb : db'.batches = (markRouted db.batches a.batchId a.tenantId a.sourceId now).1)
    (hm : db'.messages = db.messages) (he : db'.events = db.events) : BatchChange db db' := by
  refine ⟨he, fun y hy => hm ▸ hy, fun k hk => .inl ?_⟩
  rw [Collects, Tables.heads, hb] at hk
  obtain ⟨-, st, hst, hc⟩ := markRouted_heads db.batches a now _ hk
  obtain rfl := hc rfl
  exact hst

end Batches

/-- The run's event is about the batch at an address. -/
def Target (db : Tables) (e : QueueEvent) (k : Address) : Prop :=
  namedBatch e = some k ∨ ∃ x, deliveredMessage e = some x ∧
    ∃ m ∈ db.messages, m.key = x.key ∧ m.address = k

/-- A bound on the time at which the event that a run still holds was due. -/
def DueBy (db : Tables) (e : QueueEvent) (now : Int) : Prop :=
  ∀ r ∈ db.events, holds e.id e.leaseToken r = true → r.runAfter ≤ now

/-- What holds of a run in a phase. -/
def RunOk (c : Config) (now : Int) (db : Tables) (e : QueueEvent) : Phase → Prop
  | .start | .failed => True
  | .skipped => ∃ x, deliveredMessage e = some x ∧
      ∃ m ∈ db.messages, m.key = x.key ∧ ¬ Collects db m.address
  | .evaluating k => Target db e k
  | .waiting k st w => Target db e k ∧ (st.batchId, st.tenantId, st.sourceId) = k ∧
      st.now < st.firstMessageAt + w.maxWindowS ∧ st.now ≤ now ∧ DueBy db e st.now
  | .timed k st w t => Target db e k ∧ (st.batchId, st.tenantId, st.sourceId) = k ∧
      st.now < st.firstMessageAt + w.maxWindowS ∧ st.now ≤ t ∧ DueBy db e st.now
  | .flushing k st => Target db e k ∧ (st.batchId, st.tenantId, st.sourceId) = k
  | .closed k => Target db e k ∧ ¬ Collects db k
  | .scheduled k runAfter => Target db e k ∧ DueBy db e (runAfter - 1) ∧
      ∃ f ∈ db.events, IsFlush c f k ∧ runAfter ≤ f.runAfter
  | .failedAt t => DueBy db e t

/-- The queued event that a run was started for. -/
def Origin (c : Config) (db : Tables) (e : QueueEvent) : Prop :=
  ∃ r ∈ db.events, r.id = e.id ∧ r.recipient = c.recipient ∧
    namedBatch (rowToQueueEvent r) = namedBatch e ∧
    deliveredMessage (rowToQueueEvent r) = deliveredMessage e

structure RunWake (c : Config) (now : Int) (db : Tables) (run : Run) : Prop where
  origin : Origin c db run.event
  phase : ∃ φ : Phase, Follows (evaluation c run.event) φ run.program ∧ RunOk c now db run.event φ

section Runs

variable {c : Config} {db db' : Tables} {now now' : Int} {e : QueueEvent} {φ : Phase}

theorem namedBatch_of_delivered {x : InboundMessage} (h : deliveredMessage e = some x) :
    namedBatch e = none := by
  unfold deliveredMessage at h
  split at h
  · rename_i htype
    simp [namedBatch, htype]
  · cases h

theorem Target.mono {k : Address} (h : Target db e k)
    (hm : ∀ m ∈ db.messages, m ∈ db'.messages) : Target db' e k := by
  obtain h | ⟨x, hx, m, hmem, hkey, he⟩ := h
  · exact .inl h
  · exact .inr ⟨x, hx, m, hm m hmem, hkey, he⟩

theorem RunOk.mono_clock (h : RunOk c now db e φ) (hnow : now ≤ now') : RunOk c now' db e φ := by
  cases φ with
  | waiting k st w =>
    obtain ⟨h1, h2, h3, h4, h5⟩ := h
    exact ⟨h1, h2, h3, h4.trans hnow, h5⟩
  | start | skipped | evaluating | timed | flushing | closed | scheduled | failed | failedAt =>
    exact h

/-- A row that a run still holds was held before, and is as late as it was. -/
theorem DueBy.apply {op : QueueOp} {t : Int} (hid : (db.events.map (·.id)).Nodup)
    (htoken : ∀ a, op = .claimDue a → a.leaseToken ≠ e.leaseToken) (h : DueBy db e t) :
    DueBy { db with events := Queue.apply db.events op } e t := by
  intro s hs hh
  obtain ⟨hsid, hst, htok⟩ := Queue.holds_iff.mp hh
  obtain ⟨r, hr, hstep⟩ | ⟨a, rfl, rfl, -⟩ := mem_apply hid hs
  · cases hstep with
    | same => exact h _ hr hh
    | bury => simp [ClaimArgs.bury, EventRow.unlease] at hst
    | lease => exact absurd (Option.some.inj htok) (htoken _ rfl)
    | renew _ => exact h r hr (Queue.holds_iff.mpr ⟨hsid, hst, htok⟩)
    | done | dead | retry => simp [EventRow.unlease] at htok
  · simp [EnqueueArgs.row] at hst

theorem RunOk.apply {op : QueueOp} (hid : (db.events.map (·.id)).Nodup)
    (hop : Forward db.events op) (htoken : ∀ a, op = .claimDue a → a.leaseToken ≠ e.leaseToken)
    (h : RunOk c now db e φ) : RunOk c now { db with events := Queue.apply db.events op } e φ := by
  cases φ with
  | start | failed | skipped | evaluating | flushing | closed => exact h
  | waiting k st w =>
    obtain ⟨h1, h2, h3, h4, h5⟩ := h
    exact ⟨h1, h2, h3, h4, h5.apply hid htoken⟩
  | timed k st w t =>
    obtain ⟨h1, h2, h3, h4, h5⟩ := h
    exact ⟨h1, h2, h3, h4, h5.apply hid htoken⟩
  | scheduled k runAfter =>
    obtain ⟨h1, h2, f, hf, hflush, hle⟩ := h
    obtain ⟨f', hf', hflush', hle'⟩ := exists_flush_apply hid hop hf hflush
    exact ⟨h1, h2.apply hid htoken, f', hf', hflush', hle.trans hle'⟩
  | failedAt t => exact DueBy.apply hid htoken h

theorem Origin.apply (hid : (db.events.map (·.id)).Nodup) (op : QueueOp) (h : Origin c db e) :
    Origin c { db with events := Queue.apply db.events op } e := by
  obtain ⟨r, hr, hrid, hrec, hn, hd⟩ := h
  obtain ⟨s, hs, hstep⟩ := exists_apply hid op hr
  obtain ⟨hn', hd', hrec'⟩ := RowStep.about hstep
  exact ⟨s, hs, hstep.id_eq.trans hrid, hrec'.trans hrec, hn'.trans hn, hd'.trans hd⟩

/-- A batch that a run's event is about and that does not collect will not collect again. -/
theorem not_collects_change {k : Address} (hkeys : Keys db) (ho : Origin c db e)
    (hch : BatchChange db db') (ht : Target db e k) (h : ¬ Collects db k) : ¬ Collects db' k := by
  intro hc
  obtain hc | ⟨hnew, hno⟩ := hch.collects k hc
  · exact h hc
  · obtain hn | ⟨x, -, m, hm, -, rfl⟩ := ht
    · obtain ⟨r, hr, -, -, hr', -⟩ := ho
      exact hno r hr (hr'.trans hn)
    · exact hnew (hkeys.mem_ids hm)

theorem RunOk.change (hkeys : Keys db) (ho : Origin c db e) (hch : BatchChange db db')
    (h : RunOk c now db e φ) : RunOk c now db' e φ := by
  have hdue : ∀ t, DueBy db e t → DueBy db' e t := fun t hd r hr => hd r (hch.events ▸ hr)
  cases φ with
  | start | failed => exact h
  | skipped =>
    obtain ⟨x, hx, m, hm, hkey, hno⟩ := h
    refine ⟨x, hx, m, hch.messages m hm, hkey, ?_⟩
    exact not_collects_change hkeys ho hch (.inr ⟨x, hx, m, hm, hkey, rfl⟩) hno
  | evaluating k => exact Target.mono h hch.messages
  | waiting k st w =>
    obtain ⟨h1, h2, h3, h4, h5⟩ := h
    exact ⟨h1.mono hch.messages, h2, h3, h4, hdue _ h5⟩
  | timed k st w t =>
    obtain ⟨h1, h2, h3, h4, h5⟩ := h
    exact ⟨h1.mono hch.messages, h2, h3, h4, hdue _ h5⟩
  | flushing k st => exact ⟨h.1.mono hch.messages, h.2⟩
  | closed k =>
    exact ⟨h.1.mono hch.messages, not_collects_change hkeys ho hch h.1 h.2⟩
  | scheduled k runAfter =>
    obtain ⟨h1, h2, hf⟩ := h
    exact ⟨h1.mono hch.messages, hdue _ h2, hch.events ▸ hf⟩
  | failedAt t => exact hdue t h

/-- In the phases in which a run may mark its event done, the event is justified. -/
theorem justified_of_allowed (ho : Origin c db e) (h : RunOk c now db e φ)
    (hallowed : (evaluation c e).allowed φ .markDone) (hid : (db.events.map (·.id)).Nodup)
    {r : EventRow} (hr : r ∈ db.events) (hh : holds e.id e.leaseToken r = true) :
    Justified c db r := by
  obtain ⟨r0, hr0, hr0id, -, hn, hd⟩ := ho
  obtain rfl : r = r0 := eq_of_key hid hr hr0 ((Queue.holds_iff.mp hh).1.trans hr0id.symm)
  obtain rfl | ⟨k, rfl⟩ | ⟨k, runAfter, rfl⟩ | ⟨hinbound, hflush⟩ := hallowed
  · obtain ⟨x, hx, m, hm, hkey, hno⟩ := h
    refine ⟨fun k hk => ?_, fun x' hx' => ?_⟩
    · rw [hn, namedBatch_of_delivered hx] at hk
      cases hk
    · obtain rfl := Option.some.inj ((hd.trans hx).symm.trans hx')
      exact ⟨m, hm, hkey, fun hc => absurd hc hno⟩
  · obtain ⟨ht, hno⟩ := h
    obtain hk0 | ⟨x, hx, m, hm, hkey, rfl⟩ := ht
    · refine ⟨fun k' hk' hc => ?_, fun x' hx' => ?_⟩
      · obtain rfl := Option.some.inj ((hn.trans hk0).symm.trans hk')
        exact absurd hc hno
      · rw [namedBatch_of_delivered (hd.symm.trans hx')] at hk0
        cases hk0
    · refine ⟨fun k' hk' => ?_, fun x' hx' => ?_⟩
      · rw [hn, namedBatch_of_delivered hx] at hk'
        cases hk'
      · obtain rfl := Option.some.inj ((hd.trans hx).symm.trans hx')
        exact ⟨m, hm, hkey, fun hc => absurd hc hno⟩
  · obtain ⟨ht, hdue, f, hf, hflush, hle⟩ := h
    have hlt := hdue r hr hh
    obtain hk0 | ⟨x, hx, m, hm, hkey, rfl⟩ := ht
    · refine ⟨fun k' hk' _ => ?_, fun x' hx' => ?_⟩
      · obtain rfl := Option.some.inj ((hn.trans hk0).symm.trans hk')
        exact ⟨f, hf, hflush, by omega⟩
      · rw [namedBatch_of_delivered (hd.symm.trans hx')] at hk0
        cases hk0
    · refine ⟨fun k' hk' => ?_, fun x' hx' => ?_⟩
      · rw [hn, namedBatch_of_delivered hx] at hk'
        cases hk'
      · obtain rfl := Option.some.inj ((hd.trans hx).symm.trans hx')
        exact ⟨m, hm, hkey, fun _ => ⟨f, hf, hflush⟩⟩
  · refine ⟨fun k hk => ?_, fun x hx => ?_⟩
    · rw [hn, namedBatch, if_neg hflush] at hk
      cases hk
    · rw [hd, deliveredMessage, if_neg hinbound] at hx
      cases hx

/-- What a step of some run keeps for the tables and for every run. -/
structure Progress (c : Config) (now : Int) (db db' : Tables) : Prop where
  keys : Keys db'
  wake : Wake c now db'
  origin : ∀ e, Origin c db e → Origin c db' e
  ok : ∀ e φ, Origin c db e → RunOk c now db e φ → RunOk c now db' e φ

theorem Progress.refl (hkeys : Keys db) (hwake : Wake c now db) : Progress c now db db :=
  ⟨hkeys, hwake, fun _ h => h, fun _ _ _ h => h⟩

theorem Progress.trans {db'' : Tables} (h : Progress c now db db') (h' : Progress c now db' db'') :
    Progress c now db db'' :=
  ⟨h'.keys, h'.wake, fun e he => h'.origin e (h.origin e he),
    fun e φ he hφ => h'.ok e φ (h.origin e he) (h.ok e φ he hφ)⟩

theorem Progress.apply (op : QueueOp) (hkeys : Keys db) (hwake : Wake c now db)
    (hop : Forward db.events op) (hclaim : ∀ a, op ≠ .claimDue a)
    (hdone : ∀ e k t, op = .markDone e k t → ∀ r ∈ db.events, holds e k r = true →
      Justified c db r) :
    Progress c now db { db with events := Queue.apply db.events op } where
  keys := hkeys.heads rfl rfl
  wake := hwake.apply hop le_rfl (fun a ha => absurd ha (hclaim a)) hdone
  origin _ h := h.apply hwake.ids op
  ok _ _ _ h := h.apply hwake.ids hop fun a ha => absurd ha (hclaim a)

theorem Progress.enqueue (hkeys : Keys db) (hwake : Wake c now db) (a : EnqueueArgs) :
    Progress c now db { db with events := Queue.apply db.events (.enqueue a) } :=
  .apply (.enqueue a) hkeys hwake (fun _ _ _ _ _ h => nomatch h) (fun _ h => nomatch h)
    fun _ _ _ h => nomatch h

theorem Progress.change (hkeys : Keys db) (hwake : Wake c now db) (hch : BatchChange db db')
    (hkeys' : Keys db')
    (hsource : ∀ m ∈ db'.messages, m ∈ db.messages ∨ ∃ r ∈ db.events, r.recipient = c.recipient ∧
      ∃ x, deliveredMessage (rowToQueueEvent r) = some x ∧ m.Stores x) :
    Progress c now db db' where
  keys := hkeys'
  wake := hwake.change hkeys hch hsource
  origin _ h := by
    obtain ⟨r, hr, h⟩ := h
    exact ⟨r, hch.events ▸ hr, h⟩
  ok _ _ ho h := h.change hkeys ho hch

theorem routeBatch_progress {a : RouteArgs} {eventId : String} {t eventNow : Int} {b : Bool}
    (hkeys : Keys db) (hwake : Wake c now db)
    (h : routeBatch db a eventId t eventNow = .ok (db', b)) :
    Progress c now db db' ∧ ¬ Collects db' (a.batchId, a.tenantId, a.sourceId) := by
  obtain ⟨hb, hm, hevents⟩ := routeBatch_cases h
  have hno : ¬ Collects db' (a.batchId, a.tenantId, a.sourceId) := by
    intro hc
    rw [Collects, Tables.heads, hb] at hc
    exact (markRouted_heads db.batches a t _ hc).1 rfl
  have hfirst : Progress c now db { db' with events := db.events } :=
    .change hkeys hwake (route_change a hb hm rfl) (hkeys.route a hb hm) fun m hmem => .inl (hm ▸ hmem)
  refine ⟨?_, hno⟩
  obtain he | he := hevents
  · rwa [← he] at hfirst
  · have hsecond := Progress.enqueue hfirst.keys hfirst.wake (a.event eventId eventNow)
    have hall := hfirst.trans hsecond
    rwa [← he] at hall

/-- A deadline lies after the time at which the batch was found waiting. -/
theorem nextFlushDeadline_gt {firstMessageAt lastMessageAt t quietWindowS maxWindowS loaded : Int}
    (hwait : loaded < firstMessageAt + maxWindowS) (ht : loaded ≤ t) :
    loaded < nextFlushDeadline firstMessageAt lastMessageAt t quietWindowS maxWindowS := by
  unfold nextFlushDeadline
  dsimp only
  split
  · omega
  · split <;> omega

theorem now_lt_of_wait {st : BatchState} (hm : st.messages ≠ [])
    (h : (decideBatch (some st)).action ≠ .flush) : st.now < st.firstMessageAt + st.maxWindowS := by
  by_contra hge
  refine h ?_
  have helapsed : st.maxWindowElapsed = true := by
    simp only [BatchState.maxWindowElapsed, decide_eq_true_eq]
    omega
  have hforce : (rules.filter fun r => r.predicate st).any (fun r => r.decision = .forceFlush) =
      true := by
    have hrule : BatchRule.mk "max_window_elapsed" .forceFlush 100 "max batch window elapsed"
        BatchState.maxWindowElapsed ∈ rules := by simp [rules]
    exact List.any_eq_true.mpr ⟨_, List.mem_filter.mpr ⟨hrule, helapsed⟩, rfl⟩
  simp only [decideBatch, if_neg hm, hforce, if_true]

theorem loadState_cases (extractFeatures : Json → Option Json → MessageFeatures) (w : Windows)
    (k : Address) (t : Int) (hkeys : Keys db) :
    (loadState extractFeatures db k.1 k.2.1 k.2.2 w t = none ∧ ¬ Collects db k) ∨
    ∃ st, loadState extractFeatures db k.1 k.2.1 k.2.2 w t = some st ∧
      (st.batchId, st.tenantId, st.sourceId) = k ∧ st.now = t ∧ st.maxWindowS = w.maxWindowS ∧
      st.messages ≠ [] := by
  cases h : loadState extractFeatures db k.1 k.2.1 k.2.2 w t with
  | none =>
    refine .inl ⟨rfl, fun hc => ?_⟩
    obtain ⟨b, hb, he⟩ := List.mem_map.mp hc
    simp only [BatchRow.head, Prod.mk.injEq] at he
    have hnone := List.find?_eq_none.mp (Option.map_eq_none_iff.mp h) b hb
    exact hnone (by simp [isBatch, he])
  | some st =>
    refine .inr ⟨st, rfl, ?_⟩
    have hmsgs := loadState_some h
    obtain ⟨b, hb, rfl⟩ := Option.map_eq_some_iff.mp h
    have hp := List.find?_some hb
    simp only [isBatch, Bool.and_eq_true, decide_eq_true_eq] at hp
    obtain ⟨⟨⟨hid, ht⟩, hs⟩, -⟩ := hp
    refine ⟨by simp [ht, hs], rfl, rfl, fun hnil => ?_⟩
    obtain ⟨m, hm, haddr⟩ := hkeys.nonempty b.head (List.mem_map_of_mem (List.mem_of_find?_eq_some hb))
    have hmem : m.payload ∈ batchMessages db k.1 k.2.1 k.2.2 := by
      refine mem_batchMessages.mpr ⟨m, hm, ?_, rfl⟩
      simp only [BatchMessageRow.address, BatchRow.head, Prod.mk.injEq] at haddr
      simp [inBatch, haddr, hid, ht, hs]
    dsimp only at hnil
    rw [hnil] at hmem
    cases hmem

/-- After an enqueued flush its batch has a flush event that is as late as asked. -/
theorem enqueue_flush {t' : List EventRow} {eventId causationId : String} {st : BatchState}
    {runAfter t : Int} {r : Option String} (hwake : Wake c now db)
    (h : enqueue db.events (flushEvent eventId c.recipient st causationId runAfter t) =
      .ok (t', r)) :
    ∃ f ∈ t', IsFlush c f (st.batchId, st.tenantId, st.sourceId) ∧ runAfter ≤ f.runAfter := by
  have hnamed : ∀ f : EventRow, f.tenantId = st.tenantId → f.messageType = "FlushInboundBatch" →
      f.payload = (flushEvent eventId c.recipient st causationId runAfter t).payload →
      namedBatch (rowToQueueEvent f) = some (st.batchId, st.tenantId, st.sourceId) := by
    intro f ht hm hp
    simp [namedBatch, rowToQueueEvent, ht, hm, hp, flushEvent, Json.get?, Json.toStr]
  obtain ⟨rfl, -, -, -⟩ | ⟨rfl, -, x, hx, hreplay⟩ := enqueue_ok h
  · refine ⟨_, List.mem_append_right _ (List.mem_singleton_self _), ⟨rfl, hnamed _ rfl rfl rfl⟩, ?_⟩
    exact le_rfl
  · have hmem := List.mem_of_find?_eq_some hx
    have hkey := List.find?_some hx
    simp only [Bool.and_eq_true, decide_eq_true_eq] at hkey
    obtain ⟨b, hf, hrec, hm, hp, hrun⟩ := hwake.stamped x hmem
    simp only [replayMatches, hf, decide_eq_true_eq] at hreplay
    simp only [EnqueueArgs.fingerprint, Soveren.idempotencyFingerprint, Json.obj.injEq,
      List.cons.injEq, Prod.mk.injEq, Json.str.injEq, true_and] at hreplay
    obtain ⟨-, -, -, htype, hpay, -, hrecipient, hafter, -⟩ := hreplay
    refine ⟨x, hmem, ⟨hrec.trans hrecipient, hnamed x hkey.1 (hm.trans htype) (hp.trans hpay)⟩, ?_⟩
    refine hrun runAfter ?_
    cases hb : b.runAfter with
    | none => simp [hb, Json.ofInt?, flushEvent] at hafter
    | some D => simpa [hb, Json.ofInt?, flushEvent] using hafter

theorem deliveredMessage_tenant {x : InboundMessage} (h : deliveredMessage e = some x) :
    x.tenantId = e.tenantId := by
  unfold deliveredMessage at h
  split at h
  · have hm : messageFromEvent e = .ok x := by
      cases hm : messageFromEvent e with
      | error text => simp [hm, Except.toOption] at h
      | ok y => simpa [hm, Except.toOption] using h
    unfold messageFromEvent at hm
    split at hm
    · obtain ⟨channel, -, hm⟩ := bind_eq_ok hm
      obtain ⟨sourceId, -, hm⟩ := bind_eq_ok hm
      obtain ⟨rawEventId, -, hm⟩ := bind_eq_ok hm
      split at hm
      · dsimp only at hm
        split at hm
        · exact Except.ok.inj hm ▸ rfl
        · split at hm
          · cases hm
          · exact Except.ok.inj hm ▸ rfl
        · cases hm
      · cases hm
    · cases hm
  · cases h

theorem Wake.dueBy (h : Wake c now db) (e : QueueEvent) : DueBy db e now :=
  fun r hr hh => h.leased r hr (Queue.holds_iff.mp hh).2.1

theorem Wake.mono_clock (h : Wake c now db) (hnow : now ≤ now') : Wake c now' db :=
  ⟨h.ids, h.stamped, fun r hr hst => (h.leased r hr hst).trans hnow, h.source, h.justified⟩

theorem RunOk.afterTime (hwake : Wake c now db) (h : RunOk c now db e φ) :
    RunOk c now db e (φ.afterTime now) := by
  cases φ with
  | waiting k st w => exact h
  | start | skipped | evaluating | timed | flushing | closed | scheduled | failed | failedAt =>
    exact hwake.dueBy e

/-- A stored batch that does not collect. -/
theorem Keys.not_collects (h : Keys db) {m : BatchMessageRow} {b : BatchRow} (hb : b ∈ db.batches)
    (hid : b.id = m.batchId) (hst : b.status ≠ .collecting) : ¬ Collects db m.address := by
  intro hc
  have hhead := eq_of_key h.batchIds (List.mem_map_of_mem hb) hc hid
  simp only [BatchRow.head, Prod.mk.injEq] at hhead
  exact hst hhead.2.2.2

/-- Storing the event's message. -/
theorem append_progress {x : InboundMessage} {d : Drawn} {r : Option String} {t : Int}
    (hkeys : Keys db) (hwake : Wake c now db) (ho : Origin c db e)
    (hx : deliveredMessage e = some x) (hfresh : BatchIdFresh db d)
    (h : appendInboundMessage db x d t = .ok (db', r)) :
    Progress c now db db' ∧ RunOk c now db' e (Phase.afterAppend e x (.ok r)) := by
  have hprogress : Progress c now db db' := by
    refine .change hkeys hwake (append_change hfresh h) (hkeys.append h) fun y hy => ?_
    obtain ⟨rfl, -⟩ | ⟨m, hmsgs, -, hstores, -⟩ := appendInboundMessage_cases h
    · exact .inl hy
    · refine (List.mem_append.mp (hmsgs ▸ hy)).imp id fun hm => ?_
      obtain ⟨r0, hr0, -, hrec, -, hd⟩ := ho
      exact ⟨r0, hr0, hrec, x, hd.trans hx, List.mem_singleton.mp hm ▸ hstores⟩
  refine ⟨hprogress, ?_⟩
  have hat : ∀ m : BatchMessageRow, m.key = x.key →
      m.address = (m.batchId, e.tenantId, x.sourceId) := by
    intro m hkey
    simp only [BatchMessageRow.key, InboundMessage.key, Prod.mk.injEq] at hkey
    simp [BatchMessageRow.address, hkey, deliveredMessage_tenant hx]
  obtain ⟨rfl, m, hm, hkey, b, hb, hid, rfl⟩ | ⟨m, hmsgs, -, hstores, rfl, -⟩ :=
    appendInboundMessage_cases h
  · by_cases hst : b.status = .collecting
    · rw [if_pos hst]
      exact .inr ⟨x, hx, m, hm, hkey, hat m hkey⟩
    · rw [if_neg hst]
      exact ⟨x, hx, m, hm, hkey, hkeys.not_collects hb hid hst⟩
  · refine .inr ⟨x, hx, m, ?_, hstores.1, hat m hstores.1⟩
    exact hmsgs ▸ List.mem_append_right _ (List.mem_singleton_self m)

theorem load_ok {extractFeatures : Json → Option Json → MessageFeatures} {w : Windows}
    {k : Address} (hkeys : Keys db) (hwake : Wake c now db) (ht : Target db e k) :
    RunOk c now db e (Phase.afterLoad k w (loadState extractFeatures db k.1 k.2.1 k.2.2 w now)) := by
  obtain ⟨hnone, hno⟩ | ⟨st, hsome, hk, hnow, hmax, hm⟩ :=
    loadState_cases extractFeatures w k now hkeys
  · rw [hnone]
    exact ⟨ht, hno⟩
  · rw [hsome]
    by_cases hflush : (decideBatch (some st)).action = .flush
    · rw [Phase.afterLoad, if_pos hflush]
      exact ⟨ht, hk⟩
    · rw [Phase.afterLoad, if_neg hflush]
      have hlt := now_lt_of_wait hm hflush
      exact ⟨ht, hk, hmax ▸ hlt, hnow.le, hnow ▸ hwake.dueBy e⟩

theorem storeDecision_progress (hkeys : Keys db) (hwake : Wake c now db) (batchId : String)
    (decision : BatchDecision) (tenantId sourceId : String) (state : Option BatchState) (t : Int) :
    Progress c now db (storeDecision db batchId decision tenantId sourceId state t) := by
  have hheads := storeDecision_heads db batchId decision tenantId sourceId state t
  refine .change hkeys hwake ⟨rfl, fun _ h => h, fun k hk => .inl ?_⟩ (hkeys.heads hheads rfl)
    fun _ h => .inl h
  rwa [Collects, hheads] at hk

/-- Scheduling a flush in the phase in which the deadline was computed. -/
theorem schedule_progress {t' : List EventRow} {eventId causationId : String} {st : BatchState}
    {k : Address} {w : Windows} {t t0 : Int} {r : Option String} (hkeys : Keys db)
    (hwake : Wake c now db) (ho : Origin c db e) (hok : RunOk c now db e (.timed k st w t0))
    (h : enqueue db.events (flushEvent eventId c.recipient st causationId
      (nextFlushDeadline st.firstMessageAt st.lastMessageAt t0 w.quietWindowS w.maxWindowS) t) =
        .ok (t', r)) :
    Progress c now db { db with events := t' } ∧ RunOk c now { db with events := t' } e
      (.scheduled k (nextFlushDeadline st.firstMessageAt st.lastMessageAt t0 w.quietWindowS
        w.maxWindowS)) := by
  have hflush := enqueue_flush hwake h
  have hprogress := Progress.enqueue hkeys hwake (flushEvent eventId c.recipient st causationId
    (nextFlushDeadline st.firstMessageAt st.lastMessageAt t0 w.quietWindowS w.maxWindowS) t)
  simp only [Queue.apply, h] at hprogress
  obtain ⟨ht, hk, -, -, hdue⟩ := hprogress.ok e _ ho hok
  obtain ⟨-, -, hwait, hle, -⟩ := hok
  have hlt : st.now < nextFlushDeadline st.firstMessageAt st.lastMessageAt t0 w.quietWindowS
      w.maxWindowS := nextFlushDeadline_gt hwait hle
  refine ⟨hprogress, ht, fun r hr hh => ?_, hk ▸ hflush⟩
  have := hdue r hr hh
  omega

/-- What an allowed operation of a run leaves for the tables, the other runs and the run. -/
theorem performOp_progress (extractFeatures : Json → Option Json → MessageFeatures) {o : Op}
    {d : Drawn} (hkeys : Keys db) (hwake : Wake c now db) (ho : Origin c db e) (hok : RunOk c now db e φ) (hallowed : (evaluation c e).allowed φ o)
    (hfresh : BatchIdFresh db d) :
    Progress c now db (performOp extractFeatures db e now d o).1 ∧
      RunOk c now (performOp extractFeatures db e now d o).1 e
        ((evaluation c e).next φ o (performOp extractFeatures db e now d o).2) := by
  cases o with
  | time => exact ⟨.refl hkeys hwake, hok.afterTime hwake⟩
  | appendInboundMessage x =>
    obtain ⟨rfl, hx⟩ := hallowed
    simp only [performOp]
    cases h : appendInboundMessage db x d now with
    | error err => exact ⟨.refl hkeys hwake, trivial⟩
    | ok p => exact append_progress hkeys hwake ho hx hfresh h
  | loadState batchId tenantId sourceId w =>
    refine ⟨.refl hkeys hwake, load_ok (k := (batchId, tenantId, sourceId)) hkeys hwake ?_⟩
    obtain rfl | ⟨-, hn⟩ := hallowed
    · exact hok
    · exact .inl hn
  | storeDecision batchId decision tenantId sourceId state =>
    have h := storeDecision_progress hkeys hwake batchId decision tenantId sourceId state now
    exact ⟨h, h.ok e φ ho hok⟩
  | routeBatch a =>
    obtain ⟨k, st, rfl, ha⟩ := hallowed
    simp only [performOp]
    cases h : routeBatch db a d.eventId now now with
    | error err => exact ⟨.refl hkeys hwake, trivial⟩
    | ok p =>
      obtain ⟨hprogress, hno⟩ := routeBatch_progress hkeys hwake h
      obtain ⟨ht, hk⟩ := hprogress.ok e _ ho hok
      exact ⟨hprogress, ht, by rwa [← hk, ← ha]⟩
  | enqueueFlush recipient st causationId runAfter =>
    obtain ⟨rfl, k, w, t0, rfl, rfl⟩ := hallowed
    simp only [performOp]
    cases h : enqueue db.events (flushEvent d.eventId c.recipient st causationId
      (nextFlushDeadline st.firstMessageAt st.lastMessageAt t0 w.quietWindowS w.maxWindowS) now) with
    | error err => exact ⟨.refl hkeys hwake, trivial⟩
    | ok p => exact schedule_progress hkeys hwake ho hok h
  | markDone =>
    have hdone : ∀ i k t, QueueOp.markDone e.id e.leaseToken now = .markDone i k t →
        ∀ r ∈ db.events, holds i k r = true → Justified c db r := by
      intro i k t he r hr hh
      obtain ⟨rfl, rfl, rfl⟩ := QueueOp.markDone.inj he
      exact justified_of_allowed ho hok hallowed hwake.ids hr hh
    have h := Progress.apply (.markDone e.id e.leaseToken now) hkeys hwake
      (fun _ _ _ _ _ h => nomatch h) (fun _ h => nomatch h) hdone
    exact ⟨h, h.ok e φ ho hok⟩
  | markRetry runAfter lastError =>
    obtain ⟨t, rfl, rfl⟩ := hallowed
    have hforward : Forward db.events
        (.markRetry e.id e.leaseToken (t + retryBackoffS) lastError now) := by
      intro i k runAfter text t' he r hr hh
      obtain ⟨rfl, rfl, rfl, -⟩ := QueueOp.markRetry.inj he
      have hle : r.runAfter ≤ t := hok r hr hh
      simp only [retryBackoffS]
      omega
    have h := Progress.apply (.markRetry e.id e.leaseToken (t + retryBackoffS) lastError now) hkeys
      hwake hforward (fun _ h => nomatch h) fun _ _ _ h => nomatch h
    exact ⟨h, h.ok e _ ho hok⟩

end Runs

structure SystemWake (c : Config) (now : Int) (s : System) : Prop where
  keys : Keys s.tables
  wake : Wake c now s.tables
  runs : ∀ run ∈ s.runs, RunWake c now s.tables run

def Label.now : Label → Int
  | .enqueue a => a.now
  | .claim a _ => a.now
  | .renew _ _ _ now => now
  | .advance _ now _ => now

/-- The workers claim the events of their recipient; drawn lease tokens and batch ids are new. -/
def DrawsFresh (c : Config) (s : System) : Label → Prop
  | .claim a _ => a.recipient = c.recipient ∧ ∀ run ∈ s.runs, a.leaseToken ≠ run.event.leaseToken
  | .advance _ _ d => BatchIdFresh s.tables d
  | .enqueue _ | .renew _ _ _ _ => True

instance (c : Config) (s : System) (l : Label) : Decidable (DrawsFresh c s l) := by
  cases l <;> unfold DrawsFresh <;> infer_instance

section Steps

variable {extractFeatures : Json → Option Json → MessageFeatures} {c : Config} {now : Int}

theorem systemWake_empty (c : Config) (now : Int) : SystemWake c now {} :=
  ⟨⟨by simp [Tables.heads], by simp, by simp, by simp [Tables.heads]⟩,
    ⟨by simp, by simp, by simp, by simp, by simp⟩, by simp⟩

/-- A queue call that no run of the pool makes. -/
theorem SystemWake.apply {s : System} {now' : Int} (h : SystemWake c now s) (op : QueueOp)
    (hle : now ≤ now') (hop : Forward s.tables.events op)
    (hclaim : ∀ a, op = .claimDue a → a.now ≤ now' ∧
      ∀ run ∈ s.runs, a.leaseToken ≠ run.event.leaseToken)
    (hdone : ∀ e k t, op ≠ .markDone e k t) :
    SystemWake c now' { s with tables.events := Queue.apply s.tables.events op } where
  keys := h.keys.heads rfl rfl
  wake := h.wake.apply hop hle (fun a ha => (hclaim a ha).1) fun e k t he => absurd he (hdone e k t)
  runs run hrun := by
    obtain ⟨ho, φ, hf, hok⟩ := h.runs run hrun
    refine ⟨ho.apply h.wake.ids op, φ, hf, ?_⟩
    exact (hok.mono_clock hle).apply h.wake.ids hop fun a ha => (hclaim a ha).2 run hrun

theorem claimed_recipient {t t' rows : List EventRow} {a : ClaimArgs} {r : EventRow}
    (hid : (t.map (·.id)).Nodup) (h : claimDue t a = .ok (t', rows)) (hr : r ∈ rows) :
    r.recipient = a.recipient := by
  obtain ⟨hr', hin⟩ := (mem_claimed h).mp hr
  rw [claimDue_rows h] at hr'
  obtain ⟨x, hx, hp, rfl⟩ | ⟨-, hn⟩ := mem_updateWhere.mp hr'
  · have hc := isCandidate_of_mem_claimIds hid hx (List.contains_iff_mem.mp hp)
    simp only [ClaimArgs.isCandidate, ClaimArgs.inScope, Bool.and_eq_true, decide_eq_true_eq] at hc
    exact hc.1.1.1
  · simp [hin] at hn

theorem advance_systemWake {s t : System} {i : ℕ} {now' : Int} {d : Drawn}
    (h : SystemWake c now s) (hfresh : BatchIdFresh s.tables d) (hle : now ≤ now')
    (hstep : advance extractFeatures s i now' d = some t) : SystemWake c now' t := by
  unfold advance at hstep
  cases hrun : s.runs[i]? with
  | none => simp [hrun] at hstep
  | some run =>
    obtain ⟨ho, φ, hfollows, hok⟩ := h.runs run (List.mem_of_getElem? hrun)
    cases hprog : run.program with
    | ret a => simp [hrun, hprog] at hstep
    | call o k =>
      simp only [hrun, hprog, Option.some.injEq] at hstep
      subst hstep
      rw [hprog] at hfollows
      obtain ⟨hprogress, hnext⟩ := performOp_progress extractFeatures h.keys
        (h.wake.mono_clock hle) ho (hok.mono_clock hle) hfollows.1 hfresh
      refine ⟨hprogress.keys, hprogress.wake, forall_set (fun y hy => ?_) ?_⟩
      · obtain ⟨hoy, ψ, hf, hy⟩ := h.runs y hy
        exact ⟨hprogress.origin _ hoy, ψ, hf, hprogress.ok _ ψ hoy (hy.mono_clock hle)⟩
      · exact ⟨hprogress.origin _ ho, _, hfollows.2 _, hnext⟩

theorem step_systemWake {s t : System} {l : Label} (h : SystemWake c now s)
    (hfresh : DrawsFresh c s l) (hle : now ≤ l.now)
    (hstep : step extractFeatures c s l = some t) : SystemWake c l.now t := by
  cases l with
  | enqueue a =>
    have hinv := h.apply (.enqueue a) hle (fun _ _ _ _ _ h => by cases h)
      (fun _ h => by cases h) fun _ _ _ h => by cases h
    simp only [step] at hstep
    cases henq : enqueue s.tables.events a with
    | error e =>
      simp only [henq, Option.some.injEq] at hstep
      simp only [Queue.apply, henq] at hinv
      exact hstep ▸ hinv
    | ok p =>
      simp only [henq, Option.some.injEq] at hstep
      simp only [Queue.apply, henq] at hinv
      exact hstep ▸ hinv
  | claim a w =>
    have hinv := h.apply (.claimDue a) hle (fun _ _ _ _ _ h => by cases h)
      (fun b hb => QueueOp.claimDue.inj hb ▸ ⟨le_rfl, hfresh.2⟩) fun _ _ _ h => by cases h
    simp only [step] at hstep
    cases hcl : claimDue s.tables.events a with
    | error e =>
      simp only [hcl, Option.some.injEq] at hstep
      simp only [Queue.apply, hcl] at hinv
      exact hstep ▸ hinv
    | ok p =>
      simp only [hcl, Option.some.injEq] at hstep
      simp only [Queue.apply, hcl] at hinv
      subst hstep
      refine ⟨hinv.keys, hinv.wake, fun run hrun => ?_⟩
      obtain hrun | hrun := List.mem_append.mp hrun
      · exact hinv.runs run hrun
      · obtain ⟨r, hr, rfl⟩ := List.mem_map.mp hrun
        have hrec := claimed_recipient h.wake.ids hcl hr
        refine ⟨⟨r, ((mem_claimed hcl).mp hr).1, rfl, hrec.trans hfresh.1, rfl, rfl⟩, ?_⟩
        exact ⟨.start, process_evaluates w (rowToQueueEvent r), trivial⟩
  | renew eventId leaseToken leaseSeconds now' =>
    have hinv := h.apply (.renewLease eventId leaseToken leaseSeconds now') hle
      (fun _ _ _ _ _ h => by cases h) (fun _ h => by cases h) fun _ _ _ h => by cases h
    simp only [step] at hstep
    cases hr : renewLease s.tables.events eventId leaseToken leaseSeconds now' with
    | error e =>
      simp only [hr, Option.some.injEq] at hstep
      simp only [Queue.apply, hr] at hinv
      exact hstep ▸ hinv
    | ok p =>
      simp only [hr, Option.some.injEq] at hstep
      simp only [Queue.apply, hr] at hinv
      exact hstep ▸ hinv
  | advance i now' d => exact advance_systemWake h hfresh hle hstep

end Steps

/-- Processing the event evaluates the batch: it is a flush event that names the batch, or the
event of one of its messages. -/
def Evaluates (db : Tables) (r : EventRow) (b : BatchRow) : Prop :=
  namedBatch (rowToQueueEvent r) = some (b.id, b.tenantId, b.sourceId) ∨
    ∃ x, deliveredMessage (rowToQueueEvent r) = some x ∧
      ∃ m ∈ db.messages, m.address = (b.id, b.tenantId, b.sourceId) ∧ m.Stores x

/-- A live event. -/
def EventRow.Live (r : EventRow) : Prop :=
  r.status = .queued ∨ r.status = .leased ∨ r.status = .retrying

theorem live_of_open {r : EventRow} (hdone : r.status ≠ .done) (hdead : r.status ≠ .deadLetter) :
    EventRow.Live r := by
  unfold EventRow.Live
  cases h : r.status with
  | queued | leased | retrying => simp
  | done => exact absurd h hdone
  | deadLetter => exact absurd h hdead

/-- The latest flush event of a collecting batch is not done. -/
theorem Wake.exists_open_flush {c : Config} {now : Int} {db : Tables} {k : Address}
    (h : Wake c now db) (hc : Collects db k) (hf : ∃ f ∈ db.events, IsFlush c f k) :
    ∃ f ∈ db.events, IsFlush c f k ∧ f.status ≠ .done := by
  have hfin : {f | f ∈ db.events ∧ IsFlush c f k}.Finite :=
    (List.finite_toSet db.events).subset fun f hf => hf.1
  obtain ⟨f, ⟨hmem, hflush⟩, hmax⟩ := Set.exists_max_image _ (fun f => f.runAfter) hfin hf
  refine ⟨f, hmem, hflush, fun hdone => ?_⟩
  obtain ⟨f', hmem', hflush', hlt⟩ := (h.justified f hmem hdone).flush k hflush.2 hc
  exact absurd (hmax f' ⟨hmem', hflush'⟩) (not_le.mpr hlt)

/-- In every state that workers reach over a clock that does not go back, while no event of their
recipient is dead-lettered, each collecting batch with a message has a live event that evaluates
it. -/
theorem no_stranded_batch (extractFeatures : Json → Option Json → MessageFeatures) (c : Config)
    (ls : List Label) (s : System) (hclock : (ls.map Label.now).Pairwise (· ≤ ·))
    (hm : Meets (step extractFeatures c) (DrawsFresh c) {} ls)
    (h : exec (step extractFeatures c) {} ls = some s)
    (hdead : ∀ r ∈ s.tables.events, r.recipient = c.recipient → r.status ≠ .deadLetter) :
    ∀ b ∈ s.tables.batches, b.status = .collecting →
      (∃ m ∈ s.tables.messages, m.address = (b.id, b.tenantId, b.sourceId)) →
      ∃ r ∈ s.tables.events, r.recipient = c.recipient ∧ EventRow.Live r ∧
        Evaluates s.tables r b := by
  obtain ⟨now, hwake⟩ : ∃ now, SystemWake c now s := by
    cases ls with
    | nil => exact ⟨0, Option.some.inj h ▸ systemWake_empty c 0⟩
    | cons l ls =>
      have htimes : (l :: ls).filterMap (some ∘ Label.now) = (l :: ls).map Label.now := by
        rw [List.filterMap_eq_map]
      refine exec_invariant_clocked (some ∘ Label.now)
        (fun _ _ _ _ hI hC hle hS => step_systemWake hI hC (hle _ rfl) hS) (systemWake_empty c l.now)
        (fun n hn => ?_) (by rw [htimes]; exact hclock) hm h
      rw [htimes] at hn
      obtain rfl | hn := List.mem_cons.mp hn
      · exact le_rfl
      · exact (List.pairwise_cons.mp hclock).1 n hn
  intro b hb hst ⟨m, hmem, haddr⟩
  have hc : Collects s.tables (b.id, b.tenantId, b.sourceId) :=
    List.mem_map.mpr ⟨b, hb, by simp [BatchRow.head, hst]⟩
  by_cases hf : ∃ f ∈ s.tables.events, IsFlush c f (b.id, b.tenantId, b.sourceId)
  · obtain ⟨f, hfmem, hflush, hopen⟩ := hwake.wake.exists_open_flush hc hf
    exact ⟨f, hfmem, hflush.1, live_of_open hopen (hdead f hfmem hflush.1), .inl hflush.2⟩
  · obtain ⟨r, hr, hrec, x, hx, hstores⟩ := hwake.wake.source m hmem
    refine ⟨r, hr, hrec, live_of_open (fun hdone => hf ?_) (hdead r hr hrec), ?_⟩
    · obtain ⟨m', hm', hkey, hflush⟩ := (hwake.wake.justified r hr hdone).delivery x hx
      obtain rfl := eq_of_key hwake.keys.messageKeys hm' hmem (hkey.trans hstores.1.symm)
      exact haddr ▸ hflush (haddr ▸ hc)
    · exact .inr ⟨x, hx, m, hmem, haddr, hstores⟩

/-- A message whose event is done before its batch is flushed. -/
def waitingBatch : List Label := [.enqueue (received "evt_1" "r1"),
  .claim { claimOne "w0" "k0" with now := 1 } {},
  .advance 0 1 { batchHex := "1", messageHex := "1", historyHex := "1" },
  .advance 0 1 {}, .advance 0 1 {}, .advance 0 1 {}, .advance 0 1 { eventId := "evt_2" },
  .advance 0 1 {}]

theorem no_stranded_batch_waiting :
    ∃ s, exec (step (fun _ _ => {}) {}) {} waitingBatch = some s ∧
      s.tables.batches.map (fun b => (b.id, b.status)) = [("ib_1", .collecting)] ∧
      s.tables.events.map (fun r => (r.id, r.status)) = [("evt_1", .done), ("evt_2", .queued)] ∧
      ∀ b ∈ s.tables.batches, b.status = .collecting →
        (∃ m ∈ s.tables.messages, m.address = (b.id, b.tenantId, b.sourceId)) →
        ∃ r ∈ s.tables.events, r.recipient = "batching" ∧ EventRow.Live r ∧
          Evaluates s.tables r b := by
  have h : (exec (step (fun _ _ => {}) {}) {} waitingBatch).map
      (fun s => (s.tables.batches.map (fun b => (b.id, b.status)),
        s.tables.events.map (fun r => (r.id, r.status)))) =
        some ([("ib_1", .collecting)], [("evt_1", .done), ("evt_2", .queued)]) := by
    decide +kernel
  obtain ⟨s, hs, hrows⟩ := Option.map_eq_some_iff.mp h
  obtain ⟨hbatches, hevents⟩ := Prod.mk.inj hrows
  have hm : Meets (step (fun _ _ => {}) {}) (DrawsFresh {}) {} waitingBatch := by decide +kernel
  refine ⟨s, hs, hbatches, hevents, ?_⟩
  refine no_stranded_batch _ {} waitingBatch s (by decide +kernel) hm hs fun r hr _ hdead => ?_
  have hmem : (r.id, r.status) ∈ s.tables.events.map (fun r => (r.id, r.status)) :=
    List.mem_map_of_mem hr
  rw [hevents, hdead] at hmem
  simp at hmem

end Soveren.Batching
