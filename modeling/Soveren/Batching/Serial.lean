import Soveren.Batching.Wakeup

/-! One batching worker that processes its events one after the other. A flush is scheduled under a key that
names the batch and the deadline, while the queue compares the whole command with the one that it has under
the key, the causing event included. -/
namespace Soveren.Batching
open Soveren.Relational Soveren.Process Soveren.Queue Soveren.Run

def flushKey (batchId : String) (runAfter : Int) : String :=
  "inbound-batch-flush:" ++ batchId ++ ":" ++ toString runAfter

def Op.isRetry : Op → Bool
  | .markRetry _ _ => true
  | .time | .appendInboundMessage _ | .loadState _ _ _ _ | .storeDecision _ _ _ _ _ | .routeBatch _
  | .enqueueFlush _ _ _ _ | .markDone => false

namespace Serial

/-- The tables, and the operations of all calls of `_process` so far. -/
structure State where
  tables : Tables := {}
  performed : List Op := []

inductive Label where
  /-- a call of the queue by anyone: a producer's enqueue, a claim, a renewal -/
  | queue (op : QueueOp)
  /-- one call of `_process`, with the clock at each of its operations and the ids it draws -/
  | turn (e : QueueEvent) (w : Windows) (clock : ℕ → Int) (d : Drawn)

section System

variable (extractFeatures : Json → Option Json → MessageFeatures) (c : Config)

def serve (e : QueueEvent) (clock : ℕ → Int) (d : Drawn) (n : ℕ) (db : Tables) (o : Op) : Tables × Res o :=
  performOp extractFeatures db e (clock n) d o

def step (s : State) : Label → Option State
  | .queue op => some { s with tables.events := Queue.apply s.tables.events op }
  | .turn e w clock d =>
    let r := Proc.runAlone (serve extractFeatures e clock d) 0 s.tables (process c w e)
    some ⟨r.1, s.performed ++ r.2.1⟩

/-- The drawn ids are new. -/
def Fresh (db : Tables) (d : Drawn) : Prop :=
  "ib_" ++ d.batchHex ∉ db.batches.map (·.id) ∧ "ibm_" ++ d.messageHex ∉ db.messages.map (·.id) ∧
    "history_" ++ d.historyHex ∉ db.history.map (·.id) ∧ d.eventId ∉ db.events.map (·.id)

instance (db : Tables) (d : Drawn) : Decidable (Fresh db d) := by
  unfold Fresh
  infer_instance

/-- The text of a message is a text or absent. -/
def isText : Json → Bool
  | .null | .str _ => true
  | _ => false

/-- The event delivers a message with a new raw event id. -/
def delivers (db : Tables) (e : QueueEvent) : Bool :=
  !Text.blank e.tenantId &&
    (deliveredMessage e).any fun m => isText m.text && !(db.messages.map (·.key)).contains m.key

/-- Well-formed events of the two types, with new raw event ids, and keys of other producers. -/
def Expected (s : State) : Label → Prop
  | .queue (.enqueue a) => "inbound-batch".toList.isPrefixOf a.idempotencyKey.toList = false
  | .queue _ => True
  | .turn e _ _ d => Fresh s.tables d ∧ (delivers s.tables e = true ∨ (namedBatch e).isSome)

instance (s : State) : (l : Label) → Decidable (Expected s l)
  | .queue (.enqueue _) => inferInstanceAs (Decidable (_ = _))
  | .queue (.claimDue _) | .queue (.renewLease _ _ _ _) | .queue (.markDone _ _ _)
  | .queue (.markDeadLetter _ _ _ _) | .queue (.markRetry _ _ _ _ _) => isTrue trivial
  | .turn _ _ _ _ => inferInstanceAs (Decidable (_ ∧ (_ ∨ _)))

/-- The batch that an event has evaluated, its message being stored, and the clock when its next flush is
scheduled. -/
def evaluated (db : Tables) (e : QueueEvent) (w : Windows) (clock : ℕ → Int) (d : Drawn) :
    Option (BatchState × Int) :=
  match deliveredMessage e with
  | some m => match appendInboundMessage db m d (clock 0) with
    | .ok (db', some batchId) =>
      (loadState extractFeatures db' batchId e.tenantId m.sourceId w (clock 1)).map (·, clock 3)
    | _ => none
  | none => (namedBatch e).bind fun k =>
    (loadState extractFeatures db k.1 k.2.1 k.2.2 w (clock 0)).map (·, clock 2)

/-- The event that would schedule a flush for a deadline is the one that has already done so, if any has, and the
deadline can be stored. -/
def firstForDeadline (t : List EventRow) (e : QueueEvent) (w : Windows) (st : BatchState) (now : Int) : Bool :=
  let deadline := nextFlushDeadline st.firstMessageAt st.lastMessageAt now w.quietWindowS w.maxWindowS
  (decideBatch (some st)).action = .flush || (Fits deadline && t.all fun r =>
    !(r.tenantId = st.tenantId && r.idempotencyKey = flushKey st.batchId deadline) || r.causationId = some e.id)

/-- The message is not dated before the epoch, nor at a time that the database cannot hold. -/
def Dated (m : InboundMessage) : Prop := 0 ≤ m.messageAt ∧ Fits m.messageAt

instance (m : InboundMessage) : Decidable (Dated m) := inferInstanceAs (Decidable (_ ∧ _))

/-- Every message has a date that can be stored, every deadline can be stored as well, and no two events schedule
a flush of one batch for one deadline. -/
def Avoids (s : State) : Label → Prop
  | .queue _ => True
  | .turn e w clock d => ((deliveredMessage e).all fun m => Dated m) = true ∧
      ((evaluated extractFeatures s.tables e w clock d).all fun p =>
        firstForDeadline s.tables.events e w p.1 p.2) = true

instance (s : State) : (l : Label) → Decidable (Avoids extractFeatures s l)
  | .queue _ => isTrue trivial
  | .turn _ _ _ _ => inferInstanceAs (Decidable (_ ∧ _))

end System

section Keys

theorem flushKey_toList (batchId : String) (runAfter : Int) : (flushKey batchId runAfter).toList =
    "inbound-batch-flush:".toList ++ (batchId.toList ++ ':' :: (toString runAfter).toList) := by
  have hcolon : ":".toList = [':'] := by decide
  unfold flushKey
  simp only [String.toList_append, List.append_assoc, hcolon, List.singleton_append]

/-- What is joined by a separator that the second parts do not have. -/
theorem append_sep_inj {α : Type} {c : α} {p q x y : List α} (hx : c ∉ x) (hy : c ∉ y)
    (h : p ++ c :: x = q ++ c :: y) : p = q ∧ x = y := by
  obtain ⟨as, hq, htail⟩ | ⟨bs, hp, htail⟩ := List.append_eq_append_iff.mp h
  · cases as with
    | nil => exact ⟨by rw [hq, List.append_nil], (List.cons.inj htail).2⟩
    | cons a as =>
      rw [(List.cons.inj htail).2] at hx
      exact absurd (List.mem_append_right as List.mem_cons_self) hx
  · cases bs with
    | nil => exact ⟨by rw [hp, List.append_nil], (List.cons.inj htail).2.symm⟩
    | cons b bs =>
      rw [(List.cons.inj htail).2] at hy
      exact absurd (List.mem_append_right bs List.mem_cons_self) hy

/-- A deadline has no colon, so that a key is read from its end. -/
theorem flushKey_inj {i j : String} {t u : Int} (h : flushKey i t = flushKey j u) : i = j ∧ t = u := by
  have hlist := congrArg String.toList h
  rw [flushKey_toList, flushKey_toList] at hlist
  have ht := Text.not_mem_toString (show Char.isDigit ':' = false by decide) (by decide) t
  have hu := Text.not_mem_toString (show Char.isDigit ':' = false by decide) (by decide) u
  obtain ⟨hids, htimes⟩ := append_sep_inj ht hu (List.append_cancel_left hlist)
  exact ⟨String.toList_inj.mp hids, Text.toString_inj (String.toList_inj.mp htimes)⟩

theorem flushKey_ne_inboundBatchKey (i j : String) (t : Int) : flushKey i t ≠ inboundBatchKey j := by
  intro h
  have hlist := congrArg (fun s => s.toList[13]?) h
  simp only [flushKey_toList, inboundBatchKey, String.toList_append] at hlist
  cases hlist

theorem inboundBatchKey_inj {i j : String} (h : inboundBatchKey i = inboundBatchKey j) : i = j := by
  have hlist := congrArg String.toList h
  rw [inboundBatchKey, inboundBatchKey, String.toList_append, String.toList_append] at hlist
  exact String.toList_inj.mp (List.append_cancel_left hlist)

/-- Both kinds of keys of the worker have one beginning. -/
theorem isPrefixOf_flushKey (i : String) (t : Int) :
    "inbound-batch".toList.isPrefixOf (flushKey i t).toList = true := by
  rw [flushKey_toList]
  rfl

theorem isPrefixOf_inboundBatchKey (i : String) :
    "inbound-batch".toList.isPrefixOf (inboundBatchKey i).toList = true := by
  rw [inboundBatchKey, String.toList_append]
  rfl

end Keys

/-- A flush event as its row shows it: under the key of its batch and deadline, with its cause. -/
def IsScheduled (c : Config) (db : Tables) (r : EventRow) (i : String) (t : Int) : Prop :=
  ∃ (st : BatchState) (cause eventId : String) (now : Int), st.batchId = i ∧ r.causationId = some cause ∧
    r.idempotencyFingerprint = some (flushEvent eventId c.recipient st cause t now).fingerprint ∧
    ∃ status, (i, r.tenantId, st.sourceId, status) ∈ db.heads

/-- The batch with an id is no longer collecting. -/
def IsClosed (db : Tables) (i : String) : Prop := ∃ h ∈ db.heads, h.1 = i ∧ h.2.2.2 ≠ .collecting

/-- What holds between the turns of the worker. -/
structure Sound (c : Config) (db : Tables) : Prop where
  keys : Keys db
  queue : QueueInv db.events
  history : ∀ h ∈ db.history, ∃ m ∈ db.messages, h.key = (m.tenantId, m.sourceId, .inbound, m.rawEventId)
  flushes : ∀ r ∈ db.events, ∀ i t, r.idempotencyKey = flushKey i t → IsScheduled c db r i t
  outputs : ∀ r ∈ db.events, ∀ i, r.idempotencyKey = inboundBatchKey i → IsClosed db i

section Invariant

variable {c : Config} {db db' : Tables}

theorem sound_empty (c : Config) : Sound c {} where
  keys := ⟨by simp [Tables.heads], by simp, by simp, by simp [Tables.heads]⟩
  queue := ⟨by simp, by simp, by simp⟩
  history := by simp
  flushes := by simp
  outputs := by simp

/-- Batches stay, and a closed one stays closed. -/
def HeadsStay (db db' : Tables) : Prop :=
  ∀ i t s st, (i, t, s, st) ∈ db.heads →
    ∃ st', (i, t, s, st') ∈ db'.heads ∧ (st ≠ .collecting → st' ≠ .collecting)

theorem headsStay_of_subset (h : ∀ x ∈ db.heads, x ∈ db'.heads) : HeadsStay db db' :=
  fun _ _ _ st hx => ⟨st, h _ hx, id⟩

theorem Sound.change (h : Sound c db) (hkeys : Keys db') (hevents : db'.events = db.events)
    (hheads : HeadsStay db db') (hhistory : ∀ x ∈ db'.history, ∃ m ∈ db'.messages,
      x.key = (m.tenantId, m.sourceId, .inbound, m.rawEventId)) : Sound c db' where
  keys := hkeys
  queue := hevents ▸ h.queue
  history := hhistory
  flushes r hr i t hkey := by
    obtain ⟨st, cause, eventId, now, hid, hcause, hprint, status, hhead⟩ := h.flushes r (hevents ▸ hr) i t hkey
    obtain ⟨status', hhead', -⟩ := hheads _ _ _ _ hhead
    exact ⟨st, cause, eventId, now, hid, hcause, hprint, status', hhead'⟩
  outputs r hr i hkey := by
    obtain ⟨⟨j, t, s, st⟩, hhead, hj, hst⟩ := h.outputs r (hevents ▸ hr) i hkey
    obtain ⟨st', hhead', hclosed⟩ := hheads _ _ _ _ hhead
    exact ⟨_, hhead', hj, hclosed hst⟩

/-- A queue call is harmless if the event that it may add is one that the worker accounts for. -/
theorem Sound.apply (h : Sound c db) (op : QueueOp)
    (hflush : ∀ a, op = .enqueue a → ∀ i t, a.idempotencyKey = flushKey i t → IsScheduled c db a.row i t)
    (hout : ∀ a, op = .enqueue a → ∀ i, a.idempotencyKey = inboundBatchKey i → IsClosed db i) :
    Sound c { db with events := Queue.apply db.events op } where
  keys := ⟨h.keys.batchIds, h.keys.messageKeys, h.keys.owned, h.keys.nonempty⟩
  queue := h.queue.apply op
  history := h.history
  flushes r hr i t hkey := by
    obtain ⟨x, hx, hstep⟩ | ⟨a, rfl, rfl, -⟩ := mem_apply h.queue.ids hr
    · have hk := hstep.key_eq
      have hc := hstep.content_eq
      simp only [EventRow.content, Prod.mk.injEq] at hk hc
      obtain ⟨st, cause, eventId, now, hid, hcause, hprint, status, hhead⟩ :=
        h.flushes x hx i t (hk.2 ▸ hkey)
      exact ⟨st, cause, eventId, now, hid, hc.2.2.2.2.2.2.1.trans hcause, hc.2.2.2.2.2.2.2.trans hprint, status,
        hk.1 ▸ hhead⟩
    · exact hflush a rfl i t hkey
  outputs r hr i hkey := by
    obtain ⟨x, hx, hstep⟩ | ⟨a, rfl, rfl, -⟩ := mem_apply h.queue.ids hr
    · have hk := hstep.key_eq
      simp only [Prod.mk.injEq] at hk
      exact h.outputs x hx i (hk.2 ▸ hkey)
    · exact hout a rfl i hkey

theorem Sound.producer (h : Sound c db) {op : QueueOp}
    (hop : ∀ a, op = .enqueue a → "inbound-batch".toList.isPrefixOf a.idempotencyKey.toList = false) :
    Sound c { db with events := Queue.apply db.events op } := by
  refine h.apply op (fun a ha i t hkey => ?_) fun a ha i hkey => ?_
  · have hno := hop a ha
    rw [hkey, isPrefixOf_flushKey] at hno
    cases hno
  · have hno := hop a ha
    rw [hkey, isPrefixOf_inboundBatchKey] at hno
    cases hno

theorem Sound.storeDecision (h : Sound c db) (batchId : String) (decision : BatchDecision)
    (tenantId sourceId : String) (state : Option BatchState) (now : Int) :
    Sound c (storeDecision db batchId decision tenantId sourceId state now) := by
  have hheads := storeDecision_heads db batchId decision tenantId sourceId state now
  refine h.change (h.keys.heads hheads rfl) rfl ?_ h.history
  exact headsStay_of_subset fun x hx => hheads ▸ hx

end Invariant

section Delivery

variable {c : Config} {db db' : Tables} {m : InboundMessage} {d : Drawn} {now : Int}

theorem requiredString_ok {payload : Json} {field value : String} (h : requiredString payload field = .ok value) :
    Text.blank value = false := by
  unfold requiredString at h
  split at h
  · split at h
    · cases h
    · rename_i hblank
      obtain rfl := Except.ok.inj h
      exact Text.blank_strip (by simpa using hblank)
  · cases h

/-- The names in a delivered message are not blank. -/
theorem delivered_named {e : QueueEvent} (h : deliveredMessage e = some m) :
    Text.blank m.channel = false ∧ Text.blank m.sourceId = false ∧ Text.blank m.rawEventId = false := by
  unfold deliveredMessage at h
  split at h
  · have hm : messageFromEvent e = .ok m := by
      cases hm : messageFromEvent e with
      | error text => simp [hm, Except.toOption] at h
      | ok y => simpa [hm, Except.toOption] using h
    unfold messageFromEvent at hm
    split at hm
    · obtain ⟨channel, hchannel, hm⟩ := bind_eq_ok hm
      obtain ⟨sourceId, hsource, hm⟩ := bind_eq_ok hm
      obtain ⟨rawEventId, hraw, hm⟩ := bind_eq_ok hm
      have hnames := And.intro (requiredString_ok hchannel) (And.intro (requiredString_ok hsource)
        (requiredString_ok hraw))
      split at hm
      · dsimp only at hm
        split at hm
        · exact Except.ok.inj hm ▸ hnames
        · split at hm
          · cases hm
          · exact Except.ok.inj hm ▸ hnames
        · cases hm
      · cases hm
    · cases hm
  · cases h

theorem existingMessage_none (hnew : m.key ∉ db.messages.map (·.key)) : existingMessage db m = none := by
  cases h : existingMessage db m with
  | none => rfl
  | some p =>
    obtain ⟨hmem, hkey, -⟩ := existingMessage_some h
    exact absurd (List.mem_map.mpr ⟨p.1, hmem, hkey⟩) hnew

/-- There is always a batch for a message. -/
theorem batchFor_found (hfresh : Fresh db d) (m : InboundMessage) (now : Int) :
    ∃ batches batchId, batchFor db.batches m d now = .ok (batches, batchId) := by
  unfold batchFor
  split
  · exact ⟨_, _, rfl⟩
  · rename_i hopen
    have hnone : ∀ b ∈ db.batches, b.status = .collecting → b.tenantId = m.tenantId → b.channel = m.channel →
        b.sourceId ≠ m.sourceId := by
      intro b hb hstatus htenant hchannel hsource
      rw [openBatch, List.head?_eq_none_iff] at hopen
      have hsel : b ∈ selectOrdered (fun b => b.tenantId = m.tenantId && b.channel = m.channel &&
          b.sourceId = m.sourceId && b.status = .collecting) (fun a b => b.updatedAt ≤ a.updatedAt) db.batches :=
        mem_selectOrdered.mpr ⟨hb, by simp [hstatus, htenant, hchannel, hsource]⟩
      rw [hopen] at hsel
      cases hsel
    have hany : db.batches.any (fun b => b.id = "ib_" ++ d.batchHex || (b.status = .collecting &&
        b.tenantId = m.tenantId && b.channel = m.channel && b.sourceId = m.sourceId)) = false := by
      refine List.any_eq_false.mpr fun b hb => ?_
      have hid : b.id ≠ "ib_" ++ d.batchHex := fun he => hfresh.1 (List.mem_map.mpr ⟨b, hb, he⟩)
      simpa [hid] using hnone b hb
    have hinsert : insertBatch db.batches (m.batchRow d now) = .ok (db.batches ++ [m.batchRow d now]) :=
      if_neg fun h => Bool.noConfusion (hany.symm.trans h)
    exact ⟨_, _, by rw [hinsert]; rfl⟩

theorem insertMessage_new (hfresh : Fresh db d) (hnew : m.key ∉ db.messages.map (·.key)) (batchId : String) :
    insertMessage db.messages (m.messageRow d batchId now) = .ok (db.messages ++ [m.messageRow d batchId now]) := by
  have hany : db.messages.any (fun x => x.id = "ibm_" ++ d.messageHex ||
      (x.tenantId = m.tenantId && x.sourceId = m.sourceId && x.rawEventId = m.rawEventId)) = false := by
    refine List.any_eq_false.mpr fun x hx => ?_
    have hid : x.id ≠ "ibm_" ++ d.messageHex := fun he => hfresh.2.1 (List.mem_map.mpr ⟨x, hx, he⟩)
    have hkey : x.key ≠ m.key := fun he => hnew (List.mem_map.mpr ⟨x, hx, he⟩)
    simp only [BatchMessageRow.key, InboundMessage.key, ne_eq, Prod.mk.injEq] at hkey
    simpa [hid] using hkey
  exact if_neg fun h => Bool.noConfusion (hany.symm.trans h)

theorem bindText_ok {text : Json} (h : isText text = true) : ∃ value, bindText text = .ok value := by
  cases text with
  | null => exact ⟨"", rfl⟩
  | str s =>
    unfold bindText
    split
    · exact ⟨_, rfl⟩
    · exact ⟨_, rfl⟩
  | bool | int | float | arr | obj => cases h

/-- The names that the history requires. -/
structure Named (m : InboundMessage) : Prop where
  tenantId : Text.blank m.tenantId = false
  channel : Text.blank m.channel = false
  sourceId : Text.blank m.sourceId = false
  rawEventId : Text.blank m.rawEventId = false

theorem recordMessage_new (h : Sound c db) (hfresh : Fresh db d) (hnamed : Named m)
    (hnew : m.key ∉ db.messages.map (·.key)) (hdated : 0 ≤ m.messageAt) (text : String) (now : Int) :
    History.recordMessage db.history (m.recordArgs text d.historyHex now) =
      .ok (db.history ++ [(m.recordArgs text d.historyHex now).row],
        (m.recordArgs text d.historyHex now).row.id, true) := by
  have hvalid : (m.recordArgs text d.historyHex now).validate = .ok () := by
    simp [History.RecordArgs.validate, History.validateScope, InboundMessage.recordArgs, hnamed.tenantId,
      hnamed.channel, hnamed.sourceId, hnamed.rawEventId, ok_bind, hdated.not_gt]
  have hany : db.history.any (fun r => r.id = "history_" ++ d.historyHex ||
      r.key = (m.recordArgs text d.historyHex now).row.key) = false := by
    refine List.any_eq_false.mpr fun r hr => ?_
    have hid : r.id ≠ "history_" ++ d.historyHex := fun he => hfresh.2.2.1 (List.mem_map.mpr ⟨r, hr, he⟩)
    have hkey : r.key ≠ (m.recordArgs text d.historyHex now).row.key := by
      intro he
      obtain ⟨x, hx, hxkey⟩ := h.history r hr
      have hsame := hxkey.symm.trans he
      simp only [History.ConversationMessageRow.key, History.RecordArgs.row, InboundMessage.recordArgs,
        Prod.mk.injEq] at hsame
      exact hnew (List.mem_map.mpr ⟨x, hx, by
        simp [BatchMessageRow.key, InboundMessage.key, hsame]⟩)
    simp [hid, hkey]
  simp only [History.recordMessage, hvalid]
  exact if_neg fun hconflict => Bool.noConfusion (hany.symm.trans hconflict)

/-- A message with a new raw event id is stored in a batch. -/
theorem append_stores (h : Sound c db) (hfresh : Fresh db d) (hnamed : Named m) (htext : isText m.text = true)
    (hnew : m.key ∉ db.messages.map (·.key)) (hdated : Dated m) (now : Int) :
    ∃ db' batchId, appendInboundMessage db m d now = .ok (db', some batchId) ∧ Sound c db' ∧
      db'.events = db.events := by
  obtain ⟨batches, batchId, hbatch⟩ := batchFor_found hfresh m now
  obtain ⟨text, hbind⟩ := bindText_ok htext
  have hrecord := recordMessage_new h hfresh hnamed hnew hdated.1 text now
  have hfits : ¬ ¬ Fits m.messageAt := not_not_intro hdated.2
  have happend : appendInboundMessage db m d now = .ok
      ({ db with
          batches := updateWhere (isBatch batchId m.tenantId m.sourceId)
            (fun b => { b with
              lastMessageAt := max b.lastMessageAt m.messageAt
              messageCount := rowcount (inBatch batchId m.tenantId m.sourceId)
                (db.messages ++ [m.messageRow d batchId now])
              updatedAt := now }) batches
          messages := db.messages ++ [m.messageRow d batchId now]
          history := db.history ++ [(m.recordArgs text d.historyHex now).row] }, some batchId) := by
    simp only [appendInboundMessage, existingMessage_none hnew, if_neg hfits, hbatch, ok_bind,
      insertMessage_new hfresh hnew, hbind, hrecord]
  refine ⟨_, batchId, happend, h.change (h.keys.append happend) rfl ?_ ?_, rfl⟩
  · obtain ⟨-, x, hx, hkey, -⟩ | ⟨x, -, -, -, -, -, -, hheads⟩ := appendInboundMessage_cases happend
    · exact absurd (List.mem_map.mpr ⟨x, hx, hkey⟩) hnew
    · refine headsStay_of_subset fun y hy => ?_
      obtain hheads | ⟨-, -, hheads⟩ := hheads
      · rw [hheads]
        exact hy
      · rw [hheads]
        exact List.mem_append_left _ hy
  · intro x hx
    obtain hx | hx := List.mem_append.mp hx
    · obtain ⟨y, hy, hkey⟩ := h.history x hx
      exact ⟨y, List.mem_append_left _ hy, hkey⟩
    · rw [List.mem_singleton.mp hx]
      exact ⟨_, List.mem_append_right _ (List.mem_singleton_self _), rfl⟩

/-- A message from before the epoch is refused by the history, and one of a time beyond 64 bits by the database. -/
theorem append_undated (hnew : m.key ∉ db.messages.map (·.key)) (hdated : ¬ Dated m) :
    ∃ error, appendInboundMessage db m d now = .error error := by
  cases happend : appendInboundMessage db m d now with
  | error error => exact ⟨error, rfl⟩
  | ok r =>
    simp only [appendInboundMessage, existingMessage_none hnew] at happend
    split at happend
    · cases happend
    rename_i hfits
    obtain ⟨⟨batches, batchId⟩, -, happend⟩ := bind_eq_ok happend
    obtain ⟨messages, -, happend⟩ := bind_eq_ok happend
    obtain ⟨text, -, happend⟩ := bind_eq_ok happend
    obtain ⟨recorded, hrecord, -⟩ := bind_eq_ok happend
    obtain ⟨_, hvalid, -⟩ := bind_eq_ok hrecord
    obtain ⟨_, -, hvalid⟩ := bind_eq_ok hvalid
    split at hvalid
    · cases hvalid
    · split at hvalid
      · cases hvalid
      · rename_i hlate
        exact absurd ⟨by simpa [InboundMessage.recordArgs] using hlate, not_not.mp hfits⟩ hdated

end Delivery

section Evaluation

variable {extractFeatures : Json → Option Json → MessageFeatures} {c : Config} {db : Tables}

theorem enqueue_new {t : List EventRow} {a : EnqueueArgs} (hbinds : a.binds = true) (hid : a.eventId ∉ t.map (·.id))
    (hkey : ∀ r ∈ t, r.tenantId = a.tenantId → r.idempotencyKey ≠ a.idempotencyKey) :
    enqueue t a = .ok (t ++ [a.row], some a.eventId) := by
  have hnoId : t.find? (·.id = a.eventId) = none :=
    List.find?_eq_none.mpr fun r hr he => hid (List.mem_map.mpr ⟨r, hr, by simpa using he⟩)
  have hnoKey : byKey t a.tenantId a.idempotencyKey = none := by
    refine List.find?_eq_none.mpr fun r hr he => ?_
    simp only [Bool.and_eq_true, decide_eq_true_eq] at he
    exact hkey r hr he.1 he.2
  simp [enqueue, hbinds, hnoId, hnoKey]

/-- Two flushes of one batch for one deadline differ by the event that causes them. -/
theorem flush_fingerprint_inj {i j recipient cause cause' : String} {st st' : BatchState} {t now now' : Int}
    (hid : st.batchId = st'.batchId) (hsource : st.sourceId = st'.sourceId) :
    (flushEvent i recipient st cause t now).fingerprint = (flushEvent j recipient st' cause' t now').fingerprint ↔
      cause = cause' := by
  simp [EnqueueArgs.fingerprint, flushEvent, Soveren.idempotencyFingerprint, hid, hsource, Json.ofString?]

/-- The deadline is the only integer of a flush that may be too large. -/
theorem flushEvent_binds {eventId recipient cause : String} {st : BatchState} {runAfter now : Int} :
    (flushEvent eventId recipient st cause runAfter now).binds = decide (Fits runAfter) := by
  have hpriority : Fits flushPriority := by decide
  have hattempts : Fits 5 := by decide
  simp [EnqueueArgs.binds, flushEvent, hpriority, hattempts]

theorem routed_binds (a : RouteArgs) (eventId : String) (now : Int) : (a.event eventId now).binds = true := by
  have hpriority : Fits 100 := by decide
  have hattempts : Fits 5 := by decide
  simp [EnqueueArgs.binds, RouteArgs.event, hpriority, hattempts]

/-- A flush is scheduled unless its deadline is too large or another event has scheduled it. -/
theorem enqueue_flush_iff (h : Sound c db) {st : BatchState} {eventId cause : String} {runAfter : Int} (now : Int)
    (hfresh : eventId ∉ db.events.map (·.id))
    (hhead : ∃ status, (st.batchId, st.tenantId, st.sourceId, status) ∈ db.heads) :
    (∃ r, enqueue db.events (flushEvent eventId c.recipient st cause runAfter now) = .ok r) ↔ Fits runAfter ∧
      ∀ r ∈ db.events, r.tenantId = st.tenantId → r.idempotencyKey = flushKey st.batchId runAfter →
        r.causationId = some cause := by
  by_cases hfits : Fits runAfter
  swap
  · refine iff_of_false ?_ fun h => hfits h.1
    rintro ⟨r, hr⟩
    rw [enqueue, flushEvent_binds, decide_eq_false hfits] at hr
    cases hr
  have hbinds : (flushEvent eventId c.recipient st cause runAfter now).binds = true :=
    flushEvent_binds.trans (decide_eq_true hfits)
  rw [and_iff_right hfits]
  have hkey : (flushEvent eventId c.recipient st cause runAfter now).idempotencyKey =
      flushKey st.batchId runAfter := rfl
  by_cases hfound : ∃ x ∈ db.events, x.tenantId = st.tenantId ∧ x.idempotencyKey = flushKey st.batchId runAfter
  · obtain ⟨x, hx, htenant, hxkey⟩ := hfound
    have hall : (∀ r ∈ db.events, r.tenantId = st.tenantId → r.idempotencyKey = flushKey st.batchId runAfter →
        r.causationId = some cause) ↔ x.causationId = some cause := by
      refine ⟨fun hr => hr x hx htenant hxkey, fun hxc r hr ht hk => ?_⟩
      rwa [eq_of_key h.queue.keys hr hx (by rw [ht, hk, htenant, hxkey])]
    have hby : byKey db.events st.tenantId (flushKey st.batchId runAfter) = some x := by
      cases hfind : byKey db.events st.tenantId (flushKey st.batchId runAfter) with
      | none =>
        have := List.find?_eq_none.mp hfind x hx
        simp [htenant, hxkey] at this
      | some y =>
        have hy := List.find?_some hfind
        simp only [Bool.and_eq_true, decide_eq_true_eq] at hy
        rw [eq_of_key h.queue.keys (List.mem_of_find?_eq_some hfind) hx
          (by rw [hy.1, hy.2, htenant, hxkey])]
    obtain ⟨st', cause', eventId', now', hid, hcause', hprint, status', hhead'⟩ :=
      h.flushes x hx st.batchId runAfter hxkey
    -- both flushes name the batch with its one source
    have hsource : st'.sourceId = st.sourceId := by
      obtain ⟨status, hhead⟩ := hhead
      have hsame := eq_of_key h.keys.batchIds hhead' hhead rfl
      exact congrArg (fun x => x.2.2.1) hsame
    have hreplay : replayMatches x (flushEvent eventId c.recipient st cause runAfter now) = true ↔
        x.causationId = some cause := by
      rw [replayMatches, hprint, hcause', decide_eq_true_eq, flush_fingerprint_inj hid hsource,
        Option.some.injEq]
    rw [hall, ← hreplay]
    have henqueue : enqueue db.events (flushEvent eventId c.recipient st cause runAfter now) =
        (requireIdempotentReplay (replayMatches x (flushEvent eventId c.recipient st cause runAfter now)) "event"
          (flushKey st.batchId runAfter) x.id >>= fun _ => .ok (db.events, none)) := by
      unfold enqueue
      rw [hbinds, hkey, show (flushEvent eventId c.recipient st cause runAfter now).tenantId = st.tenantId from rfl,
        hby]
      simp
    rw [henqueue]
    cases replayMatches x (flushEvent eventId c.recipient st cause runAfter now) with
    | true => exact ⟨fun _ => rfl, fun _ => ⟨_, rfl⟩⟩
    | false =>
      refine ⟨fun hr => ?_, fun hr => by cases hr⟩
      obtain ⟨r, hr⟩ := hr
      cases hr
  · have hnone : ∀ r ∈ db.events, r.tenantId = st.tenantId → r.idempotencyKey ≠ flushKey st.batchId runAfter :=
      fun r hr ht hk => hfound ⟨r, hr, ht, hk⟩
    refine ⟨fun _ r hr ht hk => absurd hk (hnone r hr ht), fun _ => ⟨_, enqueue_new hbinds hfresh hnone⟩⟩

theorem headsStay_markRouted (db : Tables) (a : RouteArgs) (now : Int) :
    HeadsStay db { db with batches := (markRouted db.batches a.batchId a.tenantId a.sourceId now).1 } := by
  intro i t s st hhead
  obtain ⟨b, hb, he⟩ := List.mem_map.mp hhead
  simp only [BatchRow.head, Prod.mk.injEq] at he
  obtain ⟨rfl, rfl, rfl, rfl⟩ := he
  by_cases hp : (isBatch a.batchId a.tenantId a.sourceId b && b.status = .collecting) = true
  · refine ⟨.routed, List.mem_map.mpr ⟨{ b with status := .routed, updatedAt := now }, ?_, rfl⟩, fun _ => by simp⟩
    exact mem_updateWhere.mpr (.inl ⟨b, hb, hp, rfl⟩)
  · exact ⟨b.status, List.mem_map.mpr ⟨b, mem_updateWhere.mpr (.inr ⟨hb, by simpa using hp⟩), rfl⟩, id⟩

/-- A batch is routed under a key that no event has yet. -/
theorem route_sound (h : Sound c db) {a : RouteArgs} {eventId : String}
    (hfresh : eventId ∉ db.events.map (·.id)) (now eventNow : Int)
    (hkey : a.idempotencyKey = inboundBatchKey a.batchId) :
    ∃ db' b, routeBatch db a eventId now eventNow = .ok (db', b) ∧ Sound c db' := by
  have hstay := headsStay_markRouted db a now
  have hmarked : Sound c { db with batches := (markRouted db.batches a.batchId a.tenantId a.sourceId now).1 } :=
    h.change (h.keys.route a rfl rfl) rfl hstay h.history
  cases hrouted : (markRouted db.batches a.batchId a.tenantId a.sourceId now).2 with
  | false => exact ⟨_, false, by simp [routeBatch, hrouted], hmarked⟩
  | true =>
    have hcollecting := markRouted_found.mp hrouted
    have hnew : ∀ r ∈ db.events, r.tenantId = a.tenantId → r.idempotencyKey ≠ a.idempotencyKey := by
      intro r hr _ he
      obtain ⟨x, hx, hid, hst⟩ := h.outputs r hr a.batchId (he.trans hkey)
      rw [eq_of_key h.keys.batchIds hx hcollecting hid] at hst
      exact hst rfl
    have henqueue := enqueue_new (a := a.event eventId eventNow) (routed_binds a eventId eventNow) hfresh hnew
    refine ⟨{ db with
      batches := (markRouted db.batches a.batchId a.tenantId a.sourceId now).1
      events := db.events ++ [(a.event eventId eventNow).row] }, true,
      by simp only [routeBatch, hrouted, if_true, henqueue, ok_bind], ?_⟩
    have happly : Queue.apply db.events (.enqueue (a.event eventId eventNow)) =
        db.events ++ [(a.event eventId eventNow).row] := by
      simp only [Queue.apply, henqueue]
    rw [← happly]
    refine hmarked.apply (.enqueue (a.event eventId eventNow)) ?_ ?_
    · intro x hx i t he
      obtain rfl := QueueOp.enqueue.inj hx
      exact absurd (he.symm.trans hkey) (flushKey_ne_inboundBatchKey i a.batchId t)
    · intro x hx i he
      obtain rfl := QueueOp.enqueue.inj hx
      obtain rfl := inboundBatchKey_inj (hkey.symm.trans he)
      obtain ⟨st', hhead', -⟩ := hstay _ _ _ _ hcollecting
      refine ⟨_, hhead', rfl, fun hst => ?_⟩
      obtain ⟨hne, -⟩ := markRouted_heads db.batches a now _ hhead'
      exact hne (by rw [show st' = .collecting from hst]; rfl)

theorem flush_sound (h : Sound c db) {st : BatchState} (eventId cause : String) (runAfter now : Int)
    (hhead : ∃ status, (st.batchId, st.tenantId, st.sourceId, status) ∈ db.heads) :
    Sound c { db with
      events := Queue.apply db.events (.enqueue (flushEvent eventId c.recipient st cause runAfter now)) } := by
  refine h.apply _ (fun a ha i t hkey => ?_) fun a ha i hkey => ?_
  · obtain rfl := QueueOp.enqueue.inj ha
    obtain ⟨rfl, rfl⟩ := flushKey_inj hkey.symm
    exact ⟨st, cause, eventId, now, rfl, rfl, rfl, hhead⟩
  · obtain rfl := QueueOp.enqueue.inj ha
    exact absurd hkey (flushKey_ne_inboundBatchKey st.batchId i runAfter)

theorem loadState_head {batchId tenantId sourceId : String} {w : Windows} {now : Int} {st : BatchState}
    (h : loadState extractFeatures db batchId tenantId sourceId w now = some st) :
    st.batchId = batchId ∧ st.tenantId = tenantId ∧ st.sourceId = sourceId ∧
      (st.batchId, st.tenantId, st.sourceId, .collecting) ∈ db.heads := by
  obtain ⟨b, hb, rfl⟩ := Option.map_eq_some_iff.mp h
  have hp := List.find?_some hb
  simp only [isBatch, Bool.and_eq_true, decide_eq_true_eq] at hp
  obtain ⟨⟨⟨hid, ht⟩, hs⟩, hc⟩ := hp
  refine ⟨rfl, ht, hs, List.mem_map.mpr ⟨b, List.mem_of_find?_eq_some hb, ?_⟩⟩
  simp [BatchRow.head, hid, hc]

/-- What an evaluation does once it has stored its decision. -/
def afterDecision (c : Config) (w : Windows) (causationId : String) : Option BatchState → Attempt
  | none => .ret (.ok ())
  | some s => if (decideBatch (some s)).action = .flush then flushBatch c s causationId
    else scheduleFlush c w s causationId

theorem evaluateAndMaybeFlush_eq (c : Config) (w : Windows) (batchId tenantId sourceId causationId : String) :
    evaluateAndMaybeFlush c w batchId tenantId sourceId causationId =
      .call (.loadState batchId tenantId sourceId w) fun state =>
        .call (.storeDecision batchId (decideBatch state) tenantId sourceId state) fun _ =>
          afterDecision c w causationId state := by
  refine congrArg (Proc.call _) (funext fun state => ?_)
  cases state <;> rfl

variable (extractFeatures) (e : QueueEvent) (clock : ℕ → Int) {d : Drawn} (w : Windows)

/-- A batch whose turn has come is published. -/
theorem flushBatch_spec (h : Sound c db) (hfresh : d.eventId ∉ db.events.map (·.id)) (n : ℕ) {st : BatchState}
    (hmessages : st.messages ≠ []) :
    let r := Proc.runAlone (serve extractFeatures e clock d) n db (flushBatch c st e.id)
    Sound c r.1 ∧ (∀ o ∈ r.2.1, o.isRetry = false) ∧ r.2.2 = .ok () := by
  obtain ⟨payload, hpayload⟩ : ∃ payload, batchPayload st = .ok payload := by
    obtain ⟨first, rest, hcons⟩ := List.exists_cons_of_ne_nil hmessages
    have hfirst : st.messages.head? = some first := by rw [hcons, List.head?_cons]
    obtain ⟨last, hlast⟩ := Option.isSome_iff_exists.mp (List.getLast?_isSome.mpr hmessages)
    exact ⟨_, by simp only [batchPayload, hlast, hfirst]; rfl⟩
  obtain ⟨db', b, hroute, hsound⟩ := route_sound h hfresh (clock n) (clock n)
    (a := ⟨st.batchId, st.tenantId, st.sourceId, c.outputRecipient, c.outputMessageType, payload,
      inboundBatchKey st.batchId, some st.batchId, some e.id⟩) rfl
  have hprogram : flushBatch c st e.id = .call (.routeBatch
      ⟨st.batchId, st.tenantId, st.sourceId, c.outputRecipient, c.outputMessageType, payload,
        inboundBatchKey st.batchId, some st.batchId, some e.id⟩) fun routed => .ret (raised routed) := by
    simp only [flushBatch, hpayload]
    rfl
  rw [hprogram]
  simp only [Proc.runAlone, serve, performOp, hroute, keepOnError]
  exact ⟨hsound, by simp [Op.isRetry], rfl⟩

/-- A batch that waits is scheduled again, unless its deadline is too large or another event has taken it. -/
theorem scheduleFlush_spec (h : Sound c db) (hfresh : d.eventId ∉ db.events.map (·.id)) (n : ℕ) {st : BatchState}
    (hhead : ∃ status, (st.batchId, st.tenantId, st.sourceId, status) ∈ db.heads) :
    let r := Proc.runAlone (serve extractFeatures e clock d) n db (scheduleFlush c w st e.id)
    Sound c r.1 ∧ (∀ o ∈ r.2.1, o.isRetry = false) ∧ (r.2.2 = .ok () ↔
      Fits (nextFlushDeadline st.firstMessageAt st.lastMessageAt (clock n) w.quietWindowS w.maxWindowS) ∧
      ∀ r ∈ db.events, r.tenantId = st.tenantId → r.idempotencyKey = flushKey st.batchId (nextFlushDeadline
        st.firstMessageAt st.lastMessageAt (clock n) w.quietWindowS w.maxWindowS) → r.causationId = some e.id) := by
  have hprogram : scheduleFlush c w st e.id = .call .time fun now => .call (.enqueueFlush c.recipient st e.id
      (nextFlushDeadline st.firstMessageAt st.lastMessageAt now w.quietWindowS w.maxWindowS))
      fun enqueued => .ret (raised enqueued) := rfl
  rw [hprogram, ← enqueue_flush_iff h (clock (n + 1)) hfresh hhead]
  simp only [Proc.runAlone, serve, performOp]
  have hsound := flush_sound h d.eventId e.id
    (nextFlushDeadline st.firstMessageAt st.lastMessageAt (clock n) w.quietWindowS w.maxWindowS) (clock (n + 1)) hhead
  cases henqueue : enqueue db.events (flushEvent d.eventId c.recipient st e.id
      (nextFlushDeadline st.firstMessageAt st.lastMessageAt (clock n) w.quietWindowS w.maxWindowS)
      (clock (n + 1))) with
  | error error =>
    refine ⟨h, by simp [Op.isRetry], fun hr => ?_, fun hr => ?_⟩
    · cases hr
    · obtain ⟨r, hr⟩ := hr
      cases hr
  | ok r =>
    simp only [Queue.apply, henqueue] at hsound
    exact ⟨hsound, by simp [Op.isRetry], fun _ => ⟨r, rfl⟩, fun _ => rfl⟩

/-- One evaluation of a batch. -/
theorem evaluate_spec (h : Sound c db) (hfresh : d.eventId ∉ db.events.map (·.id)) (n : ℕ)
    (batchId tenantId sourceId : String) :
    let r := Proc.runAlone (serve extractFeatures e clock d) n db
      (evaluateAndMaybeFlush c w batchId tenantId sourceId e.id)
    Sound c r.1 ∧ (∀ o ∈ r.2.1, o.isRetry = false) ∧ (r.2.2 = .ok () ↔
      ((loadState extractFeatures db batchId tenantId sourceId w (clock n)).all fun st =>
        firstForDeadline db.events e w st (clock (n + 2))) = true) := by
  rw [evaluateAndMaybeFlush_eq]
  simp only [Proc.runAlone, serve, performOp]
  have hstored := h.storeDecision batchId
    (decideBatch (loadState extractFeatures db batchId tenantId sourceId w (clock n))) tenantId sourceId
    (loadState extractFeatures db batchId tenantId sourceId w (clock n)) (clock (n + 1))
  cases hload : loadState extractFeatures db batchId tenantId sourceId w (clock n) with
  | none =>
    rw [hload] at hstored
    exact ⟨hstored, by simp [afterDecision, Proc.runAlone, Op.isRetry],
      by simp [afterDecision, Proc.runAlone]⟩
  | some st =>
    rw [hload] at hstored
    obtain ⟨-, -, -, hhead⟩ := loadState_head hload
    by_cases hflush : (decideBatch (some st)).action = .flush
    · obtain ⟨hsound, hops, hok⟩ := flushBatch_spec extractFeatures e clock hstored hfresh (n + 1 + 1)
        (messages_ne_nil_of_flush hflush)
      simp only [afterDecision, hflush, if_true]
      refine ⟨hsound, ?_, by simp [firstForDeadline, hflush, hok]⟩
      simpa [Op.isRetry] using hops
    · obtain ⟨hsound, hops, hok⟩ := scheduleFlush_spec extractFeatures e clock w hstored hfresh (n + 1 + 1)
        ⟨.collecting, by rw [storeDecision_heads]; exact hhead⟩
      simp only [afterDecision, hflush, if_false]
      refine ⟨hsound, by simpa [Op.isRetry] using hops, hok.trans ?_⟩
      simp [firstForDeadline, hflush, storeDecision, imp_iff_not_or, or_assoc]

/-- What a delivery does once its message is stored. -/
def afterAppend (c : Config) (w : Windows) (e : QueueEvent) (m : InboundMessage) :
    Except StoreError (Option String) → Attempt
  | .error err => .ret (.error err.text)
  | .ok none => .ret (.ok ())
  | .ok (some batchId) => evaluateAndMaybeFlush c w batchId e.tenantId m.sourceId e.id

theorem processBody_delivered {m : InboundMessage} (h : deliveredMessage e = some m) :
    processBody c w e = .call (.appendInboundMessage m) (afterAppend c w e m) := by
  unfold deliveredMessage at h
  split at h
  · rename_i htype
    have hm : messageFromEvent e = .ok m := by
      cases hm : messageFromEvent e with
      | error text => simp [hm, Except.toOption] at h
      | ok y => simpa [hm, Except.toOption] using h
    simp only [processBody, htype, if_true, hm]
    refine congrArg (Proc.call _) (funext fun r => ?_)
    rcases r with err | _ | batchId
    · rfl
    · rfl
    · rfl
  · cases h

theorem processBody_named {k : Address} (h : namedBatch e = some k) :
    processBody c w e = evaluateAndMaybeFlush c w k.1 k.2.1 k.2.2 e.id := by
  unfold namedBatch at h
  split at h
  · rename_i htype
    obtain ⟨batchId, hbatch, h⟩ := Option.bind_eq_some_iff.mp h
    obtain ⟨sourceId, hsource, rfl⟩ := Option.map_eq_some_iff.mp h
    simp [processBody, htype, hbatch, hsource]
  · cases h

theorem deliveredMessage_of_named (h : (namedBatch e).isSome) : deliveredMessage e = none := by
  unfold namedBatch at h
  unfold deliveredMessage
  split at h
  · rename_i htype
    simp [htype]
  · cases h

/-- The body of one call of `_process`. -/
theorem processBody_spec (h : Sound c db) (hfresh : Fresh db d)
    (hevent : delivers db e = true ∨ (namedBatch e).isSome) :
    let r := Proc.runAlone (serve extractFeatures e clock d) 0 db (processBody c w e)
    Sound c r.1 ∧ (∀ o ∈ r.2.1, o.isRetry = false) ∧ (r.2.2 = .ok () ↔
      ((deliveredMessage e).all fun m => Dated m) = true ∧
        ((evaluated extractFeatures db e w clock d).all fun p =>
          firstForDeadline db.events e w p.1 p.2) = true) := by
  cases hdelivered : deliveredMessage e with
  | none =>
    have hnamed : (namedBatch e).isSome := by
      obtain hdelivers | hnamed := hevent
      · simp [delivers, hdelivered] at hdelivers
      · exact hnamed
    obtain ⟨k, hk⟩ := Option.isSome_iff_exists.mp hnamed
    rw [processBody_named e w hk]
    obtain ⟨hsound, hops, hok⟩ := evaluate_spec extractFeatures e clock w h hfresh.2.2.2 0 k.1 k.2.1 k.2.2
    refine ⟨hsound, hops, hok.trans ?_⟩
    simp only [evaluated, hdelivered, hk, Option.bind_some, Option.all_none, true_and, Option.all_map]
  | some m =>
    obtain ⟨htenant, htext, hnew⟩ : Text.blank e.tenantId = false ∧ isText m.text = true ∧
        m.key ∉ db.messages.map (·.key) := by
      obtain hdelivers | hnamed := hevent
      · simp only [delivers, hdelivered, Option.any_some, Bool.and_eq_true, Bool.not_eq_true',
          List.contains_eq_mem, decide_eq_false_iff_not] at hdelivers
        exact hdelivers
      · rw [deliveredMessage_of_named e hnamed] at hdelivered
        cases hdelivered
    rw [processBody_delivered e w hdelivered]
    simp only [Proc.runAlone, serve, performOp]
    by_cases hdated : Dated m
    · obtain ⟨hchannel, hsource, hraw⟩ := delivered_named hdelivered
      have hnamed : Named m := ⟨by rw [deliveredMessage_tenant hdelivered]; exact htenant, hchannel, hsource, hraw⟩
      obtain ⟨db', batchId, happend, hsound', hevents⟩ := append_stores h hfresh hnamed htext hnew hdated (clock 0)
      have hfresh' : d.eventId ∉ db'.events.map (·.id) := by
        rw [hevents]
        exact hfresh.2.2.2
      obtain ⟨hsound, hops, hok⟩ := evaluate_spec extractFeatures e clock w hsound' hfresh' 1 batchId e.tenantId
        m.sourceId
      rw [happend]
      refine ⟨hsound, List.forall_mem_cons.mpr ⟨rfl, hops⟩, hok.trans ?_⟩
      simp only [evaluated, hdelivered, happend, Option.all_some, hdated, decide_true, true_and, Option.all_map,
        hevents]
    · obtain ⟨error, happend⟩ := append_undated hnew hdated
      rw [happend]
      refine ⟨h, by simp [keepOnError, afterAppend, Proc.runAlone, Op.isRetry], ?_⟩
      simp [keepOnError, afterAppend, Proc.runAlone, hdated]

/-- How a call of `_process` ends. -/
def finish : Except String Unit → Program
  | .ok () => .call .markDone fun _ => .ret ()
  | .error text => .call .time fun (now : Int) => .call (.markRetry (now + retryBackoffS) text) fun _ => .ret ()

theorem process_eq (c : Config) (w : Windows) (e : QueueEvent) : process c w e = processBody c w e >>= finish := by
  refine congrArg (Proc.bind (processBody c w e)) (funext fun r => ?_)
  match r with
  | .ok () => rfl
  | .error text => rfl

/-- One call of `_process` ends in `mark_retry` unless it meets the condition. -/
theorem turn_spec (h : Sound c db) (hfresh : Fresh db d) (hevent : delivers db e = true ∨ (namedBatch e).isSome) :
    let r := Proc.runAlone (serve extractFeatures e clock d) 0 db (process c w e)
    Sound c r.1 ∧ ((∀ o ∈ r.2.1, o.isRetry = false) ↔
      ((deliveredMessage e).all fun m => Dated m) = true ∧
        ((evaluated extractFeatures db e w clock d).all fun p =>
          firstForDeadline db.events e w p.1 p.2) = true) := by
  obtain ⟨hsound, hops, hok⟩ := processBody_spec extractFeatures e clock w h hfresh hevent
  rw [← hok, process_eq, Proc.runAlone_bind]
  generalize Proc.runAlone (serve extractFeatures e clock d) 0 db (processBody c w e) = r at hsound hops
  obtain ⟨db', ops, outcome⟩ := r
  match outcome with
  | .ok () =>
    have hdone (now : Int) :
        Sound c { db' with events := Queue.apply db'.events (.markDone e.id e.leaseToken now) } :=
      hsound.producer fun a ha => nomatch ha
    refine ⟨hdone _, fun _ => rfl, fun _ o ho => ?_⟩
    obtain ho | ho := List.mem_append.mp ho
    · exact hops o ho
    · rw [List.mem_singleton.mp ho]
      rfl
  | .error text =>
    have hretried (runAfter now : Int) :
        Sound c { db' with events := Queue.apply db'.events (.markRetry e.id e.leaseToken runAfter text now) } :=
      hsound.producer fun a ha => nomatch ha
    refine ⟨hretried _ _, fun hnone => ?_, fun hok => nomatch hok⟩
    have hretry := hnone (.markRetry (clock (0 + ops.length) + retryBackoffS) text)
      (List.mem_append_right _ (List.mem_cons_of_mem _ List.mem_cons_self))
    cases hretry

end Evaluation

/-- A call of `_process` ends in `mark_retry` exactly where its message has a date that cannot be stored, or it
schedules a flush for a deadline that cannot be stored or that another event has taken. -/
theorem never_retries_iff (extractFeatures : Json → Option Json → MessageFeatures) (c : Config) (ls : List Label)
    (s : State) (hexpected : Meets (step extractFeatures c) Expected {} ls)
    (h : exec (step extractFeatures c) {} ls = some s) :
    (∀ o ∈ s.performed, o.isRetry = false) ↔ Meets (step extractFeatures c) (Avoids extractFeatures) {} ls := by
  suffices hrun : ∀ (ls : List Label) (s₀ : State), Sound c s₀.tables →
      Meets (step extractFeatures c) Expected s₀ ls → exec (step extractFeatures c) s₀ ls = some s →
      ((∀ o ∈ s.performed, o.isRetry = false) ↔ (∀ o ∈ s₀.performed, o.isRetry = false) ∧
        Meets (step extractFeatures c) (Avoids extractFeatures) s₀ ls) by
    rw [hrun ls {} (sound_empty c) hexpected h]
    simp
  intro ls
  induction ls with
  | nil =>
    intro s₀ _ _ h
    obtain rfl := Option.some.inj h
    simp [Meets]
  | cons l ls ih =>
    intro s₀ hsound hexpected h
    obtain ⟨t, ht, h⟩ := exec_cons h
    have hmeets : Meets (step extractFeatures c) (Avoids extractFeatures) s₀ (l :: ls) ↔
        Avoids extractFeatures s₀ l ∧ Meets (step extractFeatures c) (Avoids extractFeatures) t ls := by
      simp [Meets, ht]
    cases l with
    | queue op =>
      obtain rfl := Option.some.inj ht
      have hproducer : ∀ a, op = .enqueue a →
          "inbound-batch".toList.isPrefixOf a.idempotencyKey.toList = false := by
        rintro a rfl
        exact hexpected.1
      rw [ih _ (hsound.producer hproducer) (hexpected.2 _ ht) h, hmeets]
      simp [Avoids]
    | turn e w clock d =>
      obtain ⟨hsound', hturn⟩ := turn_spec extractFeatures e clock w hsound hexpected.1.1 hexpected.1.2
      obtain rfl := Option.some.inj ht
      rw [ih _ hsound' (hexpected.2 _ ht) h, hmeets, List.forall_mem_append, hturn, and_assoc]
      rfl

/-- The call of `_process` for a message that is dated at the epoch. -/
def receive (hex rawEventId : String) : Label :=
  .turn (rowToQueueEvent (received ("evt_" ++ hex) rawEventId).row) {} (fun _ => 1)
    { batchHex := hex, messageHex := hex, historyHex := hex, eventId := "evt_flush_" ++ hex }

/-- The call of `_process` for the flush that the first message has scheduled, when it is due. -/
def flushDue : Label :=
  .turn
    { id := "evt_flush_1"
      tenantId := "t"
      recipient := "batching"
      messageType := "FlushInboundBatch"
      payload := .obj [("batch_id", .str "ib_1"), ("source_id", .str "chat")]
      leaseToken := "k"
      attempts := 1
      maxAttempts := 5
      correlationId := none
      causationId := some "evt_1" } {} (fun _ => 2) { eventId := "evt_out" }

def oneMessage : List Label := [.queue (.enqueue (received "evt_1" "r1")), receive "1" "r1", flushDue]

theorem never_retries_one_message :
    ∃ s, exec (step (fun _ _ => {}) {}) {} oneMessage = some s ∧
      s.tables.batches.map (·.status) = [.routed] ∧ ∀ o ∈ s.performed, o.isRetry = false := by
  have hrun : (exec (step (fun _ _ => {}) {}) {} oneMessage).map (fun s => s.tables.batches.map (·.status)) =
      some [.routed] := by decide +kernel
  obtain ⟨s, hs, hrouted⟩ := Option.map_eq_some_iff.mp hrun
  refine ⟨s, hs, hrouted, ?_⟩
  exact (never_retries_iff (fun _ _ => {}) {} oneMessage s (by decide +kernel) hs).mpr (by decide +kernel)

def twoMessages : List Label := [.queue (.enqueue (received "evt_1" "r1")),
  .queue (.enqueue (received "evt_2" "r2")), receive "1" "r1", receive "2" "r2"]

/-- Two messages of one second lead to one deadline. -/
theorem same_deadline_retries :
    Meets (step (fun _ _ => {}) {}) Expected {} twoMessages ∧
    ∃ s, exec (step (fun _ _ => {}) {}) {} twoMessages = some s ∧
      s.tables.batches.map (fun b => (b.id, b.messageCount)) = [("ib_1", 2)] ∧
      ∃ o ∈ s.performed, o.isRetry = true := by
  refine ⟨by decide +kernel, ?_⟩
  have hrun : (exec (step (fun _ _ => {}) {}) {} twoMessages).map (fun s =>
      (s.tables.batches.map (fun b => (b.id, b.messageCount)), s.performed.any Op.isRetry)) =
      some ([("ib_1", 2)], true) := by decide +kernel
  obtain ⟨s, hs, hend⟩ := Option.map_eq_some_iff.mp hrun
  obtain ⟨hbatches, hretry⟩ := Prod.mk.inj hend
  exact ⟨s, hs, hbatches, List.any_eq_true.mp hretry⟩

end Serial

end Soveren.Batching
