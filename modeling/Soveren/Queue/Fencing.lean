import Mathlib.Data.List.Induction
import Soveren.Queue.Durable

/-! Lease fencing of the durable queue. `RowStep` says once what a store call can do to one
row; every property of call sequences below is read off it. -/
namespace Soveren.Queue
open Soveren.Relational

/-- A call of the queue's store interface. -/
inductive QueueOp where
  | enqueue (a : EnqueueArgs)
  | claimDue (a : ClaimArgs)
  | renewLease (eventId leaseToken : String) (leaseSeconds now : Int)
  | markDone (eventId leaseToken : String) (now : Int)
  | markDeadLetter (eventId leaseToken lastError : String) (now : Int)
  | markRetry (eventId leaseToken : String) (runAfter : Int) (lastError : String) (now : Int)

/-- The table after a call; a call that raises is rolled back. -/
def apply (t : List EventRow) : QueueOp → List EventRow
  | .enqueue a => match enqueue t a with
    | .ok (t', _) => t'
    | .error _ => t
  | .claimDue a => match claimDue t a with
    | .ok (t', _) => t'
    | .error _ => t
  | .renewLease e k s now => match renewLease t e k s now with
    | .ok (t', _) => t'
    | .error _ => t
  | .markDone e k now => (markDone t e k now).1
  | .markDeadLetter e k err now => (markDeadLetter t e k err now).1
  | .markRetry e k after err now => (markRetry t e k after err now).1

/-- The table after a sequence of calls on an empty queue. -/
def runCalls (ops : List QueueOp) : List EventRow := ops.foldl apply []

/-- The event and token that a call presents. -/
def QueueOp.presents : QueueOp → Option (String × String)
  | .enqueue _ | .claimDue _ => none
  | .renewLease e k _ _ | .markDone e k _ | .markDeadLetter e k _ _ | .markRetry e k _ _ _ =>
    some (e, k)

/-- The token that a claim draws. -/
def QueueOp.drawnToken : QueueOp → Option String
  | .claimDue a => some a.leaseToken
  | _ => none

/-- What one call can do to one row. -/
inductive RowStep : QueueOp → EventRow → EventRow → Prop
  | same (op : QueueOp) (r : EventRow) : RowStep op r r
  | bury {a : ClaimArgs} {r : EventRow} (h : a.isExhausted r = true) :
      RowStep (.claimDue a) r (a.bury r)
  | lease {a : ClaimArgs} {r : EventRow} (h : a.isCandidate r = true) :
      RowStep (.claimDue a) r (a.lease r)
  | renew {e k : String} {s now : Int} {r : EventRow} (h : holds e k r = true) :
      RowStep (.renewLease e k s now) r { r with leaseUntil := some (now + s), updatedAt := now }
  | done {e k : String} {now : Int} {r : EventRow} (h : holds e k r = true) :
      RowStep (.markDone e k now) r (r.unlease .done now)
  | dead {e k err : String} {now : Int} {r : EventRow} (h : holds e k r = true) :
      RowStep (.markDeadLetter e k err now) r
        { r.unlease .deadLetter now with lastError := some err }
  | retry {e k err : String} {after now : Int} {r : EventRow} {st : EventStatus}
      (h : holds e k r = true)
      (hst : st = if r.maxAttempts ≤ r.attempts then EventStatus.deadLetter else .retrying) :
      RowStep (.markRetry e k after err now) r
        { r.unlease st now with runAfter := after, lastError := some err }

theorem holds_iff {e k : String} {r : EventRow} :
    holds e k r = true ↔ r.id = e ∧ r.status = .leased ∧ r.leaseToken = some k := by
  simp [holds, and_assoc]

theorem RowStep.id_eq {op : QueueOp} {r s : EventRow} (h : RowStep op r s) : s.id = r.id := by
  cases h <;> rfl

/-- A swept row that is a candidate was not touched by the sweep. -/
theorem isCandidate_of_swept {a : ClaimArgs} {r : EventRow}
    (h : a.isCandidate (if a.isExhausted r then a.bury r else r) = true) :
    a.isExhausted r = false ∧ a.isCandidate r = true := by
  by_cases hx : a.isExhausted r = true
  · simp [hx, ClaimArgs.isCandidate, ClaimArgs.bury, EventRow.unlease] at h
  · simp only [hx, Bool.false_eq_true, if_false] at h
    exact ⟨by simpa using hx, h⟩

theorem swept_ids (a : ClaimArgs) (t : List EventRow) :
    (a.swept t).map (·.id) = t.map (·.id) :=
  map_updateWhere t fun _ _ => rfl

/-- With distinct ids, a claimed id belongs to a candidate row. -/
theorem isCandidate_of_mem_claimIds {a : ClaimArgs} {t : List EventRow}
    (hid : (t.map (·.id)).Nodup) {r : EventRow} (hr : r ∈ a.swept t)
    (h : r.id ∈ a.claimIds t) : a.isCandidate r = true := by
  obtain ⟨c, hc, he⟩ := List.mem_map.mp h
  have hc' := mem_selectOrdered.mp (List.mem_of_mem_take hc)
  have hnd : ((a.swept t).map (·.id)).Nodup := by rw [swept_ids]; exact hid
  have hcr : c = r := eq_of_key hnd hc'.1 hr he
  exact hcr ▸ hc'.2

theorem claimDue_rows {t t' rows : List EventRow} {a : ClaimArgs}
    (h : claimDue t a = .ok (t', rows)) :
    t' = updateWhere (fun r => (a.claimIds t).contains r.id) a.lease (a.swept t) := by
  unfold claimDue at h
  cases hv : a.validate with
  | error e => simp [hv, bind, Except.bind] at h
  | ok _ =>
    simp only [hv, bind, Except.bind, Except.ok.injEq, Prod.mk.injEq] at h
    exact h.1.symm

theorem mem_claimed {t t' rows : List EventRow} {a : ClaimArgs}
    (h : claimDue t a = .ok (t', rows)) {r : EventRow} :
    r ∈ rows ↔ r ∈ t' ∧ r.id ∈ a.claimIds t := by
  have hrows : rows = selectOrdered (fun r => (a.claimIds t).contains r.id) deliveryOrder t' := by
    unfold claimDue at h
    obtain ⟨_, -, h⟩ := bind_eq_ok h
    cases h
    rfl
  rw [hrows, mem_selectOrdered, List.contains_iff_mem]

/-- A claim returns each row once. -/
theorem claimed_nodup {t t' rows : List EventRow} {a : ClaimArgs}
    (h : claimDue t a = .ok (t', rows)) (hid : (t'.map (·.id)).Nodup) :
    (rows.map (·.id)).Nodup := by
  unfold claimDue at h
  obtain ⟨_, -, h⟩ := bind_eq_ok h
  cases h
  refine (List.Perm.nodup_iff ((List.perm_insertionSort _ _).map _)).mpr ?_
  exact hid.sublist (List.filter_sublist.map _)

/-- With a fresh token, the rows a claim returns are the rows under its token. -/
theorem mem_claimed_of_token {t t' rows : List EventRow} {a : ClaimArgs}
    (h : claimDue t a = .ok (t', rows)) (hfresh : ∀ r ∈ t, r.leaseToken ≠ some a.leaseToken)
    {r : EventRow} (hr : r ∈ t') (hk : r.leaseToken = some a.leaseToken) : r ∈ rows := by
  refine (mem_claimed h).mpr ⟨hr, ?_⟩
  rw [claimDue_rows h] at hr
  rcases mem_updateWhere.mp hr with ⟨s, -, hs, rfl⟩ | ⟨hr, -⟩
  · exact List.contains_iff_mem.mp hs
  · rcases mem_updateWhere.mp hr with ⟨s, -, -, rfl⟩ | ⟨hr, -⟩
    · simp [ClaimArgs.bury, EventRow.unlease] at hk
    · exact absurd hk (hfresh r hr)

theorem claimed_lease {t t' rows : List EventRow} {a : ClaimArgs}
    (h : claimDue t a = .ok (t', rows)) {r : EventRow} (hr : r ∈ rows) :
    ∃ s, r = a.lease s := by
  obtain ⟨hr', hid⟩ := (mem_claimed h).mp hr
  rw [claimDue_rows h] at hr'
  rcases mem_updateWhere.mp hr' with ⟨s, -, -, rfl⟩ | ⟨-, hn⟩
  · exact ⟨s, rfl⟩
  · simp [hid] at hn

/-- The row function of a claim. -/
theorem claimDue_map {t t' rows : List EventRow} {a : ClaimArgs} (hid : (t.map (·.id)).Nodup)
    (h : claimDue t a = .ok (t', rows)) :
    ∃ g : EventRow → EventRow, t' = t.map g ∧ ∀ r ∈ t, RowStep (.claimDue a) r (g r) := by
  refine ⟨fun r => let s := if a.isExhausted r then a.bury r else r
    if (a.claimIds t).contains s.id then a.lease s else s, ?_, ?_⟩
  · rw [claimDue_rows h]
    simp [updateWhere, ClaimArgs.swept]
  · intro r hr
    have hs : (if a.isExhausted r then a.bury r else r) ∈ a.swept t := mem_updateWhere_of_mem hr
    dsimp only
    by_cases hc : (if a.isExhausted r then a.bury r else r).id ∈ a.claimIds t
    · obtain ⟨hx, hcr⟩ := isCandidate_of_swept (isCandidate_of_mem_claimIds hid hs hc)
      rw [if_pos (by simpa using hc), hx]
      exact .lease hcr
    · rw [if_neg (by simpa using hc)]
      split
      · exact .bury ‹_›
      · exact .same _ _

theorem updateWhere_map {t : List EventRow} (op : QueueOp) {p : EventRow → Bool}
    {f : EventRow → EventRow} (h : ∀ r ∈ t, p r = true → RowStep op r (f r)) :
    ∃ g : EventRow → EventRow, updateWhere p f t = t.map g ∧ ∀ r ∈ t, RowStep op r (g r) := by
  refine ⟨fun r => if p r then f r else r, rfl, fun r hr => ?_⟩
  dsimp only
  split
  · exact h r hr ‹_›
  · exact .same _ _

/-- Every call maps the rows of the table by row steps and inserts at most a fresh row. -/
theorem apply_spec {t : List EventRow} (hid : (t.map (·.id)).Nodup) (op : QueueOp) :
    (∃ g : EventRow → EventRow, apply t op = t.map g ∧ ∀ r ∈ t, RowStep op r (g r)) ∨
    (∃ a, op = .enqueue a ∧ apply t op = t ++ [a.row] ∧ a.eventId ∉ t.map (·.id) ∧
      ∀ r ∈ t, ¬ (r.tenantId = a.tenantId ∧ r.idempotencyKey = a.idempotencyKey)) := by
  have hsame : ∃ g : EventRow → EventRow, t = t.map g ∧ ∀ r ∈ t, RowStep op r (g r) :=
    ⟨id, by simp, fun r _ => .same _ r⟩
  cases op with
  | enqueue a =>
    simp only [apply]
    split
    · rename_i heq
      rcases enqueue_ok heq with ⟨rfl, -, hn, hk⟩ | ⟨rfl, -, -⟩
      · exact .inr ⟨a, rfl, rfl, hn, hk⟩
      · exact .inl hsame
    · exact .inl hsame
  | claimDue a =>
    left
    simp only [apply]
    split
    · rename_i heq
      exact claimDue_map hid heq
    · exact hsame
  | renewLease e k s now =>
    left
    simp only [apply, renewLease]
    split
    · rename_i heq
      split at heq
      · cases heq
      · obtain ⟨rfl, -⟩ := Prod.mk.inj (Except.ok.inj heq)
        refine updateWhere_map _ fun r _ hp => ?_
        exact .renew (by simp only [Bool.and_eq_true] at hp; exact hp.1)
    · exact hsame
  | markDone e k now => exact .inl (updateWhere_map _ fun r _ hp => .done hp)
  | markDeadLetter e k err now => exact .inl (updateWhere_map _ fun r _ hp => .dead hp)
  | markRetry e k after err now =>
    left
    simp only [apply, markRetry]
    cases hf : t.find? (holds e k) with
    | none => exact hsame
    | some row =>
      have hrow := List.find?_some hf
      have hmem := List.mem_of_find?_eq_some hf
      -- All rows the statement updates are the row that was read.
      have hg : ∀ r ∈ t, holds e k r = true → r = row := fun r hr hp =>
        eq_of_key hid hr hmem ((holds_iff.mp hp).1.trans (holds_iff.mp hrow).1.symm)
      have hupd := updateWhere_map (.markRetry e k after err now) (t := t) (p := holds e k)
        (f := fun r => { r.unlease (if row.maxAttempts ≤ row.attempts then .deadLetter else .retrying)
          now with runAfter := after, lastError := some err })
        fun r hr hp => .retry hp (by rw [hg r hr hp])
      dsimp only
      split <;> exact hupd

/-- The row invariant: a token exactly while leased, a lease only after a counted attempt,
and waiting rows below their attempt limit. -/
structure RowValid (r : EventRow) : Prop where
  token_iff : r.leaseToken.isSome ↔ r.status = .leased
  leased_attempts : r.status = .leased → 1 ≤ r.attempts
  waiting_attempts : r.status = .queued ∨ r.status = .retrying → r.attempts < r.maxAttempts

/-- The table invariant: distinct ids, distinct idempotency keys per tenant, valid rows. -/
structure TableValid (t : List EventRow) : Prop where
  ids : (t.map (·.id)).Nodup
  keys : (t.map fun r => (r.tenantId, r.idempotencyKey)).Nodup
  rows : ∀ r ∈ t, RowValid r

theorem tableValid_nil : TableValid [] := ⟨by simp, by simp, by simp⟩

theorem RowStep.key_eq {op : QueueOp} {r s : EventRow} (h : RowStep op r s) :
    (s.tenantId, s.idempotencyKey) = (r.tenantId, r.idempotencyKey) := by
  cases h <;> rfl

theorem RowStep.valid {op : QueueOp} {r s : EventRow} (h : RowStep op r s) (hr : RowValid r) :
    RowValid s := by
  cases h with
  | same => exact hr
  | bury _ => constructor <;> simp [ClaimArgs.bury, EventRow.unlease]
  | lease _ => constructor <;> simp [ClaimArgs.lease]
  | renew hh => exact ⟨hr.token_iff, hr.leased_attempts, hr.waiting_attempts⟩
  | done _ => constructor <;> simp [EventRow.unlease]
  | dead _ => constructor <;> simp [EventRow.unlease]
  | retry _ hst =>
    subst hst
    by_cases hm : r.maxAttempts ≤ r.attempts
    · constructor <;> simp [EventRow.unlease, hm]
    · constructor <;> simp [EventRow.unlease, hm]
      omega

theorem apply_ids_nodup {t : List EventRow} (hid : (t.map (·.id)).Nodup) (op : QueueOp) :
    ((apply t op).map (·.id)).Nodup := by
  rcases apply_spec hid op with ⟨g, hg, hstep⟩ | ⟨a, rfl, ha, hnew, -⟩
  · have hmap : (t.map g).map (·.id) = t.map (·.id) := by
      rw [List.map_map]
      exact List.map_congr_left fun r hr => (hstep r hr).id_eq
    rw [hg, hmap]
    exact hid
  · rw [ha, List.map_append, List.map_singleton]
    refine List.nodup_append.mpr ⟨hid, List.nodup_singleton _, ?_⟩
    rintro x hx y hy rfl
    obtain rfl := List.mem_singleton.mp hy
    exact hnew hx

theorem apply_keys_nodup {t : List EventRow} (hid : (t.map (·.id)).Nodup)
    (hkeys : (t.map fun r => (r.tenantId, r.idempotencyKey)).Nodup) (op : QueueOp) :
    ((apply t op).map fun r => (r.tenantId, r.idempotencyKey)).Nodup := by
  obtain ⟨g, hg, hstep⟩ | ⟨a, rfl, ha, -, hkey⟩ := apply_spec hid op
  · have hmap : (t.map g).map (fun r => (r.tenantId, r.idempotencyKey)) =
        t.map fun r => (r.tenantId, r.idempotencyKey) := by
      rw [List.map_map]
      exact List.map_congr_left fun r hr => (hstep r hr).key_eq
    rw [hg, hmap]
    exact hkeys
  · rw [ha, List.map_append, List.map_singleton]
    refine List.nodup_append.mpr ⟨hkeys, List.nodup_singleton _, ?_⟩
    rintro x hx y hy rfl
    obtain rfl := List.mem_singleton.mp hy
    obtain ⟨r, hr, he⟩ := List.mem_map.mp hx
    exact hkey r hr (by simpa [EnqueueArgs.row] using he)

theorem apply_tableValid {t : List EventRow} (h : TableValid t) (op : QueueOp)
    (hmax : ∀ a, op = .enqueue a → 1 ≤ a.maxAttempts) : TableValid (apply t op) := by
  refine ⟨apply_ids_nodup h.ids op, apply_keys_nodup h.ids h.keys op, ?_⟩
  obtain ⟨g, hg, hstep⟩ | ⟨a, rfl, ha, -, -⟩ := apply_spec h.ids op
  · rw [hg]
    intro s hs
    obtain ⟨r, hr, rfl⟩ := List.mem_map.mp hs
    exact (hstep r hr).valid (h.rows r hr)
  · rw [ha]
    have hrow : RowValid a.row := by
      have := hmax a rfl
      constructor <;> simp [EnqueueArgs.row]
      omega
    intro r hr
    obtain hr | hr := List.mem_append.mp hr
    · exact h.rows r hr
    · rw [List.mem_singleton.mp hr]
      exact hrow

/-- A row of the table after a call comes from a row before it or is the inserted one. -/
theorem mem_apply {t : List EventRow} (hid : (t.map (·.id)).Nodup) {op : QueueOp} {s : EventRow}
    (hs : s ∈ apply t op) :
    (∃ r ∈ t, RowStep op r s) ∨ (∃ a, op = .enqueue a ∧ s = a.row ∧ a.eventId ∉ t.map (·.id)) := by
  rcases apply_spec hid op with ⟨g, hg, hstep⟩ | ⟨a, rfl, ha, hn, -⟩
  · rw [hg] at hs
    obtain ⟨r, hr, rfl⟩ := List.mem_map.mp hs
    exact .inl ⟨r, hr, hstep r hr⟩
  · rw [ha] at hs
    rcases List.mem_append.mp hs with hs | hs
    · exact .inl ⟨s, hs, .same _ s⟩
    · exact .inr ⟨a, rfl, List.mem_singleton.mp hs, hn⟩

/-- A row before a call has a successor after it. -/
theorem exists_apply {t : List EventRow} (hid : (t.map (·.id)).Nodup) (op : QueueOp) {r : EventRow}
    (hr : r ∈ t) : ∃ s ∈ apply t op, RowStep op r s := by
  rcases apply_spec hid op with ⟨g, hg, hstep⟩ | ⟨a, rfl, ha, -, -⟩
  · exact ⟨g r, hg ▸ List.mem_map_of_mem hr, hstep r hr⟩
  · exact ⟨r, ha ▸ List.mem_append_left _ hr, .same _ r⟩

theorem holds_false_of_token {e k : String} {r : EventRow}
    (h : r.id = e → r.leaseToken ≠ some k) : holds e k r = false := by
  by_contra hc
  have hh := holds_iff.mp (by simpa using hc)
  exact h hh.1 hh.2.2

/-- A call that presents a token which is not the row's current one changes nothing. -/
theorem apply_eq_self_of_token {t : List EventRow} {op : QueueOp} {e k : String}
    (hop : op.presents = some (e, k)) (h : ∀ r ∈ t, r.id = e → r.leaseToken ≠ some k) :
    apply t op = t := by
  have hno : ∀ r ∈ t, holds e k r = false := fun r hr => holds_false_of_token (h r hr)
  cases op with
  | enqueue a => cases hop
  | claimDue a => cases hop
  | renewLease e' k' s now =>
    obtain ⟨rfl, rfl⟩ : e' = e ∧ k' = k := by simpa [QueueOp.presents] using hop
    simp only [apply, renewLease]
    split
    · rename_i heq
      split at heq
      · cases heq
      · rw [← (Prod.mk.inj (Except.ok.inj heq)).1]
        exact updateWhere_eq_self fun r hr => by simp [hno r hr]
    · rfl
  | markDone e' k' now =>
    obtain ⟨rfl, rfl⟩ : e' = e ∧ k' = k := by simpa [QueueOp.presents] using hop
    exact updateWhere_eq_self hno
  | markDeadLetter e' k' err now =>
    obtain ⟨rfl, rfl⟩ : e' = e ∧ k' = k := by simpa [QueueOp.presents] using hop
    exact updateWhere_eq_self hno
  | markRetry e' k' after err now =>
    obtain ⟨rfl, rfl⟩ : e' = e ∧ k' = k := by simpa [QueueOp.presents] using hop
    have hf : t.find? (holds e' k') = none := List.find?_eq_none.mpr fun r hr => by simp [hno r hr]
    simp [apply, markRetry, hf]

/-- Terminal rows are in no statement's condition. -/
theorem RowStep.eq_of_terminal {op : QueueOp} {r s : EventRow} (h : RowStep op r s)
    (ht : r.status = .done ∨ r.status = .deadLetter) : s = r := by
  cases h with
  | same => rfl
  | bury h => rcases ht with ht | ht <;> simp [ClaimArgs.isExhausted, ht] at h
  | lease h => rcases ht with ht | ht <;> simp [ClaimArgs.isCandidate, ht] at h
  | renew h | done h | dead h | retry h _ =>
    rcases ht with ht | ht <;> simp [holds, ht] at h

/-- What an event is about. -/
def EventRow.content (r : EventRow) :
    String × String × String × Json × ℕ × Option String × Option String × Option Json :=
  (r.tenantId, r.recipient, r.messageType, r.payload, r.maxAttempts, r.correlationId, r.causationId,
    r.idempotencyFingerprint)

/-- No call rewrites what an event is about. -/
theorem RowStep.content_eq {op : QueueOp} {r s : EventRow} (h : RowStep op r s) :
    s.content = r.content := by
  cases h <;> rfl

theorem RowStep.messageType_eq {op : QueueOp} {r s : EventRow} (h : RowStep op r s) :
    s.messageType = r.messageType := by
  cases h <;> rfl

/-- The worker's view of a row depends on its content, its token and its attempts. -/
theorem RowStep.rowToQueueEvent_eq {op : QueueOp} {r s : EventRow} (h : RowStep op r s)
    (hk : r.leaseToken = s.leaseToken) (ha : s.attempts = r.attempts) :
    rowToQueueEvent r = rowToQueueEvent s := by
  have hc := h.content_eq
  simp only [EventRow.content, Prod.mk.injEq] at hc
  obtain ⟨hten, hrec, hkind, hpay, hmax, hcor, hcau, -⟩ := hc
  simp only [rowToQueueEvent, h.id_eq, hten, hrec, hkind, hpay, hmax, hcor, hcau, hk, ha]

/-- A row under a token has kept it with its attempts, or was just leased. -/
theorem RowStep.of_token {op : QueueOp} {r s : EventRow} {k : String} (h : RowStep op r s)
    (hk : s.leaseToken = some k) :
    (r.leaseToken = some k ∧ s.status = r.status ∧ s.attempts = r.attempts) ∨
      ∃ a, op = .claimDue a ∧ a.leaseToken = k ∧ s = a.lease r := by
  cases h with
  | same => exact .inl ⟨hk, rfl, rfl⟩
  | bury _ => simp [ClaimArgs.bury, EventRow.unlease] at hk
  | @lease a _ _ => exact .inr ⟨a, rfl, Option.some.inj hk, rfl⟩
  | renew _ => exact .inl ⟨hk, rfl, rfl⟩
  | done _ | dead _ | retry _ _ => simp [EventRow.unlease] at hk

/-- A call that presents a token leaves alone the rows that are not leased under it. -/
theorem mem_apply_of_not_holds {t : List EventRow} (hid : (t.map (·.id)).Nodup) {op : QueueOp}
    {e k : String} (hop : op.presents = some (e, k)) {r : EventRow} (hr : r ∈ t)
    (hh : holds e k r = false) : r ∈ apply t op := by
  obtain ⟨s, hs, hstep⟩ := exists_apply hid op hr
  have hcon : ∀ {e' k'}, op.presents = some (e', k') → holds e' k' r = true → False := by
    intro e' k' hop' hh'
    obtain ⟨rfl, rfl⟩ := Prod.mk.inj (Option.some.inj (hop.symm.trans hop'))
    simp [hh] at hh'
  cases hstep with
  | same => exact hs
  | bury _ | lease _ => cases hop
  | renew h | done h | dead h | retry h _ => exact (hcon rfl h).elim

/-- A row gets a token only from the claim that draws it. -/
theorem RowStep.token_of {op : QueueOp} {r s : EventRow} {k : String} (h : RowStep op r s)
    (hk : s.leaseToken = some k) : r.leaseToken = some k ∨ op.drawnToken = some k := by
  cases h with
  | same => exact .inl hk
  | bury _ => simp [ClaimArgs.bury, EventRow.unlease] at hk
  | lease _ => exact .inr hk
  | renew _ => exact .inl hk
  | done _ | dead _ | retry _ _ => simp [EventRow.unlease] at hk

/-- Without recovery no row is leased beyond its limit. -/
theorem RowStep.attempts_le {op : QueueOp} {r s : EventRow} (h : RowStep op r s)
    (hop : ∀ a, op = .claimDue a → a.recoverExhausted = false) (hv : RowValid r)
    (hr : r.attempts ≤ r.maxAttempts) : s.attempts ≤ s.maxAttempts := by
  cases h with
  | @lease a _ h =>
    have hrec := hop a rfl
    simp only [ClaimArgs.isCandidate, hrec, Bool.or_false, Bool.and_eq_true, Bool.or_eq_true,
      decide_eq_true_eq] at h
    have hlt : r.attempts < r.maxAttempts := by
      rcases h.2 with (hs | hs) | hs
      · exact hv.waiting_attempts (.inl hs)
      · exact hv.waiting_attempts (.inr hs)
      · exact hs.2
    exact hlt
  | same | bury _ | renew _ | done _ | dead _ | retry _ _ => exact hr

theorem runCalls_snoc (ops : List QueueOp) (op : QueueOp) :
    runCalls (ops ++ [op]) = apply (runCalls ops) op := by
  simp [runCalls, List.foldl_append]

theorem runCalls_valid {ops : List QueueOp}
    (hmax : ∀ a, QueueOp.enqueue a ∈ ops → 1 ≤ a.maxAttempts) : TableValid (runCalls ops) := by
  induction ops using List.reverseRecOn with
  | nil => exact tableValid_nil
  | append_singleton ops op ih =>
    rw [runCalls_snoc]
    refine apply_tableValid (ih fun a ha => hmax a (by simp [ha])) op fun a ha => hmax a ?_
    simp [ha]

/-- What every call keeps for the rows of one table, a sequence of calls keeps. -/
theorem runCalls_append_invariant {I : List EventRow → Prop} (pre post : List QueueOp)
    (hmax : ∀ a, QueueOp.enqueue a ∈ pre ++ post → 1 ≤ a.maxAttempts)
    (hstep : ∀ t op, TableValid t → op ∈ post → I t → I (apply t op)) (h0 : I (runCalls pre)) :
    I (runCalls (pre ++ post)) := by
  induction post using List.reverseRecOn with
  | nil => simpa using h0
  | append_singleton post op ih =>
    rw [← List.append_assoc, runCalls_snoc]
    have hm : ∀ a, QueueOp.enqueue a ∈ pre ++ post → 1 ≤ a.maxAttempts := by
      intro a ha
      refine hmax a ?_
      rw [← List.append_assoc]
      exact List.mem_append_left _ ha
    refine hstep _ op (runCalls_valid hm) (by simp) (ih hm fun t op' hv hop hI => ?_)
    exact hstep t op' hv (List.mem_append_left _ hop) hI

/-- A terminal row survives every further call. -/
theorem terminal_kept {pre post : List QueueOp} {r : EventRow}
    (hmax : ∀ a, QueueOp.enqueue a ∈ pre ++ post → 1 ≤ a.maxAttempts)
    (hr : r ∈ runCalls pre) (ht : r.status = .done ∨ r.status = .deadLetter) :
    r ∈ runCalls (pre ++ post) := by
  refine runCalls_append_invariant (I := fun t => r ∈ t) pre post hmax (fun t op hv _ hI => ?_) hr
  obtain ⟨s, hs, hstep⟩ := exists_apply hv.ids op hI
  rwa [hstep.eq_of_terminal ht] at hs

/-- A row that does not carry a token gets it only from the claim that draws it. -/
theorem token_not_regained {pre post : List QueueOp} {x k : String}
    (hmax : ∀ a, QueueOp.enqueue a ∈ pre ++ post → 1 ≤ a.maxAttempts)
    (hdrawn : ∀ op ∈ post, op.drawnToken ≠ some k)
    (h : ∀ r ∈ runCalls pre, r.id = x → r.leaseToken ≠ some k) :
    ∀ r ∈ runCalls (pre ++ post), r.id = x → r.leaseToken ≠ some k := by
  refine runCalls_append_invariant (I := fun t => ∀ r ∈ t, r.id = x → r.leaseToken ≠ some k)
    pre post hmax (fun t op hv hop hI s hs hid hk => ?_) h
  rcases mem_apply hv.ids hs with ⟨r, hr, hstep⟩ | ⟨a, -, rfl, -⟩
  · rcases hstep.token_of hk with hk' | hd
    · exact hI r hr (hstep.id_eq ▸ hid) hk'
    · exact hdrawn op hop hd
  · simp [EnqueueArgs.row] at hk

theorem attempts_le_max {ops : List QueueOp}
    (hmax : ∀ a, QueueOp.enqueue a ∈ ops → 1 ≤ a.maxAttempts)
    (hrec : ∀ a, QueueOp.claimDue a ∈ ops → a.recoverExhausted = false) :
    ∀ r ∈ runCalls ops, r.attempts ≤ r.maxAttempts := by
  have := runCalls_append_invariant (I := fun t => ∀ r ∈ t, r.attempts ≤ r.maxAttempts)
    [] ops (by simpa using hmax)
    (fun t op hv hop hI s hs => ?_) (by simp [runCalls])
  · simpa using this
  · rcases mem_apply hv.ids hs with ⟨r, hr, hstep⟩ | ⟨a, -, rfl, -⟩
    · exact hstep.attempts_le (fun a ha => hrec a (ha ▸ hop)) (hv.rows r hr) (hI r hr)
    · exact Nat.zero_le _

/-- Lease fencing, over every sequence of calls whose claims draw distinct tokens and whose
events allow at least one attempt. -/
theorem lease_fencing (ops : List QueueOp)
    (hfresh : (ops.filterMap QueueOp.drawnToken).Nodup)
    (hmax : ∀ a, QueueOp.enqueue a ∈ ops → 1 ≤ a.maxAttempts) :
    -- an operation with a token that is not current changes no row
    (∀ pre op post e k, ops = pre ++ op :: post → op.presents = some (e, k) →
      (∀ r ∈ runCalls pre, r.id = e → r.leaseToken ≠ some k) →
      runCalls (pre ++ [op]) = runCalls pre) ∧
    -- terminal rows are never changed again
    (∀ pre post, ops = pre ++ post → ∀ r ∈ runCalls pre,
      r.status = .done ∨ r.status = .deadLetter → r ∈ runCalls ops) ∧
    -- a token exactly while leased, and never the same one twice on a row
    (∀ r ∈ runCalls ops, r.leaseToken.isSome ↔ r.status = .leased) ∧
    (∀ pre a mid post x, ops = (pre ++ .claimDue a :: mid) ++ post →
      (∀ r ∈ runCalls (pre ++ .claimDue a :: mid), r.id = x → r.leaseToken ≠ some a.leaseToken) →
      ∀ r ∈ runCalls ops, r.id = x → r.leaseToken ≠ some a.leaseToken) ∧
    -- attempt limits
    (∀ r ∈ runCalls ops, r.status = .queued ∨ r.status = .retrying → r.attempts < r.maxAttempts) ∧
    ((∀ a, QueueOp.claimDue a ∈ ops → a.recoverExhausted = false) →
      ∀ r ∈ runCalls ops, r.attempts ≤ r.maxAttempts) := by
  have hv := runCalls_valid hmax
  refine ⟨?_, ?_, fun r hr => (hv.rows r hr).token_iff, ?_,
    fun r hr => (hv.rows r hr).waiting_attempts, attempts_le_max hmax⟩
  · rintro pre op post e k - hop h
    rw [runCalls_snoc]
    exact apply_eq_self_of_token hop h
  · rintro pre post rfl r hr ht
    exact terminal_kept hmax hr ht
  · rintro pre a mid post x rfl h
    refine token_not_regained hmax (fun op hop hd => ?_) h
    have hnd := (List.nodup_append.mp (by simpa only [List.filterMap_append] using hfresh)).2.2
    exact hnd a.leaseToken (by simp [QueueOp.drawnToken]) a.leaseToken
      (List.mem_filterMap.mpr ⟨op, hop, hd⟩) rfl

/-- One event whose first lease expires and is reclaimed before the late worker reports. -/
def reclaimedCalls : List QueueOp :=
  let event : EnqueueArgs :=
    { eventId := "evt_1", tenantId := "t", recipient := "actions", messageType := "ExecuteAction",
      payload := .obj [], idempotencyKey := "k", now := 0 }
  let first : ClaimArgs :=
    { recipient := "actions", limit := 5, leaseOwner := "a", leaseSeconds := 60, now := 0,
      leaseToken := "first" }
  [.enqueue event, .claimDue first,
    .claimDue { first with leaseOwner := "b", now := 60, leaseToken := "second" },
    .markDone "evt_1" "first" 61]

theorem lease_fencing_reclaimed :
    (runCalls reclaimedCalls).map (fun r => (r.status, r.leaseToken, r.attempts)) =
      [(.leased, some "second", 2)] ∧
    runCalls reclaimedCalls = runCalls (reclaimedCalls.take 3) := by
  have h := lease_fencing reclaimedCalls (by decide) (by simp [reclaimedCalls])
  refine ⟨by decide, h.1 (reclaimedCalls.take 3) _ [] "evt_1" "first" rfl rfl ?_⟩
  decide

end Soveren.Queue
