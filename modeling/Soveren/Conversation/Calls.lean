import Mathlib.Data.List.Induction
import Soveren.Reconciliation.Outbound
import Soveren.Dialogue.Effects

/-! The store calls on the tables of a conversation, and everything one call can do to one
outbound message. -/
namespace Soveren.Conversation
open Soveren.Relational Soveren.Outbound Soveren.Dialogue Soveren.Reconciliation

inductive Call where
  | enqueue (a : EnqueueArgs)
  | enqueueMany (requests : List EnqueueArgs)
  | claimDue (a : ClaimArgs)
  | renewLease (messageId leaseToken : String) (leaseSeconds now : Int)
  | markSending (messageId leaseToken : String) (now : Int)
  | markSent (messageId leaseToken : String) (result : Json) (historyHex : String) (now : Int)
  | markUncertain (messageId leaseToken lastError : String) (now : Int)
  | markDeadLetter (messageId leaseToken lastError : String) (now : Int)
  | markRetry (messageId leaseToken : String) (runAfter : Int) (lastError : String) (now : Int)
  | resolveOutbound (resolution : OutboundResolution) (q : OutboundRequest)
  | applyPlan (c : Application)

/-- The tables after a store call; a call that raises is rolled back. -/
def orKeep {α : Type} (db : Tables) (r : Except StoreError (Tables × α)) : Tables :=
  match r with
  | .ok (db', _) => db'
  | .error _ => db

/-- The tables after a call. -/
def perform (db : Tables) : Call → Tables
  | .enqueue a => orKeep db (enqueueOutboundWithResult db a)
  | .enqueueMany requests => orKeep db (enqueueOutboundMany db requests)
  | .claimDue a => orKeep db (claimDue db a)
  | .renewLease m k leaseSeconds now => orKeep db (renewLease db m k leaseSeconds now)
  | .markSending m k now => (markSending db m k now).1
  | .markSent m k result historyHex now => orKeep db (markSent db m k result historyHex now)
  | .markUncertain m k lastError now => (markUncertain db m k lastError now).1
  | .markDeadLetter m k lastError now => (markDeadLetter db m k lastError now).1
  | .markRetry m k runAfter lastError now => (markRetry db m k runAfter lastError now).1
  | .resolveOutbound resolution q => orKeep db (resolveOutbound db resolution q)
  | .applyPlan c => orKeep db (applyDialoguePlan c db)

/-- The tables after a sequence of calls on an empty store. -/
def runCalls (calls : List Call) : Tables := calls.foldl perform {}

/-- The messages that a call asks to enqueue. -/
def Call.requests : Call → List EnqueueArgs
  | .enqueue a => [a]
  | .enqueueMany requests => requests
  | _ => []

/-- A row that a call inserts. -/
def Inserted (call : Call) (r : OutboundRow) : Prop :=
  ∃ a ∈ call.requests, r = a.row ∧ a.validate = .ok ()

/-- What the sweep at the start of a claim can do to one row. -/
inductive Swept (a : ClaimArgs) (r : OutboundRow) : OutboundRow → Prop
  | same : Swept a r r
  | lost (h : a.isLostSend r = true) : Swept a r
      (fail r .uncertain "outbound send outcome is uncertain after lease expiry" a.now)
  | exhausted (h : a.isExhausted r = true) : Swept a r
      (fail r .deadLetter "outbound lease expired after the maximum number of attempts" a.now)
  | blocked (h : r.status = .queued ∨ r.status = .retrying) : Swept a r
      (fail r .cancelled "ordered predecessor did not complete successfully" a.now)

/-- What one call can do to one row. -/
inductive RowStep (db : Tables) : Call → OutboundRow → OutboundRow → Prop
  | same (call : Call) (r : OutboundRow) : RowStep db call r r
  | swept {a : ClaimArgs} {r s : OutboundRow} (h : Swept a r s) : RowStep db (.claimDue a) r s
  | leased {a : ClaimArgs} {r : OutboundRow} (h : a.isCandidate (a.swept db.outbound) r = true) :
      RowStep db (.claimDue a) r (a.lease r)
  | renewed {m k : String} {leaseSeconds now : Int} {r : OutboundRow}
      (h : holds [.leased, .sending] m k r = true) :
      RowStep db (.renewLease m k leaseSeconds now) r
        { r with leaseUntil := some (now + leaseSeconds), updatedAt := now }
  | admitted {m k : String} {now : Int} {r : OutboundRow} (h : holds [.leased] m k r = true)
      (hc : taskAdmissionIsCurrent db r = true) :
      RowStep db (.markSending m k now) r { r with status := .sending, updatedAt := now }
  | refused {m k : String} {now : Int} {r : OutboundRow} (h : holds [.leased] m k r = true) :
      RowStep db (.markSending m k now) r (fail r .cancelled
        "dialogue task or routing question became stale before send admission" now)
  | sent {m k historyHex : String} {result : Json} {now : Int} {r : OutboundRow}
      (h : holds [.sending] m k r = true) :
      RowStep db (.markSent m k result historyHex now) r (sentRow r result now)
  | uncertain {m k lastError : String} {now : Int} {r : OutboundRow}
      (h : holds [.sending] m k r = true) :
      RowStep db (.markUncertain m k lastError now) r (fail r .uncertain lastError now)
  | dead {m k lastError : String} {now : Int} {r : OutboundRow}
      (h : holds [.leased, .sending] m k r = true) :
      RowStep db (.markDeadLetter m k lastError now) r (fail r .deadLetter lastError now)
  | retried {m k lastError : String} {runAfter now : Int} {r : OutboundRow} {status : OutboundStatus}
      (h : holds [.leased, .sending] m k r = true)
      (hs : status = .deadLetter ∨ status = .retrying) :
      RowStep db (.markRetry m k runAfter lastError now) r
        { fail r status lastError now with runAfter := runAfter }
  | resolved {resolution : OutboundResolution} {q : OutboundRequest} {r : OutboundRow}
      (h : q.request.names r = true) (hs : r.status = .uncertain) :
      RowStep db (.resolveOutbound resolution q) r (resolution.write q r)
  | suppressed {c : Application} {r s : OutboundRow} (h : Suppressed r s) :
      RowStep db (.applyPlan c) r s

section Inversion

variable {db db' : Tables}

theorem enqueueOutboundWithResult_ok {a : EnqueueArgs} {result : OutboundEnqueueResult}
    (h : enqueueOutboundWithResult db a = .ok (db', result)) :
    a.validate = .ok () ∧
    ((db' = db ∧ ∃ x, byKey db.outbound a.scope a.idempotencyKey = some x ∧
        replayMatches x a = true ∧ result = ⟨x.id, false⟩) ∨
      (db' = { db with outbound := db.outbound ++ [a.row] } ∧
        (∀ r ∈ db.outbound, conflicts a.row r = false) ∧ a.validateReference db = .ok () ∧
        result = ⟨a.row.id, true⟩)) := by
  obtain ⟨_, hv, h⟩ := bind_eq_ok h
  refine ⟨hv, ?_⟩
  split at h
  · rename_i x hx
    obtain ⟨_, hreplay, h⟩ := bind_eq_ok h
    obtain ⟨rfl, rfl⟩ := Prod.mk.inj (Except.ok.inj h)
    exact .inl ⟨rfl, x, hx, requireIdempotentReplay_ok hreplay, rfl⟩
  · obtain ⟨_, href, h⟩ := bind_eq_ok h
    obtain ⟨db1, hins, h⟩ := bind_eq_ok h
    obtain ⟨rfl, rfl⟩ := Prod.mk.inj (Except.ok.inj h)
    unfold insertOutbound at hins
    split at hins
    · cases hins
    · rename_i hno
      refine .inr ⟨(Except.ok.inj hins).symm, fun r hr => ?_, href, rfl⟩
      simpa using (List.any_eq_false.mp (by simpa using hno)) r hr

/-- A batch of requests appends the rows of some of them. -/
theorem enqueueOutboundMany_ok {requests : List EnqueueArgs} {ids : List (Option String)}
    (h : enqueueOutboundMany db requests = .ok (db', ids)) :
    ∃ new : List OutboundRow, db' = { db with outbound := db.outbound ++ new } ∧
      ∀ r ∈ new, ∃ a ∈ requests, r = a.row ∧ a.validate = .ok () := by
  induction requests generalizing db ids with
  | nil =>
    obtain ⟨rfl, -⟩ := Prod.mk.inj (Except.ok.inj h)
    exact ⟨[], by simp, by simp⟩
  | cons a requests ih =>
    obtain ⟨⟨db1, id⟩, h1, h⟩ := bind_eq_ok h
    obtain ⟨⟨db2, ids'⟩, h2, h⟩ := bind_eq_ok h
    obtain ⟨rfl, -⟩ := Prod.mk.inj (Except.ok.inj h)
    obtain ⟨⟨db1', result⟩, h1', h1⟩ := bind_eq_ok h1
    obtain ⟨rfl, -⟩ := Prod.mk.inj (Except.ok.inj h1)
    obtain ⟨new, rfl, hnew⟩ := ih h2
    obtain ⟨hv, ⟨rfl, -⟩ | ⟨rfl, -⟩⟩ := enqueueOutboundWithResult_ok h1'
    · exact ⟨new, rfl, fun r hr => (hnew r hr).imp fun x hx => ⟨List.mem_cons_of_mem a hx.1, hx.2⟩⟩
    · refine ⟨a.row :: new, by simp, fun r hr => ?_⟩
      obtain rfl | hr := List.mem_cons.mp hr
      · exact ⟨a, List.mem_cons_self, rfl, hv⟩
      · exact (hnew r hr).imp fun x hx => ⟨List.mem_cons_of_mem a hx.1, hx.2⟩

/-- A sweep leaves a row alone that neither waits nor is being sent. -/
theorem Swept.eq_of_settled {a : ClaimArgs} {r s : OutboundRow} (h : Swept a r s)
    (hr : r.status = .uncertain ∨ r.status = .deadLetter ∨ r.status = .cancelled ∨
      r.status = .sent) : s = r := by
  cases h with
  | same => rfl
  | lost h =>
    simp only [ClaimArgs.isLostSend, Bool.and_eq_true, decide_eq_true_eq] at h
    simp [h] at hr
  | exhausted h =>
    simp only [ClaimArgs.isExhausted, Bool.and_eq_true, decide_eq_true_eq] at h
    simp [h] at hr
  | blocked h =>
    obtain h | h := h
    · simp [h] at hr
    · simp [h] at hr

theorem Swept.trans {a : ClaimArgs} {r s u : OutboundRow} (h : Swept a r s) (h' : Swept a s u) :
    Swept a r u := by
  cases h with
  | same => exact h'
  | lost h => exact h'.eq_of_settled (.inl rfl) ▸ .lost h
  | exhausted h => exact h'.eq_of_settled (.inr (.inl rfl)) ▸ .exhausted h
  | blocked h => exact h'.eq_of_settled (.inr (.inr (.inl rfl))) ▸ .blocked h

theorem swept_grows (a : ClaimArgs) (t : List OutboundRow) :
    Grows (Swept a) (fun _ => False) t (a.swept t) := by
  have hlost : Grows (Swept a) (fun _ => False) t (a.afterLost t) :=
    .updateWhere (fun _ _ h => .lost h) fun _ _ _ => .same
  have hexhausted : Grows (Swept a) (fun _ => False) (a.afterLost t)
      (a.afterExhausted (a.afterLost t)) :=
    .updateWhere (fun _ _ h => .exhausted h) fun _ _ _ => .same
  have hblocked : Grows (Swept a) (fun _ => False) (a.afterExhausted (a.afterLost t)) (a.swept t) := by
    refine .updateWhere (fun r _ h => .blocked ?_) fun _ _ _ => .same
    simp only [ClaimArgs.isBlocked, Bool.and_eq_true, Bool.or_eq_true, decide_eq_true_eq] at h
    exact h.1.2
  have hfirst : Grows (Swept a) (fun _ => False) t (a.afterExhausted (a.afterLost t)) :=
    .trans (fun _ _ _ => Swept.trans) (fun _ _ h _ => h) hlost hexhausted
  exact .trans (fun _ _ _ => Swept.trans) (fun _ _ h _ => h) hfirst hblocked

theorem Swept.id_eq {a : ClaimArgs} {r s : OutboundRow} (h : Swept a r s) : s.id = r.id := by
  cases h <;> rfl

theorem isCandidate_status {a : ClaimArgs} {t : List OutboundRow} {r : OutboundRow}
    (h : a.isCandidate t r = true) :
    r.status = .queued ∨ r.status = .retrying ∨ (r.status = .leased ∧ expired a.now r = true) := by
  simp only [ClaimArgs.isCandidate, Bool.and_eq_true, Bool.or_eq_true, decide_eq_true_eq] at h
  obtain ⟨⟨-, h⟩, -⟩ := h
  obtain (h | h) | ⟨⟨h, he⟩, -⟩ := h
  · exact .inl h
  · exact .inr (.inl h)
  · exact .inr (.inr ⟨h, he⟩)

/-- A candidate was not touched by the sweep before it. -/
theorem Swept.eq_of_candidate {a : ClaimArgs} {t : List OutboundRow} {r s : OutboundRow}
    (h : Swept a r s) (hs : a.isCandidate t s = true) : s = r := by
  have hstatus := isCandidate_status hs
  cases h with
  | same => rfl
  | lost | exhausted | blocked => simp [fail, unlease] at hstatus

/-- With distinct ids, a claimed id belongs to a candidate row. -/
theorem isCandidate_of_mem_claimIds {a : ClaimArgs} {t : List OutboundRow}
    (hid : (t.map (·.id)).Nodup) {r : OutboundRow} (hr : r ∈ a.swept t)
    (h : r.id ∈ a.claimIds t) : a.isCandidate (a.swept t) r = true := by
  have hids : ((a.swept t).map (·.id)).Nodup := by
    have hmap : (a.swept t).map (·.id) = t.map (·.id) :=
      (swept_grows a t).map_eq fun _ _ _ h => h.id_eq
    rwa [hmap]
  obtain ⟨x, hx, he⟩ := List.mem_map.mp h
  obtain ⟨hx, hcand⟩ := mem_selectOrdered.mp (List.mem_of_mem_take hx)
  exact eq_of_key hids hr hx he.symm ▸ hcand

theorem claimDue_ok {a : ClaimArgs} {rows : List OutboundRow} (h : claimDue db a = .ok (db', rows)) :
    db' = { db with outbound := a.claimed db.outbound } ∧
      rows = selectOrdered (a.isClaimed db.outbound) deliveryOrder db'.outbound := by
  obtain ⟨_, -, h⟩ := bind_eq_ok h
  obtain ⟨rfl, rfl⟩ := Prod.mk.inj (Except.ok.inj h)
  exact ⟨rfl, rfl⟩

theorem claimDue_grows {a : ClaimArgs} {rows : List OutboundRow}
    (hid : (db.outbound.map (·.id)).Nodup) (h : claimDue db a = .ok (db', rows)) :
    Grows (RowStep db (.claimDue a)) (fun _ => False) db.outbound db'.outbound := by
  obtain ⟨rfl, -⟩ := claimDue_ok h
  obtain ⟨g, new, hg, hstep, hnew⟩ := swept_grows a db.outbound
  obtain rfl : new = [] := List.eq_nil_iff_forall_not_mem.mpr hnew
  rw [List.append_nil] at hg
  refine ⟨fun r => if a.isClaimed db.outbound (g r) then a.lease (g r) else g r, [], ?_,
    fun r hr => ?_, by simp⟩
  · rw [List.append_nil, ClaimArgs.claimed, hg, updateWhere, List.map_map]
    rfl
  · have hmem : g r ∈ a.swept db.outbound := hg ▸ List.mem_map_of_mem hr
    dsimp only
    split
    · rename_i hin
      have hcand := isCandidate_of_mem_claimIds hid hmem (by simpa [ClaimArgs.isClaimed] using hin)
      have heq := (hstep r hr).eq_of_candidate hcand
      rw [heq] at hcand ⊢
      exact .leased hcand
    · exact .swept (hstep r hr)

/-- A message that a claim returns was a candidate and has its token. -/
theorem claimDue_row {a : ClaimArgs} {rows : List OutboundRow}
    (hid : (db.outbound.map (·.id)).Nodup) (h : claimDue db a = .ok (db', rows)) {s : OutboundRow}
    (hs : s ∈ rows) : s ∈ db'.outbound ∧ s.leaseToken = some a.leaseToken ∧
      ∃ r ∈ db.outbound, r.id = s.id ∧ a.isCandidate (a.swept db.outbound) r = true := by
  obtain ⟨rfl, rfl⟩ := claimDue_ok h
  obtain ⟨hmem, hclaimed⟩ := mem_selectOrdered.mp hs
  refine ⟨hmem, ?_⟩
  obtain ⟨x, hx, rfl⟩ := List.mem_map.mp hmem
  by_cases hc : a.isClaimed db.outbound x = true
  · rw [if_pos hc]
    have hcand := isCandidate_of_mem_claimIds hid hx (by simpa [ClaimArgs.isClaimed] using hc)
    obtain ⟨r, hr, hsw⟩ | hfalse := (swept_grows a db.outbound).of_mem hx
    · exact ⟨rfl, r, hr, hsw.id_eq.symm, hsw.eq_of_candidate hcand ▸ hcand⟩
    · exact hfalse.elim
  · rw [if_neg hc] at hclaimed
    exact absurd hclaimed hc

theorem holds_iff {statuses : List OutboundStatus} {m k : String} {r : OutboundRow} :
    holds statuses m k r = true ↔ r.id = m ∧ r.status ∈ statuses ∧ r.leaseToken = some k := by
  simp [holds, and_assoc]

/-- What the projection of a confirmed message leaves alone, and what it adds. -/
structure Projected (db db' : Tables) (row : OutboundRow) : Prop where
  outbound : db'.outbound = db.outbound
  questions : db'.questions = db.questions
  plans : db'.plans = db.plans
  inputs : db'.inputs = db.inputs
  focus : db'.focus = db.focus
  history : db'.history = db.history
  reconciliations : db'.reconciliations = db.reconciliations
  tasks : Grows TaskStep (fun _ => False) db.tasks db'.tasks
  references : ∃ new, db'.references = db.references ++ new
  messages : (row.taskId = none ∧ db'.messages = db.messages) ∨
    ∃ taskId externalId now, row.taskId = some taskId ∧
      db'.messages = db.messages ++ [assistantMessage row taskId externalId now] ∧
      ∀ m ∈ db.messages, (assistantMessage row taskId externalId now).conflicts m = false

theorem projectTaskMessage_ok {row : OutboundRow} {externalId : Option String} {now : Int}
    (h : projectTaskMessage db row externalId now = .ok db') :
    Projected db db' row ∧ db'.references = db.references := by
  unfold projectTaskMessage at h
  split at h
  · rename_i hnone
    obtain rfl := Except.ok.inj h
    exact ⟨⟨rfl, rfl, rfl, rfl, rfl, rfl, rfl, .refl fun r _ => .refl r, ⟨[], by simp⟩,
      .inl ⟨hnone, rfl⟩⟩, rfl⟩
  · rename_i taskId htask
    obtain ⟨db1, h1, h⟩ := bind_eq_ok h
    obtain rfl := Except.ok.inj h
    obtain ⟨rfl, hno, -⟩ := insertDialogueMessage_ok h1
    refine ⟨⟨rfl, rfl, rfl, rfl, rfl, rfl, rfl, ?_, ⟨[], by simp [touchTask]⟩,
      .inr ⟨taskId, externalId, now, htask, rfl, hno⟩⟩, rfl⟩
    exact .updateWhere (fun _ _ _ => ⟨rfl, rfl, rfl, rfl, .inl ⟨rfl, rfl⟩⟩) fun r _ _ => .refl r

theorem projectConfirmedDialogueMessage_ok {row : OutboundRow} {result : Json} {now : Int}
    (h : projectConfirmedDialogueMessage db row result now = .ok db') : Projected db db' row := by
  unfold projectConfirmedDialogueMessage at h
  split at h
  · rename_i hnone
    simp only [Bool.and_eq_true, Option.isNone_iff_eq_none] at hnone
    obtain rfl := Except.ok.inj h
    exact ⟨rfl, rfl, rfl, rfl, rfl, rfl, rfl, .refl fun r _ => .refl r, ⟨[], by simp⟩,
      .inl ⟨hnone.1, rfl⟩⟩
  · obtain ⟨db1, h1, h⟩ := bind_eq_ok h
    obtain ⟨hp, -⟩ := projectTaskMessage_ok h1
    split at h
    · obtain rfl := Except.ok.inj h
      exact hp
    · unfold insertReference at h
      split at h
      · cases h
      · obtain rfl := Except.ok.inj h
        obtain ⟨new, hnew⟩ := hp.references
        exact { hp with
          references := ⟨new ++ [_], by rw [hnew, List.append_assoc]⟩ }

/-- A confirmed send is refused and changes nothing, or moves one row and is projected. -/
theorem markSent_ok {m k historyHex : String} {result : Json} {now : Int} {b : Bool}
    (hid : (db.outbound.map (·.id)).Nodup)
    (h : markSent db m k result historyHex now = .ok (db', b)) :
    (b = false ∧ db' = db) ∨
    (b = true ∧ ∃ r ∈ db.outbound, holds [.sending] m k r = true ∧
      ∃ history x, History.recordMessage db.history (sentRecord (sentRow r result now) historyHex now) =
          .ok (history, x) ∧
        Projected { db with
          outbound := updateWhere (holds [.sending] m k) (sentRow · result now) db.outbound
          history := history } db' (sentRow r result now)) := by
  unfold markSent at h
  dsimp only at h
  split at h
  · rename_i hcount
    obtain ⟨r, hr, hh⟩ := List.countP_pos_iff.mp (Nat.lt_of_lt_of_eq Nat.one_pos hcount.symm)
    have hrow : (updateWhere (holds [.sending] m k) (sentRow · result now) db.outbound).find?
        (·.id = m) = some (sentRow r result now) := by
      have hmem := mem_updateWhere_of_mem (p := holds [.sending] m k) (f := (sentRow · result now)) hr
      have hids : ((updateWhere (holds [.sending] m k) (sentRow · result now) db.outbound).map
          (·.id)).Nodup := by
        have hmap : (updateWhere (holds [.sending] m k) (sentRow · result now) db.outbound).map (·.id) =
            db.outbound.map (·.id) := map_updateWhere _ fun _ _ => rfl
        rwa [hmap]
      rw [if_pos hh] at hmem
      exact (holds_iff.mp hh).1 ▸ find?_of_key hids hmem
    rw [hrow] at h
    obtain ⟨⟨history, x⟩, hrec, h⟩ := bind_eq_ok h
    obtain ⟨db1, hproj, h⟩ := bind_eq_ok h
    obtain ⟨rfl, rfl⟩ := Prod.mk.inj (Except.ok.inj h)
    exact .inr ⟨rfl, r, hr, hh, history, x, hrec, projectConfirmedDialogueMessage_ok hproj⟩
  · rename_i hcount
    obtain ⟨rfl, rfl⟩ := Prod.mk.inj (Except.ok.inj h)
    have hle := rowcount_le_one (p := holds [.sending] m k) hid fun r hr => (holds_iff.mp hr).1
    have hzero : rowcount (holds [.sending] m k) db.outbound = 0 := by omega
    rw [updateWhere_eq_self_of_rowcount hzero]
    exact .inl ⟨rfl, rfl⟩

/-- A resolution is a replay that changes nothing, or settles one uncertain message. -/
theorem resolveOutbound_ok {resolution : OutboundResolution} {q : OutboundRequest}
    {result : ReconciliationResult} (h : resolveOutbound db resolution q = .ok (db', result)) :
    (db' = db ∧ result.applied = false) ∨
    (result.applied = true ∧ ∃ r history audit, db.outbound.find? q.request.names = some r ∧
      r.status = .uncertain ∧ resolution.project db.history r q = .ok history ∧
      record db.reconciliations .outbound resolution.name (statusName resolution.status) q.request =
        .ok audit ∧
      db' = { db with
        outbound := updateWhere (fun r => q.request.names r && r.status = .uncertain)
          (resolution.write q) db.outbound
        history := history
        reconciliations := audit }) := by
  obtain ⟨_, -, h⟩ := bind_eq_ok h
  obtain ⟨recorded, hrec, h⟩ := bind_eq_ok h
  split at h
  · obtain ⟨rfl, rfl⟩ := Prod.mk.inj (Except.ok.inj h)
    refine .inl ⟨rfl, ?_⟩
    unfold existing at hrec
    split at hrec
    · cases hrec
    · obtain ⟨_, -, hrec⟩ := bind_eq_ok hrec
      obtain rfl := Option.some.inj (Except.ok.inj hrec)
      rfl
  · split at h
    · cases h
    · rename_i r hr
      split at h
      · cases h
      · rename_i hu
        obtain ⟨history, hh, h⟩ := bind_eq_ok h
        obtain ⟨audit, ha, h⟩ := bind_eq_ok h
        obtain ⟨rfl, rfl⟩ := Prod.mk.inj (Except.ok.inj h)
        exact .inr ⟨rfl, r, history, audit, hr, by simpa using hu, hh, ha, rfl⟩

end Inversion

section Perform

variable {db : Tables}

theorem orKeep_cases {α : Type} {P : Tables → Prop} (db : Tables) (r : Except StoreError (Tables × α))
    (h0 : P db) (h : ∀ db' a, r = .ok (db', a) → P db') : P (orKeep db r) := by
  cases r with
  | error e => exact h0
  | ok p => exact h p.1 p.2 rfl

/-- A statement on one table of messages is a step of each of its rows. -/
theorem grows_updateWhere (call : Call) {p : OutboundRow → Bool} {f : OutboundRow → OutboundRow}
    (h : ∀ r ∈ db.outbound, p r = true → RowStep db call r (f r)) :
    Grows (RowStep db call) (Inserted call) db.outbound (updateWhere p f db.outbound) :=
  .updateWhere h fun r _ _ => .same call r

/-- Everything a call can do to the outbound messages. -/
theorem perform_outbound (hid : (db.outbound.map (·.id)).Nodup) (call : Call) :
    Grows (RowStep db call) (Inserted call) db.outbound (perform db call).outbound := by
  have hsame : Grows (RowStep db call) (Inserted call) db.outbound db.outbound :=
    .refl fun r _ => .same call r
  cases call with
  | enqueue a =>
    refine orKeep_cases (P := fun db' => Grows _ _ db.outbound db'.outbound) db _ hsame
      fun db' result h => ?_
    obtain ⟨hv, ⟨rfl, -⟩ | ⟨rfl, -⟩⟩ := enqueueOutboundWithResult_ok h
    · exact hsame
    · refine .append (fun r _ => .same _ r) fun r hr => ?_
      exact ⟨a, List.mem_singleton_self a, List.mem_singleton.mp hr, hv⟩
  | enqueueMany requests =>
    refine orKeep_cases (P := fun db' => Grows _ _ db.outbound db'.outbound) db _ hsame
      fun db' result h => ?_
    obtain ⟨new, rfl, hnew⟩ := enqueueOutboundMany_ok h
    exact .append (fun r _ => .same _ r) hnew
  | claimDue a =>
    refine orKeep_cases (P := fun db' => Grows _ _ db.outbound db'.outbound) db _ hsame
      fun db' rows h => ?_
    exact (claimDue_grows hid h).mono (fun _ _ _ h => h) fun _ h => h.elim
  | renewLease m k leaseSeconds now =>
    refine orKeep_cases (P := fun db' => Grows _ _ db.outbound db'.outbound) db _ hsame
      fun db' b h => ?_
    unfold Outbound.renewLease at h
    split at h
    · cases h
    · obtain ⟨rfl, -⟩ := Prod.mk.inj (Except.ok.inj h)
      exact grows_updateWhere _ fun r _ hp => .renewed ((Bool.and_eq_true _ _).mp hp).1
  | markSending m k now =>
    simp only [perform, Outbound.markSending]
    split
    · exact hsame
    · rename_i row hrow
      have hp := List.find?_some hrow
      have hh := ((Bool.and_eq_true _ _).mp hp).1
      split
      · exact grows_updateWhere _ fun r _ hr => .refused hr
      · rename_i hc
        refine grows_updateWhere _ fun r hr hpr => ?_
        have hhr := ((Bool.and_eq_true _ _).mp hpr).1
        -- the row that was read is the row that is moved
        have heq : r = row := eq_of_key hid hr (List.mem_of_find?_eq_some hrow)
          ((holds_iff.mp hhr).1.trans (holds_iff.mp hh).1.symm)
        subst heq
        exact .admitted hhr (by simpa using hc)
  | markSent m k result historyHex now =>
    refine orKeep_cases (P := fun db' => Grows _ _ db.outbound db'.outbound) db _ hsame
      fun db' b h => ?_
    obtain ⟨-, rfl⟩ | ⟨-, r, -, -, history, x, -, hproj⟩ := markSent_ok hid h
    · exact hsame
    · rw [hproj.outbound]
      exact grows_updateWhere _ fun r _ hr => .sent hr
  | markUncertain m k lastError now => exact grows_updateWhere _ fun r _ hr => .uncertain hr
  | markDeadLetter m k lastError now => exact grows_updateWhere _ fun r _ hr => .dead hr
  | markRetry m k runAfter lastError now =>
    simp only [perform, Outbound.markRetry]
    split
    · exact hsame
    · refine grows_updateWhere _ fun r _ hr => .retried hr ?_
      split
      · exact .inl rfl
      · exact .inr rfl
  | resolveOutbound resolution q =>
    refine orKeep_cases (P := fun db' => Grows _ _ db.outbound db'.outbound) db _ hsame
      fun db' result h => ?_
    obtain ⟨rfl, -⟩ | ⟨-, r, history, audit, -, -, -, -, rfl⟩ := resolveOutbound_ok h
    · exact hsame
    · refine grows_updateWhere _ fun r _ hr => ?_
      simp only [Bool.and_eq_true, decide_eq_true_eq] at hr
      exact .resolved hr.1 hr.2
  | applyPlan c =>
    refine orKeep_cases (P := fun db' => Grows _ _ db.outbound db'.outbound) db _ hsame
      fun db' result h => ?_
    exact (applyDialoguePlan_step h).outbound.mono (fun _ _ _ h => .suppressed h) fun _ h => h.elim

/-- The columns that no call rewrites. -/
structure SameContent (r s : OutboundRow) : Prop where
  id : s.id = r.id
  tenantId : s.tenantId = r.tenantId
  sourceId : s.sourceId = r.sourceId
  channel : s.channel = r.channel
  text : s.text = r.text
  idempotencyKey : s.idempotencyKey = r.idempotencyKey
  fingerprint : s.idempotencyFingerprint = r.idempotencyFingerprint
  orderingKey : s.orderingKey = r.orderingKey
  orderingPosition : s.orderingPosition = r.orderingPosition
  taskReference : s.taskReference = r.taskReference
  createdAt : s.createdAt = r.createdAt

theorem SameContent.scope {r s : OutboundRow} (h : SameContent r s) : s.scope = r.scope := by
  simp [OutboundRow.scope, h.tenantId, h.sourceId]

theorem SameContent.conflicts_eq {r s u v : OutboundRow} (h : SameContent r s)
    (h' : SameContent u v) : conflicts v s = conflicts u r := by
  simp only [conflicts, h.scope, h'.scope, h.id, h'.id, h.channel, h'.channel, h.idempotencyKey,
    h'.idempotencyKey, h.orderingKey, h'.orderingKey, h.orderingPosition, h'.orderingPosition]

theorem RowStep.content {call : Call} {r s : OutboundRow} (h : RowStep db call r s) :
    SameContent r s := by
  cases h with
  | swept h => cases h <;> exact ⟨rfl, rfl, rfl, rfl, rfl, rfl, rfl, rfl, rfl, rfl, rfl⟩
  | @resolved resolution =>
    cases resolution <;> exact ⟨rfl, rfl, rfl, rfl, rfl, rfl, rfl, rfl, rfl, rfl, rfl⟩
  | suppressed h =>
    obtain rfl | ⟨-, reason, now, rfl⟩ := h
    · exact ⟨rfl, rfl, rfl, rfl, rfl, rfl, rfl, rfl, rfl, rfl, rfl⟩
    · exact ⟨rfl, rfl, rfl, rfl, rfl, rfl, rfl, rfl, rfl, rfl, rfl⟩
  | same | leased | renewed | admitted | refused | sent | uncertain | dead | retried =>
    exact ⟨rfl, rfl, rfl, rfl, rfl, rfl, rfl, rfl, rfl, rfl, rfl⟩

/-- Only a claim counts an attempt. -/
theorem RowStep.attempts {call : Call} {r s : OutboundRow} (h : RowStep db call r s) :
    s.attempts = r.attempts ∨ ∃ a, call = .claimDue a ∧ s = a.lease r ∧
      a.isCandidate (a.swept db.outbound) r = true := by
  cases h with
  | leased h => exact .inr ⟨_, rfl, rfl, h⟩
  | swept h => cases h <;> exact .inl rfl
  | @resolved resolution => cases resolution <;> exact .inl rfl
  | suppressed h =>
    obtain rfl | ⟨-, reason, now, rfl⟩ := h
    · exact .inl rfl
    · exact .inl rfl
  | same | renewed | admitted | refused | sent | uncertain | dead | retried => exact .inl rfl

/-- A sent message is settled. -/
theorem RowStep.eq_of_sent {call : Call} {r s : OutboundRow} (h : RowStep db call r s)
    (hr : r.status = .sent) : s = r := by
  cases h with
  | same => rfl
  | swept h => exact h.eq_of_settled (.inr (.inr (.inr hr)))
  | leased h =>
    have := isCandidate_status h
    simp [hr] at this
  | renewed h | admitted h | refused h | sent h | uncertain h | dead h | retried h =>
    have := (holds_iff.mp h).2.1
    simp [hr] at this
  | resolved _ h => simp [hr] at h
  | suppressed h =>
    obtain rfl | ⟨hs, -⟩ := h
    · rfl
    · simp [hr] at hs

/-- No two messages share an id, a key or a position. -/
def Distinct (t : List OutboundRow) : Prop := t.Pairwise fun r s => conflicts s r = false

theorem Distinct.ids {t : List OutboundRow} (h : Distinct t) : (t.map (·.id)).Nodup := by
  rw [List.Nodup, List.pairwise_map]
  refine h.imp fun hrs he => ?_
  simp [conflicts, he] at hrs

theorem Distinct.keys {t : List OutboundRow} (h : Distinct t) :
    (t.map fun r => (r.scope, r.idempotencyKey)).Nodup := by
  rw [List.Nodup, List.pairwise_map]
  refine h.imp fun hrs he => ?_
  simp only [Prod.mk.injEq] at he
  simp [conflicts, he] at hrs

theorem Distinct.append {t : List OutboundRow} (h : Distinct t) {row : OutboundRow}
    (hrow : ∀ r ∈ t, conflicts row r = false) : Distinct (t ++ [row]) := by
  refine List.pairwise_append.mpr ⟨h, List.pairwise_singleton _ _, fun r hr s hs => ?_⟩
  rw [List.mem_singleton.mp hs]
  exact hrow r hr

theorem enqueueOutboundWithResult_distinct {db' : Tables} {a : EnqueueArgs}
    {result : OutboundEnqueueResult} (h : Distinct db.outbound)
    (he : enqueueOutboundWithResult db a = .ok (db', result)) : Distinct db'.outbound := by
  obtain ⟨-, ⟨rfl, -⟩ | ⟨rfl, hno, -, -⟩⟩ := enqueueOutboundWithResult_ok he
  · exact h
  · exact h.append hno

/-- A property that each request of a batch keeps. -/
theorem enqueueOutboundMany_keeps {P : Tables → Prop} {requests : List EnqueueArgs}
    (hstep : ∀ a ∈ requests, ∀ db db' result, P db →
      enqueueOutboundWithResult db a = .ok (db', result) → P db')
    {db db' : Tables} {ids : List (Option String)}
    (h : enqueueOutboundMany db requests = .ok (db', ids)) (h0 : P db) : P db' := by
  induction requests generalizing db ids with
  | nil =>
    obtain ⟨rfl, -⟩ := Prod.mk.inj (Except.ok.inj h)
    exact h0
  | cons a requests ih =>
    obtain ⟨⟨db1, id⟩, h1, h⟩ := bind_eq_ok h
    obtain ⟨⟨db2, ids'⟩, h2, h⟩ := bind_eq_ok h
    obtain ⟨rfl, -⟩ := Prod.mk.inj (Except.ok.inj h)
    obtain ⟨⟨db1', result⟩, h1', h1⟩ := bind_eq_ok h1
    obtain ⟨rfl, -⟩ := Prod.mk.inj (Except.ok.inj h1)
    refine ih (fun b hb => hstep b (List.mem_cons_of_mem a hb)) h2 ?_
    exact hstep a List.mem_cons_self db db1' result h0 h1'

theorem perform_distinct (h : Distinct db.outbound) (call : Call) :
    Distinct (perform db call).outbound := by
  have hother : call.requests = [] → Distinct (perform db call).outbound := by
    intro hnone
    obtain ⟨g, new, hg, hstep, hnew⟩ := perform_outbound h.ids call
    obtain rfl : new = [] := by
      refine List.eq_nil_iff_forall_not_mem.mpr fun r hr => ?_
      obtain ⟨a, ha, -⟩ := hnew r hr
      simp [hnone] at ha
    rw [hg, List.append_nil, Distinct, List.pairwise_map]
    refine h.imp_of_mem fun {r s} hr hs hrs => ?_
    rw [(hstep r hr).content.conflicts_eq (hstep s hs).content]
    exact hrs
  cases call with
  | enqueue a =>
    exact orKeep_cases (P := fun db' => Distinct db'.outbound) db _ h fun db' result he =>
      enqueueOutboundWithResult_distinct h he
  | enqueueMany requests =>
    refine orKeep_cases (P := fun db' => Distinct db'.outbound) db _ h fun db' ids he => ?_
    exact enqueueOutboundMany_keeps (P := fun db' => Distinct db'.outbound)
      (fun a _ db db' result h0 h1 => enqueueOutboundWithResult_distinct h0 h1) he h
  | claimDue | renewLease | markSending | markSent | markUncertain | markDeadLetter | markRetry
  | resolveOutbound | applyPlan => exact hother rfl

/-- The calls that can confirm a send. -/
def Call.confirms : Call → Bool
  | .markSent _ _ _ _ _ | .resolveOutbound .sent _ => true
  | _ => false

/-- Which tables a call can change besides the outbound messages. -/
inductive Performed (db : Tables) : Call → Tables → Prop
  | same (call : Call) : Performed db call db
  | outbound {call : Call} (h : call.confirms = false) (rows : List OutboundRow) :
      Performed db call { db with outbound := rows }
  | sent {m k historyHex : String} {result : Json} {now : Int} {r : OutboundRow} {db' : Tables}
      {history : List History.ConversationMessageRow} {x : String × Bool} (hr : r ∈ db.outbound)
      (hh : holds [.sending] m k r = true)
      (hrec : History.recordMessage db.history (sentRecord (sentRow r result now) historyHex now) =
        .ok (history, x))
      (hproj : Projected { db with
        outbound := updateWhere (holds [.sending] m k) (sentRow · result now) db.outbound
        history := history } db' (sentRow r result now)) :
      Performed db (.markSent m k result historyHex now) db'
  | resolved {resolution : OutboundResolution} {q : OutboundRequest} {r : OutboundRow}
      {history : List History.ConversationMessageRow} {audit : List ReconciliationRow}
      (hr : db.outbound.find? q.request.names = some r) (hs : r.status = .uncertain)
      (hh : resolution.project db.history r q = .ok history) :
      Performed db (.resolveOutbound resolution q) { db with
        outbound := updateWhere (fun r => q.request.names r && r.status = .uncertain)
          (resolution.write q) db.outbound
        history := history
        reconciliations := audit }
  | planned {c : Application} {db' : Tables} {result : DialoguePlanResult}
      (h : applyDialoguePlan c db = .ok (db', result)) : Performed db (.applyPlan c) db'

theorem perform_performed (hid : (db.outbound.map (·.id)).Nodup) (call : Call) :
    Performed db call (perform db call) := by
  have hsame : Performed db call db := .same call
  cases call with
  | enqueue a =>
    refine orKeep_cases (P := Performed db _) db _ hsame fun db' result h => ?_
    obtain ⟨-, ⟨rfl, -⟩ | ⟨rfl, -⟩⟩ := enqueueOutboundWithResult_ok h
    · exact hsame
    · exact .outbound rfl _
  | enqueueMany requests =>
    refine orKeep_cases (P := Performed db _) db _ hsame fun db' result h => ?_
    obtain ⟨new, rfl, -⟩ := enqueueOutboundMany_ok h
    exact .outbound rfl _
  | claimDue a =>
    refine orKeep_cases (P := Performed db _) db _ hsame fun db' rows h => ?_
    obtain ⟨rfl, -⟩ := claimDue_ok h
    exact .outbound rfl _
  | renewLease m k leaseSeconds now =>
    refine orKeep_cases (P := Performed db _) db _ hsame fun db' b h => ?_
    unfold Outbound.renewLease at h
    split at h
    · cases h
    · obtain ⟨rfl, -⟩ := Prod.mk.inj (Except.ok.inj h)
      exact .outbound rfl _
  | markSending m k now =>
    simp only [perform, Outbound.markSending]
    split
    · exact hsame
    · split <;> exact .outbound rfl _
  | markSent m k result historyHex now =>
    refine orKeep_cases (P := Performed db _) db _ hsame fun db' b h => ?_
    obtain ⟨-, rfl⟩ | ⟨-, r, hr, hh, history, x, hrec, hproj⟩ := markSent_ok hid h
    · exact hsame
    · exact .sent hr hh hrec hproj
  | markUncertain | markDeadLetter => exact .outbound rfl _
  | markRetry m k runAfter lastError now =>
    simp only [perform, Outbound.markRetry]
    split
    · exact hsame
    · exact .outbound rfl _
  | resolveOutbound resolution q =>
    refine orKeep_cases (P := Performed db _) db _ hsame fun db' result h => ?_
    obtain ⟨rfl, -⟩ | ⟨-, r, history, audit, hr, hs, hh, -, rfl⟩ := resolveOutbound_ok h
    · exact hsame
    · exact .resolved hr hs hh
  | applyPlan c =>
    exact orKeep_cases (P := Performed db _) db _ hsame fun db' result h => .planned h

/-- What a call can do to the tasks and the questions. -/
structure DialogueStep (db db' : Tables) : Prop where
  tasks : Grows TaskStep (fun _ => True) db.tasks db'.tasks
  questions : Grows QuestionStep (fun _ => True) db.questions db'.questions

theorem Performed.dialogue {call : Call} {db' : Tables} (h : Performed db call db') :
    DialogueStep db db' := by
  have htasks : Grows TaskStep (fun _ => True) db.tasks db.tasks := .refl fun r _ => .refl r
  have hquestions : Grows QuestionStep (fun _ => True) db.questions db.questions :=
    .refl fun r _ => .refl r
  cases h with
  | same | outbound | resolved => exact ⟨htasks, hquestions⟩
  | sent _ _ _ hproj =>
    exact ⟨hproj.tasks.mono (fun _ _ _ h => h) fun _ h => h.elim, hproj.questions ▸ hquestions⟩
  | planned h => exact ⟨(applyDialoguePlan_step h).tasks, (applyDialoguePlan_step h).questions⟩

theorem Keyed.record {a : History.RecordArgs} {history : List History.ConversationMessageRow}
    {x : String × Bool} (h : Keyed db) (hr : History.recordMessage db.history a = .ok (history, x)) :
    (history.map (·.key)).Nodup := by
  obtain ⟨rfl, -, hnew⟩ | ⟨rfl, -⟩ := History.recordMessage_ok hr
  · exact nodup_append_key h.history hnew
  · exact h.history

theorem Performed.keyed {call : Call} {db' : Tables} (hp : Performed db call db') (h : Keyed db) :
    Keyed db' := by
  cases hp with
  | same => exact h
  | outbound => exact { h with }
  | sent _ _ hrec hproj =>
    refine ⟨?_, hproj.questions ▸ h.questions, hproj.plans ▸ h.plans, hproj.inputs ▸ h.inputs, ?_,
      hproj.history ▸ h.record hrec⟩
    · have hmap := hproj.tasks.map_eq (k := (·.id)) fun _ _ _ ht => ht.id
      exact hmap ▸ h.tasks
    · obtain ⟨-, hm⟩ | ⟨taskId, externalId, now, -, hm, hno⟩ := hproj.messages
      · exact hm ▸ h.messages
      · exact hm ▸ pairwise_append_row h.messages hno
  | @resolved resolution q r history audit _ _ hh =>
    refine { h with history := ?_ }
    cases resolution with
    | sent =>
      obtain ⟨⟨history', x⟩, hrec, rfl⟩ := map_eq_ok hh
      exact h.record hrec
    | failed | notSent => exact Except.ok.inj hh ▸ h.history
  | planned hplan => exact (applyDialoguePlan_step hplan).keys h

/-- A task that is there stays there. -/
theorem DialogueStep.getTaskRow {db db' : Tables} (h : DialogueStep db db') {scope : Scope}
    {taskId : String} {t : TaskRow} (ht : getTaskRow db scope taskId = some t) :
    ∃ t', Conversation.getTaskRow db' scope taskId = some t' ∧ TaskStep t t' :=
  h.tasks.find? (fun r _ s hs => by simp [isTask, hs.id, hs.scope]) ht

theorem DialogueStep.getQuestionRow {db db' : Tables} (h : DialogueStep db db') {scope : Scope}
    {questionId : String} {q : QuestionRow} (hq : getQuestionRow db scope questionId = some q) :
    ∃ q', Conversation.getQuestionRow db' scope questionId = some q' ∧ QuestionStep q q' :=
  h.questions.find? (fun r _ s hs => by simp [isQuestion, hs.id, hs.scope]) hq

theorem runCalls_snoc (calls : List Call) (call : Call) :
    runCalls (calls ++ [call]) = perform (runCalls calls) call := by
  simp [runCalls, List.foldl_append]

/-- A property of the tables that every call keeps holds after every sequence of calls. -/
theorem runCalls_invariant {I : Tables → Prop} (h0 : I {})
    (hstep : ∀ db call, I db → I (perform db call)) (calls : List Call) : I (runCalls calls) := by
  induction calls using List.reverseRecOn with
  | nil => exact h0
  | append_singleton calls call ih =>
    rw [runCalls_snoc]
    exact hstep _ call ih

/-- What a call keeps in the states that calls reach, later calls keep. -/
theorem runCalls_append_keeps {J I : Tables → Prop} (hJ : ∀ calls, J (runCalls calls))
    (hstep : ∀ db call, J db → I db → I (perform db call)) {pre : List Call}
    (h0 : I (runCalls pre)) (post : List Call) : I (runCalls (pre ++ post)) := by
  induction post using List.reverseRecOn with
  | nil => simpa using h0
  | append_singleton post call ih =>
    rw [← List.append_assoc, runCalls_snoc]
    exact hstep _ call (hJ _) ih

theorem keyed_empty : Keyed {} where
  tasks := List.nodup_nil
  questions := List.nodup_nil
  plans := List.nodup_nil
  inputs := List.Pairwise.nil
  messages := List.Pairwise.nil
  history := List.nodup_nil

theorem runCalls_distinct (calls : List Call) : Distinct (runCalls calls).outbound :=
  runCalls_invariant (I := fun db => Distinct db.outbound) List.Pairwise.nil
    (fun _ call h => perform_distinct h call) calls

theorem runCalls_keyed (calls : List Call) : Keyed (runCalls calls) := by
  induction calls using List.reverseRecOn with
  | nil => exact keyed_empty
  | append_singleton calls call ih =>
    rw [runCalls_snoc]
    exact (perform_performed (runCalls_distinct calls).ids call).keyed ih

end Perform

end Soveren.Conversation
