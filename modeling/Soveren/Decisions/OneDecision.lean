import Soveren.Relational.Run
import Soveren.Decisions.Dispatch

/-! Any number of dispatch turns over one database, each advanced one awaited operation at a
time. The phase of a turn and the log are auxiliary: no program reads them. -/
namespace Soveren.Decisions
open Soveren.Process Soveren.Relational

variable {D : DecisionType}

structure Tables where
  receipts : List ReceiptRow := []
  runs : List Runs.AgentRunRow := []

/-- An operation is cut short before it has any effect, or its result is lost. -/
inductive Fault where
  | none
  | before (e : Raised)
  | after (e : Raised)

/-- What the surroundings of a turn contribute to one operation. -/
structure Env where
  now : Int
  leaseToken : String := ""
  hex : String := ""
  fault : Fault := .none
  context : Except Raised PlannerContext := .error (.error "Exception" "")
  response : Except Raised LlmResponse := .error (.error "Exception" "")
  dispatched : Except Raised DispatchResult := .error (.error "Exception" "")

/-- The tables and the result of a store call; a call that raises is rolled back. -/
def settle {τ α : Type} (db : Tables) (put : τ → Tables) (r : Except StoreError (τ × α)) :
    Tables × Except Raised α :=
  match r with
  | .ok (t, a) => (put t, .ok a)
  | .error e => (db, .error (.store e))

def performOp (db : Tables) (env : Env) : (o : Op D) → Tables × Res D o
  | .claimReceipt event inputFingerprint staleAfterS =>
    settle db (fun t => { db with receipts := t }) (claimDecisionDispatch db.receipts
      ⟨event, inputFingerprint, staleAfterS, env.now, env.leaseToken, env.hex⟩)
  | .acceptReceipt receiptId leaseToken a =>
    settle db (fun t => { db with receipts := t })
      (acceptDecisionDispatch db.receipts receiptId leaseToken a env.now)
  | .completeReceipt receiptId leaseToken result =>
    settle db (fun t => { db with receipts := t })
      (completeDecisionDispatch db.receipts receiptId leaseToken result env.now)
  | .releaseReceipt receiptId leaseToken =>
    settle db (fun t => { db with receipts := t })
      (releaseDecisionDispatch db.receipts receiptId leaseToken env.now)
  | .claimRun event model promptVersion inputSummary inputFingerprint staleAfterS =>
    settle db (fun t => { db with runs := t }) (Runs.claimRun db.runs
      ⟨event.tenantId, event.sourceId, event.triggerEventId, model, promptVersion,
        some inputSummary, inputFingerprint, staleAfterS, env.now, env.leaseToken, env.hex⟩)
  | .finalizeRun runId leaseToken status output =>
    settle db (fun t => { db with runs := t })
      (Runs.finalizeRun db.runs runId leaseToken status (some output) env.now)
  | .buildContext => (db, env.context)
  | .respond _ => (db, env.response)
  | .dispatch _ _ => (db, env.dispatched)

/-- What turns did for an event. -/
inductive Entry (D : DecisionType) where
  | claimed (event : EventRef) (c : DecisionDispatchClaim)
  | accepted (event : EventRef) (a : Acceptance)
  | dispatched (event : EventRef) (decision : D.Decision) (context : DispatchContext)
  | completed (event : EventRef)

/-- What an operation of a turn for an event adds to the log. -/
def entries (event : EventRef) (o : Op D) (r : Res D o) : List (Entry D) :=
  match o, r with
  | .claimReceipt _ _ _, .ok c => [.claimed event c]
  | .acceptReceipt _ _ a, .ok true => [.accepted event a]
  | .completeReceipt _ _ _, .ok true => [.completed event]
  | .dispatch d context, _ => [.dispatched event d context]
  | _, _ => []

structure Worker (D : DecisionType) where
  event : EventRef
  phase : Phase
  program : Proc (Op D) (Res D) (Except Raised (PlannerDispatchResult D))

structure System (D : DecisionType) where
  tables : Tables := {}
  workers : List (Worker D) := []
  log : List (Entry D) := []

inductive Label (D : DecisionType) where
  /-- call `run_planner_dispatch_turn` -/
  | start (c : TurnConfig D)
  | advance (worker : ℕ) (env : Env)
  /-- a checkpoint that a backend saves while it responds -/
  | saveCheckpoint (runId leaseToken : String) (checkpoint : Json.Object) (now : Int)

/-- The tables, the result that the turn sees and the entries of one operation. -/
def outcome (db : Tables) (event : EventRef) (env : Env) (o : Op D) :
    Tables × Res D o × List (Entry D) :=
  let (db', r) := performOp db env o
  match env.fault with
  | .none => (db', r, entries event o r)
  | .before e => (db, .error e, [])
  | .after e => (db', .error e, entries event o r)

/-- Advance worker `i` by its next operation. -/
def advance (s : System D) (i : ℕ) (env : Env) : Option (System D) :=
  match s.workers[i]? with
  | none => none
  | some w => match w.program with
    | .ret _ => none
    | .call o k =>
      let (db, r, new) := outcome s.tables w.event env o
      some { tables := db
             workers := s.workers.set i ⟨w.event, (protocol D w.event).next w.phase o r, k r⟩
             log := s.log ++ new }

def step (s : System D) : Label D → Option (System D)
  | .start c => match c.event.sourceId with
    -- a turn without a source raises before its first operation
    | .error _ => some s
    | .ok sourceId => some { s with
        workers := s.workers ++ [⟨c.event.ref sourceId, .start, (runPlannerDispatchTurn c).run⟩] }
  | .advance i env => advance s i env
  | .saveCheckpoint runId leaseToken checkpoint now =>
    some { s with
      tables.runs := (Runs.saveRunCheckpoint s.tables.runs runId leaseToken checkpoint now).1 }

/-- The acceptances of an event, in order. -/
def acceptancesOf (event : EventRef) : List (Entry D) → List Acceptance
  | [] => []
  | .accepted e a :: log => if e = event then a :: acceptancesOf event log else acceptancesOf event log
  | _ :: log => acceptancesOf event log

/-- How often a receipt of the event was completed. -/
def completionsOf (event : EventRef) : List (Entry D) → ℕ
  | [] => 0
  | .completed e :: log => if e = event then completionsOf event log + 1 else completionsOf event log
  | _ :: log => completionsOf event log

theorem acceptancesOf_append (event : EventRef) (log new : List (Entry D)) :
    acceptancesOf event (log ++ new) = acceptancesOf event log ++ acceptancesOf event new := by
  induction log with
  | nil => rfl
  | cons e log ih =>
    cases e with
    | accepted e a =>
      simp only [List.cons_append, acceptancesOf]
      split <;> simp [ih]
    | claimed | dispatched | completed => simpa [acceptancesOf] using ih

theorem completionsOf_append (event : EventRef) (log new : List (Entry D)) :
    completionsOf event (log ++ new) = completionsOf event log + completionsOf event new := by
  induction log with
  | nil => simp [completionsOf]
  | cons e log ih =>
    cases e with
    | completed e =>
      simp only [List.cons_append, completionsOf, ih]
      split <;> omega
    | claimed | dispatched | accepted => simpa [completionsOf] using ih

/-- The values of an acceptance are those of the row. -/
def Holds (r : ReceiptRow) (a : Acceptance) : Prop :=
  r.runId = some a.runId ∧ r.model = some a.model ∧ r.promptVersion = some a.promptVersion ∧
    r.decision = some a.decision ∧ r.plannerResult = some a.plannerResult ∧
    r.dispatchContext = some a.dispatchContext

/-- What a claim returns of an acceptance. -/
def Returns (c : DecisionDispatchClaim) (a : Acceptance) : Prop :=
  c.runId = some a.runId ∧ c.model = some a.model ∧ c.promptVersion = some a.promptVersion ∧
    c.decision = some a.decision ∧ c.plannerResult = some a.plannerResult ∧
    c.dispatchContext = some a.dispatchContext

/-- What the log says of a receipt's event. -/
def Recorded (log : List (Entry D)) (r : ReceiptRow) : Prop :=
  match r.status with
  | .planning => acceptancesOf r.event log = [] ∧ completionsOf r.event log = 0
  | .dispatching => (∃ a, acceptancesOf r.event log = [a] ∧ Holds r a) ∧ completionsOf r.event log = 0
  | .completed => (∃ a, acceptancesOf r.event log = [a] ∧ Holds r a) ∧ completionsOf r.event log = 1

/-- The receipts and the log agree. -/
structure Ledger (t : List ReceiptRow) (log : List (Entry D)) : Prop where
  ids : (t.map (·.id)).Nodup
  events : (t.map (·.event)).Nodup
  rows : ∀ r ∈ t, Recorded log r
  absent : ∀ event, event ∉ t.map (·.event) → acceptancesOf event log = [] ∧ completionsOf event log = 0

/-- Only the lease of the row has changed. -/
def Leased (r s : ReceiptRow) : Prop :=
  s = { r with leaseToken := s.leaseToken, leaseUntil := s.leaseUntil, updatedAt := s.updatedAt }

/-- A claim that returns the values of a row. -/
def ClaimOf (r : ReceiptRow) (c : DecisionDispatchClaim) : Prop :=
  c.id = r.id ∧ c.status = r.status ∧ ∀ a, Holds r a → Returns c a

section Store

variable {t t' : List ReceiptRow}

theorem claimFromRow_ok {r : ReceiptRow} {acquired : Bool} {k : Option String}
    {c : DecisionDispatchClaim} (h : claimFromRow r acquired k = .ok c) : ClaimOf r c := by
  unfold claimFromRow at h
  split at h
  · cases h
  · obtain rfl := Except.ok.inj h
    exact ⟨rfl, rfl, fun a ha => ha⟩

theorem Leased.holds {r s : ReceiptRow} (h : Leased r s) {a : Acceptance} (hr : Holds r a) :
    Holds s a := by
  rw [h]
  exact hr

theorem Leased.recorded {r s : ReceiptRow} {log : List (Entry D)} (h : Leased r s)
    (hr : Recorded log r) : Recorded log s := by
  rw [h]
  exact hr

theorem leased_updateWhere {p : ReceiptRow → Bool} {f : ReceiptRow → ReceiptRow}
    (h : ∀ r, Leased r (f r)) : Grows Leased (fun _ => False) t (updateWhere p f t) :=
  .updateWhere (fun r _ _ => h r) fun _ _ _ => rfl

theorem acquireReceipt_ok {a : ClaimArgs} {row : ReceiptRow} {c : DecisionDispatchClaim}
    (hk : (t.map (·.id)).Nodup) (hrow : row ∈ t) (h : acquireReceipt t a row = .ok (t', c)) :
    Grows Leased (fun _ => False) t t' ∧ ClaimOf row c := by
  have hgrows : Grows Leased (fun _ => False) t (updateWhere (a.acquires row.id) a.acquire t) :=
    leased_updateWhere fun _ => rfl
  unfold acquireReceipt at h
  simp only at h
  split at h
  · cases h
  · rename_i current hcurrent
    have hclaim : t' = updateWhere (a.acquires row.id) a.acquire t ∧ ClaimOf current c := by
      split at h
      · obtain ⟨c', hc, he⟩ := map_eq_ok h
        obtain ⟨rfl, rfl⟩ := Prod.mk.inj he
        exact ⟨rfl, claimFromRow_ok hc⟩
      · obtain ⟨c', hc, he⟩ := map_eq_ok h
        obtain ⟨rfl, rfl⟩ := Prod.mk.inj he
        exact ⟨rfl, claimFromRow_ok hc⟩
    obtain ⟨rfl, hid, hstatus, hvalues⟩ := hclaim
    have hcid : current.id = row.id := by simpa using List.find?_some hcurrent
    obtain ⟨r, hr, hleased⟩ | hno := hgrows.of_mem (List.mem_of_find?_eq_some hcurrent)
    · have hrid : r.id = current.id := by rw [hleased]
      obtain rfl : r = row := eq_of_key hk hr hrow (hrid.trans hcid)
      refine ⟨hgrows, hid.trans hcid, hstatus.trans ?_, fun a ha => hvalues a (hleased.holds ha)⟩
      rw [hleased]
    · exact hno.elim

/-- A claim opens a receipt, or leaves all but leases and returns the values of the row. -/
theorem claimDecisionDispatch_ok {a : ClaimArgs} {c : DecisionDispatchClaim}
    (hk : (t.map (·.id)).Nodup) (h : claimDecisionDispatch t a = .ok (t', c)) :
    (t' = t ++ [a.row] ∧ a.row.id ∉ t.map (·.id) ∧ a.event ∉ t.map (·.event) ∧
      c.id = a.row.id ∧ c.status = .planning) ∨
    ∃ r ∈ t, r.event = a.event ∧ Grows Leased (fun _ => False) t t' ∧ ClaimOf r c := by
  obtain ⟨_, -, h⟩ := bind_eq_ok h
  split at h
  · obtain ⟨t1, hins, h⟩ := bind_eq_ok h
    obtain ⟨rfl, rfl⟩ := Prod.mk.inj (Except.ok.inj h)
    unfold insertReceipt at hins
    split at hins
    · cases hins
    · rename_i hno
      simp only [List.any_eq_true, not_exists, not_and, Bool.or_eq_true, decide_eq_true_eq,
        not_or] at hno
      refine .inl ⟨(Except.ok.inj hins).symm, fun hmem => ?_, fun hmem => ?_, rfl, rfl⟩
      · obtain ⟨r, hr, he⟩ := List.mem_map.mp hmem
        exact (hno r hr).1 he
      · obtain ⟨r, hr, he⟩ := List.mem_map.mp hmem
        exact (hno r hr).2 he
  · rename_i row hrow
    obtain ⟨_, -, h⟩ := bind_eq_ok h
    have hmem := List.mem_of_find?_eq_some hrow
    refine .inr ⟨row, hmem, by simpa using List.find?_some hrow, ?_⟩
    split at h
    · obtain ⟨c', hc, he⟩ := map_eq_ok h
      obtain ⟨rfl, rfl⟩ := Prod.mk.inj he
      exact ⟨.refl fun _ _ => rfl, claimFromRow_ok hc⟩
    · exact acquireReceipt_ok hk hmem h

theorem acceptDecisionDispatch_ok {id k : String} {a : Acceptance} {now : Int} {b : Bool}
    (h : acceptDecisionDispatch t id k a now = .ok (t', b)) :
    t' = updateWhere (owns id k .planning) (a.write now) t ∧
      b = decide (rowcount (owns id k .planning) t ≠ 0) := by
  unfold acceptDecisionDispatch at h
  split at h
  · cases h
  · split at h
    · cases h
    · split at h
      · cases h
      · obtain ⟨rfl, rfl⟩ := Prod.mk.inj (Except.ok.inj h)
        exact ⟨rfl, rfl⟩

/-- A completion keeps what was accepted. -/
theorem completeDecisionDispatch_ok {id k : String} {result : Json.Object} {now : Int} {b : Bool}
    (h : completeDecisionDispatch t id k result now = .ok (t', b)) :
    ∃ f : ReceiptRow → ReceiptRow, t' = updateWhere (owns id k .dispatching) f t ∧
      b = decide (rowcount (owns id k .dispatching) t ≠ 0) ∧
      ∀ r, (f r).id = r.id ∧ (f r).event = r.event ∧ (f r).status = .completed ∧
        ∀ a, Holds r a → Holds (f r) a := by
  unfold completeDecisionDispatch at h
  split at h
  · cases h
  · obtain ⟨fields, -, h⟩ := bind_eq_ok h
    obtain ⟨rfl, rfl⟩ := Prod.mk.inj (Except.ok.inj h)
    exact ⟨_, rfl, rfl, fun r => ⟨rfl, rfl, rfl, fun a ha => ha⟩⟩

theorem releaseDecisionDispatch_ok {id k : String} {now : Int} {b : Bool}
    (h : releaseDecisionDispatch t id k now = .ok (t', b)) : Grows Leased (fun _ => False) t t' := by
  unfold releaseDecisionDispatch at h
  split at h
  · cases h
  · obtain ⟨rfl, rfl⟩ := Prod.mk.inj (Except.ok.inj h)
    exact leased_updateWhere fun _ => rfl

end Store

section Ledger

variable {t t' : List ReceiptRow} {log : List (Entry D)}

theorem Ledger.lease (h : Ledger t log) (hg : Grows Leased (fun _ => False) t t') : Ledger t' log := by
  have hids : t'.map (·.id) = t.map (·.id) := hg.map_eq fun r _ s hs => by rw [hs]
  have hevents : t'.map (·.event) = t.map (·.event) := hg.map_eq fun r _ s hs => by rw [hs]
  refine ⟨hids ▸ h.ids, hevents ▸ h.events, fun s hs => ?_, hevents ▸ h.absent⟩
  obtain ⟨r, hr, hleased⟩ | hno := hg.of_mem hs
  · exact hleased.recorded (h.rows r hr)
  · exact hno.elim

theorem Ledger.insert (h : Ledger t log) {row : ReceiptRow} (hid : row.id ∉ t.map (·.id))
    (hevent : row.event ∉ t.map (·.event)) (hstatus : row.status = .planning) :
    Ledger (t ++ [row]) log := by
  refine ⟨nodup_append_key h.ids hid, nodup_append_key h.events hevent, fun r hr => ?_, fun e he => ?_⟩
  · obtain hr | hr := List.mem_append.mp hr
    · exact h.rows r hr
    · obtain rfl := List.mem_singleton.mp hr
      simpa only [Recorded, hstatus] using h.absent _ hevent
  · exact h.absent e fun hmem => he (by simp [hmem])

/-- Entries of no acceptance and no completion change nothing. -/
theorem Ledger.note (h : Ledger t log) {new : List (Entry D)}
    (hnew : ∀ event, acceptancesOf event new = [] ∧ completionsOf event new = 0) :
    Ledger t (log ++ new) := by
  have hacc : ∀ event, acceptancesOf event (log ++ new) = acceptancesOf event log := fun event => by
    rw [acceptancesOf_append, (hnew event).1, List.append_nil]
  have hcomp : ∀ event, completionsOf event (log ++ new) = completionsOf event log := fun event => by
    rw [completionsOf_append, (hnew event).2, Nat.add_zero]
  refine ⟨h.ids, h.events, fun r hr => ?_, fun event he => ?_⟩
  · simpa only [Recorded, hacc, hcomp] using h.rows r hr
  · simpa only [hacc, hcomp] using h.absent event he

/-- One row moves, and the log says so of its event. -/
theorem Ledger.move (h : Ledger t log) {p : ReceiptRow → Bool} {f : ReceiptRow → ReceiptRow}
    {new : List (Entry D)} {r : ReceiptRow} (hr : r ∈ t) (hp : ∀ s, p s = true → s.id = r.id)
    (hpr : p r = true) (hid : ∀ s, (f s).id = s.id) (hevent : ∀ s, (f s).event = s.event)
    (hnew : ∀ event, event ≠ r.event → acceptancesOf event new = [] ∧ completionsOf event new = 0)
    (hrec : Recorded (log ++ new) (f r)) : Ledger (updateWhere p f t) (log ++ new) := by
  have hids := map_updateWhere (p := p) (f := f) (k := (·.id)) t fun s _ => hid s
  have hevents := map_updateWhere (p := p) (f := f) (k := (·.event)) t fun s _ => hevent s
  have hother : ∀ event, event ≠ r.event → acceptancesOf event (log ++ new) = acceptancesOf event log ∧
      completionsOf event (log ++ new) = completionsOf event log := by
    intro event hne
    rw [acceptancesOf_append, completionsOf_append, (hnew event hne).1, (hnew event hne).2]
    simp
  refine ⟨hids ▸ h.ids, hevents ▸ h.events, fun s hs => ?_, fun event he => ?_⟩
  · obtain ⟨x, hx, hxs⟩ := List.mem_map.mp hs
    by_cases hpx : p x = true
    · obtain rfl : x = r := eq_of_key h.ids hx hr (hp x hpx)
      rw [if_pos hpx] at hxs
      exact hxs ▸ hrec
    · rw [if_neg hpx] at hxs
      subst hxs
      have hne : x.event ≠ r.event := fun heq => hpx (eq_of_key h.events hx hr heq ▸ hpr)
      have hrow := h.rows x hx
      simpa only [Recorded, (hother _ hne).1, (hother _ hne).2] using hrow
  · rw [hevents] at he
    have hne : event ≠ r.event := fun heq => he (heq ▸ List.mem_map_of_mem hr)
    rw [(hother _ hne).1, (hother _ hne).2]
    exact h.absent event he

theorem Ledger.accept (h : Ledger t log) {r : ReceiptRow} {k : String} (a : Acceptance) (now : Int)
    (hr : r ∈ t) (hown : owns r.id k .planning r = true) :
    Ledger (updateWhere (owns r.id k .planning) (a.write now) t) (log ++ [.accepted r.event a]) := by
  have hstatus : r.status = .planning := by
    simp only [owns, Bool.and_eq_true, decide_eq_true_eq] at hown
    exact hown.1.2
  have hrow := h.rows r hr
  simp only [Recorded, hstatus] at hrow
  refine h.move hr (fun s hs => ?_) hown (fun _ => rfl) (fun _ => rfl) (fun event hne => ?_) ?_
  · simp only [owns, Bool.and_eq_true, decide_eq_true_eq] at hs
    exact hs.1.1
  · simp [acceptancesOf, completionsOf, hne.symm]
  · refine ⟨⟨a, ?_, rfl, rfl, rfl, rfl, rfl, rfl⟩, ?_⟩
    · simp [Acceptance.write, acceptancesOf_append, hrow.1, acceptancesOf]
    · simp [Acceptance.write, completionsOf_append, hrow.2, completionsOf]

theorem Ledger.complete (h : Ledger t log) {r : ReceiptRow} {k : String}
    {f : ReceiptRow → ReceiptRow} (hr : r ∈ t) (hown : owns r.id k .dispatching r = true)
    (hf : ∀ s, (f s).id = s.id ∧ (f s).event = s.event ∧ (f s).status = .completed ∧
      ∀ a, Holds s a → Holds (f s) a) :
    Ledger (updateWhere (owns r.id k .dispatching) f t) (log ++ [.completed r.event]) := by
  have hstatus : r.status = .dispatching := by
    simp only [owns, Bool.and_eq_true, decide_eq_true_eq] at hown
    exact hown.1.2
  have hrow := h.rows r hr
  simp only [Recorded, hstatus] at hrow
  obtain ⟨⟨a, hacc, hholds⟩, hcomp⟩ := hrow
  obtain ⟨-, hevent, hdone, hkeep⟩ := hf r
  refine h.move hr (fun s hs => ?_) hown (fun s => (hf s).1) (fun s => (hf s).2.1)
    (fun event hne => ?_) ?_
  · simp only [owns, Bool.and_eq_true, decide_eq_true_eq] at hs
    exact hs.1.1
  · simp [acceptancesOf, completionsOf, hne.symm]
  · simp only [Recorded, hdone, hevent]
    refine ⟨⟨a, ?_, hkeep a hholds⟩, ?_⟩
    · simp [acceptancesOf_append, hacc, acceptancesOf]
    · simp [completionsOf_append, hcomp, completionsOf]

end Ledger

section Invariant

/-- What the phase of a turn promises about its receipt and its event. -/
def Phase.Sound (t : List ReceiptRow) (log : List (Entry D)) (event : EventRef) : Phase → Prop
  | .start => True
  | .claimed c accepted => (∃ r ∈ t, r.id = c.id ∧ r.event = event) ∧
      (∀ a, accepted = some a → a ∈ acceptancesOf event log) ∧
      (c.status = .dispatching → ∃ a ∈ acceptancesOf event log, Returns c a)

/-- Every acceptance is one of a serialized decision. -/
def Serialized (log : List (Entry D)) : Prop :=
  ∀ event, ∀ a ∈ acceptancesOf event log, ∃ d, serializeDecision D d = .ok a.decision

/-- A dispatch uses what was accepted for its event. -/
def Dispatches (log : List (Entry D)) : Prop :=
  ∀ event d context, .dispatched event d context ∈ log → ∃ a ∈ acceptancesOf event log,
    serializeDecision D d = .ok a.decision ∧ context.runId = a.runId ∧
      context.sourceEventId = event.triggerEventId

/-- A claim returns what was accepted for its event before. -/
def ClaimsAgree (pre : List (Entry D)) (e : Entry D) : Prop :=
  ∀ event c, e = .claimed event c → ∀ a ∈ acceptancesOf event pre, Returns c a

structure Inv (s : System D) : Prop where
  ledger : Ledger s.tables.receipts s.log
  serialized : Serialized s.log
  dispatches : Dispatches s.log
  claims : Run.Always ClaimsAgree s.log
  workers : ∀ w ∈ s.workers, Follows (protocol D w.event) w.phase w.program ∧
    w.phase.Sound s.tables.receipts s.log w.event

/-- What one operation does to the receipts and the log. -/
structure Effect (t : List ReceiptRow) (log : List (Entry D)) (t' : List ReceiptRow)
    (new : List (Entry D)) : Prop where
  ledger : Ledger t' (log ++ new)
  rows : ∀ r ∈ t, ∃ s ∈ t', s.id = r.id ∧ s.event = r.event
  serialized : Serialized new
  dispatches : ∀ event d context, .dispatched event d context ∈ new → ∃ a ∈ acceptancesOf event log,
    serializeDecision D d = .ok a.decision ∧ context.runId = a.runId ∧
      context.sourceEventId = event.triggerEventId
  claims : ∀ e ∈ new, ClaimsAgree log e
  single : new.length ≤ 1

variable {t t' : List ReceiptRow} {log new : List (Entry D)} {event : EventRef} {φ : Phase}

theorem serialized_nil : Serialized ([] : List (Entry D)) := by
  intro event a ha
  cases ha

/-- An operation that leaves all but leases and logs nothing. -/
theorem Effect.lease (h : Ledger t log) (hg : Grows Leased (fun _ => False) t t') :
    Effect t log t' [] := by
  refine ⟨by simpa using h.lease hg, fun r hr => ?_, serialized_nil, by simp, by simp, by simp⟩
  obtain ⟨s, hs, hleased⟩ := hg.exists_of_mem hr
  exact ⟨s, hs, by rw [hleased], by rw [hleased]⟩

theorem Effect.quiet (h : Ledger t log) : Effect t log t [] := .lease h (.refl fun _ _ => rfl)

theorem mem_acceptancesOf_append {a : Acceptance} (h : a ∈ acceptancesOf event log) :
    a ∈ acceptancesOf event (log ++ new) := by
  rw [acceptancesOf_append]
  exact List.mem_append_left _ h

/-- What a phase promises stays. -/
theorem Phase.Sound.mono (h : φ.Sound t log event)
    (hrows : ∀ r ∈ t, ∃ s ∈ t', s.id = r.id ∧ s.event = r.event) : φ.Sound t' (log ++ new) event := by
  cases φ with
  | start => trivial
  | claimed c accepted =>
    obtain ⟨⟨r, hr, hid, hevent⟩, hacc, hdispatch⟩ := h
    obtain ⟨s, hs, hsid, hsevent⟩ := hrows r hr
    refine ⟨⟨s, hs, hsid.trans hid, hsevent.trans hevent⟩, fun a ha => ?_, fun hstatus => ?_⟩
    · exact mem_acceptancesOf_append (hacc a ha)
    · obtain ⟨a, ha, hreturns⟩ := hdispatch hstatus
      exact ⟨a, mem_acceptancesOf_append ha, hreturns⟩

theorem Recorded.returns {r : ReceiptRow} {c : DecisionDispatchClaim} (h : Recorded log r)
    (hc : ClaimOf r c) : (∀ a ∈ acceptancesOf r.event log, Returns c a) ∧
      (c.status = .dispatching → ∃ a ∈ acceptancesOf r.event log, Returns c a) := by
  obtain ⟨-, hstatus, hreturns⟩ := hc
  cases hs : r.status with
  | planning =>
    simp only [Recorded, hs] at h
    simp [h.1, hstatus, hs]
  | dispatching =>
    simp only [Recorded, hs] at h
    obtain ⟨⟨a, hacc, hholds⟩, -⟩ := h
    simp [hacc, hreturns a hholds]
  | completed =>
    simp only [Recorded, hs] at h
    obtain ⟨⟨a, hacc, hholds⟩, -⟩ := h
    simp [hacc, hreturns a hholds]

theorem claim_effect (h : Ledger t log) {a : ClaimArgs} {c : DecisionDispatchClaim}
    (hc : claimDecisionDispatch t a = .ok (t', c)) :
    Effect t log t' [.claimed a.event c] ∧
      (Phase.claimed c none).Sound t' (log ++ [.claimed a.event c]) a.event := by
  have hnew : ∀ event, acceptancesOf event [Entry.claimed (D := D) a.event c] = [] ∧
      completionsOf event [Entry.claimed (D := D) a.event c] = 0 := fun event => ⟨rfl, rfl⟩
  obtain ⟨rfl, hid, hevent, hcid, hstatus⟩ | ⟨r, hr, hre, hg, hclaim⟩ := claimDecisionDispatch_ok h.ids hc
  · have hrows : ∀ r ∈ t, ∃ s ∈ t ++ [a.row], s.id = r.id ∧ s.event = r.event :=
      fun r hr => ⟨r, List.mem_append_left _ hr, rfl, rfl⟩
    refine ⟨⟨(h.insert hid hevent rfl).note hnew, hrows, serialized_nil, by simp, ?_, by simp⟩, ?_⟩
    · rintro e he event' c' rfl x hx
      obtain ⟨rfl, rfl⟩ := by simpa using he
      rw [(h.absent _ hevent).1] at hx
      cases hx
    · refine ⟨⟨a.row, by simp, hcid.symm, rfl⟩, by simp, fun hd => ?_⟩
      rw [hstatus] at hd
      cases hd
  · have hrows : ∀ r ∈ t, ∃ s ∈ t', s.id = r.id ∧ s.event = r.event :=
      (Effect.lease h hg).rows
    obtain ⟨hall, hdispatch⟩ := (h.rows r hr).returns hclaim
    rw [hre] at hall hdispatch
    refine ⟨⟨(h.lease hg).note hnew, hrows, serialized_nil, by simp, ?_, by simp⟩, ?_⟩
    · rintro e he event' c' rfl x hx
      obtain ⟨rfl, rfl⟩ := by simpa using he
      exact hall x hx
    · obtain ⟨s, hs, hsid, hsevent⟩ := hrows r hr
      refine ⟨⟨s, hs, hsid.trans hclaim.1.symm, hsevent.trans hre⟩, by simp, fun hd => ?_⟩
      obtain ⟨x, hx, hreturns⟩ := hdispatch hd
      exact ⟨x, mem_acceptancesOf_append hx, hreturns⟩

/-- The row that a fenced write moves is the one of its turn. -/
theorem exists_owned (h : Ledger t log) {r : ReceiptRow} (hr : r ∈ t) {k : String}
    {status : ReceiptStatus} (hcount : rowcount (owns r.id k status) t ≠ 0) :
    owns r.id k status r = true := by
  obtain ⟨s, hs, hown⟩ := List.countP_pos_iff.mp (Nat.pos_of_ne_zero hcount)
  have hid : s.id = r.id := by
    simp only [owns, Bool.and_eq_true, decide_eq_true_eq] at hown
    exact hown.1.1
  exact eq_of_key h.ids hs hr hid ▸ hown

theorem rows_updateWhere {p : ReceiptRow → Bool} {f : ReceiptRow → ReceiptRow}
    (hf : ∀ r, (f r).id = r.id ∧ (f r).event = r.event) :
    ∀ r ∈ t, ∃ s ∈ updateWhere p f t, s.id = r.id ∧ s.event = r.event := by
  intro r hr
  refine ⟨_, List.mem_map_of_mem hr, ?_⟩
  split
  · exact hf r
  · exact ⟨rfl, rfl⟩

theorem accept_effect (h : Ledger t log) {r : ReceiptRow} (hr : r ∈ t) {k : String}
    {a : Acceptance} (hser : ∃ d, serializeDecision D d = .ok a.decision) {now : Int} {b : Bool}
    (hok : acceptDecisionDispatch t r.id k a now = .ok (t', b)) :
    Effect t log t' (if b then [.accepted r.event a] else []) := by
  obtain ⟨rfl, rfl⟩ := acceptDecisionDispatch_ok hok
  by_cases hcount : rowcount (owns r.id k .planning) t = 0
  · rw [updateWhere_eq_self_of_rowcount hcount]
    simpa [hcount] using Effect.quiet h
  · have hown := exists_owned h hr hcount
    simp only [ne_eq, hcount, not_false_eq_true, decide_true, if_true]
    refine ⟨h.accept a now hr hown, rows_updateWhere fun _ => ⟨rfl, rfl⟩, ?_, by simp, ?_, by simp⟩
    · intro event x hx
      simp only [acceptancesOf] at hx
      split at hx
      · exact List.mem_singleton.mp hx ▸ hser
      · cases hx
    · rintro e he event' c' rfl
      simp at he

theorem complete_effect (h : Ledger t log) {r : ReceiptRow} (hr : r ∈ t) {k : String}
    {result : Json.Object} {now : Int} {b : Bool}
    (hok : completeDecisionDispatch t r.id k result now = .ok (t', b)) :
    Effect t log t' (if b then [.completed r.event] else []) := by
  obtain ⟨f, rfl, rfl, hf⟩ := completeDecisionDispatch_ok hok
  by_cases hcount : rowcount (owns r.id k .dispatching) t = 0
  · rw [updateWhere_eq_self_of_rowcount hcount]
    simpa [hcount] using Effect.quiet h
  · have hown := exists_owned h hr hcount
    simp only [ne_eq, hcount, not_false_eq_true, decide_true, if_true]
    refine ⟨h.complete hr hown hf, rows_updateWhere fun s => ⟨(hf s).1, (hf s).2.1⟩, ?_, by simp, ?_,
      by simp⟩
    · intro event x hx
      simp [acceptancesOf] at hx
    · rintro e he event' c' rfl
      simp at he

/-- A turn dispatches what was accepted for its event. -/
theorem dispatch_effect (h : Ledger t log) (hser : Serialized log) (hφ : φ.Sound t log event)
    {d : D.Decision} {context : DispatchContext}
    (hallowed : (protocol D event).allowed φ (.dispatch d context)) :
    Effect t log t [.dispatched event d context] := by
  obtain ⟨c, accepted, rfl, hevent, hd⟩ := hallowed
  obtain ⟨-, hacc, hdispatch⟩ := hφ
  have huse : ∃ a ∈ acceptancesOf event log, serializeDecision D d = .ok a.decision ∧
      context.runId = a.runId := by
    cases accepted with
    | some a => exact ⟨a, hacc a rfl, hd⟩
    | none =>
      obtain ⟨hstatus, hrun, fields, hfields, parser, hparsed⟩ := hd
      obtain ⟨a, ha, hreturns⟩ := hdispatch hstatus
      obtain ⟨d', hd'⟩ := hser event a ha
      obtain rfl : fields = a.decision := Option.some.inj (hfields.symm.trans hreturns.2.2.2.1)
      obtain rfl := Except.ok.inj (hparsed.symm.trans (parser.inverts d' _ hd'))
      exact ⟨a, ha, hd', Option.some.inj (hrun.symm.trans hreturns.1)⟩
  obtain ⟨a, ha, hdec, hrun⟩ := huse
  refine ⟨h.note fun _ => ⟨rfl, rfl⟩, fun r hr => ⟨r, hr, rfl, rfl⟩, ?_, ?_, ?_, by simp⟩
  · exact serialized_nil
  · intro event' d' context' he
    obtain ⟨rfl, rfl, rfl⟩ := by simpa using he
    exact ⟨a, ha, hdec, hrun, hevent⟩
  · rintro e he event' c' rfl
    simp at he

theorem next_error (o : Op D) (e : Raised) : (protocol D event).next φ o (.error e) = φ := by
  cases φ with
  | start => cases o <;> rfl
  | claimed c accepted => cases accepted <;> cases o <;> rfl

/-- One operation of a turn, as the stores perform it. -/
theorem performOp_effect {db : Tables} (h : Ledger db.receipts log) (hser : Serialized log)
    (hφ : φ.Sound db.receipts log event) (env : Env) {o : Op D}
    (hallowed : (protocol D event).allowed φ o) {db' : Tables} {r : Res D o}
    (hop : performOp db env o = (db', r)) :
    Effect db.receipts log db'.receipts (entries event o r) ∧
      Phase.Sound db'.receipts (log ++ entries event o r) event ((protocol D event).next φ o r) := by
  have hquiet : Effect db.receipts log db.receipts [] := .quiet h
  have hkeep : φ.Sound db.receipts (log ++ []) event := hφ.mono hquiet.rows
  cases o with
  | claimReceipt e fp stale =>
    obtain ⟨rfl, rfl⟩ := hallowed
    simp only [performOp, settle] at hop
    split at hop
    · rename_i t c hc
      obtain ⟨rfl, rfl⟩ := Prod.mk.inj hop
      exact claim_effect h hc
    · obtain ⟨rfl, rfl⟩ := Prod.mk.inj hop
      exact ⟨hquiet, trivial⟩
  | acceptReceipt id k a =>
    obtain ⟨⟨c, rfl, rfl⟩, hd⟩ := hallowed
    obtain ⟨x, hx, hxid, rfl⟩ := hφ.1
    simp only [performOp, settle] at hop
    split at hop
    · rename_i t b hb
      obtain ⟨rfl, rfl⟩ := Prod.mk.inj hop
      rw [← hxid] at hb
      have heffect := accept_effect h hx hd hb
      cases b with
      | false => exact ⟨heffect, hφ.mono heffect.rows⟩
      | true =>
        have hsound : Phase.Sound _ (log ++ [.accepted x.event a]) _ _ := hφ.mono heffect.rows
        obtain ⟨hrow, -, hdispatch⟩ := hsound
        refine ⟨heffect, hrow, fun a' ha' => ?_, hdispatch⟩
        obtain rfl := Option.some.inj ha'
        change a ∈ acceptancesOf x.event (log ++ [.accepted x.event a])
        simp [acceptancesOf_append, acceptancesOf]
    · obtain ⟨rfl, rfl⟩ := Prod.mk.inj hop
      exact ⟨hquiet, hkeep⟩
  | completeReceipt id k result =>
    obtain ⟨c, accepted, rfl, rfl⟩ := hallowed
    obtain ⟨x, hx, hxid, rfl⟩ := hφ.1
    simp only [performOp, settle] at hop
    split at hop
    · rename_i t b hb
      obtain ⟨rfl, rfl⟩ := Prod.mk.inj hop
      rw [← hxid] at hb
      have heffect := complete_effect h hx hb
      cases b with
      | false => exact ⟨heffect, hφ.mono heffect.rows⟩
      | true => exact ⟨heffect, hφ.mono heffect.rows⟩
    · obtain ⟨rfl, rfl⟩ := Prod.mk.inj hop
      exact ⟨hquiet, hkeep⟩
  | releaseReceipt id k =>
    simp only [performOp, settle] at hop
    split at hop
    · rename_i t b hb
      obtain ⟨rfl, rfl⟩ := Prod.mk.inj hop
      have heffect := Effect.lease h (releaseDecisionDispatch_ok hb)
      exact ⟨heffect, hφ.mono heffect.rows⟩
    · obtain ⟨rfl, rfl⟩ := Prod.mk.inj hop
      exact ⟨hquiet, hkeep⟩
  | claimRun | finalizeRun =>
    simp only [performOp, settle] at hop
    split at hop
    · obtain ⟨rfl, rfl⟩ := Prod.mk.inj hop
      exact ⟨hquiet, hkeep⟩
    · obtain ⟨rfl, rfl⟩ := Prod.mk.inj hop
      exact ⟨hquiet, hkeep⟩
  | buildContext | respond =>
    obtain ⟨rfl, rfl⟩ := Prod.mk.inj hop
    exact ⟨hquiet, hkeep⟩
  | dispatch d context =>
    obtain ⟨rfl, rfl⟩ := Prod.mk.inj hop
    have heffect := dispatch_effect h hser hφ hallowed
    exact ⟨heffect, hφ.mono heffect.rows⟩

/-- The same with the faults that the turn may see instead of the result. -/
theorem outcome_effect {db : Tables} (h : Ledger db.receipts log) (hser : Serialized log)
    (hφ : φ.Sound db.receipts log event) (env : Env) {o : Op D}
    (hallowed : (protocol D event).allowed φ o) {db' : Tables} {r : Res D o}
    (hop : outcome db event env o = (db', r, new)) :
    Effect db.receipts log db'.receipts new ∧
      Phase.Sound db'.receipts (log ++ new) event ((protocol D event).next φ o r) := by
  obtain ⟨heffect, hnext⟩ := performOp_effect h hser hφ env hallowed
    (Prod.mk.eta (p := performOp db env o)).symm
  unfold outcome at hop
  simp only at hop
  split at hop
  · simp only [Prod.mk.injEq] at hop
    obtain ⟨rfl, rfl, rfl⟩ := hop
    exact ⟨heffect, hnext⟩
  · simp only [Prod.mk.injEq] at hop
    obtain ⟨rfl, rfl, rfl⟩ := hop
    rw [next_error]
    exact ⟨.quiet h, hφ.mono (Effect.quiet h).rows⟩
  · simp only [Prod.mk.injEq] at hop
    obtain ⟨rfl, rfl, rfl⟩ := hop
    rw [next_error]
    exact ⟨heffect, hφ.mono heffect.rows⟩

/-- An operation of any turn keeps the invariant of the log. -/
theorem Inv.log_append {s : System D} (hs : Inv s) (heffect : Effect s.tables.receipts s.log t' new) :
    Serialized (s.log ++ new) ∧ Dispatches (s.log ++ new) ∧ Run.Always ClaimsAgree (s.log ++ new) := by
  refine ⟨fun event a ha => ?_, fun event d context he => ?_, ?_⟩
  · rw [acceptancesOf_append] at ha
    obtain ha | ha := List.mem_append.mp ha
    · exact hs.serialized event a ha
    · exact heffect.serialized event a ha
  · have hold : ∃ a ∈ acceptancesOf event s.log, serializeDecision D d = .ok a.decision ∧
        context.runId = a.runId ∧ context.sourceEventId = event.triggerEventId := by
      obtain he | he := List.mem_append.mp he
      · exact hs.dispatches event d context he
      · exact heffect.dispatches event d context he
    obtain ⟨a, ha, huse⟩ := hold
    exact ⟨a, mem_acceptancesOf_append ha, huse⟩
  · refine Run.always_append hs.claims fun pre e post hsplit => ?_
    have hlen := heffect.single
    rw [hsplit] at hlen
    obtain rfl : pre = [] := List.length_eq_zero_iff.mp (by simp at hlen; omega)
    rw [List.append_nil]
    exact heffect.claims e (by simp [hsplit])

theorem Inv.step {s s' : System D} {l : Label D} (hs : Inv s) (h : step s l = some s') : Inv s' := by
  cases l with
  | start c =>
    simp only [Decisions.step] at h
    split at h
    · exact Option.some.inj h ▸ hs
    · rename_i sourceId hsource
      obtain rfl := Option.some.inj h
      refine ⟨hs.ledger, hs.serialized, hs.dispatches, hs.claims, fun w hw => ?_⟩
      obtain hw | hw := List.mem_append.mp hw
      · exact hs.workers w hw
      · obtain rfl := List.mem_singleton.mp hw
        exact ⟨runPlannerDispatchTurn_follows c hsource, trivial⟩
  | saveCheckpoint runId k checkpoint now =>
    obtain rfl := Option.some.inj h
    exact ⟨hs.ledger, hs.serialized, hs.dispatches, hs.claims, hs.workers⟩
  | advance i env =>
    simp only [Decisions.step, advance] at h
    split at h
    · cases h
    · rename_i w hw
      split at h
      · cases h
      · rename_i o k hprogram
        obtain ⟨hfollows, hsound⟩ := hs.workers w (List.mem_of_getElem? hw)
        rw [hprogram] at hfollows
        have hparts : outcome s.tables w.event env o = ((outcome s.tables w.event env o).1,
            (outcome s.tables w.event env o).2.1, (outcome s.tables w.event env o).2.2) := rfl
        obtain ⟨heffect, hnext⟩ := outcome_effect hs.ledger hs.serialized hsound env hfollows.1 hparts
        obtain ⟨hser, hdispatches, hclaims⟩ := hs.log_append heffect
        obtain rfl := Option.some.inj h
        refine ⟨heffect.ledger, hser, hdispatches, hclaims, forall_set (fun x hx => ?_) ?_⟩
        · exact ⟨(hs.workers x hx).1, (hs.workers x hx).2.mono heffect.rows⟩
        · exact ⟨hfollows.2 _, hnext⟩

theorem inv_init : Inv ({} : System D) := by
  refine ⟨⟨by simp, by simp, by simp, fun _ _ => ⟨rfl, rfl⟩⟩, serialized_nil, ?_, ?_, by simp⟩
  · intro event d context h
    simp at h
  · exact Run.always_nil _

end Invariant

/-- What holds of an event in a system: at most one acceptance and one completion, a dispatch
only of what was accepted, and, once it was accepted, the same values in the receipt and in
every claim since. -/
structure OneDecision (s : System D) (event : EventRef) : Prop where
  accepts : (acceptancesOf event s.log).length ≤ 1
  completes : completionsOf event s.log ≤ 1
  stays : ∀ a ∈ acceptancesOf event s.log, ∃ r ∈ s.tables.receipts, r.event = event ∧ Holds r a
  dispatches : ∀ d context, .dispatched event d context ∈ s.log → ∃ a ∈ acceptancesOf event s.log,
    serializeDecision D d = .ok a.decision ∧ context.runId = a.runId ∧
      context.sourceEventId = event.triggerEventId
  claims : ∀ pre a mid c post, s.log = pre ++ .accepted event a :: mid ++ .claimed event c :: post →
    Returns c a

theorem Ledger.of_event {t : List ReceiptRow} {log : List (Entry D)} (h : Ledger t log)
    (event : EventRef) : (acceptancesOf event log).length ≤ 1 ∧ completionsOf event log ≤ 1 ∧
      ∀ a ∈ acceptancesOf event log, ∃ r ∈ t, r.event = event ∧ Holds r a := by
  by_cases hevent : event ∈ t.map (·.event)
  · obtain ⟨r, hr, rfl⟩ := List.mem_map.mp hevent
    have hrow := h.rows r hr
    cases hs : r.status with
    | planning =>
      simp only [Recorded, hs] at hrow
      simp [hrow.1, hrow.2]
    | dispatching | completed =>
      simp only [Recorded, hs] at hrow
      obtain ⟨⟨a, hacc, hholds⟩, hcomp⟩ := hrow
      refine ⟨by simp [hacc], by omega, fun x hx => ⟨r, hr, rfl, ?_⟩⟩
      rw [hacc] at hx
      exact List.mem_singleton.mp hx ▸ hholds
  · obtain ⟨hacc, hcomp⟩ := h.absent event hevent
    simp [hacc, hcomp]

/-- However turns for an event interleave, they agree on one decision. -/
theorem one_accepted_decision {labels : List (Label D)} {s : System D}
    (h : Run.exec step {} labels = some s) (event : EventRef) : OneDecision s event := by
  have hinv : Inv s := Run.exec_invariant (fun _ _ _ hs => hs.step) inv_init h
  obtain ⟨haccepts, hcompletes, hstays⟩ := hinv.ledger.of_event event
  refine ⟨haccepts, hcompletes, hstays, hinv.dispatches event, fun pre a mid c post hlog => ?_⟩
  refine hinv.claims _ _ post hlog event c rfl a ?_
  simp [acceptancesOf_append, acceptancesOf]

section Example

/-- Decisions that reply or do nothing. -/
def replies : DecisionType where
  Decision := Bool
  shape b := .payload (if b then "reply" else "ignore") []

def repliesParser : DecisionParser replies where
  parse text :=
    if text = Json.dumps (.obj [("kind", .str "reply")]) then .ok true
    else if text = Json.dumps (.obj [("kind", .str "ignore")]) then .ok false
    else .error (.valueError "unknown decision")
  inverts := by
    intro d fields h
    cases d with
    | true =>
      obtain rfl := Except.ok.inj h
      exact if_pos rfl
    | false =>
      obtain rfl := Except.ok.inj h
      exact (if_neg (by decide)).trans (if_pos rfl)

def replyTurn (promptVersion : String) : TurnConfig replies where
  event := { id := "evt", tenantId := "t", recipient := "agent", messageType := "Message"
             payload := [("source_id", .str "chat")] }
  model := "m"
  promptVersion := promptVersion
  timeoutS := 30
  parser := repliesParser
  extras := none

/-- The steps by which a turn plans and tries to accept the decision of a kind. -/
def planLabels (worker : ℕ) (now : Int) (hex kind : String) : List (Label replies) :=
  [.advance worker { now := now, leaseToken := hex, hex := hex },
    .advance worker { now := now, context := .ok ⟨[], [], none, [], [], [], [], []⟩ },
    .advance worker { now := now
                      response := .ok { text := Json.dumps (.obj [("kind", .str kind)]), sessionId := "s" } },
    .advance worker { now := now }, .advance worker { now := now }]

/-- A turn whose lease expires plans a reply; the turn that supersedes it ignores the event. -/
def supersededTurns : List (Label replies) :=
  [.start (replyTurn "1"), .advance 0 { now := 0, leaseToken := "k1", hex := "1" },
    .start (replyTurn "2"), .advance 1 { now := 1000, leaseToken := "k2", hex := "2" }] ++
  planLabels 1 1000 "r2" "ignore" ++ planLabels 0 1001 "r1" "reply" ++
  [.advance 1 { now := 1002, dispatched := .ok { target := "none", id := none } },
    .advance 1 { now := 1003 }]

def replyEvent : EventRef := ⟨"t", "chat", "evt"⟩

theorem one_accepted_decision_superseded : ∃ s, Run.exec step {} supersededTurns = some s ∧
    OneDecision s replyEvent ∧
    (acceptancesOf replyEvent s.log).map (·.decision) = [[("kind", .str "ignore")]] ∧
    completionsOf replyEvent s.log = 1 := by
  have hrun : (Run.exec step {} supersededTurns).map (fun s =>
      ((acceptancesOf replyEvent s.log).map (·.decision), completionsOf replyEvent s.log)) =
        some ([[("kind", .str "ignore")]], 1) := by decide +kernel
  obtain ⟨s, hs, hvalues⟩ := Option.map_eq_some_iff.mp hrun
  exact ⟨s, hs, one_accepted_decision hs replyEvent, (Prod.mk.inj hvalues).1, (Prod.mk.inj hvalues).2⟩

end Example

end Soveren.Decisions
