import Soveren.Outbound.Worker

/-! At-most-once sending. An admission to `sending` is paid for: the first one is free, and
each further one by a recorded retry or an applied `not_sent` reconciliation, because only these
two make a message claimable again that is being sent or is settled. -/
namespace Soveren.Outbound
open Soveren.Relational Soveren.Process Soveren.Run Soveren.Conversation Soveren.Reconciliation

section Marks

variable {db : Tables}

/-- A failure that is not recorded changes nothing. -/
theorem markFailure_refused {statuses : List OutboundStatus} {status : OutboundStatus}
    {m k lastError : String} {now : Int}
    (h : (markFailure statuses status db m k lastError now).2 = false) :
    (markFailure statuses status db m k lastError now).1 = db := by
  have hzero : rowcount (holds statuses m k) db.outbound = 0 := by simpa [markFailure] using h
  simp only [markFailure, updateWhere_eq_self_of_rowcount hzero]

/-- A retry that is not recorded changes nothing. -/
theorem markRetry_refused (hid : (db.outbound.map (·.id)).Nodup) {m k lastError : String}
    {runAfter now : Int} (h : (markRetry db m k runAfter lastError now).2 = none) :
    (markRetry db m k runAfter lastError now).1 = db := by
  unfold markRetry at h ⊢
  dsimp only at h ⊢
  split
  · rfl
  · rename_i row hrow
    simp only [hrow] at h
    have hpos : 0 < rowcount (holds [.leased, .sending] m k) db.outbound :=
      List.countP_pos_iff.mpr ⟨row, List.mem_of_find?_eq_some hrow, List.find?_some hrow⟩
    have hle := rowcount_le_one (p := holds [.leased, .sending] m k) hid fun r hr => (holds_iff.mp hr).1
    have hone : rowcount (holds [.leased, .sending] m k) db.outbound = 1 := by omega
    simp [hone] at h

/-- A message that `mark_sending` admits was leased and is being sent. -/
theorem markSending_admitted (hid : (db.outbound.map (·.id)).Nodup) {m k : String} {now : Int}
    (h : (markSending db m k now).2 = true) :
    (∃ r ∈ db.outbound, r.id = m ∧ r.status = .leased) ∧
      ∀ s ∈ (markSending db m k now).1.outbound, s.id = m →
        s.status = .sending ∧ s.leaseToken = some k := by
  unfold markSending at h ⊢
  dsimp only at h ⊢
  split at h
  · cases h
  · rename_i row hrow
    have hmem := List.mem_of_find?_eq_some hrow
    have hp := List.find?_some hrow
    obtain ⟨hrm, hst, hk⟩ := holds_iff.mp ((Bool.and_eq_true _ _).mp hp).1
    refine ⟨⟨row, hmem, hrm, by simpa using hst⟩, ?_⟩
    split at h
    · cases h
    · rename_i hc
      rw [if_neg hc]
      intro s hs hsm
      obtain ⟨r, hr, rfl⟩ := List.mem_map.mp hs
      split at hsm
      · rename_i hown
        rw [if_pos hown]
        exact ⟨rfl, (holds_iff.mp ((Bool.and_eq_true _ _).mp hown).1).2.2⟩
      · rename_i hown
        have heq : r = row := eq_of_key hid hr hmem (hsm.trans hrm.symm)
        exact absurd (heq ▸ hp) hown

end Marks

/-- The messages that a claim can lease, now or after a lease that expires. -/
def isArmed (r : OutboundRow) : Bool := [OutboundStatus.queued, .retrying, .leased].contains r.status

/-- A message that is being sent under the token, or that no claim touches. -/
def Held (token : String) (r : OutboundRow) : Prop :=
  (r.status = .sending ∧ r.leaseToken = some token) ∨ r.status = .uncertain ∨ r.status = .sent ∨
    r.status = .deadLetter

theorem Held.not_armed {token : String} {r : OutboundRow} (h : Held token r) : isArmed r = false := by
  obtain ⟨h, -⟩ | h | h | h := h <;> simp [isArmed, h]

/-- The two calls that make a message claimable again. -/
inductive Rearms (r : OutboundRow) : Conversation.Call → Prop
  | retried {m k lastError : String} {runAfter now : Int}
      (h : holds [.leased, .sending] m k r = true) :
      Rearms r (.markRetry m k runAfter lastError now)
  | notSent {q : OutboundRequest} (h : q.request.names r = true) :
      Rearms r (.resolveOutbound .notSent q)

theorem rearms_of_armed {db : Tables} {call : Conversation.Call} {r s : OutboundRow}
    (h : RowStep db call r s) (hs : isArmed s = true) (hr : isArmed r = false) : Rearms r call := by
  cases h with
  | same | renewed => exact absurd (hs.symm.trans hr) Bool.noConfusion
  | retried h _ => exact .retried h
  | @resolved resolution _ _ h _ =>
    cases resolution with
    | notSent => exact .notSent h
    | sent | failed => simp [isArmed, OutboundResolution.write, OutboundResolution.status, unlease] at hs
  | swept h =>
    cases h with
    | same => exact absurd (hs.symm.trans hr) Bool.noConfusion
    | lost | exhausted | blocked => simp [isArmed, fail, unlease] at hs
  | leased h =>
    have hst := isCandidate_status h
    obtain h | h | ⟨h, -⟩ := hst <;> simp [isArmed, h] at hr
  | admitted => simp [isArmed] at hs
  | refused | uncertain | dead => simp [isArmed, fail, unlease] at hs
  | sent => simp [isArmed, sentRow, unlease] at hs
  | suppressed h =>
    obtain rfl | ⟨-, reason, now, rfl⟩ := h
    · exact absurd (hs.symm.trans hr) Bool.noConfusion
    · simp [isArmed, fail, unlease] at hs

/-- A held message stays held until it is made claimable again. -/
theorem Held.step {db : Tables} {call : Conversation.Call} {r s : OutboundRow} {token : String}
    (h : RowStep db call r s) (hr : Held token r) : Held token s ∨ Rearms r call := by
  have hna := hr.not_armed
  cases h with
  | same => exact .inl hr
  | renewed => exact .inl hr
  | retried h _ => exact .inr (.retried h)
  | @resolved resolution _ _ h _ =>
    cases resolution with
    | notSent => exact .inr (.notSent h)
    | sent => exact .inl (.inr (.inr (.inl rfl)))
    | failed => exact .inl (.inr (.inr (.inr rfl)))
  | swept h =>
    cases h with
    | same => exact .inl hr
    | lost => exact .inl (.inr (.inl rfl))
    | exhausted => exact .inl (.inr (.inr (.inr rfl)))
    | blocked h => obtain h | h := h <;> simp [isArmed, h] at hna
  | leased h =>
    obtain h | h | ⟨h, -⟩ := isCandidate_status h <;> simp [isArmed, h] at hna
  | admitted h | refused h =>
    have hst := (holds_iff.mp h).2.1
    simp only [List.mem_singleton] at hst
    simp [isArmed, hst] at hna
  | uncertain => exact .inl (.inr (.inl rfl))
  | dead => exact .inl (.inr (.inr (.inr rfl)))
  | sent => exact .inl (.inr (.inr (.inl rfl)))
  | suppressed h =>
    obtain rfl | ⟨hst, -⟩ := h
    · exact .inl hr
    · exact absurd (hst.symm.trans hna) Bool.noConfusion

section Effects

/-- The store calls with which a run that holds message `m` under token `k` records an outcome. -/
inductive Records (m k : String) : Conversation.Call → Outcome → Prop
  | sent (result : Json) (historyHex : String) (now : Int) :
      Records m k (.markSent m k result historyHex now) .sent
  | retried (runAfter : Int) (lastError : String) (now : Int) :
      Records m k (.markRetry m k runAfter lastError now) .retried
  | deadLetter (lastError : String) (now : Int) :
      Records m k (.markDeadLetter m k lastError now) .deadLetter
  | uncertain (lastError : String) (now : Int) :
      Records m k (.markUncertain m k lastError now) .uncertain

/-- Everything an operation of run `i` can do: the tables, its phase and the log afterwards. -/
inductive Effect (db : Tables) (i : ℕ) (m k : String) (φ : Phase) :
    Tables → Phase → List Entry → Prop
  | idle : Effect db i m k φ db φ []
  | refused (hφ : φ = .start) (now : Int) :
      Effect db i m k φ (perform db (.markSending m k now)) .refused []
  | admitted (hφ : φ = .start) (now : Int) (hr : ∃ r ∈ db.outbound, r.id = m ∧ r.status = .leased)
      (hs : ∀ s ∈ (perform db (.markSending m k now)).outbound, s.id = m →
        s.status = .sending ∧ s.leaseToken = some k) :
      Effect db i m k φ (perform db (.markSending m k now)) .admitted [.admitted m i]
  | started (hφ : φ = .admitted) : Effect db i m k φ db .calling [.started m i]
  | ended (hφ : φ = .calling) (o : SendEnd) : Effect db i m k φ db (.ended o) [.ended m i o]
  | recorded {o : SendEnd} {call : Conversation.Call} {v : Outcome} (hφ : φ = .ended o)
      (hc : Records m k call v) (hv : v = .retried → o.isRetryable = true) :
      Effect db i m k φ (perform db call) (.recorded o v) [.recorded m i v]

/-- An outcome that is recorded when it moves the message, and changes nothing otherwise. -/
theorem effect_record {db db' : Tables} {i : ℕ} {m k : String} {o : SendEnd}
    {call : Conversation.Call} {v : Outcome} {moved : Bool} (hc : Records m k call v)
    (hv : v = .retried → o.isRetryable = true) (hdb : db' = perform db call)
    (hno : moved = false → db' = db) :
    Effect db i m k (.ended o) db' (Phase.record (.ended o) v moved) (Entry.ifMoved moved m i v) := by
  cases moved with
  | true => exact hdb ▸ .recorded rfl hc hv
  | false => exact hno rfl ▸ .idle

/-- The operation that the protocol allows has one of the listed effects. -/
theorem performOp_effect {db : Tables} {i : ℕ} {message : OutboundMessage} {φ : Phase} {o : Op}
    (now : Int) (ends : SendEnd) (historyHex : String) (hid : (db.outbound.map (·.id)).Nodup)
    (ho : protocol.allowed φ o) :
    Effect db i message.id message.leaseToken φ (performOp db message now ends historyHex o).1
      (protocol.next φ o (performOp db message now ends historyHex o).2)
      (entries message.id i o (performOp db message now ends historyHex o).2) := by
  cases o with
  | time => exact .idle
  | sendStart => exact .started ho
  | sendEnd => exact .ended ho ends
  | markSending =>
    cases hmoved : (markSending db message.id message.leaseToken now).2 with
    | true =>
      have hmove : (performOp db message now ends historyHex .markSending).2 = true := hmoved
      rw [hmove]
      obtain ⟨hr, hs⟩ := markSending_admitted hid hmoved
      exact .admitted ho now hr hs
    | false =>
      have hmove : (performOp db message now ends historyHex .markSending).2 = false := hmoved
      rw [hmove]
      exact .refused ho now
  | markSent result =>
    obtain ⟨x, rfl⟩ := ho
    refine effect_record (.sent result historyHex now) (fun h => by cases h) ?_ fun hno => ?_
    · simp only [performOp, perform]
      cases markSent db message.id message.leaseToken result historyHex now <;> rfl
    · simp only [performOp] at hno ⊢
      cases hsent : markSent db message.id message.leaseToken result historyHex now with
      | error e => rfl
      | ok p =>
        simp only [hsent, marked] at hno
        obtain ⟨-, h⟩ | ⟨h, -⟩ := markSent_ok hid hsent
        · exact h
        · exact absurd (h.symm.trans hno) Bool.noConfusion
  | markRetry runAfter lastError =>
    obtain ⟨x, rfl, hx⟩ := ho
    refine effect_record (.retried runAfter lastError now) (fun _ => hx) rfl fun hno => ?_
    have hnone : (markRetry db message.id message.leaseToken runAfter lastError now).2.isSome =
        false := hno
    exact markRetry_refused hid (by simpa using hnone)
  | markDeadLetter lastError =>
    obtain ⟨x, rfl⟩ := ho
    exact effect_record (.deadLetter lastError now) (fun h => by cases h) rfl markFailure_refused
  | markUncertain lastError =>
    obtain ⟨x, rfl⟩ := ho
    exact effect_record (.uncertain lastError now) (fun h => by cases h) rfl markFailure_refused

theorem advance_effect {s t : System} {i : ℕ} {now : Int} {ends : SendEnd} {historyHex : String}
    (hid : (s.tables.outbound.map (·.id)).Nodup)
    (hf : ∀ run ∈ s.runs, Follows protocol run.phase run.program)
    (h : advance s i now ends historyHex = some t) :
    ∃ run db φ new prog, s.runs[i]? = some run ∧
      Effect s.tables i run.message.id run.message.leaseToken run.phase db φ new ∧
      Follows protocol φ prog ∧
      t = ⟨db, s.runs.set i ⟨run.message, φ, prog⟩, s.log ++ new⟩ := by
  unfold advance at h
  cases hrun : s.runs[i]? with
  | none => simp [hrun] at h
  | some run =>
    have hfol := hf run (List.mem_of_getElem? hrun)
    cases hprog : run.program with
    | ret a => simp [hrun, hprog] at h
    | call o c =>
      rw [hprog] at hfol
      simp only [hrun, hprog, Option.some.injEq] at h
      exact ⟨run, _, _, _, _, rfl, performOp_effect now ends historyHex hid hfol.1, hfol.2 _, h.symm⟩

end Effects

section Log

/-- The run that made an entry. -/
def Entry.run? : Entry → Option ℕ
  | .claimed _ | .notSent _ => none
  | .admitted _ i | .started _ i | .ended _ i _ | .recorded _ i _ => some i

/-- What run `i` on message `m` has logged when it is in a phase. -/
def Phase.trace (m : String) (i : ℕ) : Phase → List Entry
  | .start | .refused => []
  | .admitted => [.admitted m i]
  | .calling => [.admitted m i, .started m i]
  | .ended o => [.admitted m i, .started m i, .ended m i o]
  | .recorded o v => [.admitted m i, .started m i, .ended m i o, .recorded m i v]

def isAdmission (m : String) : Entry → Bool
  | .admitted m' _ => m' = m
  | _ => false

def isStart (m : String) : Entry → Bool
  | .started m' _ => m' = m
  | _ => false

def isRetry (m : String) : Entry → Bool
  | .recorded m' _ .retried => m' = m
  | _ => false

/-- The send of message `m` by run `i` ended in `SendNotStartedError` or a retryable failure. -/
def endedRetryably (m : String) (i : ℕ) (log : List Entry) : Bool :=
  log.any fun
    | .ended m' j o => m' = m && j = i && o.isRetryable
    | _ => false

/-- The start of a send that ended retryably and whose `mark_retry` succeeded. -/
def isRetriedStart (m : String) (log : List Entry) : Entry → Bool
  | .started m' i => m' = m && endedRetryably m i log && log.contains (.recorded m i .retried)
  | _ => false

/-- The sends started for a message. -/
def sends (m : String) (log : List Entry) : ℕ := log.countP (isStart m)

/-- Its sends that ended retryably and whose `mark_retry` succeeded. -/
def retriedSends (m : String) (log : List Entry) : ℕ := log.countP (isRetriedStart m log)

/-- Its applied `not_sent` reconciliations. -/
def notSents (m : String) (log : List Entry) : ℕ := log.count (.notSent m)

/-- The admission of run `i` has been answered by its recorded retry or by a reconciliation. -/
def Answered (m : String) (i : ℕ) (log : List Entry) : Prop :=
  .recorded m i .retried ∈ log ∨ .notSent m ∈ log

/-- A message is claimed when every send started for it has been answered since its admission. -/
def ClaimsAnswered (pre : List Entry) (e : Entry) : Prop :=
  ∀ m, e = .claimed m → ∀ i, .started m i ∈ pre →
    ∃ p q, pre = p ++ .admitted m i :: q ∧ Answered m i q

/-- Each admission is paid for, except the last one of a message that is not claimable. -/
def Paid (log : List Entry) (r : OutboundRow) : Prop :=
  log.countP (isAdmission r.id) ≤
    log.countP (isRetry r.id) + notSents r.id log + if isArmed r then 0 else 1

theorem Paid.append {log new : List Entry} {r s : OutboundRow} (h : Paid log r) (hid : s.id = r.id)
    (hno : ∀ e ∈ new, isAdmission r.id e = false)
    (hpay : isArmed s = true → isArmed r = false →
      (∃ e ∈ new, isRetry r.id e = true) ∨ .notSent r.id ∈ new) : Paid (log ++ new) s := by
  have hzero : new.countP (isAdmission r.id) = 0 :=
    List.countP_eq_zero.mpr fun e he => by simp [hno e he]
  unfold Paid notSents at *
  simp only [hid, List.countP_append, List.count_append, hzero]
  cases hs : isArmed s with
  | false => split at h <;> simp <;> omega
  | true =>
    cases hr : isArmed r with
    | true => simp only [hr, if_true] at h ⊢; omega
    | false =>
      simp only [hr, Bool.false_eq_true, if_false, if_true] at h ⊢
      obtain ⟨e, he, hretry⟩ | hnot := hpay hs hr
      · have := List.countP_pos_iff.mpr ⟨e, he, hretry⟩
        omega
      · have := List.count_pos_iff.mpr hnot
        omega

theorem Answered.append {m : String} {i : ℕ} {log : List Entry} (h : Answered m i log)
    (new : List Entry) : Answered m i (log ++ new) :=
  h.imp (List.mem_append_left _) (List.mem_append_left _)

end Log

/-- The message and the token of a run. -/
def Run.key (run : Run) : String × String := (run.message.id, run.message.leaseToken)

/-- What run `i` has logged. -/
def System.trace (s : System) (i : ℕ) : List Entry :=
  (s.runs[i]?.map fun run => run.phase.trace run.message.id i).getD []

/-- The runs keep to the protocol, the log is what they have done, and no two runs hold one
message under one token. -/
structure Traced (s : System) : Prop where
  follows : ∀ run ∈ s.runs, Follows protocol run.phase run.program
  traces : ∀ i, entriesOf Entry.run? i s.log = s.trace i
  retryable : ∀ run ∈ s.runs, ∀ o, run.phase = .recorded o .retried → o.isRetryable = true
  keys : (s.runs.map Run.key).Nodup

/-- Run `i` still stands between the message and a new claim. -/
def Guarded (db : Tables) (runs : List Run) (m : String) (i : ℕ) : Prop :=
  ∃ run r, runs[i]? = some run ∧ run.message.id = m ∧ r ∈ db.outbound ∧ r.id = m ∧
    Held run.message.leaseToken r

/-- The invariant: admissions are paid for, and an unanswered admission guards its message. -/
structure Safe (s : System) : Prop extends Traced s where
  distinct : Distinct s.tables.outbound
  known : ∀ run ∈ s.runs, ∃ r ∈ s.tables.outbound, r.id = run.message.id
  paid : ∀ r ∈ s.tables.outbound, Paid s.log r
  guarded : ∀ m i pre post, s.log = pre ++ .admitted m i :: post →
    Answered m i post ∨ Guarded s.tables s.runs m i
  claims : Always ClaimsAnswered s.log

section Invariant

variable {s : System}

/-- An entry that a run made is in its trace. -/
theorem Traced.mem_trace (hs : Traced s) {e : Entry} {i : ℕ} (he : e ∈ s.log) (hi : e.run? = some i) :
    ∃ run, s.runs[i]? = some run ∧ e ∈ run.phase.trace run.message.id i := by
  have hmem := (mem_entriesOf Entry.run? hi).mpr he
  rw [hs.traces i, System.trace] at hmem
  cases hrun : s.runs[i]? with
  | none => simp [hrun] at hmem
  | some run => exact ⟨run, rfl, by simpa [hrun] using hmem⟩

theorem Traced.admitted (hs : Traced s) {m : String} {i : ℕ} (he : .admitted m i ∈ s.log) :
    ∃ run, s.runs[i]? = some run ∧ run.message.id = m := by
  obtain ⟨run, hrun, hmem⟩ := hs.mem_trace he rfl
  refine ⟨run, hrun, ?_⟩
  cases hφ : run.phase <;> simp [hφ, Phase.trace] at hmem <;> exact hmem.symm

/-- A started send was admitted. -/
theorem Traced.started (hs : Traced s) {m : String} {i : ℕ} (he : .started m i ∈ s.log) :
    .admitted m i ∈ s.log := by
  obtain ⟨run, hrun, hmem⟩ := hs.mem_trace he rfl
  refine (mem_entriesOf Entry.run? (i := i) rfl).mp ?_
  rw [hs.traces i, System.trace, hrun]
  cases hφ : run.phase <;> simp [hφ, Phase.trace] at hmem ⊢ <;> exact hmem

theorem Traced.eq_of_key (hs : Traced s) {i j : ℕ} {ri rj : Run} (hi : s.runs[i]? = some ri)
    (hj : s.runs[j]? = some rj) (h : ri.key = rj.key) : i = j := by
  have hlt : i < (s.runs.map Run.key).length := by
    rw [List.length_map]
    exact (List.getElem?_eq_some_iff.mp hi).1
  exact (List.getElem?_inj hlt hs.keys).mp (by simp [hi, hj, h])

/-- Paid admissions stay paid through a call that makes no new one. -/
theorem Safe.paid_perform (hs : Safe s) (call : Conversation.Call) (new : List Entry)
    (hno : ∀ e ∈ new, ∀ m, isAdmission m e = false)
    (hpay : ∀ r ∈ s.tables.outbound, Rearms r call →
      (∃ e ∈ new, isRetry r.id e = true) ∨ .notSent r.id ∈ new) :
    ∀ r ∈ (perform s.tables call).outbound, Paid (s.log ++ new) r := by
  intro u hu
  have hgrows := perform_outbound hs.distinct.ids call
  by_cases hold : ∃ r ∈ s.tables.outbound, r.id = u.id
  · obtain ⟨r, hr, hid⟩ := hold
    obtain ⟨u', hu', hstep⟩ := hgrows.exists_of_mem hr
    obtain rfl : u' = u := eq_of_key (perform_distinct hs.distinct call).ids hu' hu
      (hstep.content.id.trans hid)
    exact (hs.paid r hr).append hid.symm (fun e he => hno e he r.id) fun ha hn =>
      hpay r hr (rearms_of_armed hstep ha hn)
  · have hzero : (s.log ++ new).countP (isAdmission u.id) = 0 := by
      refine List.countP_eq_zero.mpr fun e he hadm => ?_
      obtain he | he := List.mem_append.mp he
      · cases e with
        | admitted m i =>
          obtain ⟨run, hrun, hm⟩ := hs.toTraced.admitted he
          obtain ⟨r, hr, hrm⟩ := hs.known run (List.mem_of_getElem? hrun)
          have hmu : m = u.id := by simpa [isAdmission] using hadm
          exact hold ⟨r, hr, hrm.trans (hm.trans hmu)⟩
        | claimed | started | ended | recorded | notSent => simp [isAdmission] at hadm
      · simp [hno e he u.id] at hadm
    unfold Paid
    omega

/-- A guarded message stays guarded until its admission is answered. -/
theorem Safe.guarded_perform (hs : Safe s) (call : Conversation.Call) (new : List Entry)
    (hans : ∀ i run r, s.runs[i]? = some run → r.id = run.message.id → Held run.message.leaseToken r →
      Rearms r call → Answered run.message.id i new) {m : String} {i : ℕ} {pre post : List Entry}
    (h : s.log = pre ++ .admitted m i :: post) :
    Answered m i (post ++ new) ∨ Guarded (perform s.tables call) s.runs m i := by
  obtain h | ⟨run, r, hrun, rfl, hr, hid, hheld⟩ := hs.guarded m i pre post h
  · exact .inl (h.append new)
  · obtain ⟨u, hu, hstep⟩ := (perform_outbound hs.distinct.ids call).exists_of_mem hr
    obtain h | h := hheld.step hstep
    · exact .inr ⟨run, u, hrun, rfl, hu, hstep.content.id.trans hid, h⟩
    · obtain h | h := hans i run r hrun hid hheld h
      · exact .inl (.inl (List.mem_append_right _ h))
      · exact .inl (.inr (List.mem_append_right _ h))

theorem Safe.known_perform (hs : Safe s) (call : Conversation.Call) :
    ∀ run ∈ s.runs, ∃ r ∈ (perform s.tables call).outbound, r.id = run.message.id := by
  intro run hrun
  obtain ⟨r, hr, hid⟩ := hs.known run hrun
  obtain ⟨u, hu, hstep⟩ := (perform_outbound hs.distinct.ids call).exists_of_mem hr
  exact ⟨u, hu, hstep.content.id.trans hid⟩

section Advance

variable {i : ℕ} {run : Run} {φ : Phase} {prog : Program} {new : List Entry}

theorem Traced.advance (hs : Traced s) (hi : s.runs[i]? = some run) (hfol : Follows protocol φ prog)
    (htrace : run.phase.trace run.message.id i ++ new = φ.trace run.message.id i)
    (hnew : ∀ e ∈ new, e.run? = some i)
    (hretry : ∀ o, φ = .recorded o .retried → o.isRetryable = true) (db : Tables) :
    Traced ⟨db, s.runs.set i ⟨run.message, φ, prog⟩, s.log ++ new⟩ := by
  refine ⟨forall_set hs.follows hfol, fun j => ?_, forall_set hs.retryable hretry, ?_⟩
  · rw [entriesOf_append, hs.traces j]
    by_cases hij : i = j
    · subst hij
      have hlt : i < s.runs.length := (List.getElem?_eq_some_iff.mp hi).1
      rw [entriesOf_eq_self _ hnew]
      simp only [System.trace, hi, List.getElem?_set_self hlt, Option.map_some, Option.getD_some]
      exact htrace
    · have hnone : entriesOf Entry.run? j new = [] :=
        entriesOf_eq_nil _ fun e he hj => hij (Option.some.inj ((hnew e he).symm.trans hj))
      rw [hnone, List.append_nil]
      simp [System.trace, List.getElem?_set_ne hij]
  · have hkeys : (s.runs.set i ⟨run.message, φ, prog⟩).map Run.key = s.runs.map Run.key := by
      refine List.ext_getElem? fun j => ?_
      by_cases hij : i = j
      · subst hij
        have hlt : i < s.runs.length := (List.getElem?_eq_some_iff.mp hi).1
        simp only [List.getElem?_map, List.getElem?_set_self hlt, hi, Option.map_some, Run.key]
      · simp only [List.getElem?_map, List.getElem?_set_ne hij]
    exact hkeys ▸ hs.keys

theorem Guarded.set {db : Tables} {m : String} {j : ℕ} (hi : s.runs[i]? = some run)
    (h : Guarded db s.runs m j) : Guarded db (s.runs.set i ⟨run.message, φ, prog⟩) m j := by
  obtain ⟨rj, r, hj, hm, hr, hid, hheld⟩ := h
  by_cases hij : i = j
  · subst hij
    obtain rfl : run = rj := Option.some.inj (hi.symm.trans hj)
    have hlt : i < s.runs.length := (List.getElem?_eq_some_iff.mp hi).1
    exact ⟨_, r, List.getElem?_set_self hlt, hm, hr, hid, hheld⟩
  · exact ⟨rj, r, (List.getElem?_set_ne hij).trans hj, hm, hr, hid, hheld⟩

/-- The invariant after run `i` moved, from what the move does to the messages. -/
theorem Safe.of_advance (hs : Safe s) (call : Conversation.Call) (hi : s.runs[i]? = some run)
    (hfol : Follows protocol φ prog)
    (htrace : run.phase.trace run.message.id i ++ new = φ.trace run.message.id i)
    (hnew : ∀ e ∈ new, e.run? = some i)
    (hretry : ∀ o, φ = .recorded o .retried → o.isRetryable = true)
    (hpaid : ∀ r ∈ (perform s.tables call).outbound, Paid (s.log ++ new) r)
    (hguarded : ∀ m j pre post, s.log ++ new = pre ++ .admitted m j :: post →
      Answered m j post ∨ Guarded (perform s.tables call) s.runs m j) :
    Safe ⟨perform s.tables call, s.runs.set i ⟨run.message, φ, prog⟩, s.log ++ new⟩ := by
  refine ⟨hs.toTraced.advance hi hfol htrace hnew hretry _, perform_distinct hs.distinct call,
    forall_set (hs.known_perform call) ?_, hpaid, fun m j pre post h => ?_, ?_⟩
  · exact hs.known_perform call run (List.mem_of_getElem? hi)
  · exact (hguarded m j pre post h).imp_right (Guarded.set hi)
  · refine always_append hs.claims fun pre e post h m he => ?_
    have hrun := hnew e (h ▸ by simp)
    simp [he, Entry.run?] at hrun

/-- A move that admits nothing and makes claimable only what it records as retried. -/
theorem Safe.of_move (hs : Safe s) (call : Conversation.Call) (hi : s.runs[i]? = some run)
    (hfol : Follows protocol φ prog)
    (htrace : run.phase.trace run.message.id i ++ new = φ.trace run.message.id i)
    (hnew : ∀ e ∈ new, e.run? = some i ∧ ∀ m, isAdmission m e = false)
    (hretry : ∀ o, φ = .recorded o .retried → o.isRetryable = true)
    (hrearms : ∀ r, Rearms r call → .recorded run.message.id i .retried ∈ new ∧
      holds [.leased, .sending] run.message.id run.message.leaseToken r = true) :
    Safe ⟨perform s.tables call, s.runs.set i ⟨run.message, φ, prog⟩, s.log ++ new⟩ := by
  refine hs.of_advance call hi hfol htrace (fun e he => (hnew e he).1) hretry ?_ fun m j pre post h => ?_
  · refine hs.paid_perform call new (fun e he => (hnew e he).2) fun r _ hr => .inl ?_
    obtain ⟨hmem, hh⟩ := hrearms r hr
    exact ⟨_, hmem, by simp [isRetry, (holds_iff.mp hh).1]⟩
  · have hadm : Entry.admitted m j ∉ new := fun he => by simpa [isAdmission] using (hnew _ he).2 m
    obtain ⟨post', rfl, hlog⟩ := append_split hadm h
    refine hs.guarded_perform call new (fun j rj r hj hid hheld hr => ?_) hlog
    obtain ⟨hmem, hh⟩ := hrearms r hr
    obtain ⟨hrm, hst, htok⟩ := holds_iff.mp hh
    -- the run that records the retry is the one that holds the message
    have hkey : rj.key = run.key := by
      obtain ⟨-, h⟩ | h | h | h := hheld
      · have htoken : rj.message.leaseToken = run.message.leaseToken :=
          Option.some.inj (h.symm.trans htok)
        simp [Run.key, ← hid, hrm, htoken]
      all_goals simp [h] at hst
    obtain rfl : j = i := hs.toTraced.eq_of_key hj hi hkey
    obtain rfl : rj = run := Option.some.inj (hj.symm.trans hi)
    exact .inl hmem

theorem Safe.admitted (hs : Safe s) (hi : s.runs[i]? = some run) (hφ : run.phase = .start)
    (hfol : Follows protocol .admitted prog) (now : Int)
    (hr : ∃ r ∈ s.tables.outbound, r.id = run.message.id ∧ r.status = .leased)
    (hsend : ∀ u ∈ (perform s.tables
        (.markSending run.message.id run.message.leaseToken now)).outbound,
      u.id = run.message.id → u.status = .sending ∧ u.leaseToken = some run.message.leaseToken) :
    Safe ⟨perform s.tables (.markSending run.message.id run.message.leaseToken now),
      s.runs.set i ⟨run.message, .admitted, prog⟩, s.log ++ [.admitted run.message.id i]⟩ := by
  refine hs.of_advance _ hi hfol (by simp [hφ, Phase.trace]) (by simp [Entry.run?]) (by simp)
    (fun u hu => ?_) fun m j pre post h => ?_
  · by_cases hum : u.id = run.message.id
    · -- the leased message had its admissions paid; the new one is the free one
      obtain ⟨r, hr, hrm, hleased⟩ := hr
      have hpaid := hs.paid r hr
      have harmed : isArmed r = true := by simp [isArmed, hleased]
      have hsending : isArmed u = false := by simp [isArmed, (hsend u hu hum).1]
      unfold Paid notSents at hpaid ⊢
      simp only [hrm, harmed, if_true, Nat.add_zero] at hpaid
      simp only [hum, hsending, List.countP_append, List.count_append, List.countP_singleton]
      simp [isAdmission, isRetry]
      omega
    · have hpaid := hs.paid_perform (.markSending run.message.id run.message.leaseToken now) []
        (by simp) (fun r _ h => nomatch h) u hu
      rw [List.append_nil] at hpaid
      refine hpaid.append rfl (fun e he => ?_) fun ha hn => absurd (ha.symm.trans hn) Bool.noConfusion
      simpa [List.mem_singleton.mp he, isAdmission] using Ne.symm hum
  · obtain ⟨rfl, rfl, he⟩ | ⟨post', rfl, hlog⟩ := snoc_split h
    · obtain ⟨rfl, rfl⟩ : m = run.message.id ∧ j = i := by simpa using he
      obtain ⟨u, hu, hum⟩ := hs.known_perform
        (.markSending run.message.id run.message.leaseToken now) run (List.mem_of_getElem? hi)
      exact .inr ⟨run, u, hi, rfl, hu, hum, .inl (hsend u hu hum)⟩
    · exact hs.guarded_perform (.markSending run.message.id run.message.leaseToken now) _
        (fun _ _ _ _ _ _ h => nomatch h) hlog

theorem Safe.advance (hs : Safe s) {t : System} {now : Int} {ends : SendEnd} {historyHex : String}
    (h : advance s i now ends historyHex = some t) : Safe t := by
  obtain ⟨run, db, φ, new, prog, hi, heff, hfol, rfl⟩ := advance_effect hs.distinct.ids hs.follows h
  cases heff with
  -- an operation that leaves the tables alone is an empty batch of requests
  | idle =>
    exact hs.of_move (.enqueueMany []) hi hfol (by simp) (by simp)
      (hs.retryable run (List.mem_of_getElem? hi)) (fun r hr => nomatch hr)
  | refused hφ now =>
    exact hs.of_move (.markSending _ _ now) hi hfol (by simp [hφ, Phase.trace]) (by simp) (by simp)
      (fun r hr => nomatch hr)
  | admitted hφ now hr hsend => exact hs.admitted hi hφ hfol now hr hsend
  | started hφ =>
    exact hs.of_move (.enqueueMany []) hi hfol (by simp [hφ, Phase.trace])
      (by simp [Entry.run?, isAdmission]) (by simp) (fun r hr => nomatch hr)
  | ended hφ o =>
    exact hs.of_move (.enqueueMany []) hi hfol (by simp [hφ, Phase.trace])
      (by simp [Entry.run?, isAdmission]) (by simp) (fun r hr => nomatch hr)
  | @recorded o call v hφ hc hv =>
    refine hs.of_move call hi hfol (by simp [hφ, Phase.trace]) (by simp [Entry.run?, isAdmission])
      (fun o' ho => ?_) (fun r hr => ?_)
    · cases ho
      exact hv rfl
    · cases hr with
      | notSent => cases hc
      | retried hheld =>
        cases hc
        exact ⟨by simp, hheld⟩

end Advance

/-- Runs that have not begun, and entries that no run made. -/
theorem Traced.extend (hs : Traced s) (db : Tables) (runs : List Run) (new : List Entry)
    (hruns : ∀ run ∈ runs, run.phase = .start ∧ Follows protocol run.phase run.program)
    (hkeys : ((s.runs ++ runs).map Run.key).Nodup) (hnew : ∀ e ∈ new, e.run? = none) :
    Traced ⟨db, s.runs ++ runs, s.log ++ new⟩ := by
  refine ⟨fun run hrun => ?_, fun i => ?_, fun run hrun o ho => ?_, hkeys⟩
  · obtain hrun | hrun := List.mem_append.mp hrun
    · exact hs.follows run hrun
    · exact (hruns run hrun).2
  · have hnone : entriesOf Entry.run? i new = [] := entriesOf_eq_nil _ fun e he => by simp [hnew e he]
    rw [entriesOf_append, hnone, List.append_nil, hs.traces i]
    simp only [System.trace]
    by_cases hi : i < s.runs.length
    · rw [List.getElem?_append_left hi]
    · rw [List.getElem?_append_right (by omega), List.getElem?_eq_none (by omega)]
      cases hrun : runs[i - s.runs.length]? with
      | none => rfl
      | some run => simp [(hruns run (List.mem_of_getElem? hrun)).1, Phase.trace]
  · obtain hrun | hrun := List.mem_append.mp hrun
    · exact hs.retryable run hrun o ho
    · simp [(hruns run hrun).1] at ho

/-- A store call of the application. -/
theorem Safe.of_call (hs : Safe s) (call : Conversation.Call) (new : List Entry)
    (hnew : ∀ e ∈ new, ∃ m, e = .notSent m)
    (hpay : ∀ r, Rearms r call → .notSent r.id ∈ new) :
    Safe ⟨perform s.tables call, s.runs, s.log ++ new⟩ := by
  have htraced := hs.toTraced.extend (perform s.tables call) [] new (by simp)
    (by simpa using hs.keys) fun e he => by
      obtain ⟨m, rfl⟩ := hnew e he
      rfl
  rw [List.append_nil] at htraced
  refine ⟨htraced, perform_distinct hs.distinct call, hs.known_perform call, ?_,
    fun m i pre post h => ?_, ?_⟩
  · refine hs.paid_perform call new (fun e he m => ?_) fun r _ hr => .inr (hpay r hr)
    obtain ⟨m', rfl⟩ := hnew e he
    rfl
  · have hadm : Entry.admitted m i ∉ new := fun he => by
      obtain ⟨m', h⟩ := hnew _ he
      cases h
    obtain ⟨post', rfl, hlog⟩ := append_split hadm h
    exact hs.guarded_perform call new (fun i run r _ hid _ hr => .inr (hid ▸ hpay r hr)) hlog
  · refine always_append hs.claims fun pre e post h m he => ?_
    obtain ⟨m', h'⟩ := hnew e (h ▸ by simp)
    simp [he] at h'

/-- A call that makes no message claimable again. -/
theorem Safe.called (hs : Safe s) (call : Conversation.Call) (h : ∀ r, ¬ Rearms r call) :
    Safe { s with tables := perform s.tables call } := by
  have hcall := hs.of_call call [] (by simp) fun r hr => absurd hr (h r)
  rwa [List.append_nil] at hcall

theorem Safe.resolved (hs : Safe s) {resolution : OutboundResolution} {q : OutboundRequest}
    {db : Tables} {result : ReconciliationResult}
    (h : resolveOutbound s.tables resolution q = .ok (db, result)) :
    Safe ⟨db, s.runs, s.log ++ resolutionEntries resolution q result⟩ := by
  obtain ⟨rfl, happlied⟩ | ⟨happlied, -⟩ := resolveOutbound_ok h
  · simpa [resolutionEntries, happlied] using hs
  · have hdb : db = perform s.tables (.resolveOutbound resolution q) := by simp [perform, orKeep, h]
    rw [hdb]
    refine hs.of_call _ _ (fun e he => ?_) fun r hr => ?_
    · unfold resolutionEntries at he
      split at he
      · exact ⟨_, List.mem_singleton.mp he⟩
      · cases he
    · cases hr with
      | notSent hr =>
        simp only [Request.names, Bool.and_eq_true, decide_eq_true_eq] at hr
        simp [resolutionEntries, happlied, hr.1.1]

theorem Safe.claimed (hs : Safe s) (retryBackoffS : Int) {a : ClaimArgs} {db : Tables}
    {rows : List OutboundRow} (hfresh : ∀ run ∈ s.runs, run.message.leaseToken ≠ a.leaseToken)
    (h : claimDue s.tables a = .ok (db, rows)) :
    Safe ⟨db, s.runs ++ rows.map (newRun retryBackoffS), s.log ++ rows.map (.claimed ·.id)⟩ := by
  have hdb : db = perform s.tables (.claimDue a) := by simp [perform, orKeep, h]
  have hrow := fun {u} hu => claimDue_row hs.distinct.ids h (s := u) hu
  have hentry : ∀ e ∈ rows.map fun r : OutboundRow => Entry.claimed r.id, ∃ u ∈ rows, e = .claimed u.id := by
    intro e he
    obtain ⟨u, hu, rfl⟩ := List.mem_map.mp he
    exact ⟨u, hu, rfl⟩
  refine ⟨hs.toTraced.extend db _ _ (fun run hrun => ?_) ?_ fun e he => ?_, ?_, fun run hrun => ?_, ?_,
    fun m i pre post hsplit => ?_, ?_⟩
  · obtain ⟨u, -, rfl⟩ := List.mem_map.mp hrun
    exact ⟨rfl, sendMessage_follows _ _⟩
  · rw [List.map_append]
    refine hs.keys.append ?_ fun key hold hnew => ?_
    · have hids : (rows.map (·.id)).Nodup := by
        rw [(claimDue_ok h).2, hdb]
        exact selectOrdered_keys (perform_distinct hs.distinct (.claimDue a)).ids
      refine List.Nodup.of_map Prod.fst ?_
      simpa [List.map_map, Function.comp_def, Run.key, newRun, rowToMessage] using hids
    · obtain ⟨run, hrun, rfl⟩ := List.mem_map.mp hold
      obtain ⟨_, hnew, hkey⟩ := List.mem_map.mp hnew
      obtain ⟨u, hu, rfl⟩ := List.mem_map.mp hnew
      have htoken : (rowToMessage u).leaseToken = run.message.leaseToken := congrArg Prod.snd hkey
      refine hfresh run hrun (htoken.symm.trans ?_)
      simp [rowToMessage, (hrow hu).2.1]
  · obtain ⟨u, -, rfl⟩ := hentry e he
    rfl
  · exact hdb ▸ perform_distinct hs.distinct _
  · obtain hrun | hrun := List.mem_append.mp hrun
    · exact hdb ▸ hs.known_perform _ run hrun
    · obtain ⟨u, hu, rfl⟩ := List.mem_map.mp hrun
      exact ⟨u, (hrow hu).1, rfl⟩
  · rw [hdb]
    refine hs.paid_perform _ _ (fun e he m => ?_) fun r _ hr => by cases hr
    obtain ⟨u, -, rfl⟩ := hentry e he
    rfl
  · have hadm : Entry.admitted m i ∉ rows.map fun r : OutboundRow => Entry.claimed r.id := fun he => by
      obtain ⟨u, -, h⟩ := hentry _ he
      cases h
    obtain ⟨post', rfl, hlog⟩ := append_split hadm hsplit
    have hguarded := hs.guarded_perform (.claimDue a) (rows.map (.claimed ·.id))
      (fun _ _ _ _ _ _ h => by cases h) hlog
    refine hguarded.imp_right ?_
    rintro ⟨run, r, hi, hm, hr, hid, hheld⟩
    refine ⟨run, r, ?_, hm, hdb ▸ hr, hid, hheld⟩
    rw [List.getElem?_append_left (List.getElem?_eq_some_iff.mp hi).1]
    exact hi
  · refine always_append hs.claims fun pre e post hsplit m he i hstarted => ?_
    have hpre : ∀ x ∈ pre, ∃ u ∈ rows, x = .claimed u.id :=
      fun x hx => hentry x (hsplit ▸ List.mem_append_left _ hx)
    have hlogged : .started m i ∈ s.log := by
      obtain hmem | hmem := List.mem_append.mp hstarted
      · exact hmem
      · obtain ⟨u, -, hu⟩ := hpre _ hmem
        cases hu
    obtain ⟨p, q, hlog⟩ := List.append_of_mem (hs.toTraced.started hlogged)
    refine ⟨p, q ++ pre, by simp [hlog], ?_⟩
    obtain hans | ⟨run, r, -, -, hr, hid, hheld⟩ := hs.guarded m i p q hlog
    · exact hans.append pre
    · -- a claimed message was claimable, so nothing guarded it
      obtain ⟨u, hu, hue⟩ := hentry e (hsplit ▸ by simp)
      obtain ⟨-, -, r', hr', hid', hcand⟩ := hrow hu
      have hmu : m = u.id := by simpa [he] using hue
      obtain rfl : r = r' := eq_of_key hs.distinct.ids hr hr' (hid.trans (hmu.trans hid'.symm))
      have hna := hheld.not_armed
      obtain h | h | ⟨h, -⟩ := isCandidate_status hcand <;> simp [isArmed, h] at hna

theorem Safe.step {retryBackoffS : Int} {t : System} {l : Label} (hs : Safe s)
    (h : step retryBackoffS s l = some t) : Safe t := by
  cases l with
  | advance i now ends historyHex => exact hs.advance h
  | call call =>
    cases call with
    | claimDue a =>
      simp only [Outbound.step] at h
      split at h
      · cases h
      · rename_i hfresh
        split at h
        · rename_i db rows hclaim
          obtain rfl := Option.some.inj h
          exact hs.claimed retryBackoffS (by simpa using hfresh) hclaim
        · exact Option.some.inj h ▸ hs
    | resolveOutbound resolution q =>
      simp only [Outbound.step] at h
      split at h
      · rename_i db result hres
        obtain rfl := Option.some.inj h
        exact hs.resolved hres
      · exact Option.some.inj h ▸ hs
    | enqueue | enqueueMany | renewLease | applyPlan =>
      exact Option.some.inj h ▸ hs.called _ fun r hr => nomatch hr
    | markSending | markSent | markUncertain | markDeadLetter | markRetry => cases h

/-- No more sends than admissions. -/
theorem Traced.sends_le (hs : Traced s) (m : String) :
    sends m s.log ≤ s.log.countP (isAdmission m) := by
  refine countP_le_of_agents Entry.run? (n := s.runs.length) (fun e he hp => ?_) fun i hi => ?_
  · cases e with
    | started m' i =>
      obtain ⟨run, hrun, -⟩ := hs.mem_trace he rfl
      exact ⟨i, (List.getElem?_eq_some_iff.mp hrun).1, rfl⟩
    | claimed | admitted | ended | recorded | notSent => simp [isStart] at hp
  · rw [hs.traces i, System.trace, List.getElem?_eq_getElem hi, Option.map_some, Option.getD_some]
    cases (s.runs[i]).phase <;> simp [Phase.trace, isStart, isAdmission, List.countP_cons]

/-- Every recorded retry is that of a send which ended retryably. -/
theorem Traced.retries_le (hs : Traced s) (m : String) :
    s.log.countP (isRetry m) ≤ retriedSends m s.log := by
  refine countP_le_of_agents Entry.run? (n := s.runs.length) (fun e he hp => ?_) fun i hi => ?_
  · cases e with
    | recorded m' i v =>
      obtain ⟨run, hrun, -⟩ := hs.mem_trace he rfl
      exact ⟨i, (List.getElem?_eq_some_iff.mp hrun).1, rfl⟩
    | claimed | admitted | started | ended | notSent => simp [isRetry] at hp
  · have hrun : s.runs[i]? = some s.runs[i] := List.getElem?_eq_getElem hi
    have htrace : entriesOf Entry.run? i s.log = (s.runs[i]).phase.trace (s.runs[i]).message.id i := by
      rw [hs.traces i, System.trace, hrun, Option.map_some, Option.getD_some]
    have hlogged : ∀ e ∈ (s.runs[i]).phase.trace (s.runs[i]).message.id i, e ∈ s.log :=
      fun e he => List.mem_of_mem_filter (htrace ▸ he)
    rw [htrace]
    cases hφ : (s.runs[i]).phase with
    | recorded o v =>
      by_cases hr : v = .retried ∧ (s.runs[i]).message.id = m
      · obtain ⟨rfl, rfl⟩ := hr
        have hretry := hs.retryable _ (List.getElem_mem hi) o hφ
        rw [hφ] at hlogged
        have hended : endedRetryably (s.runs[i]).message.id i s.log = true :=
          List.any_eq_true.mpr ⟨_, hlogged (.ended (s.runs[i]).message.id i o) (by simp [Phase.trace]),
            by simp [hretry]⟩
        have hrecorded := hlogged (.recorded (s.runs[i]).message.id i .retried)
          (by simp [Phase.trace])
        have hstart : isRetriedStart (s.runs[i]).message.id s.log
            (.started (s.runs[i]).message.id i) = true := by
          simp [isRetriedStart, hended, hrecorded]
        simp only [Phase.trace, isRetry, List.countP_cons, List.countP_nil, hstart]
        simp
        omega
      · have hno : isRetry m (.recorded (s.runs[i]).message.id i v) = false := by
          cases v <;> simp_all [isRetry]
        have hzero : (Phase.trace (s.runs[i]).message.id i (.recorded o v)).countP (isRetry m) = 0 := by
          rw [Phase.trace, List.countP_eq_zero]
          simp only [List.forall_mem_cons, hno]
          simp [isRetry]
        rw [hzero]
        exact Nat.zero_le _
    | start | refused | admitted | calling | ended =>
      simp [Phase.trace, isRetry, List.countP_cons]

theorem Safe.sends_le (hs : Safe s) (m : String) :
    sends m s.log ≤ 1 + retriedSends m s.log + notSents m s.log := by
  have hsends := hs.toTraced.sends_le m
  have hretries := hs.toTraced.retries_le m
  by_cases hm : ∃ r ∈ s.tables.outbound, r.id = m
  · obtain ⟨r, hr, rfl⟩ := hm
    have hpaid := hs.paid r hr
    unfold Paid at hpaid
    split at hpaid <;> omega
  · have hzero : s.log.countP (isAdmission m) = 0 := by
      refine List.countP_eq_zero.mpr fun e he hadm => ?_
      cases e with
      | admitted m' i =>
        obtain ⟨run, hrun, hid⟩ := hs.toTraced.admitted he
        obtain ⟨r, hr, hrm⟩ := hs.known run (List.mem_of_getElem? hrun)
        exact hm ⟨r, hr, hrm.trans (hid.trans (by simpa [isAdmission] using hadm))⟩
      | claimed | started | ended | recorded | notSent => simp [isAdmission] at hadm
    omega

theorem safe_init {db : Tables} (h : Distinct db.outbound) : Safe { tables := db } where
  follows := by simp
  traces i := by simp [entriesOf, System.trace]
  retryable := by simp
  keys := by simp
  distinct := h
  known := by simp
  paid r _ := by simp [Paid]
  guarded m i pre post h := by simp at h
  claims := always_nil _

end Invariant

/-- From any store, in every run: the sends started for a message are at most one more than its
retried sends and its `not_sent` reconciliations, and a message is claimed only when each send
started for it has its retry recorded or a `not_sent` reconciliation since its admission. -/
theorem sends_at_most_once (retryBackoffS : Int) (db : Tables) (hdb : Distinct db.outbound)
    (ls : List Label) (t : System) (hrun : exec (step retryBackoffS) { tables := db } ls = some t) :
    (∀ m, sends m t.log ≤ 1 + retriedSends m t.log + notSents m t.log) ∧
      Always ClaimsAnswered t.log := by
  have hs : Safe t := exec_invariant (fun s l u hs h => hs.step h) (safe_init hdb) hrun
  exact ⟨hs.sends_le, hs.claims⟩

section Schedules

def enqueueReply : Label :=
  .call (.enqueue
    { messageHex := "1"
      tenantId := "t"
      sourceId := "chat"
      channel := "telegram"
      destinationId := "42"
      text := "hello"
      idempotencyKey := "reply"
      now := 0 })

def claimReply (now : Int) (leaseToken : String) : Label :=
  .call (.claimDue
    { channel := "telegram"
      limit := 5
      leaseOwner := "host/outbound/telegram"
      leaseSeconds := 60
      now := now
      leaseToken := leaseToken })

def resolveReply (now : Int) : Label :=
  .call (.resolveOutbound .notSent
    { request :=
        { recordId := "rec"
          effectId := "out_1"
          tenantId := "t"
          sourceId := "chat"
          requestKey := "req"
          actorId := "op"
          evidence := [("seen", .bool false)]
          now := now }
      historyHex := "h" })

/-- Run `i` performs its next `n` operations. -/
def advances (i : ℕ) (now : Int) (ends : SendEnd) (n : ℕ) : List Label :=
  List.replicate n (.advance i now ends "h")

/-- The first send fails before it starts and is retried; the second loses its lease, is
reconciled as not sent, and a third send follows. -/
def threeSends : List Label :=
  [enqueueReply, claimReply 0 "k1"] ++ advances 0 1 (.notStarted "SendNotStartedError" "offline") 5 ++
    [claimReply 40 "k2"] ++ advances 1 41 (.raised "TimedOut" "") 2 ++
    [claimReply 200 "k3", resolveReply 201, claimReply 202 "k4"] ++
    advances 2 203 (.returned (some {})) 4

theorem sends_at_most_once_three :
    ∃ t, exec (step 30) {} threeSends = some t ∧ t.tables.outbound.map (·.status) = [.sent] ∧
      sends "out_1" t.log = 3 ∧ retriedSends "out_1" t.log = 1 ∧ notSents "out_1" t.log = 1 ∧
      Always ClaimsAnswered t.log := by
  have hlog : (exec (step 30) {} threeSends).map (fun t => (t.tables.outbound.map (·.status),
      sends "out_1" t.log, retriedSends "out_1" t.log, notSents "out_1" t.log)) =
      some ([.sent], 3, 1, 1) := by decide +kernel
  obtain ⟨t, ht, h⟩ := Option.map_eq_some_iff.mp hlog
  simp only [Prod.mk.injEq] at h
  exact ⟨t, ht, h.1, h.2.1, h.2.2.1, h.2.2.2,
    (sends_at_most_once 30 {} List.Pairwise.nil threeSends t ht).2⟩

/-- The first worker is admitted and stalls until its message was reconciled and claimed again;
its send starts then, and the message is claimed once more. -/
def lateStart : List Label :=
  [enqueueReply, claimReply 0 "k1"] ++ advances 0 1 (.raised "TimedOut" "") 1 ++
    [claimReply 100 "k2", resolveReply 101, claimReply 102 "k3"] ++
    advances 0 103 (.raised "TimedOut" "") 1 ++ [claimReply 200 "k4"]

/-- A message whose send has started and is not recorded is claimed without a `not_sent`
reconciliation since the start. -/
theorem late_start_claimed_again :
    ∃ t, exec (step 30) {} lateStart = some t ∧
      t.log = [.claimed "out_1", .admitted "out_1" 0, .notSent "out_1", .claimed "out_1",
        .started "out_1" 0, .claimed "out_1"] ∧
      ¬ Always (fun pre e => ∀ m, e = .claimed m → ∀ i p q, pre = p ++ .started m i :: q →
        (∃ v, .recorded m i v ∈ pre) ∨ .notSent m ∈ q) t.log := by
  have hlog : (exec (step 30) {} lateStart).map (·.log) =
      some [.claimed "out_1", .admitted "out_1" 0, .notSent "out_1", .claimed "out_1",
        .started "out_1" 0, .claimed "out_1"] := by decide +kernel
  obtain ⟨t, ht, hl⟩ := Option.map_eq_some_iff.mp hlog
  refine ⟨t, ht, hl, fun hall => ?_⟩
  rw [hl] at hall
  have hclaim := hall [_, _, _, _, _] _ [] rfl "out_1" rfl 0 [_, _, _, _] [] rfl
  simp at hclaim

end Schedules

end Soveren.Outbound
