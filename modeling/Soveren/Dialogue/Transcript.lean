import Soveren.Dialogue.Fencing

/-! The projections of a sent message: the assistant row in the transcript of its task and the
row of the conversation history. Both are written with the confirmation by `mark_sent`; a
reconciliation as sent writes only the second. -/
namespace Soveren.Dialogue
open Soveren.Relational Soveren.Conversation Soveren.Outbound Soveren.Reconciliation Soveren.History

/-- The assistant row of a message in the transcript of a task. -/
def isConfirmation (r : OutboundRow) (taskId : String) (m : DialogueMessageRow) : Bool :=
  m.scope = r.scope && m.role = .assistant && m.messageId = "outbound_" ++ r.id && m.taskId = taskId

/-- The history row of a message. -/
def isProjection (r : OutboundRow) (x : ConversationMessageRow) : Bool :=
  x.key = (r.tenantId, r.sourceId, MessageDirection.outbound, r.id)

/-- A message of a task is sent exactly when it is once in the transcript, and every sent
message is once in the history. -/
def TranscriptAgrees (db : Tables) : Prop :=
  (∀ r ∈ db.outbound, ∀ taskId, r.taskId = some taskId →
    (r.status = .sent ↔ rowcount (isConfirmation r taskId) db.messages = 1)) ∧
  ∀ r ∈ db.outbound, r.status = .sent → rowcount (isProjection r) db.history = 1

/-- A reconciliation as sent of an uncertain message that belongs to a task. -/
def confirmsTaskMessage (db : Tables) : Call → Bool
  | .resolveOutbound .sent q =>
    db.outbound.any fun r => q.request.names r && r.status = .uncertain && r.taskId.isSome
  | _ => false

/-- The invariant: the assistant rows are those of sent messages, and no projection is missing. -/
structure Projections (db : Tables) : Prop where
  origin : ∀ m ∈ db.messages, m.role = .assistant → ∃ r ∈ db.outbound, r.status = .sent ∧
    r.taskId = some m.taskId ∧ isConfirmation r m.taskId m = true
  transcript : ∀ r ∈ db.outbound, r.status = .sent → ∀ taskId, r.taskId = some taskId →
    ∃ m ∈ db.messages, isConfirmation r taskId m = true
  history : ∀ r ∈ db.outbound, r.status = .sent → ∃ x ∈ db.history, isProjection r x = true

section Agreement

variable {db : Tables}

theorem isConfirmation_iff {r : OutboundRow} {taskId : String} {m : DialogueMessageRow} :
    isConfirmation r taskId m = true ↔ m.scope = r.scope ∧ m.role = .assistant ∧
      m.messageId = "outbound_" ++ r.id ∧ m.taskId = taskId := by
  simp [isConfirmation, and_assoc]

theorem confirmation_le_one (h : Keyed db) (r : OutboundRow) (taskId : String) :
    rowcount (isConfirmation r taskId) db.messages ≤ 1 := by
  refine rowcount_le_one_of_pairwise h.messages fun m n hm hn => ?_
  obtain ⟨hms, -, hmi, -⟩ := isConfirmation_iff.mp hm
  obtain ⟨hns, -, hni, -⟩ := isConfirmation_iff.mp hn
  simp [DialogueMessageRow.conflicts, hms, hns, hmi, hni]

theorem Projections.agrees (h : Projections db) (hid : (db.outbound.map (·.id)).Nodup)
    (hk : Keyed db) : TranscriptAgrees db := by
  refine ⟨fun r hr taskId ht => ⟨fun hs => ?_, fun hone => ?_⟩, fun r hr hs => ?_⟩
  · obtain ⟨m, hm, hc⟩ := h.transcript r hr hs taskId ht
    have hpos : 0 < rowcount (isConfirmation r taskId) db.messages :=
      List.countP_pos_iff.mpr ⟨m, hm, hc⟩
    have hle := confirmation_le_one hk r taskId
    omega
  · obtain ⟨m, hm, hc⟩ := List.countP_pos_iff.mp (Nat.lt_of_lt_of_eq Nat.one_pos hone.symm)
    obtain ⟨-, hrole, hmi, -⟩ := isConfirmation_iff.mp hc
    obtain ⟨r', hr', hs, -, hc'⟩ := h.origin m hm hrole
    obtain ⟨-, -, hmi', -⟩ := isConfirmation_iff.mp hc'
    have hids : r.id = r'.id := by simpa using hmi.symm.trans hmi'
    exact eq_of_key hid hr hr' hids ▸ hs
  · obtain ⟨x, hx, hp⟩ := h.history r hr hs
    have hpos : 0 < rowcount (isProjection r) db.history := List.countP_pos_iff.mpr ⟨x, hx, hp⟩
    have hle := rowcount_le_one (p := isProjection r) hk.history fun y hy => by
      simpa [isProjection] using hy
    omega

end Agreement

/-- A message becomes sent only by a call that confirms. -/
theorem sent_of_confirms {db : Tables} {call : Call} {r s : OutboundRow} (h : RowStep db call r s)
    (hc : call.confirms = false) (hs : s.status = .sent) : r.status = .sent := by
  cases h with
  | same | renewed => exact hs
  | swept h =>
    cases h with
    | same => exact hs
    | lost | exhausted | blocked => simp [fail, unlease] at hs
  | leased => simp [ClaimArgs.lease] at hs
  | admitted => simp at hs
  | refused | uncertain | dead => simp [fail, unlease] at hs
  | sent => simp [Call.confirms] at hc
  | retried _ hst =>
    obtain rfl | rfl := hst
    · simp [fail, unlease] at hs
    · simp [fail, unlease] at hs
  | @resolved resolution =>
    cases resolution with
    | sent => simp [Call.confirms] at hc
    | failed | notSent => simp [OutboundResolution.write, OutboundResolution.status, unlease] at hs
  | suppressed h =>
    obtain rfl | ⟨-, reason, now, rfl⟩ := h
    · exact hs
    · simp [fail, unlease] at hs

namespace Projections

variable {db : Tables}

/-- A call that does not confirm, adds no assistant row and leaves the history alone. -/
theorem quiet {db' : Tables} {call : Call} (h : Projections db) (hc : call.confirms = false)
    (hgrows : Grows (RowStep db call) (Inserted call) db.outbound db'.outbound)
    (hassistant : ∀ m ∈ db'.messages, m.role = .assistant → m ∈ db.messages)
    (hmessages : ∀ m ∈ db.messages, m ∈ db'.messages) (hhistory : db'.history = db.history) :
    Projections db' := by
  have hkeep : ∀ r ∈ db.outbound, r.status = .sent → r ∈ db'.outbound := by
    intro r hr hs
    obtain ⟨s, hs', hstep⟩ := hgrows.exists_of_mem hr
    exact hstep.eq_of_sent hs ▸ hs'
  have hsent : ∀ s ∈ db'.outbound, s.status = .sent → s ∈ db.outbound := by
    intro s hs hst
    obtain ⟨r, hr, hstep⟩ | ⟨a, -, rfl, -⟩ := hgrows.of_mem hs
    · exact hstep.eq_of_sent (sent_of_confirms hstep hc hst) ▸ hr
    · simp [EnqueueArgs.row] at hst
  refine ⟨fun m hm hrole => ?_, fun s hs hst taskId ht => ?_, fun s hs hst => ?_⟩
  · obtain ⟨r, hr, hs, hrest⟩ := h.origin m (hassistant m hm hrole) hrole
    exact ⟨r, hkeep r hr hs, hs, hrest⟩
  · obtain ⟨m, hm, hconf⟩ := h.transcript s (hsent s hs hst) hst taskId ht
    exact ⟨m, hmessages m hm, hconf⟩
  · exact hhistory ▸ h.history s (hsent s hs hst) hst

/-- One row becomes sent and is projected; the rows that were sent before are left alone. -/
theorem confirmed {db' : Tables} {r s : OutboundRow} (h : Projections db)
    (hs : s ∈ db'.outbound) (hsent : s.status = .sent) (hsame : SameContent r s)
    (hkeep : ∀ x ∈ db.outbound, x.status = .sent → x ∈ db'.outbound)
    (hrows : ∀ x ∈ db'.outbound, x.status = .sent → x = s ∨ x ∈ db.outbound)
    (hmessages : ∃ new, db'.messages = db.messages ++ new ∧
      (∀ m ∈ new, ∃ taskId, r.taskId = some taskId ∧ isConfirmation r taskId m = true) ∧
      ∀ taskId, r.taskId = some taskId → new ≠ [])
    (hhistory : (∀ x ∈ db.history, x ∈ db'.history) ∧ ∃ x ∈ db'.history, isProjection r x = true) :
    Projections db' := by
  obtain ⟨new, hnew, hconf, hsome⟩ := hmessages
  have htask : s.taskId = r.taskId := by simp [OutboundRow.taskId, hsame.taskReference]
  have hiff : ∀ taskId m, isConfirmation s taskId m = isConfirmation r taskId m := by
    simp [isConfirmation, hsame.scope, hsame.id]
  have hproj : ∀ x, isProjection s x = isProjection r x := by
    simp [isProjection, hsame.tenantId, hsame.sourceId, hsame.id]
  refine ⟨fun m hm hrole => ?_, fun x hx hst taskId ht => ?_, fun x hx hst => ?_⟩
  · obtain hm | hm := List.mem_append.mp (hnew ▸ hm)
    · obtain ⟨x, hx, hst, hrest⟩ := h.origin m hm hrole
      exact ⟨x, hkeep x hx hst, hst, hrest⟩
    · obtain ⟨taskId, ht, hc⟩ := hconf m hm
      obtain rfl : m.taskId = taskId := (isConfirmation_iff.mp hc).2.2.2
      exact ⟨s, hs, hsent, htask.trans ht, (hiff _ m).trans hc⟩
  · obtain rfl | hold := hrows x hx hst
    · obtain ⟨m, hm⟩ := List.exists_mem_of_ne_nil new (hsome taskId (htask ▸ ht))
      obtain ⟨taskId', ht', hc⟩ := hconf m hm
      obtain rfl : taskId' = taskId := Option.some.inj (ht'.symm.trans (htask ▸ ht))
      exact ⟨m, hnew ▸ List.mem_append_right _ hm, (hiff _ m).trans hc⟩
    · obtain ⟨m, hm, hc⟩ := h.transcript x hold hst taskId ht
      exact ⟨m, hnew ▸ List.mem_append_left _ hm, hc⟩
  · obtain rfl | hold := hrows x hx hst
    · obtain ⟨y, hy, hp⟩ := hhistory.2
      exact ⟨y, hy, (hproj y).trans hp⟩
    · obtain ⟨y, hy, hp⟩ := h.history x hold hst
      exact ⟨y, hhistory.1 y hy, hp⟩

end Projections

/-- A recorded message is in the history. -/
theorem recorded_projection {t t' : List ConversationMessageRow} {row : OutboundRow}
    {historyHex : String} {now : Int} {x : String × Bool}
    (h : recordMessage t (sentRecord row historyHex now) = .ok (t', x)) :
    (∀ y ∈ t, y ∈ t') ∧ ∃ y ∈ t', isProjection row y = true := by
  have hiff : ∀ y, y.key = (sentRecord row historyHex now).row.key → isProjection row y = true :=
    fun y hy => decide_eq_true hy
  obtain ⟨rfl, -⟩ | ⟨rfl, y, hy, hkey, -⟩ := recordMessage_ok h
  · refine ⟨fun y hy => List.mem_append_left _ hy, (sentRecord row historyHex now).row, ?_, ?_⟩
    · exact List.mem_append_right _ (List.mem_singleton_self _)
    · exact hiff _ rfl
  · exact ⟨fun y hy => hy, y, hy, hiff y hkey⟩

theorem Projections.step {db : Tables} (h : Projections db) (hid : (db.outbound.map (·.id)).Nodup)
    {call : Call} (hc : confirmsTaskMessage db call = false) : Projections (perform db call) := by
  have hp := perform_performed hid call
  have hgrows := perform_outbound hid call
  generalize perform db call = db' at hp hgrows
  have hkeep : ∀ r ∈ db.outbound, r.status = .sent → r ∈ db'.outbound := by
    intro r hr hs
    obtain ⟨s, hs', hstep⟩ := hgrows.exists_of_mem hr
    exact hstep.eq_of_sent hs ▸ hs'
  cases hp with
  | same => exact h
  | outbound hno rows => exact h.quiet hno hgrows (fun m hm _ => hm) (fun m hm => hm) rfl
  | planned hplan =>
    obtain ⟨g, new, hg, hsame, hnew⟩ := (applyDialoguePlan_step hplan).messages
    have hmap : db.messages.map g = db.messages := by
      rw [List.map_congr_left hsame, List.map_id']
    rw [hmap] at hg
    refine h.quiet rfl hgrows (fun m hm hrole => ?_) (fun m hm => hg ▸ List.mem_append_left _ hm)
      (applyDialoguePlan_step hplan).history
    obtain hm | hm := List.mem_append.mp (hg ▸ hm)
    · exact hm
    · simp [(hnew m hm).1] at hrole
  | @sent m k historyHex result now r db' history x hr hh hrec hproj =>
    have hsentRow := mem_updateWhere_of_mem (p := holds [.sending] m k) (f := (sentRow · result now)) hr
    rw [if_pos hh] at hsentRow
    refine h.confirmed (r := sentRow r result now) (hproj.outbound ▸ hsentRow) rfl
      ⟨rfl, rfl, rfl, rfl, rfl, rfl, rfl, rfl, rfl, rfl, rfl⟩ hkeep (fun y hy hst => ?_) ?_ ?_
    · rw [hproj.outbound] at hy
      obtain ⟨z, hz, rfl⟩ := List.mem_map.mp hy
      split
      · rename_i hown
        exact .inl (by rw [eq_of_key hid hz hr ((holds_iff.mp hown).1.trans (holds_iff.mp hh).1.symm)])
      · exact .inr hz
    · obtain ⟨hnone, hm⟩ | ⟨taskId, externalId, now, ht, hm, -⟩ := hproj.messages
      · exact ⟨[], by rw [hm, List.append_nil], by simp, fun taskId ht => by simp [hnone] at ht⟩
      · refine ⟨_, hm, fun y hy => ⟨taskId, ht, ?_⟩, fun _ _ => by simp⟩
        rw [List.mem_singleton.mp hy]
        simp [isConfirmation, assistantMessage]
    · exact hproj.history ▸ recorded_projection hrec
  | @resolved resolution q r history audit hr hu hh =>
    have hmem := List.mem_of_find?_eq_some hr
    have hnames := List.find?_some hr
    cases resolution with
    | failed | notSent =>
      exact h.quiet rfl hgrows (fun m hm _ => hm) (fun m hm => hm) (Except.ok.inj hh).symm
    | sent =>
      -- the condition: the message belongs to no task
      have hnone : r.taskId = none := by
        by_contra hsome
        have hany := List.any_eq_false.mp hc r hmem
        simp [hnames, hu, Option.isSome_iff_ne_none.mpr hsome] at hany
      have hwrite := mem_updateWhere_of_mem (p := fun r => q.request.names r && r.status = .uncertain)
        (f := OutboundResolution.sent.write q) hmem
      rw [if_pos (by simp [hnames, hu])] at hwrite
      obtain ⟨⟨history', x⟩, hrec, rfl⟩ := map_eq_ok hh
      refine h.confirmed (r := r) hwrite rfl
        ⟨rfl, rfl, rfl, rfl, rfl, rfl, rfl, rfl, rfl, rfl, rfl⟩ hkeep (fun y hy hst => ?_)
        ⟨[], by simp, by simp, fun taskId ht => by simp [hnone] at ht⟩ (recorded_projection hrec)
      obtain ⟨z, hz, rfl⟩ := List.mem_map.mp hy
      split
      · rename_i hown
        simp only [Bool.and_eq_true] at hown
        have hids : z.id = r.id := by
          simp only [Request.names, Bool.and_eq_true, decide_eq_true_eq] at hown hnames
          exact hown.1.1.1.trans hnames.1.1.symm
        exact .inl (by rw [eq_of_key hid hz hmem hids])
      · exact .inr hz

theorem projections_empty : Projections {} where
  origin := by simp
  transcript := by simp
  history := by simp

/-- In every run that reconciles no message of a task as sent, the transcript and the history
agree with the statuses in every state. -/
theorem transcript_agrees (calls : List Call)
    (h : ∀ earlier call later, calls = earlier ++ call :: later →
      confirmsTaskMessage (runCalls earlier) call = false) : TranscriptAgrees (runCalls calls) := by
  have hproj : Projections (runCalls calls) := by
    induction calls using List.reverseRecOn with
    | nil => exact projections_empty
    | append_singleton calls call ih =>
      rw [runCalls_snoc]
      refine (ih fun earlier x later hx => ?_).step (runCalls_distinct calls).ids (h calls call [] rfl)
      exact h earlier x (later ++ [call]) (by simp [hx])
  exact hproj.agrees (runCalls_distinct calls).ids (runCalls_keyed calls)

def admittedCalls : List Call := [.applyPlan openTask, .enqueue taskMessage,
  .claimDue (claimMessage "k1" 0), .markSending "out_1" "k1" 1]

def confirmedCalls : List Call := admittedCalls ++ [.markSent "out_1" "k1" (.obj []) "h" 2]

theorem transcript_agrees_confirmed :
    (runCalls confirmedCalls).outbound.map (fun r => (r.taskId, r.status)) = [(some "task_1", .sent)] ∧
    (runCalls confirmedCalls).messages.map (fun m => (m.messageId, m.taskId, m.role)) =
      [("input_1", "task_1", .user), ("outbound_out_1", "task_1", .assistant)] ∧
    TranscriptAgrees (runCalls confirmedCalls) := by
  refine ⟨by decide +kernel, by decide +kernel, transcript_agrees confirmedCalls ?_⟩
  intro earlier call later h
  have hcall : call ∈ confirmedCalls := h ▸ List.mem_append_right _ List.mem_cons_self
  simp only [confirmedCalls, admittedCalls, List.mem_append, List.mem_cons, List.not_mem_nil,
    or_false] at hcall
  obtain (rfl | rfl | rfl | rfl) | rfl := hcall <;> rfl

/-- The admitted send is lost, becomes uncertain and is reconciled as sent. -/
def reconciledCalls : List Call := admittedCalls ++
  [.claimDue (claimMessage "k2" 100), .resolveOutbound .sent resolveMessage]

theorem reconciled_output_not_in_transcript :
    (runCalls reconciledCalls).outbound.map (fun r => (r.taskId, r.status)) = [(some "task_1", .sent)] ∧
    (runCalls reconciledCalls).messages.map (fun m => (m.messageId, m.role)) = [("input_1", .user)] ∧
    ¬ TranscriptAgrees (runCalls reconciledCalls) := by
  have hmessages : (runCalls reconciledCalls).messages.map (fun m => (m.messageId, m.role)) =
      [("input_1", .user)] := by decide +kernel
  refine ⟨by decide +kernel, hmessages, fun hagree => ?_⟩
  obtain ⟨r, hr, ht, hs⟩ : ∃ r ∈ (runCalls reconciledCalls).outbound,
      r.taskId = some "task_1" ∧ r.status = .sent := by decide +kernel
  have hone := (hagree.1 r hr "task_1" ht).mp hs
  obtain ⟨m, hm, hc⟩ := List.countP_pos_iff.mp (Nat.lt_of_lt_of_eq Nat.one_pos hone.symm)
  have hrole : (m.messageId, m.role) ∈ [("input_1", MessageRole.user)] :=
    hmessages ▸ List.mem_map_of_mem hm
  have huser : m.role = .user := congrArg Prod.snd (List.mem_singleton.mp hrole)
  simp [(isConfirmation_iff.mp hc).2.1] at huser

end Soveren.Dialogue
