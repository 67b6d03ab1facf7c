import Soveren.Sessions.System

/-! What one operation does: to the rows of the mailbox, to the status of the sessions, and in
which order a program performs its operations. -/
namespace Soveren.Sessions
open Soveren.Relational Soveren.Process

section Mailbox

/-- A row on its way out of the mailbox: it is not queued again and not claimed. -/
structure Settles (m m' : MailboxRow) : Prop where
  ref : m'.ref = m.ref
  createdAt : m'.createdAt = m.createdAt
  claimed : 0 < m.attempts → 0 < m'.attempts
  started : 0 < m'.attempts → 0 < m.attempts ∨ m.status = .sending
  queued : m'.status = .queued → m' = m
  sending : m'.status = .sending → m.status = .sending

theorem Settles.refl (m : MailboxRow) : Settles m m :=
  ⟨rfl, rfl, id, .inl, fun _ => rfl, id⟩

/-- A statement that rewrites rows without touching their attempts. -/
theorem Settles.of_status {m m' : MailboxRow} (href : m'.ref = m.ref)
    (hcreated : m'.createdAt = m.createdAt) (hattempts : m'.attempts = m.attempts)
    (hqueued : m'.status ≠ .queued) (hsending : m'.status = .sending → m.status = .sending) :
    Settles m m' :=
  ⟨href, hcreated, fun h => hattempts ▸ h, fun h => .inl (hattempts ▸ h), fun h => absurd h hqueued,
    hsending⟩

/-- Every row of the mailbox settles, and none is added. -/
abbrev Settled (t t' : List MailboxRow) : Prop := Grows Settles (fun _ => False) t t'

theorem settled_updateWhere {p : MailboxRow → Bool} {f : MailboxRow → MailboxRow}
    (t : List MailboxRow) (h : ∀ m, p m = true → Settles m (f m)) : Settled t (updateWhere p f t) :=
  .updateWhere (fun m _ hp => h m hp) fun m _ _ => .refl m

theorem settled_refl (t : List MailboxRow) : Settled t t := .refl fun m _ => .refl m

theorem keepOnError_keeps {α : Type} {db : Tables} {r : Except StoreError (Tables × α)}
    {P : Tables → Prop} (h0 : P db) (h : ∀ db' a, r = .ok (db', a) → P db') :
    P (keepOnError db r).1 := by
  cases r with
  | error e => exact h0
  | ok p => exact h p.1 p.2 rfl

theorem done_ok {r : Except StoreError Tables} {db' : Tables} {u : Unit} (h : done r = .ok (db', u)) :
    r = .ok db' := by
  obtain ⟨db'', hr, he⟩ := map_eq_ok h
  rw [hr, (Prod.mk.inj he).1]

theorem DeliveryRef.sending_status {k : DeliveryRef} {m : MailboxRow} (h : k.sending m = true) :
    m.status = .sending := by
  simp only [DeliveryRef.sending, Bool.and_eq_true, decide_eq_true_eq] at h
  exact h.2

theorem DeliveryRef.sending_of_accepted {k : DeliveryRef} {m : MailboxRow}
    (h : k.accepted m = true) : k.sending m = true := by
  simp only [DeliveryRef.accepted, Bool.and_eq_true] at h
  exact h.1

theorem recordSessionEvent_ok {db db' : Tables} {a : EventArgs}
    (h : recordSessionEvent db a = .ok db') :
    db'.sessions = db.sessions ∧ db'.mailbox = db.mailbox := by
  unfold recordSessionEvent at h
  split at h
  · split at h
    · cases h
    · obtain rfl := Except.ok.inj h
      exact ⟨rfl, rfl⟩
  · cases h

/-- The transaction on a delivery found its row and its session. -/
theorem settleDelivery_ok {db db' : Tables} {k : DeliveryRef} {p : MailboxRow → Bool}
    {f : MailboxRow → MailboxRow} {g : SessionRow → SessionRow} {missing disappeared : String}
    (h : settleDelivery db k p f missing g disappeared = .ok db') :
    (∃ m ∈ db.mailbox, p m = true) ∧ db'.mailbox = updateWhere p f db.mailbox ∧
      db'.sessions =
        updateWhere (SessionRow.at k.sessionId k.tenantId k.sourceId) g db.sessions := by
  unfold settleDelivery at h
  split at h
  · cases h
  · rename_i hcount
    split at h
    · cases h
    · obtain rfl := Except.ok.inj h
      refine ⟨List.countP_pos_iff.mp ?_, rfl, rfl⟩
      have hone : rowcount p db.mailbox = 1 := not_not.mp hcount
      change 0 < rowcount p db.mailbox
      omega

theorem deferAccepted_ok {db db' : Tables} {k : DeliveryRef} {currentActionId : Option String}
    {lastError : String} {retryAfterS now : Int} {b : Bool}
    (h : deferAccepted db k currentActionId lastError retryAfterS now = .ok (db', b)) :
    db' = db ∨ ((∃ m ∈ db.mailbox, k.accepted m = true) ∧
      Settled db.mailbox db'.mailbox ∧ ∃ status actionId error,
        (status = .failed ∨ status = .busy) ∧ db'.sessions = updateWhere (SessionRow.at k.sessionId k.tenantId k.sourceId)
          (·.put status actionId error now) db.sessions) := by
  unfold deferAccepted at h
  split at h
  · exact .inl (Prod.mk.inj (Except.ok.inj h)).1.symm
  · rename_i row hrow
    dsimp only at h
    split at h
    · cases h
    · obtain ⟨rfl, -⟩ := Prod.mk.inj (Except.ok.inj h)
      refine .inr ⟨⟨row, List.mem_of_find?_eq_some hrow, List.find?_some hrow⟩, ?_, _, _, _, ?_, rfl⟩
      swap
      · split
        · exact .inl rfl
        · exact .inr rfl
      refine settled_updateWhere db.mailbox fun m hm => ?_
      have hsending := DeliveryRef.sending_status (DeliveryRef.sending_of_accepted hm)
      split
      · exact ⟨rfl, rfl, fun _ => Nat.succ_pos _, fun _ => .inr hsending, (fun h => nomatch h), fun h => nomatch h⟩
      · exact ⟨rfl, rfl, fun _ => Nat.succ_pos _, fun _ => .inr hsending,
          fun h => absurd (hsending.symm.trans h) (by decide), fun _ => hsending⟩

theorem settled_settleDelivery {db db' : Tables} {k : DeliveryRef} {p : MailboxRow → Bool}
    {f : MailboxRow → MailboxRow} {g : SessionRow → SessionRow} {missing disappeared : String}
    (h : settleDelivery db k p f missing g disappeared = .ok db')
    (hf : ∀ m, p m = true → Settles m (f m)) :
    Settled db.mailbox db'.mailbox := by
  obtain ⟨-, hmailbox, -⟩ := settleDelivery_ok h
  rw [hmailbox]
  exact settled_updateWhere db.mailbox hf

theorem failStaleSending_ok {db db' : Tables} {tenantId reason : String} {olderThanS now : Int}
    {limit : ℕ} {backendPrefix : Option String} {rows : List MailboxRow}
    (h : failStaleSending db tenantId olderThanS reason limit backendPrefix now = .ok (db', rows)) :
    (∀ m ∈ rows, m ∈ db.mailbox ∧ m.status = .sending) ∧
      Settled db.mailbox db'.mailbox ∧
      db'.sessions = updateWhere (fun s => s.tenantId = tenantId &&
        (rows.map (·.sessionId)).contains s.id && (s.status = .idle || s.status = .busy))
          (·.put .failed none (some (Text.clip 500 reason)) now) db.sessions := by
  unfold failStaleSending at h
  split at h
  · cases h
  obtain ⟨_, -, h⟩ := bind_eq_ok h
  obtain ⟨rfl, rfl⟩ := Prod.mk.inj (Except.ok.inj h)
  refine ⟨fun m hm => ?_, settled_updateWhere db.mailbox fun m hm => ?_, rfl⟩
  · obtain ⟨hmem, hstale⟩ := mem_selectOrdered.mp (List.mem_of_mem_take hm)
    obtain ⟨s, -, hs⟩ := List.any_eq_true.mp hstale
    simp only [Bool.and_eq_true, decide_eq_true_eq] at hs
    exact ⟨hmem, hs.1.1.1.2⟩
  · exact .of_status rfl rfl rfl (fun h => nomatch h) fun h => nomatch h

theorem claimSessionForClose_mailbox (db : Tables) (sessionId tenantId sourceId : String)
    (force : Bool) (now : Int) : Settled db.mailbox
      (claimSessionForClose db sessionId tenantId sourceId force now).1.mailbox := by
  unfold claimSessionForClose
  split
  · exact settled_refl db.mailbox
  · split
    · exact settled_refl db.mailbox
    · dsimp only
      split
      · refine settled_updateWhere db.mailbox fun m hm => ?_
        exact .of_status rfl rfl rfl (fun h => nomatch h) fun h => nomatch h
      · exact settled_refl db.mailbox

/-- Every operation but a claim settles rows. -/
theorem performOp_mailbox (db : Tables) (env : Env) {o : Op} (ho : ∀ a b c, o ≠ .claimNext a b c) :
    Settled db.mailbox (performOp db env o).1.mailbox := by
  have hrefl := settled_refl db.mailbox
  cases o with
  | time | readySessions | getSession | setBusy | send | capture | abortDelivery | closeBackend
  | selectCloseCandidates => exact hrefl
  | claimNext a b c => exact absurd rfl (ho a b c)
  | failStaleSending tenantId olderThanS backendPrefix =>
    exact keepOnError_keeps (P := fun db' => Settled db.mailbox db'.mailbox)
      hrefl fun db' rows h => (failStaleSending_ok h).2.1
  | markFailed item lastError =>
    refine settled_updateWhere db.mailbox fun m _ => ?_
    exact .of_status rfl rfl rfl (fun h => nomatch h) fun h => nomatch h
  | markAccepted item backendReceipt =>
    refine settled_updateWhere db.mailbox fun m hm => ?_
    simp only [Bool.and_eq_true, decide_eq_true_eq] at hm
    exact .of_status rfl rfl rfl (fun h => absurd (hm.1.2.symm.trans h) (by decide)) id
  | recordEvent session item direction payloadText marker =>
    refine keepOnError_keeps (P := fun db' => Settled db.mailbox db'.mailbox)
      hrefl fun db' _ h => ?_
    rw [(recordSessionEvent_ok (done_ok h)).2]
    exact hrefl
  | deferAccepted k currentActionId lastError =>
    refine keepOnError_keeps (P := fun db' => Settled db.mailbox db'.mailbox)
      hrefl fun db' _ h => ?_
    obtain rfl | ⟨-, hgrows, -⟩ := deferAccepted_ok h
    · exact hrefl
    · exact hgrows
  | deferPending k currentActionId lastError =>
    refine keepOnError_keeps (P := fun db' => Settled db.mailbox db'.mailbox)
      hrefl fun db' _ h => settled_settleDelivery (done_ok h) fun m hm => ?_
    have hsending := DeliveryRef.sending_status (DeliveryRef.sending_of_accepted hm)
    exact .of_status rfl rfl rfl (fun h => absurd (hsending.symm.trans h) (by decide)) id
  | completeDelivery k result =>
    refine keepOnError_keeps (P := fun db' => Settled db.mailbox db'.mailbox)
      hrefl fun db' _ h => settled_settleDelivery (done_ok h) fun m hm => ?_
    exact .of_status rfl rfl rfl (fun h => nomatch h) fun h => nomatch h
  | failDelivery k lastError =>
    refine keepOnError_keeps (P := fun db' => Settled db.mailbox db'.mailbox)
      hrefl fun db' _ h => settled_settleDelivery (done_ok h) fun m hm => ?_
    exact .of_status rfl rfl rfl (fun h => nomatch h) fun h => nomatch h
  | claimForClose sessionId tenantId sourceId force now =>
    exact claimSessionForClose_mailbox db sessionId tenantId sourceId force now
  | recordCloseFailure sessionId tenantId sourceId error now =>
    refine keepOnError_keeps (P := fun db' => Settled db.mailbox db'.mailbox)
      hrefl fun db' _ h => ?_
    rw [(recordSessionEvent_ok (done_ok h)).2]
    exact hrefl
  | recordClosed sessionId tenantId sourceId reason now =>
    refine keepOnError_keeps (P := fun db' => Settled db.mailbox db'.mailbox)
      hrefl fun db' _ h => ?_
    rw [(recordSessionEvent_ok (done_ok h)).2]
    exact hrefl

/-- A claim continues an accepted delivery, or takes the first queued row of an idle session that
has no row in delivery. -/
theorem claimNext_cases {db : Tables} {sessionId tenantId sourceId : String} {now : Int}
    (hids : (db.mailbox.map (·.id)).Nodup) (hord : db.mailbox.Pairwise createdOrder) :
    ((claimNext db sessionId tenantId sourceId now).1 = db ∧
      ∀ m, (claimNext db sessionId tenantId sourceId now).2 = some m →
        m ∈ db.mailbox ∧ m.status = .sending ∧ m.acceptedAt.isSome = true) ∨
    ∃ before item after, db.mailbox = before ++ item :: after ∧
      item.of sessionId tenantId sourceId = true ∧ item.status = .queued ∧ item.runAfter ≤ now ∧
      (∀ m ∈ db.mailbox, m.of sessionId tenantId sourceId = true → m.status ≠ .sending) ∧
      (∀ m ∈ before, m.of sessionId tenantId sourceId = true → m.runAfter ≤ now →
        m.status ≠ .queued) ∧
      (∃ s ∈ db.sessions, s.at sessionId tenantId sourceId = true ∧ s.status = .idle) ∧
      claimNext db sessionId tenantId sourceId now =
        ({ db with mailbox := before ++ item.claim now :: after }, some (item.claim now)) := by
  unfold claimNext
  split
  · rename_i accepted haccepted
    refine .inl ⟨rfl, fun m hm => ?_⟩
    obtain rfl := Option.some.inj hm
    obtain ⟨hmem, hp⟩ := mem_selectOrdered.mp (List.mem_of_mem_head? haccepted)
    simp only [MailboxRow.acceptedDue, Bool.and_eq_true, decide_eq_true_eq] at hp
    exact ⟨hmem, hp.2.1.1, hp.2.1.2⟩
  · split
    · rename_i hidle
      split
      · exact .inl ⟨rfl, fun m hm => nomatch hm⟩
      · rename_i item hitem
        rw [nextQueued, selectOrdered_head? hord] at hitem
        obtain ⟨hp, before, after, hsplit, hbefore⟩ := List.find?_eq_some_iff_append.mp hitem
        simp only [Bool.and_eq_true, decide_eq_true_eq] at hp
        obtain ⟨⟨⟨hof, hqueued⟩, hdue⟩, hfree⟩ := hp
        have hat : item.at item.id tenantId sourceId = true := by
          simp only [MailboxRow.of, Bool.and_eq_true, decide_eq_true_eq] at hof
          simp [MailboxRow.at, hof]
        have hset : updateWhere (fun m => m.at item.id tenantId sourceId && m.status = .queued)
            (·.claim now) db.mailbox = before ++ item.claim now :: after := by
          rw [hsplit] at hids ⊢
          refine updateWhere_split hids (by simp [hat, hqueued]) fun m _ hm => ?_
          simp only [MailboxRow.at, Bool.and_eq_true, decide_eq_true_eq] at hm
          exact hm.1.1.1
        refine .inr ⟨before, item, after, hsplit, hof, hqueued, hdue, fun m hm hmof hst => ?_,
          fun m hm hmof hrun hst => ?_, ?_, ?_⟩
        · simp only [unblocked, Bool.not_eq_true', List.any_eq_false] at hfree
          exact hfree m hm (by simp [hmof, hst])
        · have hno := hbefore m hm
          simp [hmof, hst, hrun, hfree] at hno
        · obtain ⟨s, hs, hidle⟩ := List.any_eq_true.mp hidle
          simp only [Bool.and_eq_true, decide_eq_true_eq] at hidle
          exact ⟨s, hs, hidle⟩
        · have hfind : (before ++ item.claim now :: after).find?
              (MailboxRow.at item.id tenantId sourceId) = some (item.claim now) := by
            refine List.find?_eq_some_iff_append.mpr ⟨hat, before, after, rfl, fun m hm => ?_⟩
            have hne := key_ne_of_split (hsplit ▸ hids) (.inl hm)
            simp [MailboxRow.at, hne]
          simp only [hset, hfind]
    · exact .inl ⟨rfl, fun m hm => nomatch hm⟩

end Mailbox

section Sessions

/-- A row in delivery that a reference addresses. -/
def InDelivery (db : Tables) (k : DeliveryRef) : Prop := ∃ m ∈ db.mailbox, k.sending m = true

/-- The status changes that an operation may make to a session. -/
def Moves (db : Tables) : Op → SessionRow → SessionStatus → Prop
  | .setBusy session item, s, st =>
    s.at session.id item.tenantId item.sourceId = true ∧ st = .busy
  | .deferAccepted k _ _, s, st | .deferPending k _ _, s, st | .completeDelivery k _, s, st
  | .failDelivery k _, s, st =>
    s.at k.sessionId k.tenantId k.sourceId = true ∧ InDelivery db k ∧ st ≠ .closing ∧ st ≠ .closed
  | .failStaleSending _ _ _, s, st =>
    st = .failed ∧ ∃ m ∈ db.mailbox, m.sessionId = s.id ∧ m.status = .sending
  | .claimForClose sessionId tenantId sourceId _ _, s, st =>
    s.at sessionId tenantId sourceId = true ∧ st = .closing
  | .recordCloseFailure sessionId tenantId sourceId _ _, s, st =>
    s.at sessionId tenantId sourceId = true ∧ st = .failed
  | .recordClosed sessionId tenantId sourceId _ _, s, st =>
    s.at sessionId tenantId sourceId = true ∧ st = .closed
  | _, _, _ => False

/-- A session row stays where it is, and its status changes only by a given move. -/
structure SessionStep (M : SessionRow → SessionStatus → Prop) (s s' : SessionRow) : Prop where
  id : s'.id = s.id
  tenantId : s'.tenantId = s.tenantId
  sourceId : s'.sourceId = s.sourceId
  status : s'.status = s.status ∨ M s s'.status

/-- Every session takes a step, and none is added. -/
abbrev Stepped (M : SessionRow → SessionStatus → Prop) (t t' : List SessionRow) : Prop :=
  Grows (SessionStep M) (fun _ => False) t t'

variable {M : SessionRow → SessionStatus → Prop}

theorem stepped_refl (t : List SessionRow) : Stepped M t t :=
  .refl fun _ _ => ⟨rfl, rfl, rfl, .inl rfl⟩

/-- A statement that writes the status of the sessions that it finds. -/
theorem stepped_put_of_mem {p : SessionRow → Bool} {status : SessionStatus}
    {currentActionId lastError : Option String} {now : Int} {t : List SessionRow}
    (h : ∀ s ∈ t, p s = true → M s status) :
    Stepped M t (updateWhere p (·.put status currentActionId lastError now) t) :=
  .updateWhere (fun s hs hp => ⟨rfl, rfl, rfl, .inr (h s hs hp)⟩) fun _ _ _ => ⟨rfl, rfl, rfl, .inl rfl⟩

theorem stepped_put {p : SessionRow → Bool} {status : SessionStatus}
    {currentActionId lastError : Option String} {now : Int} (t : List SessionRow)
    (h : ∀ s, p s = true → M s status) :
    Stepped M t (updateWhere p (·.put status currentActionId lastError now) t) :=
  stepped_put_of_mem fun s _ => h s

theorem inDelivery_of_accepted {db : Tables} {k : DeliveryRef}
    (h : ∃ m ∈ db.mailbox, k.accepted m = true) : InDelivery db k := by
  obtain ⟨m, hm, hacc⟩ := h
  exact ⟨m, hm, DeliveryRef.sending_of_accepted hacc⟩

/-- What a claim for closing has checked. -/
structure Closable (db : Tables) (s : SessionRow) : Prop where
  status : s.status = .idle ∨ s.status = .failed
  quiet : ∀ m ∈ db.mailbox, m.sessionId = s.id → m.status ≠ .sending

theorem closable_of_none {db : Tables} {force : Bool} {s : SessionRow}
    (h : closeRefusal db force s = none) : Closable db s := by
  unfold closeRefusal pendingMailboxCounts at h
  dsimp only at h
  split at h
  · cases h
  split at h
  · cases h
  split at h
  · cases h
  rename_i hsending
  split at h
  · cases h
  split at h
  · cases h
  rename_i hstatus
  refine ⟨?_, fun m hm hid hst => ?_⟩
  · cases hs : s.status <;> simp [hs] at hstatus ⊢
  · have hnone := List.countP_eq_zero.mp (not_not.mp hsending) m hm
    simp [hid, hst] at hnone

/-- A claim for closing is refused, or moves the session that it has checked to `closing`. -/
theorem claimSessionForClose_cases (db : Tables) (sessionId tenantId sourceId : String)
    (force : Bool) (now : Int) :
    ((claimSessionForClose db sessionId tenantId sourceId force now).1 = db ∧
      ∃ result, (claimSessionForClose db sessionId tenantId sourceId force now).2 = .error result) ∨
    ((∃ claim, (claimSessionForClose db sessionId tenantId sourceId force now).2 = .ok claim) ∧
      ∃ row, getSession db sessionId tenantId sourceId = some row ∧ Closable db row ∧
      (claimSessionForClose db sessionId tenantId sourceId force now).1.sessions =
        updateWhere (fun s => s.at sessionId tenantId sourceId && s.status = row.status)
          (·.put .closing none none now) db.sessions) := by
  unfold claimSessionForClose
  split
  · exact .inl ⟨rfl, _, rfl⟩
  · rename_i row hrow
    split
    · exact .inl ⟨rfl, _, rfl⟩
    · rename_i hnone
      exact .inr ⟨⟨_, rfl⟩, row, hrow, closable_of_none hnone, rfl⟩

/-- The status changes of an operation. -/
theorem performOp_sessions (db : Tables) (env : Env) (o : Op) :
    Stepped (Moves db o) db.sessions (performOp db env o).1.sessions := by
  have hrefl : Stepped (Moves db o) db.sessions db.sessions := stepped_refl db.sessions
  cases o with
  | time | readySessions | getSession | send | capture | abortDelivery | closeBackend
  | selectCloseCandidates | markFailed | markAccepted => exact hrefl
  | claimNext sessionId tenantId sourceId =>
    have hsame : (claimNext db sessionId tenantId sourceId env.now).1.sessions = db.sessions := by
      unfold claimNext
      split
      · rfl
      · split
        · split <;> rfl
        · rfl
    simp only [performOp, hsame]
    exact hrefl
  | setBusy session item => exact stepped_put db.sessions fun s hs => ⟨hs, rfl⟩
  | failStaleSending tenantId olderThanS backendPrefix =>
    refine keepOnError_keeps (P := fun db' => Stepped _ db.sessions db'.sessions) hrefl
      fun db' rows h => ?_
    obtain ⟨hrows, -, hsessions⟩ := failStaleSending_ok h
    rw [hsessions]
    refine stepped_put db.sessions fun s hs => ⟨rfl, ?_⟩
    simp only [Bool.and_eq_true, List.contains_iff_mem] at hs
    obtain ⟨m, hm, hid⟩ := List.mem_map.mp hs.1.2
    exact ⟨m, (hrows m hm).1, hid, (hrows m hm).2⟩
  | recordEvent session item direction payloadText marker =>
    refine keepOnError_keeps (P := fun db' => Stepped _ db.sessions db'.sessions) hrefl
      fun db' _ h => ?_
    rw [(recordSessionEvent_ok (done_ok h)).1]
    exact hrefl
  | deferAccepted k currentActionId lastError =>
    refine keepOnError_keeps (P := fun db' => Stepped _ db.sessions db'.sessions) hrefl
      fun db' _ h => ?_
    obtain rfl | ⟨hfound, -, status, actionId, error, hstatus, hsessions⟩ := deferAccepted_ok h
    · exact hrefl
    · rw [hsessions]
      refine stepped_put db.sessions fun s hs => ⟨hs, inDelivery_of_accepted hfound, ?_⟩
      obtain rfl | rfl := hstatus <;> decide
  | deferPending k currentActionId lastError =>
    refine keepOnError_keeps (P := fun db' => Stepped _ db.sessions db'.sessions) hrefl
      fun db' _ h => ?_
    obtain ⟨hfound, -, hsessions⟩ := settleDelivery_ok (done_ok h)
    rw [hsessions]
    exact stepped_put db.sessions fun s hs => ⟨hs, inDelivery_of_accepted hfound, by decide⟩
  | completeDelivery k result =>
    refine keepOnError_keeps (P := fun db' => Stepped _ db.sessions db'.sessions) hrefl
      fun db' _ h => ?_
    obtain ⟨hfound, -, hsessions⟩ := settleDelivery_ok (done_ok h)
    rw [hsessions]
    exact stepped_put db.sessions fun s hs => ⟨hs, inDelivery_of_accepted hfound, by decide⟩
  | failDelivery k lastError =>
    refine keepOnError_keeps (P := fun db' => Stepped _ db.sessions db'.sessions) hrefl
      fun db' _ h => ?_
    obtain ⟨hfound, -, hsessions⟩ := settleDelivery_ok (done_ok h)
    rw [hsessions]
    exact stepped_put db.sessions fun s hs => ⟨hs, hfound, by decide⟩
  | claimForClose sessionId tenantId sourceId force now =>
    obtain ⟨hsame, -⟩ | ⟨-, row, -, -, hsessions⟩ :=
      claimSessionForClose_cases db sessionId tenantId sourceId force now
    · simp only [performOp, hsame]
      exact hrefl
    · simp only [performOp, hsessions]
      refine stepped_put db.sessions fun s hs => ⟨?_, rfl⟩
      simp only [Bool.and_eq_true] at hs
      exact hs.1
  | recordCloseFailure sessionId tenantId sourceId error now =>
    refine keepOnError_keeps (P := fun db' => Stepped _ db.sessions db'.sessions) hrefl
      fun db' _ h => ?_
    rw [(recordSessionEvent_ok (done_ok h)).1]
    exact stepped_put db.sessions fun s hs => ⟨hs, rfl⟩
  | recordClosed sessionId tenantId sourceId reason now =>
    refine keepOnError_keeps (P := fun db' => Stepped _ db.sessions db'.sessions) hrefl
      fun db' _ h => ?_
    rw [(recordSessionEvent_ok (done_ok h)).1]
    exact stepped_put db.sessions fun s hs => ⟨hs, rfl⟩

theorem insertSession_ok {db db' : Tables} {row : SessionRow} (h : insertSession db row = .ok db') :
    db' = { db with sessions := db.sessions ++ [row] } ∧ row.id ∉ db.sessions.map (·.id) := by
  unfold insertSession at h
  split at h
  · cases h
  · rename_i hnew
    obtain rfl := Except.ok.inj h
    exact ⟨rfl, by simpa using hnew⟩

theorem Stepped.mono {N : SessionRow → SessionStatus → Prop} {t t' : List SessionRow}
    (h : Stepped M t t') (hMN : ∀ s ∈ t, ∀ st, M s st → N s st) : Stepped N t t' :=
  Grows.mono h (fun s hs _ hstep => ⟨hstep.id, hstep.tenantId, hstep.sourceId, hstep.status.imp id (hMN s hs _)⟩)
    fun _ hf => hf

/-- The moves of a recovery. -/
def Recovers (ids : List String) (s : SessionRow) (st : SessionStatus) : Prop :=
  s.status = .closing ∧ st = .failed ∧ s.id ∈ ids

theorem recoverClosing_ok {a : RecoverArgs} {db db' : Tables} {hex : String} {row : SessionRow}
    {ids : List String} (h : recoverClosing a db hex row = .ok (db', ids)) :
    db'.mailbox = db.mailbox ∧ Stepped (Recovers ids) db.sessions db'.sessions := by
  unfold recoverClosing at h
  dsimp only at h
  split at h
  · obtain ⟨rfl, rfl⟩ := Prod.mk.inj (Except.ok.inj h)
    exact ⟨rfl, stepped_refl db.sessions⟩
  · obtain ⟨db'', hevent, he⟩ := map_eq_ok h
    obtain ⟨rfl, rfl⟩ := Prod.mk.inj he
    obtain ⟨hsessions, hmailbox⟩ := recordSessionEvent_ok hevent
    refine ⟨hmailbox, ?_⟩
    rw [hsessions]
    refine stepped_put db.sessions fun s hs => ?_
    simp only [Bool.and_eq_true, decide_eq_true_eq] at hs
    exact ⟨hs.2, rfl, by simp [hs.1.1]⟩

theorem recoverClosings_ok {a : RecoverArgs} {rows : List (SessionRow × ℕ)} {db db' : Tables}
    {ids : List String} (h : recoverClosings a db rows = .ok (db', ids)) :
    db'.mailbox = db.mailbox ∧ Stepped (Recovers ids) db.sessions db'.sessions := by
  induction rows generalizing db ids with
  | nil =>
    obtain ⟨rfl, rfl⟩ := Prod.mk.inj (Except.ok.inj h)
    exact ⟨rfl, stepped_refl db.sessions⟩
  | cons row rows ih =>
    obtain ⟨⟨db1, first⟩, h1, h⟩ := bind_eq_ok h
    obtain ⟨⟨db2, others⟩, h2, h⟩ := bind_eq_ok h
    obtain ⟨rfl, rfl⟩ := Prod.mk.inj (Except.ok.inj h)
    obtain ⟨hm1, hs1⟩ := recoverClosing_ok h1
    obtain ⟨hm2, hs2⟩ := ih h2
    refine ⟨hm2.trans hm1, ?_⟩
    have hs1' := hs1.mono fun s _ st (hr : Recovers first s st) =>
      (⟨hr.1, hr.2.1, List.mem_append_left others hr.2.2⟩ : Recovers (first ++ others) s st)
    have hs2' := hs2.mono fun s _ st (hr : Recovers others s st) =>
      (⟨hr.1, hr.2.1, List.mem_append_right first hr.2.2⟩ : Recovers (first ++ others) s st)
    refine Grows.trans (fun r s u hrs hsu => ?_) (fun _ _ hf _ => hf) hs1' hs2'
    refine ⟨hsu.id.trans hrs.id, hsu.tenantId.trans hrs.tenantId, hsu.sourceId.trans hrs.sourceId, ?_⟩
    obtain he | ⟨hc, hf, hin⟩ := hrs.status
    · obtain he' | ⟨hc, hf, hin⟩ := hsu.status
      · exact .inl (he'.trans he)
      · exact .inr ⟨he.symm.trans hc, hf, hrs.id ▸ hin⟩
    · obtain he' | ⟨hc', -, -⟩ := hsu.status
      · exact .inr ⟨hc, he'.trans hf, hin⟩
      · rw [hf] at hc'
        cases hc'

theorem recoverStaleClosingSessions_ok {a : RecoverArgs} {db db' : Tables} {ids : List String}
    (h : recoverStaleClosingSessions db a = .ok (db', ids)) :
    db'.mailbox = db.mailbox ∧ Stepped (Recovers ids) db.sessions db'.sessions := by
  unfold recoverStaleClosingSessions at h
  split at h
  · cases h
  · split at h
    · cases h
    · exact recoverClosings_ok h

end Sessions

/-- How far a program has come: the row that it claimed last, whether its prompt is still to be
sent, and the session that it is closing. -/
structure Phase where
  item : Option MailboxRow := none
  unsent : Bool := false
  closing : Option String := none

/-- The order in which programs perform their operations. -/
def discipline : Protocol Op Res where
  Phase := Phase
  allowed φ o := match o with
    | .send _ m => φ.item = some m ∧ φ.unsent = true
    | .setBusy s m => φ.item = some m ∧ s.owns m = true
    | .deferAccepted k _ _ | .deferPending k _ _ | .completeDelivery k _ | .failDelivery k _ =>
      ∃ m, φ.item = some m ∧ k = m.ref
    | .claimForClose _ _ _ _ _ => φ.closing = none
    | .recordCloseFailure sessionId _ _ _ _ | .recordClosed sessionId _ _ _ _ =>
      φ.closing = some sessionId
    | _ => True
  next φ o r := match o with
    | .claimNext _ _ _ =>
      { φ with item := r, unsent := (r : Option MailboxRow).any fun m => m.acceptedAt.isNone }
    | .send _ _ => { φ with unsent := false }
    | .claimForClose sessionId _ _ _ _ =>
      { φ with closing := match (r : CloseClaim) with
          | .ok _ => some sessionId
          | .error _ => none }
    | .recordCloseFailure _ _ _ _ _ | .recordClosed _ _ _ _ _ => { φ with closing := none }
    | _ => φ

/-- What advancing a run does. -/
theorem advance_some {s t : System} {i : ℕ} {env : Env} (h : advance s i env = some t) :
    ∃ o k, s.runs[i]? = some (.call o k) ∧
      t = ⟨(performOp s.tables env o).1, s.runs.set i (k (performOp s.tables env o).2),
        s.log ++ entries i o (performOp s.tables env o).2⟩ := by
  unfold advance at h
  cases hi : s.runs[i]? with
  | none => simp [hi] at h
  | some program =>
    cases program with
    | ret a => simp [hi] at h
    | call o k => exact ⟨o, k, rfl, by simpa [hi] using h.symm⟩

section Follows

variable {c : Config} {backend : SessionBackend} {item : MailboxRow} {session : SessionRow}

theorem expireDelivery_follows {φ : Phase} (hφ : φ.item = some item) (receipt : Option SendReceipt) :
    Follows discipline φ (expireDelivery backend item session receipt) := by
  unfold expireDelivery
  dsimp only
  split
  · refine ⟨trivial, fun r => ?_⟩
    cases (r : Except String Unit) with
    | ok _ => exact ⟨⟨item, hφ, rfl⟩, fun _ => trivial⟩
    | error text => exact ⟨⟨item, hφ, rfl⟩, fun _ => trivial⟩
  · exact ⟨⟨item, hφ, rfl⟩, fun _ => trivial⟩

theorem completeCapture_follows {φ : Phase} (hφ : φ.item = some item) (text : String) :
    Follows discipline φ (completeCapture c item session text) := by
  refine ⟨⟨item, hφ, rfl⟩, fun r => ?_⟩
  cases (r : Except StoreError Unit) with
  | error e => trivial
  | ok _ =>
    simp only [Proc.bind]
    split
    · exact ⟨trivial, fun _ => trivial⟩
    · trivial

theorem captureItem_follows {φ : Phase} (hφ : φ.item = some item) (receipt : Option SendReceipt)
    (acceptedAt : Option Int) :
    Follows discipline φ (captureItem c backend item session receipt acceptedAt) := by
  refine ⟨trivial, fun r => ?_⟩
  cases (r : Except String CaptureResult) with
  | error text => exact ⟨⟨item, hφ, rfl⟩, fun _ => trivial⟩
  | ok capture =>
    simp only [Proc.bind]
    change Follows discipline φ _
    split
    · refine ⟨trivial, fun now => ?_⟩
      simp only [Proc.bind]
      change Follows discipline φ _
      split
      · exact expireDelivery_follows hφ receipt
      · exact ⟨⟨item, hφ, rfl⟩, fun _ => trivial⟩
    · exact completeCapture_follows hφ capture.text

theorem sendPrompt_follows {φ : Phase} (hφ : φ.item = some item) (hunsent : φ.unsent = true) :
    Follows discipline φ (sendPrompt c backend item session) := by
  refine ⟨⟨hφ, hunsent⟩, fun r => ?_⟩
  cases (r : Except String (Option SendReceipt)) with
  | error text => exact ⟨⟨item, hφ, rfl⟩, fun _ => trivial⟩
  | ok receipt =>
    have hcapture : ∀ acceptedAt, Follows discipline { φ with unsent := false }
        (captureItem c backend item session receipt acceptedAt) :=
      fun acceptedAt => captureItem_follows (φ := { φ with unsent := false }) hφ receipt acceptedAt
    refine ⟨trivial, fun _ => ⟨trivial, fun acceptedAt => ?_⟩⟩
    simp only [Proc.bind]
    split
    · exact ⟨trivial, fun _ => hcapture (some acceptedAt)⟩
    · exact hcapture (some acceptedAt)

theorem sendItem_follows {φ : Phase} (hφ : φ.item = some item)
    (hunsent : item.acceptedAt.isNone = true → φ.unsent = true) :
    Follows discipline φ (sendItem c item session) := by
  unfold sendItem
  split
  · exact ⟨trivial, fun _ => trivial⟩
  · rename_i howns
    split
    · exact ⟨⟨item, hφ, rfl⟩, fun _ => trivial⟩
    · split
      · exact ⟨⟨item, hφ, rfl⟩, fun _ => trivial⟩
      · refine ⟨⟨hφ, by simpa using howns⟩, fun _ => ?_⟩
        simp only [Proc.bind]
        split
        · rename_i hnew
          exact sendPrompt_follows hφ (hunsent hnew)
        · exact captureItem_follows hφ _ _

theorem deliverEach_follows (ready : List ReadySession) (processed : ℕ) (φ : Phase) :
    Follows discipline φ (deliverEach c ready processed) := by
  induction ready generalizing processed φ with
  | nil => trivial
  | cons r rest ih =>
    refine ⟨trivial, fun session => ?_⟩
    cases (session : Option SessionRow) with
    | none => exact ih processed φ
    | some session =>
      refine ⟨trivial, fun item => ?_⟩
      cases (item : Option MailboxRow) with
      | none => exact ih processed _
      | some item =>
        change Follows discipline { φ with item := some item, unsent := item.acceptedAt.isNone }
          (sendItem c item session >>= _)
        refine follows_bind (sendItem_follows rfl id) fun ψ sent => ?_
        cases sent with
        | error e => trivial
        | ok _ => exact ih (processed + 1) ψ

theorem drainStoreOnce_follows (c : Config) : Follows discipline {} (drainStoreOnce c) := by
  unfold drainStoreOnce
  split
  · trivial
  · split
    · trivial
    · refine ⟨trivial, fun stale => ?_⟩
      cases (stale : Except StoreError (List MailboxRow)) with
      | error e => trivial
      | ok stale =>
        refine ⟨trivial, fun ready => ?_⟩
        cases (ready : Except StoreError (List ReadySession)) with
        | error e => trivial
        | ok ready => exact deliverEach_follows ready _ _

/-- A close that has ended is not closing a session any more. -/
def NotClosing {α : Type} (φ : Phase) (_ : α) : Prop := φ.closing = none

theorem clock_ends {φ : Phase} (hφ : φ.closing = none) (now : Option Int) :
    Ends discipline NotClosing φ (clock now) := by
  unfold clock
  split
  · exact hφ
  · exact ⟨trivial, fun _ => hφ⟩

theorem closeClaimed_ends {φ : Phase} {a : CloseArgs} (hφ : φ.closing = some a.sessionId) (now : Int)
    (row : SessionRow) (cancelled : ℕ) :
    Ends discipline NotClosing φ (closeClaimed a now row cancelled) := by
  refine ⟨trivial, fun closed => ?_⟩
  cases (closed : Except CloseFault Unit) with
  | error fault =>
    refine ⟨hφ, fun recorded => ?_⟩
    cases (recorded : Except StoreError Unit) with
    | error e => rfl
    | ok _ => cases fault <;> rfl
  | ok _ =>
    refine ⟨hφ, fun recorded => ?_⟩
    cases (recorded : Except StoreError Unit) <;> rfl

theorem closeSession_ends {φ : Phase} (hφ : φ.closing = none)
    (backends : String → Option SessionBackend) (a : CloseArgs) :
    Ends discipline NotClosing φ (closeSession backends a) := by
  refine Ends.bind (clock_ends hφ a.now) fun ψ now hψ => ⟨trivial, fun initial => ?_⟩
  cases (initial : Option SessionRow) with
  | none => exact hψ
  | some initial =>
    simp only [Proc.bind]
    split
    · exact hψ
    · split
      · exact hψ
      · split
        · exact hψ
        · refine ⟨hψ, fun claim => ?_⟩
          cases (claim : CloseClaim) with
          | error result => rfl
          | ok claim => exact closeClaimed_ends rfl now claim.1 claim.2

theorem closeEach_ends {φ : Phase} (hφ : φ.closing = none)
    (backends : String → Option SessionBackend) (tenantId : String) (now : Int)
    (candidates : List CloseCandidate) (results : List CloseSessionResult) :
    Ends discipline NotClosing φ (closeEach backends tenantId now candidates results) := by
  induction candidates generalizing φ results with
  | nil => exact hφ
  | cons candidate rest ih =>
    refine Ends.bind (closeSession_ends hφ backends _) fun ψ closed hψ => ?_
    cases closed with
    | error e => exact hψ
    | ok result => exact ih hψ (results ++ [result])

theorem closeIdleSessions_ends (backends : String → Option SessionBackend) (a : CloseIdleArgs) :
    Ends discipline NotClosing {} (closeIdleSessions backends a) := by
  unfold closeIdleSessions
  split
  · rfl
  · exact Ends.bind (clock_ends rfl a.now) fun ψ now hψ =>
      ⟨trivial, fun candidates => closeEach_ends hψ backends a.tenantId now candidates []⟩

end Follows

end Soveren.Sessions
