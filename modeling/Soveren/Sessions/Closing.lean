import Soveren.Sessions.Delivery

/-! A session that was claimed for closing is never idle again and has no row in delivery any
more. So the only writes that can take it out of `closed` are those of a worker whose row was
taken away from it and of a close that another close has overtaken. -/
namespace Soveren.Sessions
open Soveren.Relational Soveren.Process Soveren.Run

/-- The entry shows that a session was claimed for closing or closed. -/
def Entry.overtakes (sessionId : String) : Entry → Bool
  | .claimed _ x | .closed _ x => x = sessionId
  | .sent _ | .closeFailed _ _ | .recovered _ => false

/-- The entry ends the claim that run `i` has on a session. -/
def Entry.releases (i : ℕ) (sessionId : String) (e : Entry) : Bool :=
  e = .closed i sessionId || e = .closeFailed i sessionId || e = .recovered sessionId

/-- Run `i` has claimed a session, has not recorded an outcome, and recovery has not marked the
session failed since. -/
def Unreleased (i : ℕ) (sessionId : String) (log : List Entry) : Prop :=
  Since (.claimed i sessionId) (fun e => e.releases i sessionId = false) log

/-- Whenever a session is claimed, every earlier claim of it has been released. -/
def ClosesExclusively (log : List Entry) : Prop :=
  Always (fun pre e => ∀ j x, e = .claimed j x → ∀ i, ¬ Unreleased i x pre) log

/-- The operation a run performs next. -/
def System.nextOp (s : System) (i : ℕ) : Option Op :=
  s.runs[i]?.bind fun program => match program with
    | .ret _ => none
    | .call o _ => some o

/-- A worker marks a session busy only while the row that it delivers is in delivery, and a close
records its failure only if no other close has claimed or closed the session since its claim. -/
def OutcomeStands (s : System) : Label → Prop
  | .advance i _ => match s.nextOp i with
    | some (.setBusy _ item) => ∃ m ∈ s.tables.mailbox, m.id = item.id ∧ m.status = .sending
    | some (.recordCloseFailure sessionId _ _ _ _) =>
      Since (.claimed i sessionId) (fun e => e.overtakes sessionId = false) s.log
    | _ => True
  | _ => True

instance (s : System) (l : Label) : Decidable (OutcomeStands s l) := by
  unfold OutcomeStands
  split
  · split <;> infer_instance
  · infer_instance

/-- The session was claimed for closing, or is closing or closed. -/
def Doomed (log : List Entry) (r : SessionRow) : Prop :=
  (∃ i, Entry.claimed i r.id ∈ log) ∨ r.status = .closing ∨ r.status = .closed

/-- A session that no delivery touches any more. -/
def Quiet (db : Tables) (r : SessionRow) : Prop :=
  (r.status = .closing ∨ r.status = .closed ∨ r.status = .failed) ∧
    ∀ m ∈ db.mailbox, m.sessionId = r.id → m.status ≠ .sending

structure CloseInv (Φ : ℕ → Phase) (s : System) : Prop where
  follows : ∀ i p, s.runs[i]? = some p → Follows discipline (Φ i) p
  idle : ∀ i, s.runs.length ≤ i → Φ i = {}
  ids : (s.tables.mailbox.map (·.id)).Nodup
  sessionIds : (s.tables.sessions.map (·.id)).Nodup
  owned : ∀ m ∈ s.tables.mailbox, m.sessionId ∈ s.tables.sessions.map (·.id)
  items : ∀ i m, (Φ i).item = some m → ∃ m' ∈ s.tables.mailbox, m'.ref = m.ref
  claims : ∀ i x, (Φ i).closing = some x → Entry.claimed i x ∈ s.log
  known : ∀ i x, Entry.claimed i x ∈ s.log → x ∈ s.tables.sessions.map (·.id)
  doomed : ∀ r ∈ s.tables.sessions, Doomed s.log r → Quiet s.tables r
  closedSince : ∀ r ∈ s.tables.sessions, r.status = .closed → ∀ i,
    ¬ Since (.claimed i r.id) (fun e => e.overtakes r.id = false) s.log
  held : ∀ r ∈ s.tables.sessions, ∀ i, Unreleased i r.id s.log →
    r.status = .closing ∨ r.status = .closed
  exclusive : ClosesExclusively s.log

section Tables

variable {db db' : Tables}

/-- What an operation does to a row of the mailbox: it comes into delivery only if its session is
idle. -/
structure MailStep (db : Tables) (m m' : MailboxRow) : Prop where
  ref : m'.ref = m.ref
  sending : m'.status = .sending → m.status = .sending ∨
    ∃ s ∈ db.sessions, s.id = m.sessionId ∧ s.status = .idle

theorem claimNext_mailbox {sessionId tenantId sourceId : String} {now : Int}
    (hids : (db.mailbox.map (·.id)).Nodup) :
    Grows (MailStep db) (fun _ => False) db.mailbox
      (claimNext db sessionId tenantId sourceId now).1.mailbox ∧
    ∀ m, (claimNext db sessionId tenantId sourceId now).2 = some m →
      ∃ m' ∈ (claimNext db sessionId tenantId sourceId now).1.mailbox, m'.ref = m.ref := by
  have hrefl : Grows (MailStep db) (fun _ => False) db.mailbox db.mailbox :=
    .refl fun m _ => ⟨rfl, .inl⟩
  unfold claimNext
  split
  · rename_i accepted haccepted
    refine ⟨hrefl, fun m hm => ?_⟩
    obtain rfl := Option.some.inj hm
    exact ⟨accepted, (mem_selectOrdered.mp (List.mem_of_mem_head? haccepted)).1, rfl⟩
  · split
    · rename_i hidle
      split
      · exact ⟨hrefl, fun m hm => nomatch hm⟩
      · rename_i item hitem
        obtain ⟨hmem, hp⟩ := mem_selectOrdered.mp (List.mem_of_mem_head? hitem)
        simp only [Bool.and_eq_true, decide_eq_true_eq] at hp
        obtain ⟨s, hs, hat⟩ := List.any_eq_true.mp hidle
        simp only [Bool.and_eq_true, decide_eq_true_eq] at hat
        refine ⟨.updateWhere (fun m hm hpm => ⟨rfl, fun _ => .inr ⟨s, hs, ?_, hat.2⟩⟩)
          fun m _ _ => ⟨rfl, .inl⟩, fun m hm => ⟨m, List.mem_of_find?_eq_some hm, rfl⟩⟩
        simp only [MailboxRow.at, Bool.and_eq_true, decide_eq_true_eq] at hpm
        obtain rfl := eq_of_key hids hm hmem hpm.1.1.1
        rw [(at_iff.mp hat.1).1, (of_iff.mp hp.1.1.1).1]
    · exact ⟨hrefl, fun m hm => nomatch hm⟩

theorem performOp_mailStep (env : Env) (o : Op) (hids : (db.mailbox.map (·.id)).Nodup) :
    Grows (MailStep db) (fun _ => False) db.mailbox (performOp db env o).1.mailbox := by
  by_cases hclaim : ∃ a b c, o = .claimNext a b c
  · obtain ⟨a, b, c, rfl⟩ := hclaim
    exact (claimNext_mailbox hids).1
  · exact (performOp_mailbox db env fun a b c he => hclaim ⟨a, b, c, he⟩).mono
      (fun m _ m' h => ⟨h.ref, fun hst => .inl (h.sending hst)⟩) fun _ hf => hf

/-- A quiet session stays quiet while its status is one of the three. -/
theorem Quiet.step {r r' : SessionRow} (hq : Quiet db r) (hr : r ∈ db.sessions)
    (hnodup : (db.sessions.map (·.id)).Nodup) (hid : r'.id = r.id)
    (hst : r'.status = .closing ∨ r'.status = .closed ∨ r'.status = .failed)
    (hm : Grows (MailStep db) (fun _ => False) db.mailbox db'.mailbox) : Quiet db' r' := by
  refine ⟨hst, fun m' hm' hsess hsending => ?_⟩
  obtain ⟨m, hmem, hstep⟩ | hf := hm.of_mem hm'
  · have hsame : m.sessionId = r.id := by rw [← (ref_eq_iff.mp hstep.ref).2.1, hsess, hid]
    obtain hs | ⟨s, hs, hsid, hidle⟩ := hstep.sending hsending
    · exact hq.2 m hmem hsame hs
    · obtain rfl := eq_of_key hnodup hs hr (hsid.trans hsame)
      obtain h | h | h := hq.1
      · rw [h] at hidle
        cases hidle
      · rw [h] at hidle
        cases hidle
      · rw [h] at hidle
        cases hidle
  · exact hf.elim

end Tables

section Step

variable {Φ : ℕ → Phase} {s t : System} {es : List Entry} {r : SessionRow} {st : SessionStatus}

/-- What a step that adds the entries `es` may make of the status of a session. -/
structure Lawful (log es : List Entry) (r : SessionRow) (st : SessionStatus) : Prop where
  claimed : st = .closing ∨ st = .closed → Doomed log r ∨ ∃ i, Entry.claimed i r.id ∈ es
  doomed : Doomed log r → st = .closing ∨ st = .closed ∨ st = .failed
  stays : r.status = .closed → st = .closed
  closed : st = .closed → r.status = .closed ∨ ∃ i, Entry.closed i r.id ∈ es
  held : ∀ i, Unreleased i r.id log → (∀ e ∈ es, e.releases i r.id = false) →
    st = .closing ∨ st = .closed

/-- A step that claims a session does nothing else: the session was closable and is closing. -/
def ClaimsAlone (db db' : Tables) (es : List Entry) : Prop :=
  ∀ j x, Entry.claimed j x ∈ es → es = [.claimed j x] ∧ Settled db.mailbox db'.mailbox ∧
    (∃ r ∈ db.sessions, r.id = x ∧ Closable db r) ∧ ∀ r ∈ db'.sessions, r.id = x → r.status = .closing

theorem claimsAlone_of_not_mem {db db' : Tables} (h : ∀ j x, Entry.claimed j x ∉ es) :
    ClaimsAlone db db' es :=
  fun j x hx => absurd hx (h j x)

/-- A step of the sessions and the mailboxes. -/
structure Moved (s t : System) (es : List Entry) : Prop where
  log : t.log = s.log ++ es
  mail : Grows (MailStep s.tables) (fun _ => False) s.tables.mailbox t.tables.mailbox
  sessions : Stepped (Lawful s.log es) s.tables.sessions t.tables.sessions
  alone : ClaimsAlone s.tables t.tables es

theorem Closable.not_closing {db : Tables} (h : Closable db r) : r.status ≠ .closing ∧ r.status ≠ .closed := by
  obtain hidle | hfailed := h.status
  · rw [hidle]
    decide
  · rw [hfailed]
    decide

theorem CloseInv.not_doomed (h : CloseInv Φ s) (hr : r ∈ s.tables.sessions) {m : MailboxRow}
    (hm : m ∈ s.tables.mailbox) (hsession : m.sessionId = r.id) (hsending : m.status = .sending) :
    ¬ Doomed s.log r :=
  fun hd => (h.doomed r hr hd).2 m hm hsession hsending

/-- A worker with a row in delivery may change its session. -/
theorem CloseInv.lawful_of_sending (h : CloseInv Φ s) (hr : r ∈ s.tables.sessions) {m : MailboxRow}
    (hm : m ∈ s.tables.mailbox) (hsession : m.sessionId = r.id) (hsending : m.status = .sending)
    (hclosing : st ≠ .closing) (hclosed : st ≠ .closed) : Lawful s.log es r st := by
  have hfree := h.not_doomed hr hm hsession hsending
  refine ⟨?_, fun hd => absurd hd hfree, fun hc => absurd (.inr (.inr hc)) hfree,
    fun hc => absurd hc hclosed, fun i hi => absurd (.inl ⟨i, hi.mem⟩) hfree⟩
  rintro (hc | hc)
  · exact absurd hc hclosing
  · exact absurd hc hclosed

/-- The row that a worker holds is still for its session. -/
theorem CloseInv.item_session (h : CloseInv Φ s) {i : ℕ} {item m : MailboxRow}
    (hitem : (Φ i).item = some item) (hm : m ∈ s.tables.mailbox) (hid : m.id = item.id) :
    m.sessionId = item.sessionId := by
  obtain ⟨m', hm', href⟩ := h.items i item hitem
  obtain ⟨hid', hsession, -⟩ := ref_eq_iff.mp href
  obtain rfl := eq_of_key h.ids hm hm' (hid.trans hid'.symm)
  exact hsession

theorem CloseInv.items_of_mail (h : CloseInv Φ s) {db db' : Tables}
    (hmail : Grows (MailStep db) (fun _ => False) s.tables.mailbox db'.mailbox) {i : ℕ} {m : MailboxRow}
    (hitem : (Φ i).item = some m) : ∃ m' ∈ db'.mailbox, m'.ref = m.ref := by
  obtain ⟨m₁, hm₁, href⟩ := h.items i m hitem
  obtain ⟨m₂, hm₂, hstep⟩ := hmail.exists_of_mem hm₁
  exact ⟨m₂, hm₂, hstep.ref.trans href⟩

theorem CloseInv.lawful_settle (h : CloseInv Φ s) {i : ℕ} {k : DeliveryRef}
    (hallowed : ∃ m, (Φ i).item = some m ∧ k = m.ref) (hr : r ∈ s.tables.sessions)
    (hmoves : r.at k.sessionId k.tenantId k.sourceId = true ∧ InDelivery s.tables k ∧
      st ≠ .closing ∧ st ≠ .closed) : Lawful s.log es r st := by
  obtain ⟨item, hitem, rfl⟩ := hallowed
  obtain ⟨hat, ⟨m, hm, hsending⟩, hclosing, hclosed⟩ := hmoves
  have hid : m.id = item.id := by
    simp only [DeliveryRef.sending, DeliveryRef.row, MailboxRow.at, Bool.and_eq_true,
      decide_eq_true_eq] at hsending
    exact hsending.1.1.1
  refine h.lawful_of_sending hr hm ?_ (DeliveryRef.sending_status hsending) hclosing hclosed
  exact (h.item_session hitem hm hid).trans (at_iff.mp hat).1.symm

/-- What operation `o` of run `i` does is lawful. -/
def LawfulOp (s : System) (i : ℕ) (env : Env) (o : Op) : Prop :=
  Stepped (Lawful s.log (entries i o (performOp s.tables env o).2)) s.tables.sessions
      (performOp s.tables env o).1.sessions ∧
    ClaimsAlone s.tables (performOp s.tables env o).1 (entries i o (performOp s.tables env o).2)

/-- Two closes that both hold a session: one has been overtaken. -/
theorem eq_of_not_overtaken {log : List Entry} {i j : ℕ} {x : String} (hex : ClosesExclusively log)
    (hi : Since (.claimed i x) (fun e => e.overtakes x = false) log) (hj : Unreleased j x log) : i = j := by
  obtain ⟨pre, post, rfl, hpost⟩ := since_iff.mp hi
  obtain ⟨pre', post', hsplit, hpost'⟩ := since_iff.mp hj
  obtain ⟨as, has, has'⟩ | ⟨bs, hbs, hbs'⟩ := List.append_eq_append_iff.mp hsplit
  · cases as with
    | nil =>
      have hhead := (List.cons.inj has').1
      injection hhead
    | cons e as =>
      obtain ⟨rfl, rfl⟩ := List.cons.inj has'
      have hover := hpost (.claimed j x) (by simp)
      simp [Entry.overtakes] at hover
  · cases bs with
    | nil =>
      have hhead := (List.cons.inj hbs').1
      injection hhead with hij
      exact hij.symm
    | cons e bs =>
      obtain ⟨rfl, rfl⟩ := List.cons.inj hbs'
      refine absurd ?_ (hex pre (.claimed i x) post rfl i x rfl j)
      exact since_iff.mpr ⟨pre', bs, hbs, fun y hy => hpost' y (List.mem_append_left _ hy)⟩

theorem CloseInv.lawful_claim (h : CloseInv Φ s) (i : ℕ) (env : Env) (sessionId tenantId sourceId : String)
    (force : Bool) (now : Int) :
    LawfulOp s i env (.claimForClose sessionId tenantId sourceId force now) := by
  have hsettled := claimSessionForClose_mailbox s.tables sessionId tenantId sourceId force now
  obtain ⟨hsame, result, hres⟩ | ⟨⟨claim, hres⟩, row, hrow, hclosable, hsessions⟩ :=
    claimSessionForClose_cases s.tables sessionId tenantId sourceId force now
  · simp only [LawfulOp, performOp, entries, hres, hsame]
    exact ⟨stepped_refl _, claimsAlone_of_not_mem fun j x => List.not_mem_nil⟩
  · simp only [LawfulOp, performOp, entries, hres]
    have hmem := List.mem_of_find?_eq_some hrow
    have hat := List.find?_some hrow
    have hid : row.id = sessionId := (at_iff.mp hat).1
    have hnot : ∀ r ∈ s.tables.sessions, r.at sessionId tenantId sourceId = true → r = row := fun r hr hr' =>
      eq_of_key h.sessionIds hr hmem ((at_iff.mp hr').1.trans hid.symm)
    constructor
    · rw [hsessions]
      refine stepped_put_of_mem fun r hr hp => ?_
      obtain rfl := hnot r hr ((Bool.and_eq_true _ _).mp hp).1
      refine ⟨fun _ => .inr ⟨i, by simp [hid]⟩, fun _ => .inl rfl, fun hc => ?_, fun hc => (by cases hc),
        fun _ _ _ => .inl rfl⟩
      exact (hclosable.not_closing.2 hc).elim
    · intro j x hx
      have hjx := List.mem_singleton.mp hx
      injection hjx with hj hx'
      subst hj hx'
      refine ⟨rfl, hsettled, ⟨row, hmem, hid, hclosable⟩, fun r hr hrid => ?_⟩
      rw [hsessions] at hr
      obtain ⟨r', hr', rfl⟩ := List.mem_map.mp hr
      have hrid' : r'.id = row.id := by
        rw [hid, ← hrid]
        split <;> rfl
      obtain rfl := eq_of_key h.sessionIds hr' hmem hrid'
      simp [hat, SessionRow.put]

theorem CloseInv.lawful_closed (h : CloseInv Φ s) {i : ℕ} (env : Env) {sessionId : String}
    (hallowed : (Φ i).closing = some sessionId) (tenantId sourceId reason : String) (now : Int) :
    LawfulOp s i env (.recordClosed sessionId tenantId sourceId reason now) := by
  cases hrec : recordClosed s.tables ⟨env.hex, sessionId, tenantId, sourceId, now⟩ reason with
  | error e =>
    simp only [LawfulOp, performOp, hrec, done, Except.map, keepOnError, entries]
    exact ⟨stepped_refl _, claimsAlone_of_not_mem fun j x => List.not_mem_nil⟩
  | ok db =>
    simp only [LawfulOp, performOp, hrec, done, Except.map, keepOnError, entries]
    refine ⟨?_, claimsAlone_of_not_mem fun j x => by simp⟩
    rw [(recordSessionEvent_ok hrec).1]
    refine stepped_put_of_mem fun r hr hat => ?_
    have hid : r.id = sessionId := (at_iff.mp hat).1
    have hclaimed : Entry.claimed i r.id ∈ s.log := hid ▸ h.claims i sessionId hallowed
    exact ⟨fun _ => .inl (.inl ⟨i, hclaimed⟩), fun _ => .inr (.inl rfl), fun _ => rfl,
      fun _ => .inr ⟨i, by simp [hid]⟩, fun _ _ _ => .inr rfl⟩

theorem CloseInv.lawful_failure (h : CloseInv Φ s) {i : ℕ} (env : Env) {sessionId : String}
    (hstands : Since (.claimed i sessionId) (fun e => e.overtakes sessionId = false) s.log)
    (tenantId sourceId error : String) (now : Int) :
    LawfulOp s i env (.recordCloseFailure sessionId tenantId sourceId error now) := by
  cases hrec : recordCloseFailure s.tables ⟨env.hex, sessionId, tenantId, sourceId, now⟩ error with
  | error e =>
    simp only [LawfulOp, performOp, hrec, done, Except.map, keepOnError, entries]
    exact ⟨stepped_refl _, claimsAlone_of_not_mem fun j x => List.not_mem_nil⟩
  | ok db =>
    simp only [LawfulOp, performOp, hrec, done, Except.map, keepOnError, entries]
    refine ⟨?_, claimsAlone_of_not_mem fun j x => by simp⟩
    rw [(recordSessionEvent_ok hrec).1]
    refine stepped_put_of_mem fun r hr hat => ?_
    obtain rfl : r.id = sessionId := (at_iff.mp hat).1
    refine ⟨fun hc => by simp at hc, fun _ => .inr (.inr rfl), fun hc => ?_, fun hc => (by cases hc),
      fun j hj hes => ?_⟩
    · exact absurd hstands (h.closedSince r hr hc i)
    · obtain rfl := eq_of_not_overtaken h.exclusive hstands hj
      have hreleased := hes (.closeFailed i r.id) (by simp)
      simp [Entry.releases] at hreleased

/-- What an operation does whose outcome stands. -/
theorem CloseInv.performOp_lawful (h : CloseInv Φ s) {i : ℕ} {o : Op} (env : Env)
    (hallowed : discipline.allowed (Φ i) o) (hnext : s.nextOp i = some o)
    (hstands : OutcomeStands s (.advance i env)) : LawfulOp s i env o := by
  have hmoves := performOp_sessions s.tables env o
  rw [OutcomeStands, hnext] at hstands
  cases o with
  | time | readySessions | getSession | send | capture | abortDelivery | closeBackend
  | selectCloseCandidates | markFailed | markAccepted | claimNext | recordEvent =>
    exact ⟨hmoves.mono fun r _ st hM => False.elim hM,
      claimsAlone_of_not_mem fun j x => by simp [entries]⟩
  | setBusy session item =>
    refine ⟨hmoves.mono fun r hr st hM => ?_, claimsAlone_of_not_mem fun j x => by simp [entries]⟩
    obtain ⟨hat, rfl⟩ := hM
    obtain ⟨hitem, howns⟩ := hallowed
    obtain ⟨m, hm, hid, hsending⟩ := hstands
    refine h.lawful_of_sending hr hm ?_ hsending (by decide) (by decide)
    rw [h.item_session hitem hm hid, (at_iff.mp hat).1, (owns_iff.mp howns).1]
  | failStaleSending tenantId olderThanS backendPrefix =>
    refine ⟨hmoves.mono fun r hr st hM => ?_, claimsAlone_of_not_mem fun j x => by simp [entries]⟩
    obtain ⟨rfl, m, hm, hsession, hsending⟩ := hM
    exact h.lawful_of_sending hr hm hsession hsending (by decide) (by decide)
  | deferAccepted | deferPending | completeDelivery | failDelivery =>
    exact ⟨hmoves.mono fun r hr st hM => h.lawful_settle hallowed hr hM,
      claimsAlone_of_not_mem fun j x => by simp [entries]⟩
  | claimForClose sessionId tenantId sourceId force now =>
    exact h.lawful_claim i env sessionId tenantId sourceId force now
  | recordCloseFailure sessionId tenantId sourceId error now =>
    exact h.lawful_failure env hstands tenantId sourceId error now
  | recordClosed sessionId tenantId sourceId reason now =>
    exact h.lawful_closed env hallowed tenantId sourceId reason now

end Step

section Run

variable {Φ Ψ : ℕ → Phase} {s t : System} {es : List Entry}

/-- A step that stays within the moves of the sessions keeps the invariant. -/
theorem CloseInv.move (h : CloseInv Φ s) (hstep : Moved s t es)
    (hfollows : ∀ i p, t.runs[i]? = some p → Follows discipline (Ψ i) p)
    (hidle : ∀ i, t.runs.length ≤ i → Ψ i = {})
    (hitems : ∀ i m, (Ψ i).item = some m → ∃ m' ∈ t.tables.mailbox, m'.ref = m.ref)
    (hclaims : ∀ i x, (Ψ i).closing = some x → Entry.claimed i x ∈ t.log) : CloseInv Ψ t := by
  have hids : t.tables.sessions.map (·.id) = s.tables.sessions.map (·.id) :=
    hstep.sessions.map_eq fun r _ r' hr => hr.id
  have horigin : ∀ r' ∈ t.tables.sessions, ∃ r ∈ s.tables.sessions, SessionStep (Lawful s.log es) r r' :=
    fun r' hr' => (hstep.sessions.of_mem hr').resolve_right id
  refine ⟨hfollows, hidle, ?_, hids ▸ h.sessionIds, ?_, hitems, hclaims, ?_, ?_, ?_, ?_, ?_⟩
  · rw [hstep.mail.map_eq fun m _ m' hm => (ref_eq_iff.mp hm.ref).1]
    exact h.ids
  · intro m' hm'
    obtain ⟨m, hm, hmail⟩ | hf := hstep.mail.of_mem hm'
    · rw [hids, (ref_eq_iff.mp hmail.ref).2.1]
      exact h.owned m hm
    · exact hf.elim
  · intro i x hx
    rw [hids]
    rw [hstep.log] at hx
    obtain hx | hx := List.mem_append.mp hx
    · exact h.known i x hx
    · obtain ⟨-, -, ⟨r, hr, hid, -⟩, -⟩ := hstep.alone i x hx
      exact hid ▸ List.mem_map_of_mem hr
  · intro r' hr' hdoomed
    obtain ⟨r, hr, hrow⟩ := horigin r' hr'
    by_cases hnew : ∃ i, Entry.claimed i r.id ∈ es
    · obtain ⟨i, hi⟩ := hnew
      obtain ⟨-, hsettled, ⟨r₀, -, hid, hclosable⟩, hclosing⟩ := hstep.alone i r.id hi
      refine ⟨.inl (hclosing r' hr' hrow.id), fun m' hm' hsession hsending => ?_⟩
      obtain ⟨m, hm, hmail⟩ | hf := hsettled.of_mem hm'
      · refine hclosable.quiet m hm ?_ (hmail.sending hsending)
        rw [← (ref_eq_iff.mp hmail.ref).2.1, hsession, hrow.id, hid]
      · exact hf.elim
    · have hold : Doomed s.log r := by
        obtain ⟨i, hi⟩ | hstatus := hdoomed
        · rw [hstep.log, hrow.id] at hi
          obtain hi | hi := List.mem_append.mp hi
          · exact .inl ⟨i, hi⟩
          · exact absurd ⟨i, hi⟩ hnew
        · obtain hsame | hlaw := hrow.status
          · exact .inr (hsame ▸ hstatus)
          · exact (hlaw.claimed hstatus).resolve_right hnew
      have hquiet := h.doomed r hr hold
      refine hquiet.step hr h.sessionIds hrow.id ?_ hstep.mail
      obtain hsame | hlaw := hrow.status
      · rw [hsame]
        exact hquiet.1
      · exact hlaw.doomed hold
  · intro r' hr' hclosed i hsince
    obtain ⟨r, hr, hrow⟩ := horigin r' hr'
    rw [hstep.log, hrow.id] at hsince
    by_cases hnew : Entry.claimed i r.id ∈ es
    · obtain ⟨-, -, -, hclosing⟩ := hstep.alone i r.id hnew
      rw [hclosing r' hr' hrow.id] at hclosed
      cases hclosed
    · obtain ⟨hold, hover⟩ := Since.of_append hnew hsince
      have hclosedBefore : r.status = .closed := by
        obtain hsame | hlaw := hrow.status
        · exact hsame.symm.trans hclosed
        · obtain hbefore | ⟨j, hj⟩ := hlaw.closed hclosed
          · exact hbefore
          · have hno := hover _ hj
            simp [Entry.overtakes] at hno
      exact h.closedSince r hr hclosedBefore i hold
  · intro r' hr' i hun
    obtain ⟨r, hr, hrow⟩ := horigin r' hr'
    rw [hstep.log, hrow.id] at hun
    by_cases hnew : Entry.claimed i r.id ∈ es
    · obtain ⟨-, -, -, hclosing⟩ := hstep.alone i r.id hnew
      exact .inl (hclosing r' hr' hrow.id)
    · obtain ⟨hold, hkept⟩ := Since.of_append hnew hun
      obtain hsame | hlaw := hrow.status
      · rw [hsame]
        exact h.held r hr i hold
      · exact hlaw.held i hold hkept
  · rw [hstep.log]
    refine always_append h.exclusive fun pre e post hes j x he i hun => ?_
    subst he
    obtain ⟨hone, -, ⟨r, hr, rfl, hclosable⟩, -⟩ := hstep.alone j x (by rw [hes]; simp)
    have hpre : pre = [] := by
      rw [hes] at hone
      cases pre with
      | nil => rfl
      | cons y ys => simp at hone
    rw [hpre, List.append_nil] at hun
    obtain hc | hc := h.held r hr i hun
    · exact hclosable.not_closing.1 hc
    · exact hclosable.not_closing.2 hc

theorem closing_next {φ : Phase} {i : ℕ} {o : Op} {res : Res o} {x : String}
    (h : (discipline.next φ o res).closing = some x) :
    φ.closing = some x ∨ Entry.claimed i x ∈ entries i o res := by
  cases o with
  | claimForClose sessionId tenantId sourceId force now =>
    cases hres : (res : CloseClaim) with
    | error e => simp [discipline, hres] at h
    | ok claim => exact .inr (by simpa [discipline, hres, entries] using h.symm)
  | recordCloseFailure | recordClosed => simp [discipline] at h
  | _ => exact .inl h

theorem advance_moved {i : ℕ} {env : Env} (h : CloseInv Φ s) (hstands : OutcomeStands s (.advance i env))
    (hstep : advance s i env = some t) : ∃ es, Moved s t es ∧ ∃ Ψ, CloseInv Ψ t := by
  obtain ⟨o, k, hi, rfl⟩ := advance_some hstep
  obtain ⟨hallowed, hfollows⟩ := follows_call.mp (h.follows i _ hi)
  have hlt : i < s.runs.length := (List.getElem?_eq_some_iff.mp hi).1
  obtain ⟨ψ, hψ⟩ : ∃ ψ : Phase, ψ = discipline.next (Φ i) o (performOp s.tables env o).2 := ⟨_, rfl⟩
  have hmail := performOp_mailStep env o h.ids
  obtain ⟨hsessions, halone⟩ := h.performOp_lawful env hallowed (by simp [System.nextOp, hi]) hstands
  have hmoved : Moved s ⟨(performOp s.tables env o).1, s.runs.set i (k (performOp s.tables env o).2),
      s.log ++ entries i o (performOp s.tables env o).2⟩ (entries i o (performOp s.tables env o).2) :=
    ⟨rfl, hmail, hsessions, halone⟩
  refine ⟨_, hmoved, Function.update Φ i ψ,
    h.move hmoved (fun j p hj => ?_) (fun j hj => ?_) (fun j m hm => ?_) fun j x hx => ?_⟩
  · obtain ⟨rfl, rfl⟩ | ⟨hne, hj⟩ := getElem?_set_cases hi hj
    · rw [Function.update_self, hψ]
      exact hfollows _
    · rw [Function.update_of_ne hne]
      exact h.follows j p hj
  · simp only [List.length_set] at hj
    rw [Function.update_of_ne (by omega)]
    exact h.idle j hj
  · have hkept : ∀ j, (Φ j).item = some m → ∃ m' ∈ (performOp s.tables env o).1.mailbox, m'.ref = m.ref := by
      intro j hj
      exact h.items_of_mail hmail hj
    by_cases hji : j = i
    · subst hji
      rw [Function.update_self, hψ] at hm
      cases o with
      | claimNext a b c => exact (claimNext_mailbox h.ids).2 m hm
      | _ => exact hkept j hm
    · rw [Function.update_of_ne hji] at hm
      exact hkept j hm
  · by_cases hji : j = i
    · subst hji
      rw [Function.update_self, hψ] at hx
      obtain hold | hnew := closing_next hx
      · exact List.mem_append_left _ (h.claims j x hold)
      · exact List.mem_append_right _ hnew
    · rw [Function.update_of_ne hji] at hx
      exact List.mem_append_left _ (h.claims j x hx)

theorem CloseInv.start {α : Type} (h : CloseInv Φ s) {program : Program α}
    (hp : Follows discipline {} program) : CloseInv Φ (s.start program) := by
  refine ⟨fun i p hi => ?_, fun i hi => h.idle i (le_trans ?_ hi), h.ids, h.sessionIds, h.owned, h.items,
    h.claims, h.known, h.doomed, h.closedSince, h.held, h.exclusive⟩
  · obtain hi | ⟨hle, hp'⟩ := getElem?_append_cases hi
    · exact h.follows i p hi
    · obtain rfl := List.mem_singleton.mp hp'
      rw [h.idle i hle]
      exact follows_bind hp fun _ _ => trivial
  · simp [System.start]

theorem CloseInv.insert (h : CloseInv Φ s) {row : SessionRow} (hnew : row.id ∉ s.tables.sessions.map (·.id)) :
    CloseInv Φ { s with tables := { s.tables with sessions := s.tables.sessions ++ [row] } } := by
  have hunknown : ∀ i, Entry.claimed i row.id ∉ s.log := fun i hi => hnew (h.known i row.id hi)
  have hall : ∀ {P : SessionRow → Prop}, (∀ r ∈ s.tables.sessions, P r) → P row →
      ∀ r ∈ s.tables.sessions ++ [row], P r := by
    intro P hold hrow r hr
    obtain hr | hr := List.mem_append.mp hr
    · exact hold r hr
    · exact List.mem_singleton.mp hr ▸ hrow
  have hmem : ∀ x ∈ s.tables.sessions.map (·.id), x ∈ (s.tables.sessions ++ [row]).map (·.id) := by
    intro x hx
    rw [List.map_append]
    exact List.mem_append_left _ hx
  refine ⟨h.follows, h.idle, h.ids, nodup_append_key h.sessionIds hnew,
    fun m hm => hmem _ (h.owned m hm), h.items, h.claims, fun i x hx => hmem x (h.known i x hx),
    hall h.doomed fun hd => ?_, hall h.closedSince fun _ i hi => hunknown i hi.mem,
    hall h.held fun i hi => absurd hi.mem (hunknown i), h.exclusive⟩
  refine ⟨?_, fun m hm hsession _ => hnew (hsession ▸ h.owned m hm)⟩
  obtain ⟨i, hi⟩ | hc | hc := hd
  · exact absurd hi (hunknown i)
  · exact .inl hc
  · exact .inr (.inl hc)

theorem CloseInv.enqueue (h : CloseInv Φ s) {a : PromptArgs}
    (hnew : a.mailboxId ∉ s.tables.mailbox.map (·.id))
    (hsession : ∃ r ∈ s.tables.sessions, r.at a.sessionId a.tenantId a.sourceId = true) :
    CloseInv Φ { s with tables := { s.tables with mailbox := s.tables.mailbox ++ [a.row] } } := by
  refine ⟨h.follows, h.idle, nodup_append_key h.ids hnew, h.sessionIds, fun m hm => ?_, fun i m hm => ?_,
    h.claims, h.known, fun r hr hd => ⟨(h.doomed r hr hd).1, fun m hm hid => ?_⟩, h.closedSince, h.held,
    h.exclusive⟩
  · obtain hm | hm := List.mem_append.mp hm
    · exact h.owned m hm
    · obtain rfl := List.mem_singleton.mp hm
      obtain ⟨r, hr, hat⟩ := hsession
      exact List.mem_map.mpr ⟨r, hr, (at_iff.mp hat).1⟩
  · obtain ⟨m', hm', href⟩ := h.items i m hm
    exact ⟨m', List.mem_append_left _ hm', href⟩
  · obtain hm | hm := List.mem_append.mp hm
    · exact (h.doomed r hr hd).2 m hm hid
    · obtain rfl := List.mem_singleton.mp hm
      intro hsending
      cases hsending

theorem recover_moved {a : RecoverArgs} {db : Tables} {ids : List String}
    (hrec : recoverStaleClosingSessions s.tables a = .ok (db, ids)) :
    Moved s { s with tables := db, log := s.log ++ ids.map .recovered } (ids.map .recovered) := by
  obtain ⟨hmailbox, hsessions⟩ := recoverStaleClosingSessions_ok hrec
  refine ⟨rfl, ?_, hsessions.mono fun r hr st hst => ?_,
    claimsAlone_of_not_mem fun j x => by simp⟩
  · rw [hmailbox]
    exact .refl fun m _ => ⟨rfl, .inl⟩
  · obtain ⟨hclosing, rfl, hin⟩ := hst
    refine ⟨fun hc => by simp at hc, fun _ => .inr (.inr rfl), fun hc => ?_, fun hc => (by cases hc),
      fun i _ hes => ?_⟩
    · rw [hclosing] at hc
      cases hc
    · have hreleased := hes (.recovered r.id) (List.mem_map_of_mem hin)
      simp [Entry.releases] at hreleased

/-- The session is closed. -/
def ClosedIn (s : System) (sessionId : String) : Prop :=
  ∃ r ∈ s.tables.sessions, r.id = sessionId ∧ r.status = .closed

theorem Moved.closed (h : Moved s t es) {x : String} (hx : ClosedIn s x) : ClosedIn t x := by
  obtain ⟨r, hr, hid, hclosed⟩ := hx
  obtain ⟨r', hr', hrow⟩ := h.sessions.exists_of_mem hr
  refine ⟨r', hr', hrow.id.trans hid, ?_⟩
  obtain hsame | hlaw := hrow.status
  · exact hsame.trans hclosed
  · exact hlaw.stays hclosed

/-- A step whose outcome stands keeps the invariant and every closed session. -/
theorem step_closeInv {l : Label} (h : CloseInv Φ s) (hstands : OutcomeStands s l) (hstep : step s l = some t) :
    (∃ Ψ, CloseInv Ψ t) ∧ ∀ x, ClosedIn s x → ClosedIn t x := by
  cases l with
  | insertSession row =>
    simp only [step] at hstep
    cases hins : insertSession s.tables row with
    | error e =>
      simp only [hins, Option.some.injEq] at hstep
      exact hstep ▸ ⟨⟨Φ, h⟩, fun x hx => hx⟩
    | ok db =>
      simp only [hins, Option.some.injEq] at hstep
      obtain ⟨rfl, hnew⟩ := insertSession_ok hins
      subst hstep
      refine ⟨⟨Φ, h.insert hnew⟩, fun x hx => ?_⟩
      obtain ⟨r, hr, hrest⟩ := hx
      exact ⟨r, List.mem_append_left _ hr, hrest⟩
  | enqueuePrompt a =>
    simp only [step] at hstep
    cases henq : enqueuePrompt s.tables a with
    | error e =>
      simp only [henq, Option.some.injEq] at hstep
      exact hstep ▸ ⟨⟨Φ, h⟩, fun x hx => hx⟩
    | ok p =>
      simp only [henq, Option.some.injEq] at hstep
      subst hstep
      obtain he | ⟨he, hnew, r, hr, hat, -⟩ := enqueuePrompt_ok (r := p.2) henq
      · rw [he]
        exact ⟨⟨Φ, h⟩, fun x hx => hx⟩
      · rw [he]
        exact ⟨⟨Φ, h.enqueue hnew ⟨r, hr, hat⟩⟩, fun x hx => hx⟩
  | drain c =>
    obtain rfl := Option.some.inj hstep
    exact ⟨⟨Φ, h.start (drainStoreOnce_follows c)⟩, fun x hx => hx⟩
  | close backends a =>
    obtain rfl := Option.some.inj hstep
    exact ⟨⟨Φ, h.start (closeSession_ends rfl backends a).follows⟩, fun x hx => hx⟩
  | closeIdle backends a =>
    obtain rfl := Option.some.inj hstep
    exact ⟨⟨Φ, h.start (closeIdleSessions_ends backends a).follows⟩, fun x hx => hx⟩
  | recover a =>
    simp only [step] at hstep
    cases hrec : recoverStaleClosingSessions s.tables a with
    | error e =>
      simp only [hrec, Option.some.injEq] at hstep
      exact hstep ▸ ⟨⟨Φ, h⟩, fun x hx => hx⟩
    | ok p =>
      simp only [hrec, Option.some.injEq] at hstep
      subst hstep
      have hmoved := recover_moved hrec
      refine ⟨⟨Φ, h.move hmoved h.follows h.idle (fun i m hm => ?_) fun i x hx => ?_⟩,
        fun x hx => hmoved.closed hx⟩
      · exact h.items_of_mail hmoved.mail hm
      · exact List.mem_append_left _ (h.claims i x hx)
  | advance i env =>
    obtain ⟨es, hmoved, hinv⟩ := advance_moved h hstands hstep
    exact ⟨hinv, fun x hx => hmoved.closed hx⟩

theorem closeInv_empty : CloseInv (fun _ => {}) {} :=
  ⟨by simp, fun _ _ => rfl, by simp, by simp, by simp, by simp, by simp, by simp, by simp, by simp, by simp,
    always_nil _⟩

end Run

/-- In every run in which a worker marks a session busy only while its row is in delivery, and a close records
its failure only if no other close has overtaken it, a closed session stays closed, and no session is claimed
for closing while another close holds it. -/
theorem closed_sessions_stay_closed (ls later : List Label) (s t : System) (hs : exec step {} ls = some s)
    (ht : exec step s later = some t) (hm : Meets step OutcomeStands {} (ls ++ later)) :
    (∀ r ∈ s.tables.sessions, r.status = .closed →
      ∃ r' ∈ t.tables.sessions, r'.id = r.id ∧ r'.status = .closed) ∧ ClosesExclusively t.log := by
  obtain ⟨hbefore, hafter⟩ := hm.of_append hs
  have hkeeps : ∀ (u : System) (l : Label) (v : System), (∃ Φ, CloseInv Φ u) → OutcomeStands u l →
      step u l = some v → ∃ Ψ, CloseInv Ψ v := by
    rintro u l v ⟨Φ, h⟩ hstands hstep
    exact (step_closeInv h hstands hstep).1
  have hinv : ∃ Φ, CloseInv Φ s := exec_invariant_of_meets hkeeps ⟨_, closeInv_empty⟩ hbefore hs
  obtain ⟨Ψ, hlast⟩ : ∃ Ψ, CloseInv Ψ t := exec_invariant_of_meets hkeeps hinv hafter ht
  have hclosed : ∀ x, ClosedIn s x → ClosedIn t x := by
    refine exec_relates_of_meets (R := fun u v => ∀ x, ClosedIn u x → ClosedIn v x)
      (fun u x hx => hx) (fun u v w huv hvw x hx => hvw x (huv x hx)) hkeeps ?_ hinv hafter ht
    rintro u l v ⟨Φ, h⟩ hstands hstep
    exact (step_closeInv h hstands hstep).2
  exact ⟨fun r hr hst => hclosed r.id ⟨r, hr, rfl, hst⟩, hlast.exclusive⟩

section Example

def exampleClose (now : Int) : CloseArgs where
  sessionId := "rs_1"
  tenantId := "t"
  sourceId := "chat"
  now := some now

/-- A prompt is delivered to a session, a first close of the session fails, and a second one closes it. -/
def retriedClose : List Label :=
  [.insertSession exampleSession, .enqueuePrompt (examplePrompt "sm_1" 1), .drain exampleWorker] ++
    advances 0 11 { now := 100, hex := "1" } ++
  [.close (fun _ => some {}) (exampleClose 200)] ++
    advances 1 4 { now := 200, hex := "2", close := .error (.raised "connection lost") } ++
  [.close (fun _ => some {}) (exampleClose 500)] ++
    advances 2 4 { now := 500, hex := "3" }

/-- Another close of the session, which is refused. -/
def secondClose : List Label :=
  [.close (fun _ => some {}) (exampleClose 600)] ++ advances 3 1 { now := 600, hex := "4" }

theorem closed_sessions_stay_closed_example : ∃ s t, exec step {} retriedClose = some s ∧
    exec step s secondClose = some t ∧ s.tables.sessions.map (·.status) = [.closed] ∧
    (∀ r ∈ s.tables.sessions, r.status = .closed →
      ∃ r' ∈ t.tables.sessions, r'.id = r.id ∧ r'.status = .closed) := by
  have h : (exec step {} retriedClose).map (fun s => (s.tables.sessions.map (·.status),
      (exec step s secondClose).isSome)) = some ([.closed], true) := by
    decide +kernel
  have hm : Meets step OutcomeStands {} (retriedClose ++ secondClose) := by
    decide +kernel
  obtain ⟨s, hs, hvalue⟩ := Option.map_eq_some_iff.mp h
  obtain ⟨hstatus, hsome⟩ := Prod.mk.inj hvalue
  obtain ⟨t, ht⟩ := Option.isSome_iff_exists.mp hsome
  exact ⟨s, t, hs, ht, hstatus, (closed_sessions_stay_closed retriedClose secondClose s t hs ht hm).1⟩

/-- A close claims the session, recovery marks it failed, and a second close closes it. -/
def overtakenClose : List Label :=
  [.insertSession exampleSession, .close (fun _ => some {}) (exampleClose 1)] ++
    advances 0 2 { now := 1 } ++
  [.recover { tenantId := "t", now := 400, hexes := fun _ => "r" },
    .close (fun _ => some {}) (exampleClose 500)] ++
    advances 1 4 { now := 500, hex := "2" }

/-- The backend fails the first close. -/
def lateFailure : List Label :=
  advances 0 2 { now := 600, hex := "1", close := .error (.raised "connection lost") }

/-- The late failure of the first close takes the session out of `closed`. -/
theorem overtaken_close_reopens : ∃ s t, exec step {} overtakenClose = some s ∧
    exec step s lateFailure = some t ∧ s.tables.sessions.map (fun r => (r.id, r.status)) = [("rs_1", .closed)] ∧
    t.tables.sessions.map (fun r => (r.id, r.status)) = [("rs_1", .failed)] := by
  have h : (exec step {} overtakenClose).map (fun s => (s.tables.sessions.map (fun r => (r.id, r.status)),
      (exec step s lateFailure).map fun t => t.tables.sessions.map fun r => (r.id, r.status))) =
      some ([("rs_1", .closed)], some [("rs_1", .failed)]) := by
    decide +kernel
  obtain ⟨s, hs, hvalue⟩ := Option.map_eq_some_iff.mp h
  obtain ⟨hclosed, hlate⟩ := Prod.mk.inj hvalue
  obtain ⟨t, ht, hfailed⟩ := Option.map_eq_some_iff.mp hlate
  exact ⟨s, t, hs, ht, hclosed, hfailed⟩

end Example

end Soveren.Sessions
