import Soveren.Sessions.Effects

/-! Prompts of a session are delivered in the order of their enqueueing, one at a time and at most
once. A row with an attempt has been claimed from the queue; this mark never goes away, and no
row before a marked row of its session is queued or in delivery. -/
namespace Soveren.Sessions
open Soveren.Relational Soveren.Process Soveren.Run

/-- The rows of a mailbox at clock `now`. -/
structure MailInv (now : Int) (db : Tables) : Prop where
  ids : (db.mailbox.map (·.id)).Nodup
  sessionIds : (db.sessions.map (·.id)).Nodup
  owned : ∀ m ∈ db.mailbox, ∃ s ∈ db.sessions, s.owns m = true
  ordered : db.mailbox.Pairwise createdOrder
  past : ∀ m ∈ db.mailbox, m.createdAt ≤ now
  queued : ∀ m ∈ db.mailbox, m.status = .queued → m.attempts = 0 ∧ m.runAfter = 0
  sending : ∀ m ∈ db.mailbox, m.status = .sending → 0 < m.attempts
  fifo : db.mailbox.Pairwise fun x y => x.sessionId = y.sessionId → 0 < y.attempts →
    x.status ≠ .queued ∧ x.status ≠ .sending

section Mailbox

variable {now : Int} {db db' : Tables}

theorem mailInv_empty (now : Int) : MailInv now {} :=
  ⟨by simp, by simp, by simp, by simp, by simp, by simp, by simp, by simp⟩

theorem owns_iff {s : SessionRow} {m : MailboxRow} :
    s.owns m = true ↔ s.id = m.sessionId ∧ s.tenantId = m.tenantId ∧ s.sourceId = m.sourceId := by
  simp [SessionRow.owns, and_assoc]

theorem at_iff {s : SessionRow} {sessionId tenantId sourceId : String} :
    s.at sessionId tenantId sourceId = true ↔
      s.id = sessionId ∧ s.tenantId = tenantId ∧ s.sourceId = sourceId := by
  simp [SessionRow.at, and_assoc]

theorem of_iff {m : MailboxRow} {sessionId tenantId sourceId : String} :
    m.of sessionId tenantId sourceId = true ↔
      m.sessionId = sessionId ∧ m.tenantId = tenantId ∧ m.sourceId = sourceId := by
  simp [MailboxRow.of, and_assoc]

theorem ref_eq_iff {m m' : MailboxRow} : m'.ref = m.ref ↔ m'.id = m.id ∧
    m'.sessionId = m.sessionId ∧ m'.tenantId = m.tenantId ∧ m'.sourceId = m.sourceId := by
  simp [MailboxRow.ref]

/-- The rows of a session share its conversation. -/
theorem MailInv.of_session (h : MailInv now db) {x y : MailboxRow} (hx : x ∈ db.mailbox)
    (hy : y ∈ db.mailbox) (hs : x.sessionId = y.sessionId) {tenantId sourceId : String}
    (hof : y.of y.sessionId tenantId sourceId = true) :
    x.of y.sessionId tenantId sourceId = true := by
  obtain ⟨s, hsmem, hown⟩ := h.owned x hx
  obtain ⟨s', hs'mem, hown'⟩ := h.owned y hy
  obtain ⟨hid, ht, hsrc⟩ := owns_iff.mp hown
  obtain ⟨hid', ht', hsrc'⟩ := owns_iff.mp hown'
  obtain rfl : s = s' := eq_of_key h.sessionIds hsmem hs'mem (by rw [hid, hid', hs])
  obtain ⟨-, hyt, hys⟩ := of_iff.mp hof
  exact of_iff.mpr ⟨hs, by rw [← ht, ht', hyt], by rw [← hsrc, hsrc', hys]⟩

/-- Rows on their way out keep the order. -/
theorem MailInv.settle {M : SessionRow → SessionStatus → Prop} (h : MailInv now db)
    (hm : Settled db.mailbox db'.mailbox) (hs : Stepped M db.sessions db'.sessions) :
    MailInv now db' where
  ids := by
    rw [hm.map_eq fun r _ s hr => (ref_eq_iff.mp hr.ref).1]
    exact h.ids
  sessionIds := by
    rw [hs.map_eq fun r _ s hr => hr.id]
    exact h.sessionIds
  owned := by
    intro m' hm'
    obtain ⟨m, hmem, hr⟩ | hfalse := hm.of_mem hm'
    · obtain ⟨s, hsmem, hown⟩ := h.owned m hmem
      obtain ⟨s', hs', hstep⟩ := hs.exists_of_mem hsmem
      obtain ⟨-, he1, he2, he3⟩ := ref_eq_iff.mp hr.ref
      obtain ⟨h1, h2, h3⟩ := owns_iff.mp hown
      refine ⟨s', hs', owns_iff.mpr ⟨?_, ?_, ?_⟩⟩
      · rw [hstep.id, h1, he1]
      · rw [hstep.tenantId, h2, he2]
      · rw [hstep.sourceId, h3, he3]
    · exact hfalse.elim
  ordered := by
    refine hm.pairwise h.ordered fun r _ s _ r' s' hr hs hrs => ?_
    rw [createdOrder, hr.createdAt, hs.createdAt]
    exact hrs
  past := hm.forall_mem h.past (fun r _ s hr hp => hr.createdAt ▸ hp) fun _ hf => hf.elim
  queued := by
    refine hm.forall_mem h.queued (fun r _ s hr hq hst => ?_) fun _ hf => hf.elim
    have he := hr.queued hst
    rw [he] at hst ⊢
    exact hq hst
  sending := by
    refine hm.forall_mem h.sending (fun r _ s hr hq hst => ?_) fun _ hf => hf.elim
    exact hr.claimed (hq (hr.sending hst))
  fifo := by
    refine hm.pairwise h.fifo fun x _ y hy x' y' hx' hy' hxy hsame hstarted => ?_
    obtain ⟨-, hxs, -, -⟩ := ref_eq_iff.mp hx'.ref
    obtain ⟨-, hys, -, -⟩ := ref_eq_iff.mp hy'.ref
    have hsame' : x.sessionId = y.sessionId := by rw [← hxs, ← hys, hsame]
    have hstarted' : 0 < y.attempts := by
      obtain hpos | hst := hy'.started hstarted
      · exact hpos
      · exact h.sending y hy hst
    obtain ⟨hq, hst⟩ := hxy hsame' hstarted'
    refine ⟨fun hc => hq ?_, fun hc => hst (hx'.sending hc)⟩
    rw [← hx'.queued hc]
    exact hc

/-- Taking the first queued row of a session with no row in delivery keeps the order. -/
theorem MailInv.claim (h : MailInv now db) {before after : List MailboxRow} {item : MailboxRow}
    {sessionId tenantId sourceId : String} {t : Int} (hsplit : db.mailbox = before ++ item :: after)
    (hof : item.of sessionId tenantId sourceId = true) (hqueued : item.status = .queued)
    (hdue : item.runAfter ≤ t)
    (hfree : ∀ m ∈ db.mailbox, m.of sessionId tenantId sourceId = true → m.status ≠ .sending)
    (hfirst : ∀ m ∈ before, m.of sessionId tenantId sourceId = true → m.runAfter ≤ t →
      m.status ≠ .queued) :
    MailInv now { db with mailbox := before ++ item.claim t :: after } := by
  have hitem : item ∈ db.mailbox := by rw [hsplit]; simp
  have hmem : ∀ m ∈ before ++ item.claim t :: after, m = item.claim t ∨ m ∈ db.mailbox := by
    intro m hm
    rw [hsplit]
    simp only [List.mem_append, List.mem_cons] at hm ⊢
    tauto
  have hrun : item.runAfter = 0 := (h.queued item hitem hqueued).2
  refine ⟨?_, h.sessionIds, ?_, ?_, ?_, ?_, ?_, ?_⟩
  · have hids := h.ids
    rw [hsplit] at hids
    simpa [MailboxRow.claim] using hids
  · intro m hm
    obtain rfl | hm := hmem m hm
    · exact h.owned item hitem
    · exact h.owned m hm
  · have hord := h.ordered
    rw [hsplit] at hord
    simpa only [List.pairwise_append, List.pairwise_cons, List.mem_cons, forall_eq_or_imp, createdOrder,
      MailboxRow.claim] using hord
  · intro m hm
    obtain rfl | hm := hmem m hm
    · exact h.past item hitem
    · exact h.past m hm
  · intro m hm hst
    obtain rfl | hm := hmem m hm
    · cases hst
    · exact h.queued m hm hst
  · intro m hm hst
    obtain rfl | hm := hmem m hm
    · exact Nat.succ_pos _
    · exact h.sending m hm hst
  · have hfifo := h.fifo
    rw [hsplit, List.pairwise_append, List.pairwise_cons] at hfifo
    obtain ⟨hbefore, ⟨hafter, hrest⟩, hcross⟩ := hfifo
    refine List.pairwise_append.mpr ⟨hbefore, List.pairwise_cons.mpr ⟨fun y hy hs hpos => ?_, hrest⟩,
      fun x hx y hy hs hpos => ?_⟩
    · exact absurd hqueued (hafter y hy hs hpos).1
    · obtain rfl | hy := List.mem_cons.mp hy
      · have hxmem : x ∈ db.mailbox := by rw [hsplit]; exact List.mem_append_left _ hx
        have hsess : item.sessionId = sessionId := (of_iff.mp hof).1
        have hxof : x.of sessionId tenantId sourceId = true := by
          have := h.of_session hxmem hitem hs (hsess ▸ hof)
          rwa [hsess] at this
        refine ⟨fun hq => hfirst x hx hxof ?_ hq, hfree x hxmem hxof⟩
        rw [(h.queued x hxmem hq).2, ← hrun]
        exact hdue
      · exact hcross x hx y (List.mem_cons_of_mem _ hy) hs hpos

theorem enqueuePrompt_ok {a : PromptArgs} {r : String × Bool} (h : enqueuePrompt db a = .ok (db', r)) :
    db' = db ∨ (db' = { db with mailbox := db.mailbox ++ [a.row] } ∧
      a.mailboxId ∉ db.mailbox.map (·.id) ∧ ∃ s ∈ db.sessions,
        s.at a.sessionId a.tenantId a.sourceId = true ∧ (s.status = .idle ∨ s.status = .busy)) := by
  unfold enqueuePrompt at h
  split at h
  · obtain ⟨_, -, h⟩ := bind_eq_ok h
    exact .inl (Prod.mk.inj (Except.ok.inj h)).1.symm
  · split at h
    · cases h
    · rename_i session hsession
      split at h
      · cases h
      · rename_i hstatus
        split at h
        · cases h
        · rename_i hnew
          obtain ⟨rfl, -⟩ := Prod.mk.inj (Except.ok.inj h)
          refine .inr ⟨rfl, ?_, session, List.mem_of_find?_eq_some hsession,
            List.find?_some hsession, ?_⟩
          · simpa using hnew
          · cases hs : session.status <;> simp [hs] at hstatus ⊢

theorem MailInv.mono (h : MailInv now db) {now' : Int} (hle : now ≤ now') : MailInv now' db :=
  ⟨h.ids, h.sessionIds, h.owned, h.ordered, fun m hm => (h.past m hm).trans hle, h.queued, h.sending,
    h.fifo⟩

theorem MailInv.enqueue (h : MailInv now db) {a : PromptArgs} (hle : now ≤ a.now)
    (hnew : a.mailboxId ∉ db.mailbox.map (·.id))
    (hs : ∃ s ∈ db.sessions, s.at a.sessionId a.tenantId a.sourceId = true) :
    MailInv a.now { db with mailbox := db.mailbox ++ [a.row] } := by
  have hall : ∀ {P : MailboxRow → Prop}, (∀ m ∈ db.mailbox, P m) → P a.row →
      ∀ m ∈ db.mailbox ++ [a.row], P m := by
    intro P hold hrow m hm
    obtain hm | hm := List.mem_append.mp hm
    · exact hold m hm
    · exact List.mem_singleton.mp hm ▸ hrow
  refine ⟨nodup_append_key h.ids hnew, h.sessionIds, hall h.owned ?_, pairwise_append_row h.ordered ?_,
    hall (fun m hm => (h.past m hm).trans hle) le_rfl, hall h.queued fun _ => ⟨rfl, rfl⟩,
    hall h.sending (fun hst => nomatch hst), pairwise_append_row h.fifo fun x _ _ hpos => ?_⟩
  · obtain ⟨s, hmem, hat⟩ := hs
    exact ⟨s, hmem, owns_iff.mpr (at_iff.mp hat)⟩
  · exact fun x hx => (h.past x hx).trans hle
  · exact absurd hpos (lt_irrefl 0)

end Mailbox

/-- The rows whose prompt was sent to a backend. -/
def sentIds (log : List Entry) : List String :=
  log.filterMap fun e => match e with
    | .sent mailboxId => some mailboxId
    | _ => none

@[simp] theorem sentIds_append (log log' : List Entry) :
    sentIds (log ++ log') = sentIds log ++ sentIds log' := List.filterMap_append ..

/-- The row was claimed from the queue. -/
def Started (db : Tables) (mailboxId : String) : Prop :=
  ∃ m ∈ db.mailbox, m.id = mailboxId ∧ 0 < m.attempts

/-- A program that has claimed a row in a phase from the queue and not sent it yet. -/
def Phase.toSend (φ : Phase) (m : MailboxRow) : Prop := φ.item = some m ∧ φ.unsent = true

/-- What the programs of the pool hold, each in its phase. -/
structure SendInv (Φ : ℕ → Phase) (s : System) : Prop where
  follows : ∀ i p, s.runs[i]? = some p → Follows discipline (Φ i) p
  idle : ∀ i, s.runs.length ≤ i → Φ i = {}
  once : (sentIds s.log).Nodup
  sent : ∀ x ∈ sentIds s.log, Started s.tables x
  unsent : ∀ i m, (Φ i).toSend m → m.id ∉ sentIds s.log ∧ Started s.tables m.id
  distinct : ∀ i j m n, (Φ i).toSend m → (Φ j).toSend n → m.id = n.id → i = j

section Sending

variable {now : Int} {db db' : Tables} {s : System} {Φ : ℕ → Phase}

theorem Started.settle {x : String} (h : Started db x) (hm : Settled db.mailbox db'.mailbox) :
    Started db' x := by
  obtain ⟨m, hmem, hid, hpos⟩ := h
  obtain ⟨m', hmem', hr⟩ := hm.exists_of_mem hmem
  exact ⟨m', hmem', (ref_eq_iff.mp hr.ref).1.trans hid, hr.claimed hpos⟩

/-- A step that starts no row of its own and sends none. -/
theorem SendInv.quiet {t : System} (h : SendInv Φ s) (hruns : t.runs = s.runs)
    (hlog : sentIds t.log = sentIds s.log)
    (hstarted : ∀ x, Started s.tables x → Started t.tables x) : SendInv Φ t where
  follows := hruns ▸ h.follows
  idle := hruns ▸ h.idle
  once := hlog ▸ h.once
  sent x hx := hstarted x (h.sent x (hlog ▸ hx))
  unsent i m hm := ⟨hlog ▸ (h.unsent i m hm).1, hstarted _ (h.unsent i m hm).2⟩
  distinct := h.distinct

theorem SendInv.start {α : Type} (h : SendInv Φ s) {program : Program α}
    (hp : Follows discipline {} program) : SendInv Φ (s.start program) where
  follows i p hi := by
    obtain hi | ⟨hle, hp'⟩ := getElem?_append_cases hi
    · exact h.follows i p hi
    · obtain rfl := List.mem_singleton.mp hp'
      rw [h.idle i hle]
      exact follows_bind hp fun _ _ => trivial
  idle i hi := by
    refine h.idle i (le_trans ?_ hi)
    simp [System.start]
  once := h.once
  sent := h.sent
  unsent := h.unsent
  distinct := h.distinct

/-- Only a send adds to the sent rows. -/
theorem sentIds_entries {i : ℕ} {o : Op} (r : Res o) (ho : ∀ a b, o ≠ .send a b) :
    sentIds (entries i o r) = [] := by
  cases o with
  | send a b => exact absurd rfl (ho a b)
  | claimForClose => cases (r : CloseClaim) <;> rfl
  | recordClosed => cases (r : Except StoreError Unit) <;> rfl
  | recordCloseFailure => cases (r : Except StoreError Unit) <;> rfl
  | _ => rfl

/-- Only a claim gives a program a row to send. -/
theorem toSend_next {φ : Phase} {o : Op} {r : Res o} {m : MailboxRow}
    (ho : ∀ a b c, o ≠ .claimNext a b c) (h : Phase.toSend (discipline.next φ o r) m) :
    φ.toSend m ∧ ∀ a b, o ≠ .send a b := by
  cases o with
  | claimNext a b c => exact absurd rfl (ho a b c)
  | send a b => exact absurd h.2 (by simp [discipline])
  | _ => exact ⟨h, fun _ _ he => nomatch he⟩

/-- Run `i` moves on to phase `ψ`; the other runs keep their rows. -/
theorem SendInv.advance {t : System} {i : ℕ} {p p' : Program Unit} {ψ : Phase} (h : SendInv Φ s)
    (hi : s.runs[i]? = some p) (hruns : t.runs = s.runs.set i p') (hψ : Follows discipline ψ p')
    (hstarted : ∀ x, Started s.tables x → Started t.tables x) (honce : (sentIds t.log).Nodup)
    (hsent : ∀ x ∈ sentIds t.log, Started t.tables x)
    (hothers : ∀ j n, j ≠ i → (Φ j).toSend n → n.id ∉ sentIds t.log)
    (hnew : ∀ m, ψ.toSend m → m.id ∉ sentIds t.log ∧ Started t.tables m.id ∧
      ∀ j n, j ≠ i → (Φ j).toSend n → n.id ≠ m.id) : SendInv (Function.update Φ i ψ) t := by
  have hlt : i < s.runs.length := (List.getElem?_eq_some_iff.mp hi).1
  refine ⟨fun j q hj => ?_, fun j hj => ?_, honce, hsent, fun j m hm => ?_,
    fun j j' m n hm hn he => ?_⟩
  · rw [hruns] at hj
    obtain ⟨rfl, rfl⟩ | ⟨hne, hj⟩ := getElem?_set_cases hi hj
    · rw [Function.update_self]
      exact hψ
    · rw [Function.update_of_ne hne]
      exact h.follows j q hj
  · rw [hruns, List.length_set] at hj
    rw [Function.update_of_ne (by omega)]
    exact h.idle j hj
  · by_cases hji : j = i
    · subst hji
      rw [Function.update_self] at hm
      exact ⟨(hnew m hm).1, (hnew m hm).2.1⟩
    · rw [Function.update_of_ne hji] at hm
      exact ⟨hothers j m hji hm, hstarted _ (h.unsent j m hm).2⟩
  · by_cases hji : j = i
    · by_cases hji' : j' = i
      · exact hji.trans hji'.symm
      · rw [hji, Function.update_self] at hm
        rw [Function.update_of_ne hji'] at hn
        exact absurd he.symm ((hnew m hm).2.2 j' n hji' hn)
    · rw [Function.update_of_ne hji] at hm
      by_cases hji' : j' = i
      · rw [hji', Function.update_self] at hn
        exact absurd he ((hnew n hn).2.2 j m hji hm)
      · rw [Function.update_of_ne hji'] at hn
        exact h.distinct j j' m n hm hn he

/-- A claim of a new row gives the program a row that no other program has. -/
theorem SendInv.claim {t : System} {i : ℕ} {sessionId tenantId sourceId : String}
    {k : Res (.claimNext sessionId tenantId sourceId) → Program Unit} (env : Env)
    (hmail : MailInv now s.tables) (h : SendInv Φ s)
    (hi : s.runs[i]? = some (.call (.claimNext sessionId tenantId sourceId) k))
    (ht : t = { tables := (claimNext s.tables sessionId tenantId sourceId env.now).1
                runs := s.runs.set i (k (claimNext s.tables sessionId tenantId sourceId env.now).2)
                log := s.log }) :
    MailInv now t.tables ∧ ∃ Φ', SendInv Φ' t := by
  obtain ⟨-, hfollows⟩ := follows_call.mp (h.follows i _ hi)
  have hothers : ∀ j n, j ≠ i → (Φ j).toSend n → n.id ∉ sentIds s.log :=
    fun j n _ hn => (h.unsent j n hn).1
  subst ht
  obtain ⟨hsame, hres⟩ | ⟨before, item, after, hsplit, hof, hqueued, hdue, hfree, hfirst, -, hclaim⟩ :=
    claimNext_cases hmail.ids hmail.ordered
  · have hstarted : ∀ x, Started s.tables x →
        Started (claimNext s.tables sessionId tenantId sourceId env.now).1 x := by
      rw [hsame]
      exact fun x hx => hx
    refine ⟨by rw [hsame]; exact hmail, _, h.advance hi rfl (hfollows _) hstarted h.once
      (fun x hx => hstarted x (h.sent x hx)) hothers fun m hm => ?_⟩
    -- an accepted row has been sent before
    obtain ⟨-, -, hacc⟩ := hres m hm.1
    have hnone : m.acceptedAt.isNone = true := by
      have hunsent := hm.2
      simp only [discipline] at hunsent
      rw [show (claimNext s.tables sessionId tenantId sourceId env.now).2 = some m from hm.1] at hunsent
      simpa using hunsent
    simp [Option.isNone_iff_eq_none.mp hnone] at hacc
  · have hinv := hmail.claim hsplit hof hqueued hdue hfree hfirst
    have hitem : item ∈ s.tables.mailbox := by rw [hsplit]; simp
    have hfresh : ¬ Started s.tables item.id := by
      rintro ⟨m, hm, hid, hpos⟩
      obtain rfl := eq_of_key hmail.ids hm hitem hid
      have := (hmail.queued m hitem hqueued).1
      omega
    have hstarted : ∀ x, Started s.tables x →
        Started { s.tables with mailbox := before ++ item.claim env.now :: after } x := by
      rintro x ⟨m, hm, hid, hpos⟩
      have hne : m ≠ item := by
        rintro rfl
        exact hfresh ⟨m, hm, rfl, hpos⟩
      refine ⟨m, ?_, hid, hpos⟩
      rw [hsplit] at hm
      simp only [List.mem_append, List.mem_cons] at hm ⊢
      tauto
    have hnow : Started { s.tables with mailbox := before ++ item.claim env.now :: after } item.id :=
      ⟨item.claim env.now, by simp, rfl, Nat.succ_pos _⟩
    rw [hclaim]
    refine ⟨hinv, _, h.advance hi rfl (hfollows _) hstarted h.once
      (fun x hx => hstarted x (h.sent x hx)) hothers fun m hm => ?_⟩
    obtain rfl := Option.some.inj hm.1
    refine ⟨fun hin => hfresh (h.sent _ hin), hnow, fun j n _ hn he => hfresh ?_⟩
    have hstart := (h.unsent j n hn).2
    rw [he] at hstart
    exact hstart

/-- A send of the row that the program has claimed. -/
theorem SendInv.send {t : System} {i : ℕ} {session : SessionRow} {item : MailboxRow}
    {k : Res (.send session item) → Program Unit} (h : SendInv Φ s)
    (hi : s.runs[i]? = some (.call (.send session item) k)) {reply : Res (.send session item)}
    (ht : t = ⟨s.tables, s.runs.set i (k reply), s.log ++ [.sent item.id]⟩) :
    ∃ Φ', SendInv Φ' t := by
  obtain ⟨hallowed, hfollows⟩ := follows_call.mp (h.follows i _ hi)
  obtain ⟨hnotin, hnow⟩ := h.unsent i item hallowed
  have hids : sentIds t.log = sentIds s.log ++ [item.id] := by
    rw [ht, sentIds_append]
    rfl
  have htables : t.tables = s.tables := by rw [ht]
  refine ⟨_, h.advance hi (by rw [ht]) (hfollows reply) (fun x hx => htables ▸ hx) ?_ ?_ ?_ fun m hm => ?_⟩
  · rw [hids]
    refine List.nodup_append.mpr ⟨h.once, List.nodup_singleton _, fun x hx y hy he => hnotin ?_⟩
    rw [← List.mem_singleton.mp hy, ← he]
    exact hx
  · intro x hx
    rw [hids] at hx
    rw [htables]
    obtain hx | hx := List.mem_append.mp hx
    · exact h.sent x hx
    · exact List.mem_singleton.mp hx ▸ hnow
  · intro j n hji hn hin
    rw [hids] at hin
    obtain hin | hin := List.mem_append.mp hin
    · exact (h.unsent j n hn).1 hin
    · exact hji (h.distinct j i n item hn hallowed (List.mem_singleton.mp hin))
  · exact absurd hm.2 (by simp [discipline])

theorem advance_sendInv {t : System} {i : ℕ} {env : Env} (hmail : MailInv now s.tables)
    (h : SendInv Φ s) (hstep : advance s i env = some t) :
    MailInv now t.tables ∧ ∃ Φ', SendInv Φ' t := by
  obtain ⟨o, k, hi, ht⟩ := advance_some hstep
  by_cases hclaim : ∃ a b c, o = .claimNext a b c
  · obtain ⟨a, b, c, rfl⟩ := hclaim
    refine SendInv.claim env hmail h hi ?_
    simpa only [performOp, entries, List.append_nil] using ht
  have hno : ∀ a b c, o ≠ .claimNext a b c := fun a b c he => hclaim ⟨a, b, c, he⟩
  have hsettled := performOp_mailbox s.tables env hno
  refine ⟨ht ▸ hmail.settle hsettled (performOp_sessions s.tables env o), ?_⟩
  by_cases hsend : ∃ session item, o = .send session item
  · obtain ⟨session, item, rfl⟩ := hsend
    exact h.send hi ht
  have hnosend : ∀ a b, o ≠ .send a b := fun a b he => hsend ⟨a, b, he⟩
  have hids : sentIds t.log = sentIds s.log := by
    rw [ht, sentIds_append, sentIds_entries _ hnosend, List.append_nil]
  have hstarted : ∀ x, Started s.tables x → Started t.tables x := by
    rw [ht]
    exact fun x hx => hx.settle hsettled
  obtain ⟨-, hfollows⟩ := follows_call.mp (h.follows i _ hi)
  refine ⟨_, h.advance hi (by rw [ht]) (hfollows _) hstarted (hids ▸ h.once)
    (fun x hx => hstarted x (h.sent x (hids ▸ hx))) (fun j n _ hn => hids ▸ (h.unsent j n hn).1)
    fun m hm => ?_⟩
  obtain ⟨hm, -⟩ := toSend_next hno hm
  refine ⟨hids ▸ (h.unsent i m hm).1, hstarted _ (h.unsent i m hm).2, fun j n hji hn he => ?_⟩
  exact hji (h.distinct j i n m hn hm he)

end Sending

/-- The clock reading of a step. -/
def Label.clock : Label → Option Int
  | .enqueuePrompt a => some a.now
  | .recover a => some a.now
  | .advance _ env => some env.now
  | .insertSession _ | .drain _ | .close _ _ | .closeIdle _ _ => none

def DeliveryInv (now : Int) (s : System) : Prop := MailInv now s.tables ∧ ∃ Φ, SendInv Φ s

theorem deliveryInv_empty (now : Int) : DeliveryInv now {} := by
  refine ⟨mailInv_empty now, fun _ => {}, ?_⟩
  exact ⟨by simp, fun _ _ => rfl, by simp [sentIds], by simp [sentIds],
    (fun _ _ hm => nomatch hm.1), fun _ _ _ _ hm => nomatch hm.1⟩

theorem step_deliveryInv {now : Int} {s t : System} {l : Label} (h : DeliveryInv now s)
    (hclock : ∀ n, l.clock = some n → now ≤ n) (hstep : step s l = some t) :
    DeliveryInv (l.clock.getD now) t := by
  obtain ⟨hmail, Φ, hsend⟩ := h
  cases l with
  | insertSession row =>
    simp only [step] at hstep
    cases hins : insertSession s.tables row with
    | error e =>
      simp only [hins, Option.some.injEq] at hstep
      exact hstep ▸ ⟨hmail, Φ, hsend⟩
    | ok db =>
      simp only [hins, Option.some.injEq] at hstep
      obtain ⟨rfl, hnew⟩ := insertSession_ok hins
      subst hstep
      refine ⟨?_, Φ, hsend.quiet rfl rfl fun x hx => hx⟩
      refine ⟨hmail.ids, nodup_append_key hmail.sessionIds hnew, fun m hm => ?_, hmail.ordered,
        hmail.past, hmail.queued, hmail.sending, hmail.fifo⟩
      obtain ⟨s', hs', hown⟩ := hmail.owned m hm
      exact ⟨s', List.mem_append_left _ hs', hown⟩
  | enqueuePrompt a =>
    have hle : now ≤ a.now := hclock a.now rfl
    simp only [step] at hstep
    cases henq : enqueuePrompt s.tables a with
    | error e =>
      simp only [henq, Option.some.injEq] at hstep
      exact hstep ▸ ⟨hmail.mono hle, Φ, hsend⟩
    | ok p =>
      simp only [henq, Option.some.injEq] at hstep
      subst hstep
      obtain he | ⟨he, hnew, s', hs', hat, -⟩ := enqueuePrompt_ok (r := p.2) henq
      · rw [he]
        exact ⟨hmail.mono hle, Φ, hsend⟩
      · rw [he]
        refine ⟨hmail.enqueue hle hnew ⟨s', hs', hat⟩, Φ, hsend.quiet rfl rfl fun x hx => ?_⟩
        obtain ⟨m, hm, hid, hpos⟩ := hx
        exact ⟨m, List.mem_append_left _ hm, hid, hpos⟩
  | drain c =>
    obtain rfl := Option.some.inj hstep
    exact ⟨hmail, Φ, hsend.start (drainStoreOnce_follows c)⟩
  | close backends a =>
    obtain rfl := Option.some.inj hstep
    exact ⟨hmail, Φ, hsend.start (closeSession_ends rfl backends a).follows⟩
  | closeIdle backends a =>
    obtain rfl := Option.some.inj hstep
    exact ⟨hmail, Φ, hsend.start (closeIdleSessions_ends backends a).follows⟩
  | recover a =>
    have hle : now ≤ a.now := hclock a.now rfl
    simp only [step] at hstep
    cases hrec : recoverStaleClosingSessions s.tables a with
    | error e =>
      simp only [hrec, Option.some.injEq] at hstep
      exact hstep ▸ ⟨hmail.mono hle, Φ, hsend⟩
    | ok p =>
      simp only [hrec, Option.some.injEq] at hstep
      subst hstep
      obtain ⟨hmailbox, hsessions⟩ := recoverStaleClosingSessions_ok hrec
      have hsettled : Settled s.tables.mailbox p.1.mailbox := hmailbox ▸ settled_refl s.tables.mailbox
      refine ⟨(hmail.mono hle).settle hsettled hsessions, Φ, hsend.quiet rfl ?_ fun x hx => hx.settle hsettled⟩
      have hnone : sentIds (p.2.map Entry.recovered) = [] := by
        induction p.2 with
        | nil => rfl
        | cons x xs ih => exact ih
      rw [sentIds_append, hnone, List.append_nil]
  | advance i env =>
    have hle : now ≤ env.now := hclock env.now rfl
    exact advance_sendInv (hmail.mono hle) hsend hstep

/-- In every run over a clock that does not go back, each session has at most one row in delivery,
each row is sent at most once, and a row is sent only when the earlier rows of its session are
neither queued nor in delivery. -/
theorem mailbox_fifo_single_flight (ls : List Label) (s : System)
    (hclock : (ls.filterMap Label.clock).Pairwise (· ≤ ·)) (h : exec step {} ls = some s) :
    (∀ sessionId, rowcount (fun m => m.sessionId = sessionId && m.status = .sending)
      s.tables.mailbox ≤ 1) ∧
    (sentIds s.log).Nodup ∧
    s.tables.mailbox.Pairwise fun x y => x.sessionId = y.sessionId → y.id ∈ sentIds s.log →
      x.status ≠ .queued ∧ x.status ≠ .sending := by
  obtain ⟨now, hmail, Φ, hsend⟩ : ∃ now, DeliveryInv now s := by
    obtain ⟨now, hnow⟩ : ∃ now : Int, ∀ n ∈ ls.filterMap Label.clock, now ≤ n := by
      cases hts : ls.filterMap Label.clock with
      | nil => exact ⟨0, by simp⟩
      | cons t ts =>
        rw [hts, List.pairwise_cons] at hclock
        refine ⟨t, fun n hn => ?_⟩
        obtain rfl | hn := List.mem_cons.mp hn
        · exact le_rfl
        · exact hclock.1 n hn
    have hm : Meets step (fun _ _ => True) {} ls := meets_true _ ls
    exact exec_invariant_clocked Label.clock
      (fun _ _ _ _ hI _ hle hS => step_deliveryInv hI hle hS) (deliveryInv_empty now) hnow hclock hm h
  refine ⟨fun sessionId => ?_, hsend.once, hmail.fifo.imp_of_mem fun {x y} _ hy hxy hs hin => ?_⟩
  · have hsingle : s.tables.mailbox.Pairwise fun x y => x.sessionId = y.sessionId →
        ¬ (x.status = .sending ∧ y.status = .sending) := by
      refine hmail.fifo.imp_of_mem fun _ hy hxy hs hst => ?_
      exact (hxy hs (hmail.sending _ hy hst.2)).2 hst.1
    refine rowcount_le_one_of_pairwise hsingle fun x y hx hy hxy => ?_
    simp only [Bool.and_eq_true, decide_eq_true_eq] at hx hy
    exact hxy (hx.1.trans hy.1.symm) ⟨hx.2, hy.2⟩
  · obtain ⟨m, hm, hid, hpos⟩ := hsend.sent y.id hin
    obtain rfl := eq_of_key hmail.ids hm hy hid
    exact hxy hs hpos

def exampleSession : SessionRow where
  id := "rs_1"
  tenantId := "t"
  sourceId := "chat"
  backend := "fake"
  backendSessionId := "b1"
  createdAt := 0
  updatedAt := 0

def exampleWorker : Config where
  tenantId := "t"
  backends := fun _ => some {}

def examplePrompt (mailboxId : String) (now : Int) : PromptArgs where
  mailboxId := mailboxId
  sessionId := "rs_1"
  tenantId := "t"
  sourceId := "chat"
  prompt := "do work"
  now := now

/-- Take `n` operations of run `i`. -/
def advances (i n : ℕ) (env : Env) : List Label := List.replicate n (.advance i env)

/-- Two prompts of one session, each delivered by a worker of its own. -/
def twoDeliveries : List Label :=
  [.insertSession exampleSession, .enqueuePrompt (examplePrompt "sm_1" 1),
    .enqueuePrompt (examplePrompt "sm_2" 2), .drain exampleWorker, .drain exampleWorker] ++
  advances 0 11 { now := 100, hex := "1" } ++ advances 1 6 { now := 200, hex := "2" }

theorem mailbox_fifo_single_flight_two :
    ∃ s, exec step {} twoDeliveries = some s ∧ sentIds s.log = ["sm_1", "sm_2"] ∧
      s.tables.mailbox.map (·.status) = [.sent, .sending] ∧
      s.tables.mailbox.Pairwise fun x y => x.sessionId = y.sessionId → y.id ∈ sentIds s.log →
        x.status ≠ .queued ∧ x.status ≠ .sending := by
  have h : (exec step {} twoDeliveries).map (fun s => (sentIds s.log,
      s.tables.mailbox.map (·.status))) = some (["sm_1", "sm_2"], [.sent, .sending]) := by
    decide +kernel
  obtain ⟨s, hs, hvalue⟩ := Option.map_eq_some_iff.mp h
  obtain ⟨hsent, hstatus⟩ := Prod.mk.inj hvalue
  have hclock : (twoDeliveries.filterMap Label.clock).Pairwise (· ≤ ·) := by decide
  exact ⟨s, hs, hsent, hstatus, (mailbox_fifo_single_flight twoDeliveries s hclock hs).2.2⟩

end Soveren.Sessions
