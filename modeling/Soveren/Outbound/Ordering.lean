import Soveren.Outbound.Telegram
import Soveren.Conversation.Calls

/-! Ordered delivery. A claim looks only at the immediate predecessor of a message; that all
predecessors are sent follows because the predecessor was itself claimed once. -/
namespace Soveren.Outbound
open Soveren.Relational Soveren.Conversation

/-- The row at position `q` of the ordering of `r` is sent. -/
def SentAt (t : List OutboundRow) (r : OutboundRow) (q : Int) : Prop :=
  ∃ s ∈ t, sameOrdering r s = true ∧ s.orderingPosition = some q ∧ s.status = .sent

/-- The columns of a row are those of the request that its fingerprint was taken of. -/
structure Requested (r : OutboundRow) (a : EnqueueArgs) : Prop where
  scope : r.scope = a.scope
  channel : r.channel = a.channel
  text : r.text = a.text
  orderingKey : r.orderingKey = a.orderingKey
  orderingPosition : r.orderingPosition = a.orderingPosition

structure OrderingInv (t : List OutboundRow) : Prop where
  distinct : Distinct t
  /-- a row that is or was under way has been leased -/
  attempted : ∀ r ∈ t, r.status = .leased ∨ r.status = .sending ∨ r.status = .uncertain ∨
    r.status = .sent → 0 < r.attempts
  predecessors : ∀ r ∈ t, ∀ p, r.orderingKey.isSome → r.orderingPosition = some p →
    0 < r.attempts → ∀ q, 1 ≤ q → q < p → SentAt t r q
  requested : ∀ r ∈ t, ∃ a : EnqueueArgs, r.idempotencyFingerprint = some a.fingerprint ∧
    Requested r a

section Steps

variable {db : Tables}

theorem sameOrdering_of_content {r s r' s' : OutboundRow} (h : sameOrdering r s = true)
    (hr : SameContent r r') (hs : SameContent s s') : sameOrdering r' s' = true := by
  simp only [sameOrdering] at h ⊢
  rw [hr.tenantId, hr.sourceId, hr.channel, hr.orderingKey, hs.tenantId, hs.sourceId, hs.channel,
    hs.orderingKey]
  exact h

/-- A position that is sent stays sent. -/
theorem SentAt.perform (hid : (db.outbound.map (·.id)).Nodup) (call : Call) {r r' : OutboundRow}
    (hr : SameContent r r') {q : Int} (h : SentAt db.outbound r q) :
    SentAt (Conversation.perform db call).outbound r' q := by
  obtain ⟨s, hs, hsame, hq, hsent⟩ := h
  obtain ⟨s', hs', hstep⟩ := (perform_outbound hid call).exists_of_mem hs
  have heq := hstep.eq_of_sent hsent
  exact ⟨s', hs', sameOrdering_of_content hsame hr hstep.content, hstep.content.orderingPosition ▸ hq,
    heq ▸ hsent⟩

/-- The predecessor that makes a row the next one was sent before the sweep. -/
theorem sentAt_of_isNext {a : ClaimArgs} {r : OutboundRow} {p : Int}
    (h : ClaimArgs.isNext (a.swept db.outbound) r = true) (hk : r.orderingKey.isSome)
    (hp : r.orderingPosition = some p) (hlt : 1 < p) : SentAt db.outbound r (p - 1) := by
  simp only [ClaimArgs.isNext, Bool.or_eq_true, decide_eq_true_eq, hp, Option.some.injEq] at h
  obtain (hnone | hone) | h := h
  · simp [Option.isNone_iff_eq_none.mp hnone] at hk
  · omega
  · obtain ⟨s, hs, hcond⟩ := List.any_eq_true.mp h
    simp only [Bool.and_eq_true, decide_eq_true_eq] at hcond
    obtain ⟨⟨hsame, hpos⟩, hsent⟩ := hcond
    have hq : s.orderingPosition = some (p - 1) := by
      cases hsp : s.orderingPosition with
      | none => simp [positions, hsp] at hpos
      | some m => simpa [positions, hsp, hp] using hpos
    obtain ⟨s0, hs0, hswept⟩ | hf := (swept_grows a db.outbound).of_mem hs
    · have heq : s = s0 := by
        cases hswept with
        | same => rfl
        | lost | exhausted | blocked => simp [fail, unlease] at hsent
      exact ⟨s0, hs0, heq ▸ hsame, heq ▸ hq, heq ▸ hsent⟩
    · exact hf.elim

theorem attempted_of_rowStep {call : Call} {r s : OutboundRow} (h : RowStep db call r s)
    (hr : r.status = .leased ∨ r.status = .sending ∨ r.status = .uncertain ∨ r.status = .sent →
      0 < r.attempts)
    (hs : s.status = .leased ∨ s.status = .sending ∨ s.status = .uncertain ∨ s.status = .sent) :
    0 < s.attempts := by
  cases h with
  | same => exact hr hs
  | leased h => exact Nat.succ_pos _
  | swept h =>
    cases h with
    | same => exact hr hs
    | lost h =>
      simp only [ClaimArgs.isLostSend, Bool.and_eq_true, decide_eq_true_eq] at h
      exact hr (.inr (.inl h.1.2))
    | exhausted | blocked => simp [fail, unlease] at hs
  | renewed h => exact hr hs
  | admitted h =>
    have := (holds_iff.mp h).2.1
    exact hr (.inl (by simpa using this))
  | sent h | uncertain h =>
    have := (holds_iff.mp h).2.1
    exact hr (.inr (.inl (by simpa using this)))
  | refused | dead => simp [fail, unlease] at hs
  | retried h hst =>
    obtain rfl | rfl := hst
    · simp [fail, unlease] at hs
    · simp [fail, unlease] at hs
  | @resolved resolution q _ _ h =>
    have hpos := hr (.inr (.inr (.inl h)))
    cases resolution <;> exact hpos
  | suppressed h =>
    obtain rfl | ⟨-, reason, now, rfl⟩ := h
    · exact hr hs
    · simp [fail, unlease] at hs

theorem Requested.of_content {r s : OutboundRow} {a : EnqueueArgs} (h : Requested r a)
    (hc : SameContent r s) : Requested s a where
  scope := hc.scope.trans h.scope
  channel := hc.channel.trans h.channel
  text := hc.text.trans h.text
  orderingKey := hc.orderingKey.trans h.orderingKey
  orderingPosition := hc.orderingPosition.trans h.orderingPosition

theorem requested_row (a : EnqueueArgs) : Requested a.row a := ⟨rfl, rfl, rfl, rfl, rfl⟩

/-- One call keeps the ordering. -/
theorem OrderingInv.perform (h : OrderingInv db.outbound) (call : Call) :
    OrderingInv (Conversation.perform db call).outbound := by
  have hid := h.distinct.ids
  have hgrows := perform_outbound hid call
  refine ⟨perform_distinct h.distinct call, ?_, ?_, ?_⟩
  · intro s hs
    obtain ⟨r, hr, hstep⟩ | ⟨a, -, rfl, -⟩ := hgrows.of_mem hs
    · exact attempted_of_rowStep hstep (h.attempted r hr)
    · simp [EnqueueArgs.row]
  · intro s hs p hk hp hpos q hq hqp
    obtain ⟨r, hr, hstep⟩ | ⟨a, -, rfl, -⟩ := hgrows.of_mem hs
    · have hc := hstep.content
      rw [hc.orderingKey] at hk
      rw [hc.orderingPosition] at hp
      -- an attempt is new only for the row that is leased now, after its predecessor
      have hsent : SentAt db.outbound r q := by
        obtain hsame | ⟨a, -, -, hcand⟩ := hstep.attempts
        · exact h.predecessors r hr p hk hp (hsame ▸ hpos) q hq hqp
        · simp only [ClaimArgs.isCandidate, Bool.and_eq_true] at hcand
          obtain ⟨x, hx, hsame, hxp, hxs⟩ := sentAt_of_isNext hcand.2 hk hp (by omega)
          by_cases hqe : q = p - 1
          · exact ⟨x, hx, hsame, hqe ▸ hxp, hxs⟩
          · have hxk : x.orderingKey.isSome := by
              simp only [sameOrdering, Bool.and_eq_true, decide_eq_true_eq] at hsame
              rw [hsame.2]
              exact hk
            have hxa := h.attempted x hx (.inr (.inr (.inr hxs)))
            obtain ⟨y, hy, hxy, hyq, hys⟩ :=
              h.predecessors x hx (p - 1) hxk hxp hxa q hq (by omega)
            refine ⟨y, hy, ?_, hyq, hys⟩
            simp only [sameOrdering, Bool.and_eq_true, decide_eq_true_eq] at hsame hxy ⊢
            simp [hxy, hsame]
      exact hsent.perform hid call hc
    · simp [EnqueueArgs.row] at hpos
  · intro s hs
    obtain ⟨r, hr, hstep⟩ | ⟨a, -, rfl, -⟩ := hgrows.of_mem hs
    · obtain ⟨a, hf, hreq⟩ := h.requested r hr
      exact ⟨a, hstep.content.fingerprint.trans hf, hreq.of_content hstep.content⟩
    · exact ⟨a, rfl, requested_row a⟩

theorem orderingInv_runCalls (calls : List Call) : OrderingInv (runCalls calls).outbound := by
  refine runCalls_invariant (I := fun db => OrderingInv db.outbound) ?_
    (fun db call h => h.perform call) calls
  exact ⟨List.Pairwise.nil, by simp, by simp, by simp⟩

/-- The three formats of fingerprints differ in their fields. -/
theorem fingerprint_eq_of_replay {r : OutboundRow} {a b : EnqueueArgs}
    (hf : r.idempotencyFingerprint = some b.fingerprint) (h : replayMatches r a = true) :
    b.fingerprint = a.fingerprint := by
  simp only [replayMatches, hf, Bool.or_eq_true, Bool.and_eq_true, decide_eq_true_eq] at h
  obtain (h | ⟨h, -⟩) | ⟨-, h⟩ := h
  · exact h
  · simp [EnqueueArgs.fingerprint, EnqueueArgs.legacyFingerprint, idempotencyFingerprint] at h
  · simp [EnqueueArgs.fingerprint, EnqueueArgs.preDialogueFingerprint, idempotencyFingerprint] at h

theorem Requested.of_fingerprint {r : OutboundRow} {a b : EnqueueArgs} (h : Requested r b)
    (hscope : r.scope = a.scope) (hf : b.fingerprint = a.fingerprint) : Requested r a := by
  simp only [EnqueueArgs.fingerprint, Soveren.idempotencyFingerprint, Json.obj.injEq,
    List.cons.injEq, Prod.mk.injEq, Json.str.injEq, true_and, and_true] at hf
  obtain ⟨hchannel, -, -, -, -, hkey, hpos, -, -, -, -, -, -, -, -, htext⟩ := hf
  exact ⟨hscope, h.channel.trans hchannel, h.text.trans htext,
    h.orderingKey.trans (Json.ofString?_inj hkey), h.orderingPosition.trans (Json.ofInt?_inj hpos)⟩

theorem byKey_some {t : List OutboundRow} {scope : Scope} {key : String} {r : OutboundRow}
    (h : byKey t scope key = some r) : r ∈ t ∧ r.scope = scope ∧ r.idempotencyKey = key := by
  have := List.find?_some h
  simp only [Bool.and_eq_true, decide_eq_true_eq] at this
  exact ⟨List.mem_of_find?_eq_some h, this⟩

/-- The stored row of a request. -/
def Stored (t : List OutboundRow) (a : EnqueueArgs) : Prop :=
  ∃ r, byKey t a.scope a.idempotencyKey = some r ∧ Requested r a

theorem Stored.of_mem {t : List OutboundRow} (hd : Distinct t) {a : EnqueueArgs} {r : OutboundRow}
    (hr : r ∈ t) (hkey : r.idempotencyKey = a.idempotencyKey) (hreq : Requested r a) :
    Stored t a := by
  obtain ⟨x, hx⟩ : ∃ x, byKey t a.scope a.idempotencyKey = some x := by
    rw [← Option.isSome_iff_exists, byKey, List.find?_isSome]
    exact ⟨r, hr, by simp [hreq.scope, hkey]⟩
  obtain ⟨hmem, hscope, hk⟩ := byKey_some hx
  have : x = r := eq_of_key hd.keys hmem hr (by simp [hscope, hk, hreq.scope, hkey])
  exact ⟨x, hx, this ▸ hreq⟩

/-- A request that is accepted, now or earlier, is stored. -/
theorem stored_of_enqueue {db' : Tables} {a : EnqueueArgs} {result : OutboundEnqueueResult}
    (h : OrderingInv db.outbound) (he : enqueueOutboundWithResult db a = .ok (db', result)) :
    Stored db'.outbound a := by
  obtain ⟨-, ⟨rfl, x, hx, hreplay, -⟩ | ⟨rfl, hno, -, -⟩⟩ := enqueueOutboundWithResult_ok he
  · obtain ⟨hmem, hscope, -⟩ := byKey_some hx
    obtain ⟨b, hf, hreq⟩ := h.requested x hmem
    exact ⟨x, hx, hreq.of_fingerprint hscope (fingerprint_eq_of_replay hf hreplay)⟩
  · exact .of_mem (h.distinct.append hno) (by simp) rfl (requested_row a)

theorem Stored.perform (h : Distinct db.outbound) (call : Call) {a : EnqueueArgs}
    (ha : Stored db.outbound a) : Stored (Conversation.perform db call).outbound a := by
  obtain ⟨r, hr, hreq⟩ := ha
  obtain ⟨hmem, -, hkey⟩ := byKey_some hr
  obtain ⟨s, hs, hstep⟩ := (perform_outbound h.ids call).exists_of_mem hmem
  exact .of_mem (perform_distinct h call) hs (hstep.content.idempotencyKey.trans hkey)
    (hreq.of_content hstep.content)

theorem stored_of_enqueueMany {requests : List EnqueueArgs} {db db' : Tables}
    {ids : List (Option String)} (h : OrderingInv db.outbound)
    (he : enqueueOutboundMany db requests = .ok (db', ids)) :
    ∀ a ∈ requests, Stored db'.outbound a := by
  induction requests generalizing db ids with
  | nil => simp
  | cons b requests ih =>
    obtain ⟨⟨db1, id⟩, h1, he⟩ := bind_eq_ok he
    obtain ⟨⟨db2, ids'⟩, h2, he⟩ := bind_eq_ok he
    obtain ⟨rfl, -⟩ := Prod.mk.inj (Except.ok.inj he)
    obtain ⟨⟨db1', result⟩, h1', h1⟩ := bind_eq_ok h1
    obtain ⟨rfl, -⟩ := Prod.mk.inj (Except.ok.inj h1)
    -- the rest of the batch is a call of its own on the tables so far
    have hfirst : Conversation.perform db (.enqueue b) = db1' := by
      simp only [Conversation.perform, h1', orKeep]
    have hrest : Conversation.perform db1' (.enqueueMany requests) = db2 := by
      simp only [Conversation.perform, h2, orKeep]
    have hinv : OrderingInv db1'.outbound := hfirst ▸ h.perform (.enqueue b)
    intro a ha
    obtain rfl | ha := List.mem_cons.mp ha
    · exact hrest ▸ (stored_of_enqueue h h1').perform hinv.distinct (.enqueueMany requests)
    · exact ih hinv h2 a ha

end Steps

section Parts

theorem conflicts_comm (r s : OutboundRow) : conflicts r s = conflicts s r := by
  rw [Bool.eq_iff_iff]
  simp only [conflicts, Bool.or_eq_true, Bool.and_eq_true, decide_eq_true_eq]
  constructor
  · rintro ((h | ⟨h, hk⟩) | ⟨⟨⟨⟨h, hc⟩, hs⟩, hk⟩, hp⟩)
    · exact .inl (.inl h.symm)
    · exact .inl (.inr ⟨h.symm, hk.symm⟩)
    · exact .inr ⟨⟨⟨⟨h.symm, hc.symm⟩, hk ▸ hs⟩, hk.symm⟩, hp.symm⟩
  · rintro ((h | ⟨h, hk⟩) | ⟨⟨⟨⟨h, hc⟩, hs⟩, hk⟩, hp⟩)
    · exact .inl (.inl h.symm)
    · exact .inl (.inr ⟨h.symm, hk.symm⟩)
    · exact .inr ⟨⟨⟨⟨h.symm, hc.symm⟩, hk ▸ hs⟩, hk.symm⟩, hp.symm⟩

theorem eq_of_conflicts {t : List OutboundRow} (h : Distinct t) {r s : OutboundRow} (hr : r ∈ t)
    (hs : s ∈ t) (hc : conflicts s r = true) : r = s := by
  obtain ⟨i, hi, rfl⟩ := List.mem_iff_getElem.mp hr
  obtain ⟨j, hj, rfl⟩ := List.mem_iff_getElem.mp hs
  have hpair := List.pairwise_iff_getElem.mp h
  obtain hlt | rfl | hlt := Nat.lt_trichotomy i j
  · simp [hpair i j hi hj hlt] at hc
  · rfl
  · rw [conflicts_comm] at hc
    simp [hpair j i hj hi hlt] at hc

/-- The part of a request is sent. -/
def isSentPart (db : Tables) (a : EnqueueArgs) : Bool :=
  (byKey db.outbound a.scope a.idempotencyKey).any (·.status = .sent)

/-- A part is sent only after the parts before it. -/
theorem isSentPart_of_later {db : Tables} (h : OrderingInv db.outbound) {a : TelegramText}
    {n i j : ℕ} {part later : String} (hij : i < j) (hn : 1 < n)
    (hi : Stored db.outbound (a.request n (i + 1) part))
    (hj : Stored db.outbound (a.request n (j + 1) later))
    (hsent : isSentPart db (a.request n (j + 1) later) = true) :
    isSentPart db (a.request n (i + 1) part) = true := by
  obtain ⟨r, hr, hrq⟩ := hi
  obtain ⟨s, hs, hsq⟩ := hj
  obtain ⟨hrm, -, -⟩ := byKey_some hr
  obtain ⟨hsm, -, -⟩ := byKey_some hs
  simp only [isSentPart, hs, Option.any_some, decide_eq_true_eq] at hsent
  have hkey : s.orderingKey = some a.idempotencyKey := by
    simp [hsq.orderingKey, TelegramText.request, hn]
  have hpos : s.orderingPosition = some ((j + 1 : ℕ) : Int) := by
    simp [hsq.orderingPosition, TelegramText.request, hn]
  obtain ⟨x, hx, hsame, hxp, hxs⟩ := h.predecessors s hsm _ (by simp [hkey]) hpos
    (h.attempted s hsm (.inr (.inr (.inr hsent)))) ((i + 1 : ℕ) : Int) (by omega) (by omega)
  simp only [sameOrdering, Bool.and_eq_true, decide_eq_true_eq] at hsame
  -- the row at the earlier position is the row of the earlier part
  have hxr : x = r := by
    refine eq_of_conflicts h.distinct hx hrm ?_
    have hscope : x.scope = r.scope := by
      have hxs' : x.scope = s.scope := by simp [OutboundRow.scope, hsame]
      rw [hxs', hsq.scope, hrq.scope]
      rfl
    have hchannel : x.channel = r.channel := by
      rw [hsame.1.1.2, hsq.channel, hrq.channel]
      rfl
    have hxk : x.orderingKey = some a.idempotencyKey := hsame.2.trans hkey
    have hrk : r.orderingKey = some a.idempotencyKey := by
      simp [hrq.orderingKey, TelegramText.request, hn]
    have hrp : r.orderingPosition = some ((i + 1 : ℕ) : Int) := by
      simp [hrq.orderingPosition, TelegramText.request, hn]
    simp [conflicts, hscope, hchannel, hxk, hrk, hxp, hrp]
  simp [isSentPart, hr, ← hxr, hxs]

/-- Selecting by a property that earlier members inherit takes a first part of the list. -/
theorem filter_eq_take {α : Type} {p : α → Bool} {l : List α}
    (h : l.Pairwise fun x y => p y = true → p x = true) : ∃ k, l.filter p = l.take k := by
  induction l with
  | nil => exact ⟨0, rfl⟩
  | cons x l ih =>
    obtain ⟨hx, hl⟩ := List.pairwise_cons.mp h
    by_cases hp : p x = true
    · obtain ⟨k, hk⟩ := ih hl
      exact ⟨k + 1, by simp [hp, hk]⟩
    · refine ⟨0, ?_⟩
      rw [List.take_zero, List.filter_eq_nil_iff]
      intro y hy hpy
      obtain rfl | hy := List.mem_cons.mp hy
      · exact hp hpy
      · exact hp (hx y hy hpy)

theorem sentParts_prefix {db : Tables} (h : OrderingInv db.outbound) {a : TelegramText}
    {parts : List String} (hstored : ∀ x ∈ a.requests parts, Stored db.outbound x) :
    ∃ k, (a.requests parts).filter (isSentPart db) = (a.requests parts).take k := by
  refine filter_eq_take (List.pairwise_iff_getElem.mpr fun i j hi hj hij hsent => ?_)
  obtain ⟨part, hpart, hx⟩ := requests_get a parts (List.getElem?_eq_getElem hi)
  obtain ⟨later, hlater, hy⟩ := requests_get a parts (List.getElem?_eq_getElem hj)
  have hxs := hstored _ (List.getElem_mem hi)
  have hys := hstored _ (List.getElem_mem hj)
  rw [requests_length] at hj
  rw [hx] at hxs ⊢
  rw [hy] at hys hsent
  exact isSentPart_of_later h hij (by omega) hxs hys hsent

end Parts

theorem enqueueMany_runCalls {calls : List Call} {requests : List EnqueueArgs} {db' : Tables}
    {ids : List (Option String)} (h : enqueueOutboundMany (runCalls calls) requests = .ok (db', ids)) :
    runCalls (calls ++ [.enqueueMany requests]) = db' := by
  simp only [runCalls_snoc, perform, h, orKeep]

/-- A text that is enqueued is a call of the store with the requests of its parts. -/
theorem enqueueTelegramText_runCalls {calls : List Call} {a : TelegramText} {db' : Tables}
    {ids : List (Option String)} (h : enqueueTelegramText (runCalls calls) a = .ok (db', ids)) :
    ∃ requests, telegramRequests a = .ok requests ∧ runCalls (calls ++ [.enqueueMany requests]) = db' := by
  obtain ⟨requests, hrequests, hmany⟩ := bind_eq_ok h
  exact ⟨requests, hrequests, enqueueMany_runCalls hmany⟩

/-- Ordered messages are delivered in order: a row that was ever leased has all its
predecessors sent, so the sent parts of a Telegram text are its first parts. -/
theorem ordered_delivery_in_sequence (calls : List Call) :
    (∀ r ∈ (runCalls calls).outbound, ∀ key p, r.orderingKey = some key →
      r.orderingPosition = some p → 1 < p → 0 < r.attempts → ∀ q, 1 ≤ q → q < p →
        ∃ s ∈ (runCalls calls).outbound, s.tenantId = r.tenantId ∧ s.sourceId = r.sourceId ∧
          s.channel = r.channel ∧ s.orderingKey = some key ∧ s.orderingPosition = some q ∧
          s.status = .sent) ∧
    (∀ pre post a requests db' ids, calls = pre ++ .enqueueMany requests :: post →
      telegramRequests a = .ok requests →
      enqueueOutboundMany (runCalls pre) requests = .ok (db', ids) →
      (∀ x ∈ requests, ∃ r,
        byKey (runCalls calls).outbound x.scope x.idempotencyKey = some r ∧ r.text = x.text) ∧
      ∃ k, requests.filter (isSentPart (runCalls calls)) = requests.take k ∧
        (String.join ((requests.take k).map (·.text))).toList <+: a.text.toList) := by
  have hinv := orderingInv_runCalls calls
  constructor
  · intro r hr key p hk hp _ hpos q hq hqp
    obtain ⟨s, hs, hsame, hsq, hsent⟩ :=
      hinv.predecessors r hr p (by simp [hk]) hp hpos q hq hqp
    simp only [sameOrdering, Bool.and_eq_true, decide_eq_true_eq] at hsame
    exact ⟨s, hs, hsame.1.1.1.1, hsame.1.1.1.2, hsame.1.1.2, hsame.2.trans hk, hsq, hsent⟩
  · intro pre post a requests db' ids hcalls hreq hmany
    obtain rfl := telegramRequests_ok hreq
    have hstored : ∀ x ∈ a.requests (splitParts telegramTextLimit a.text),
        Stored (runCalls calls).outbound x := by
      intro x hx
      have h0 := stored_of_enqueueMany (orderingInv_runCalls pre) hmany x hx
      have hdb := enqueueMany_runCalls hmany
      rw [hcalls, List.append_cons]
      exact runCalls_append_keeps (I := fun db => Stored db.outbound x) runCalls_distinct
        (fun db call hd hx => hx.perform hd call) (hdb ▸ h0) post
    refine ⟨fun x hx => ?_, ?_⟩
    · obtain ⟨r, hr, hrq⟩ := hstored x hx
      exact ⟨r, hr, hrq.text⟩
    · obtain ⟨k, hk⟩ := sentParts_prefix hinv hstored
      refine ⟨k, hk, ?_⟩
      rw [List.map_take, requests_text]
      exact join_take_splitParts _ _ _

def orderedPart (messageHex : String) (position : Int) : EnqueueArgs where
  messageHex := messageHex
  tenantId := "t"
  sourceId := "chat"
  channel := "telegram"
  destinationId := "42"
  text := "part " ++ messageHex
  idempotencyKey := "reply:part:" ++ messageHex
  orderingKey := some "reply"
  orderingPosition := some position
  now := 0

def claimOne (leaseToken : String) (now : Int) : ClaimArgs where
  channel := "telegram"
  limit := 5
  leaseOwner := "w"
  leaseSeconds := 60
  now := now
  leaseToken := leaseToken

/-- Two parts are enqueued; the second becomes claimable once the first is sent. -/
def orderedCalls : List Call := [.enqueueMany [orderedPart "1" 1, orderedPart "2" 2],
  .claimDue (claimOne "k1" 0), .markSending "out_1" "k1" 1, .markSent "out_1" "k1" (.obj []) "h" 2,
  .claimDue (claimOne "k2" 3)]

theorem ordered_delivery_of_two_parts :
    (runCalls orderedCalls).outbound.map (fun r => (r.orderingPosition, r.status, r.attempts)) =
      [(some 1, .sent, 1), (some 2, .leased, 1)] ∧
    ∃ s ∈ (runCalls orderedCalls).outbound, s.orderingPosition = some 1 ∧ s.status = .sent := by
  refine ⟨by decide, ?_⟩
  obtain ⟨r, hr, hk, hp, ha⟩ : ∃ r ∈ (runCalls orderedCalls).outbound,
      r.orderingKey = some "reply" ∧ r.orderingPosition = some 2 ∧ 0 < r.attempts := by decide
  obtain ⟨s, hs, -, -, -, -, hq, hsent⟩ := (ordered_delivery_in_sequence orderedCalls).1 r hr
    "reply" 2 hk hp (by decide) ha 1 (by decide) (by decide)
  exact ⟨s, hs, hq, hsent⟩

end Soveren.Outbound
