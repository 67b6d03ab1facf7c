import Soveren.Cron.Store

/-! Publication and cancellation of scheduled jobs, for every sequence of store calls. Consumers
of the queue and producers of other events act between them. -/
namespace Soveren.Cron
open Soveren.Relational

inductive Call where
  | insertJob (a : InsertArgs)
  | claimDueJobs (a : ClaimArgs)
  | renewLease (jobId leaseToken : String) (leaseSeconds now : Int)
  | dispatchDueEvent (jobId leaseToken recipient eventId : String) (firedAt : Int)
  | cancelScheduledJob (jobId tenantId sourceId : String) (now : Int)
  /-- a call of the queue; only the cron store publishes `CronJobDue` events -/
  | queue (op : Queue.QueueOp)

/-- A producer that is not the cron store does not publish its events. -/
def publishes : Queue.QueueOp → Bool
  | .enqueue a => a.messageType = "CronJobDue"
  | _ => false

/-- The tables after a call; a call that raises is rolled back. -/
def perform (calendar : Calendar) (db : Tables) : Call → Tables
  | .insertJob a => match insertJob calendar db.jobs a with
    | .ok (t, _) => { db with jobs := t }
    | .error _ => db
  | .claimDueJobs a => match claimDueJobs calendar db.jobs a with
    | .ok (t, _) => { db with jobs := t }
    | .error _ => db
  | .renewLease jobId leaseToken leaseSeconds now =>
    match renewLease db.jobs jobId leaseToken leaseSeconds now with
    | .ok (t, _) => { db with jobs := t }
    | .error _ => db
  | .dispatchDueEvent jobId leaseToken recipient eventId firedAt =>
    match dispatchDueEvent calendar db jobId leaseToken recipient eventId firedAt with
    | .ok (db', _) => db'
    | .error _ => db
  | .cancelScheduledJob jobId tenantId sourceId now =>
    match cancelScheduledJob db jobId tenantId sourceId now with
    | .ok (db', _) => db'
    | .error _ => db
  | .queue op => if publishes op then db else { db with events := Queue.apply db.events op }

def runFrom (calendar : Calendar) (db : Tables) (calls : List Call) : Tables :=
  calls.foldl (perform calendar) db

/-- A job keeps its identity, and it keeps everything once it is closed. -/
def JobStep (r s : CronJobRow) : Prop :=
  s.id = r.id ∧ s.tenantId = r.tenantId ∧ s.sourceId = r.sourceId ∧ (r.isOpen = false → s = r)

theorem JobStep.refl (r : CronJobRow) : JobStep r r := ⟨rfl, rfl, rfl, fun _ => rfl⟩

theorem JobStep.trans {r s u : CronJobRow} (h : JobStep r s) (h' : JobStep s u) : JobStep r u := by
  refine ⟨h'.1.trans h.1, h'.2.1.trans h.2.1, h'.2.2.1.trans h.2.2.1, fun hclosed => ?_⟩
  obtain rfl := h.2.2.2 hclosed
  exact h'.2.2.2 hclosed

/-- An open job may be rewritten as long as it keeps its identity. -/
theorem JobStep.of_open {r s : CronJobRow} (hopen : r.isOpen = true) (hid : s.id = r.id)
    (htenant : s.tenantId = r.tenantId) (hsource : s.sourceId = r.sourceId) : JobStep r s :=
  ⟨hid, htenant, hsource, fun h => by simp [hopen] at h⟩

section Jobs

variable {t t' : List CronJobRow}

/-- The jobs were only rewritten. -/
abbrev Rewritten (t t' : List CronJobRow) : Prop := Grows JobStep (fun _ => False) t t'

theorem Rewritten.refl (t : List CronJobRow) : Rewritten t t := Grows.refl fun r _ => .refl r

theorem Rewritten.trans {t'' : List CronJobRow} (h : Rewritten t t') (h' : Rewritten t' t'') :
    Rewritten t t'' := Grows.trans (fun _ _ _ => .trans) (fun _ _ h => h.elim) h h'

theorem Rewritten.ids (h : Rewritten t t') : t'.map (·.id) = t.map (·.id) :=
  h.map_eq fun _ _ _ hs => hs.1

theorem rewritten_updateWhere {p : CronJobRow → Bool} {f : CronJobRow → CronJobRow}
    (h : ∀ r ∈ t, p r = true → JobStep r (f r)) : Rewritten t (updateWhere p f t) :=
  .updateWhere h fun r _ _ => .refl r

theorem isOpen_of_holds {jobId k : String} {r : CronJobRow} (h : holds jobId k r = true) :
    r.id = jobId ∧ r.status = .leased ∧ r.leaseToken = some k ∧ r.isOpen = true := by
  simp only [holds, Bool.and_eq_true, decide_eq_true_eq] at h
  exact ⟨h.1.1, h.1.2, h.2, by simp [CronJobRow.isOpen, h.1.2]⟩

theorem isOpen_of_claimable {a : ClaimArgs} {r : CronJobRow} (h : a.isClaimable r = true) :
    r.isOpen = true := by
  simp only [ClaimArgs.isClaimable, ClaimArgs.isLapsed, Bool.or_eq_true, Bool.and_eq_true,
    decide_eq_true_eq] at h
  simp only [CronJobRow.isOpen, Bool.or_eq_true, decide_eq_true_eq]
  obtain h | h := h
  · exact .inl h
  · exact .inr h.1.1

theorem insertJob_ok {calendar : Calendar} {a : InsertArgs} {result : String × Bool}
    (h : insertJob calendar t a = .ok (t', result)) :
    t' = t ∨ (t' = t ++ [a.row] ∧ a.row.id ∉ t.map (·.id)) := by
  unfold insertJob at h
  split at h
  · cases h
  · obtain ⟨_, -, h⟩ := bind_eq_ok h
    split at h
    · cases h
    · split at h
      · obtain ⟨_, -, h⟩ := bind_eq_ok h
        obtain ⟨rfl, -⟩ := Prod.mk.inj (Except.ok.inj h)
        exact .inl rfl
      · split at h
        · cases h
        · rename_i hno
          obtain ⟨rfl, -⟩ := Prod.mk.inj (Except.ok.inj h)
          refine .inr ⟨rfl, fun hmem => hno ?_⟩
          obtain ⟨r, hr, he⟩ := List.mem_map.mp hmem
          exact List.any_eq_true.mpr ⟨r, hr, by simpa using he⟩

theorem claimRow_ok {a : ClaimArgs} {calendar : Calendar} {ids ids' : List String}
    {row : CronJobRow} (hk : (t.map (·.id)).Nodup) (hrow : row ∈ t) (hopen : row.isOpen = true)
    (h : a.claimRow calendar t ids row = .ok (t', ids')) :
    Rewritten t t' ∧ ∀ r ∈ t, r.id ≠ row.id → r ∈ t' := by
  have hkeep : ∀ (p : CronJobRow → Bool) (f : CronJobRow → CronJobRow),
      (∀ r, p r = true → r.id = row.id) → (∀ r, (f r).id = r.id ∧ (f r).tenantId = r.tenantId ∧
        (f r).sourceId = r.sourceId) →
      Rewritten t (updateWhere p f t) ∧ ∀ r ∈ t, r.id ≠ row.id → r ∈ updateWhere p f t := by
    intro p f hp hf
    refine ⟨rewritten_updateWhere fun r hr hpr => ?_, fun r hr hne => ?_⟩
    · obtain rfl := eq_of_key hk hr hrow (hp r hpr)
      exact .of_open hopen (hf r).1 (hf r).2.1 (hf r).2.2
    · exact mem_updateWhere_of_not hr (by simpa using fun hpr => hne (hp r hpr))
  unfold ClaimArgs.claimRow at h
  split at h
  · obtain ⟨rfl, -⟩ := Prod.mk.inj (Except.ok.inj h)
    exact hkeep _ _ (fun r hr => by simpa using hr) fun r => ⟨rfl, rfl, rfl⟩
  · cases h
  · split at h
    · cases h
    obtain ⟨rfl, -⟩ := Prod.mk.inj (Except.ok.inj h)
    refine hkeep _ _ (fun r hr => ?_) fun r => ⟨rfl, rfl, rfl⟩
    simp only [Bool.and_eq_true, decide_eq_true_eq] at hr
    exact hr.1

/-- The rows that a round has selected are still there when their turn comes. -/
theorem claimRows_ok {a : ClaimArgs} {calendar : Calendar} {rows : List CronJobRow}
    {ids ids' : List String} (hk : (t.map (·.id)).Nodup) (hnd : (rows.map (·.id)).Nodup)
    (hrows : ∀ r ∈ rows, r ∈ t ∧ r.isOpen = true)
    (h : a.claimRows calendar t ids rows = .ok (t', ids')) : Rewritten t t' := by
  induction rows generalizing t ids with
  | nil =>
    obtain ⟨rfl, -⟩ := Prod.mk.inj (Except.ok.inj h)
    exact .refl t
  | cons row rows ih =>
    obtain ⟨⟨t1, ids1⟩, hrow, h⟩ := bind_eq_ok h
    obtain ⟨hmem, hopen⟩ := hrows row (by simp)
    obtain ⟨hstep, hkeep⟩ := claimRow_ok hk hmem hopen hrow
    rw [List.map_cons, List.nodup_cons] at hnd
    refine hstep.trans (ih (hstep.ids ▸ hk) hnd.2 (fun r hr => ?_) h)
    have hne : r.id ≠ row.id := fun he => hnd.1 (he ▸ List.mem_map_of_mem hr)
    exact ⟨hkeep r (hrows r (by simp [hr])).1 hne, (hrows r (by simp [hr])).2⟩

theorem rounds_ok {a : ClaimArgs} {calendar : Calendar} {n : ℕ} {ids ids' : List String}
    (hk : (t.map (·.id)).Nodup) (h : a.rounds calendar n t ids = .ok (t', ids')) :
    Rewritten t t' := by
  induction n generalizing t ids with
  | zero =>
    obtain ⟨rfl, -⟩ := Prod.mk.inj (Except.ok.inj h)
    exact .refl t
  | succ n ih =>
    simp only [ClaimArgs.rounds] at h
    split at h
    · obtain ⟨rfl, -⟩ := Prod.mk.inj (Except.ok.inj h)
      exact .refl t
    · split at h
      · obtain ⟨rfl, -⟩ := Prod.mk.inj (Except.ok.inj h)
        exact .refl t
      · obtain ⟨⟨t1, ids1⟩, hround, h⟩ := bind_eq_ok h
        have hsel := selectOrdered_keys (p := a.isCandidate) (r := ClaimArgs.dueOrder) hk
        have hstep := claimRows_ok hk (hsel.sublist ((List.take_sublist _ _).map _)) (fun r hr => ?_) hround
        · exact hstep.trans (ih (hstep.ids ▸ hk) h)
        · obtain ⟨hmem, hcand⟩ := mem_selectOrdered.mp (List.mem_of_mem_take hr)
          simp only [ClaimArgs.isCandidate, Bool.and_eq_true] at hcand
          exact ⟨hmem, isOpen_of_claimable hcand.1.2⟩

theorem claimDueJobs_ok {calendar : Calendar} {a : ClaimArgs} {rows : List CronJobRow}
    (hk : (t.map (·.id)).Nodup) (h : claimDueJobs calendar t a = .ok (t', rows)) :
    Rewritten t t' := by
  have hswept : Rewritten t (a.swept t) := by
    refine rewritten_updateWhere fun r _ hr => .of_open ?_ rfl rfl rfl
    simp only [ClaimArgs.isExhausted, ClaimArgs.isLapsed, Bool.and_eq_true, decide_eq_true_eq] at hr
    simp [CronJobRow.isOpen, hr.1.1.1]
  obtain ⟨_, -, h⟩ := bind_eq_ok h
  split at h
  · cases h
  obtain ⟨⟨t1, ids⟩, hrounds, h⟩ := bind_eq_ok h
  obtain ⟨rfl, -⟩ := Prod.mk.inj (ClaimArgs.readBack_ok h).2
  exact hswept.trans (rounds_ok (hswept.ids ▸ hk) hrounds)

theorem renewLease_ok {jobId k : String} {leaseSeconds now : Int} {b : Bool}
    (h : renewLease t jobId k leaseSeconds now = .ok (t', b)) : Rewritten t t' := by
  unfold renewLease at h
  split at h
  · cases h
  · obtain ⟨rfl, -⟩ := Prod.mk.inj (Except.ok.inj h)
    refine rewritten_updateWhere fun r _ hr => .of_open ?_ rfl rfl rfl
    simp only [holdsAt, Bool.and_eq_true] at hr
    exact (isOpen_of_holds hr.1).2.2.2

end Jobs

section Keys

/-- A list is cut at its last separator in one way. -/
theorem append_cons_inj {α : Type*} {c : α} {a b x y : List α} (hx : c ∉ x) (hy : c ∉ y)
    (h : a ++ c :: x = b ++ c :: y) : a = b := by
  obtain ⟨u, rfl, hu⟩ | ⟨u, rfl, hu⟩ := List.append_eq_append_iff.mp h
  · cases u with
    | nil => simp
    | cons d u =>
      obtain ⟨-, rfl⟩ := List.cons.inj hu
      exact absurd (by simp) hx
  · cases u with
    | nil => simp
    | cons d u =>
      obtain ⟨-, rfl⟩ := List.cons.inj hu
      exact absurd (by simp) hy

theorem colon_not_mem_toString (n : Int) : ':' ∉ (toString n).toList :=
  Text.not_mem_toString (by decide) (by decide) n

theorem cronKey_inj {id id' : String} {n n' : Int} (h : cronKey id n = cronKey id' n') : id = id' := by
  have hlist := congrArg String.toList h
  simp only [cronKey, String.toList_append] at hlist
  have hid : "cron:".toList ++ id.toList = "cron:".toList ++ id'.toList :=
    append_cons_inj (colon_not_mem_toString n) (colon_not_mem_toString n')
      (by simpa using hlist)
  exact String.toList_inj.mp (List.append_cancel_left hid)

theorem cronKey_runAt {id : String} {n n' : Int} (h : cronKey id n = cronKey id n') : n = n' := by
  have hlist := congrArg String.toList h
  simp only [cronKey, String.toList_append] at hlist
  exact Text.toString_inj (String.toList_inj.mp (List.append_cancel_left hlist))

end Keys

/-- The event announces a run of the job. -/
def eventOf (jobId : String) (e : Queue.EventRow) : Bool :=
  e.messageType = "CronJobDue" && e.payload.get? "cron_job_id" = some (.str jobId)

/-- The event of one run, by its idempotency key. -/
def keyed (jobId : String) (runAt : Int) (e : Queue.EventRow) : Bool :=
  e.messageType = "CronJobDue" && e.idempotencyKey = cronKey jobId runAt

/-- A published event comes from a job of its tenant and is correlated and keyed by it. -/
def ComesFrom (jobs : List CronJobRow) (e : Queue.EventRow) : Prop :=
  ∃ r ∈ jobs, e.tenantId = r.tenantId ∧ e.correlationId = some r.id ∧
    e.payload.get? "cron_job_id" = some (.str r.id) ∧ ∃ n, e.idempotencyKey = cronKey r.id n

structure Inv (db : Tables) : Prop where
  jobIds : (db.jobs.map (·.id)).Nodup
  eventIds : (db.events.map (·.id)).Nodup
  eventKeys : (db.events.map fun e => (e.tenantId, e.idempotencyKey)).Nodup
  origin : ∀ e ∈ db.events, e.messageType = "CronJobDue" → ComesFrom db.jobs e
  prints : ∀ e ∈ db.events, ∃ f, e.idempotencyFingerprint = some f ∧
    f.get? "message_type" = some (.str e.messageType)

section Effects

variable {db db' : Tables} {calendar : Calendar}

theorem ComesFrom.mono {t t' : List CronJobRow} {e : Queue.EventRow} (h : ComesFrom t e)
    (hrows : ∀ r ∈ t, ∃ s ∈ t', s.id = r.id ∧ s.tenantId = r.tenantId) : ComesFrom t' e := by
  obtain ⟨r, hr, htenant, hcorr, hpayload, n, hkey⟩ := h
  obtain ⟨s, hs, hid, hst⟩ := hrows r hr
  exact ⟨s, hs, htenant.trans hst.symm, hid ▸ hcorr, hid ▸ hpayload, n, hid ▸ hkey⟩

theorem Rewritten.rows {t t' : List CronJobRow} (h : Rewritten t t') :
    ∀ r ∈ t, ∃ s ∈ t', s.id = r.id ∧ s.tenantId = r.tenantId := by
  intro r hr
  obtain ⟨s, hs, hstep⟩ := h.exists_of_mem hr
  exact ⟨s, hs, hstep.1, hstep.2.1⟩

theorem Inv.rewriteJobs (h : Inv db) {t : List CronJobRow} (hg : Rewritten db.jobs t) :
    Inv { db with jobs := t } :=
  ⟨hg.ids ▸ h.jobIds, h.eventIds, h.eventKeys, fun e he hm => (h.origin e he hm).mono hg.rows, h.prints⟩

/-- What a dispatch that publishes does. -/
structure Published (calendar : Calendar) (db : Tables) (jobId leaseToken : String) (firedAt : Int)
    (db' : Tables) (row : CronJobRow) (following : Option Int) (a : Queue.EnqueueArgs) : Prop where
  found : db.jobs.find? (holdsAt jobId leaseToken firedAt) = some row
  next : nextRunAt calendar row.scheduleAnchorAt row.rrule row.timezone firedAt = .ok following
  jobs : db'.jobs = updateWhere (holds jobId leaseToken) (advanced following firedAt) db.jobs
  args : ∃ recipient eventId, a = dueEvent row recipient eventId firedAt
  events : ∃ r, Queue.enqueue db.events a = .ok (db'.events, r)

theorem dispatchDueEvent_ok {jobId k recipient eventId : String} {firedAt : Int} {b : Bool}
    (h : dispatchDueEvent calendar db jobId k recipient eventId firedAt = .ok (db', b)) :
    (b = false ∧ db' = db) ∨ (b = true ∧ ∃ row following a,
      Published calendar db jobId k firedAt db' row following a) := by
  unfold dispatchDueEvent at h
  split at h
  · cases h
  · split at h
    · obtain ⟨rfl, rfl⟩ := Prod.mk.inj (Except.ok.inj h)
      exact .inl ⟨rfl, rfl⟩
    · rename_i row hrow
      obtain ⟨⟨events, r⟩, henqueue, h⟩ := bind_eq_ok h
      obtain ⟨⟨jobs, updated⟩, hadvance, h⟩ := bind_eq_ok h
      dsimp only at h
      split at h
      · obtain ⟨rfl, rfl⟩ := Prod.mk.inj (Except.ok.inj h)
        obtain ⟨following, hnext, hadvance⟩ := bind_eq_ok hadvance
        obtain ⟨rfl, -⟩ := Prod.mk.inj (Except.ok.inj hadvance)
        exact .inr ⟨rfl, row, following, _, hrow, hnext, rfl, ⟨recipient, eventId, rfl⟩, r, henqueue⟩
      · cases h

variable {jobId k : String} {firedAt : Int} {row : CronJobRow} {following : Option Int}
  {a : Queue.EnqueueArgs}

theorem Published.row_mem (h : Published calendar db jobId k firedAt db' row following a) :
    row ∈ db.jobs ∧ holds jobId k row = true := by
  have hp := List.find?_some h.found
  simp only [holdsAt, Bool.and_eq_true] at hp
  exact ⟨List.mem_of_find?_eq_some h.found, hp.1⟩

theorem advanced_identity (following : Option Int) (firedAt : Int) (r : CronJobRow) :
    (advanced following firedAt r).id = r.id ∧ (advanced following firedAt r).tenantId = r.tenantId ∧
      (advanced following firedAt r).sourceId = r.sourceId := by
  cases following <;> exact ⟨rfl, rfl, rfl⟩

theorem Published.rewritten (h : Published calendar db jobId k firedAt db' row following a) :
    Rewritten db.jobs db'.jobs := by
  rw [h.jobs]
  refine rewritten_updateWhere fun r _ hr => ?_
  obtain ⟨hid, htenant, hsource⟩ := advanced_identity following firedAt r
  exact .of_open (isOpen_of_holds hr).2.2.2 hid htenant hsource

theorem fingerprint_messageType (a : Queue.EnqueueArgs) :
    a.fingerprint.get? "message_type" = some (.str a.messageType) := by
  simp [Queue.EnqueueArgs.fingerprint, idempotencyFingerprint, Json.get?]

/-- The events that hold the key of the run: the inserted one, or the one stored before. -/
theorem Published.events_cases (h : Published calendar db jobId k firedAt db' row following a)
    (hinv : Inv db) :
    (db'.events = db.events ++ [a.row] ∧ a.eventId ∉ db.events.map (·.id) ∧
      (a.tenantId, a.idempotencyKey) ∉ db.events.map fun e => (e.tenantId, e.idempotencyKey)) ∨
    (db'.events = db.events ∧ ∃ e ∈ db.events, e.messageType = "CronJobDue" ∧
      e.idempotencyKey = a.idempotencyKey) := by
  obtain ⟨recipient, eventId, rfl⟩ := h.args
  obtain ⟨r, henqueue⟩ := h.events
  obtain ⟨he, -, hid, hkey⟩ | ⟨he, -, x, hx, hreplay⟩ := Queue.enqueue_ok henqueue
  · refine .inl ⟨he, hid, fun hmem => ?_⟩
    obtain ⟨e, hmem, hek⟩ := List.mem_map.mp hmem
    exact hkey e hmem ⟨(Prod.mk.inj hek).1, (Prod.mk.inj hek).2⟩
  · have hmem := List.mem_of_find?_eq_some hx
    have hxk := List.find?_some hx
    simp only [Bool.and_eq_true, decide_eq_true_eq] at hxk
    obtain ⟨f, hf, hprint⟩ := hinv.prints x hmem
    have hfa : f = (dueEvent row recipient eventId firedAt).fingerprint := by
      simpa [Queue.replayMatches, hf] using hreplay
    rw [hfa, fingerprint_messageType] at hprint
    refine .inr ⟨he, x, hmem, ?_, hxk.2⟩
    have : Json.str "CronJobDue" = .str x.messageType := Option.some.inj hprint
    exact (Json.str.inj this).symm

theorem Inv.publish (hinv : Inv db) (h : Published calendar db jobId k firedAt db' row following a) :
    Inv db' := by
  have hjobs := h.rewritten
  obtain ⟨hrow, hholds⟩ := h.row_mem
  have hold : ∀ e ∈ db.events, e.messageType = "CronJobDue" → ComesFrom db'.jobs e :=
    fun e he hm => (hinv.origin e he hm).mono hjobs.rows
  obtain ⟨he, hid, hkey⟩ | ⟨he, -⟩ := h.events_cases hinv
  · refine ⟨hjobs.ids ▸ hinv.jobIds, ?_, ?_, ?_, ?_⟩
    · rw [he]
      exact nodup_append_key hinv.eventIds hid
    · rw [he]
      exact nodup_append_key (k := fun e : Queue.EventRow => (e.tenantId, e.idempotencyKey))
        hinv.eventKeys hkey
    · intro e hmem hm
      rw [he] at hmem
      obtain hmem | hmem := List.mem_append.mp hmem
      · exact hold e hmem hm
      · obtain rfl := List.mem_singleton.mp hmem
        obtain ⟨recipient, eventId, rfl⟩ := h.args
        have hnew : ComesFrom db.jobs (dueEvent row recipient eventId firedAt).row :=
          ⟨row, hrow, rfl, rfl, by simp [Queue.EnqueueArgs.row, dueEvent, Json.get?], row.runAt, rfl⟩
        exact hnew.mono hjobs.rows
    · intro e hmem
      rw [he] at hmem
      obtain hmem | hmem := List.mem_append.mp hmem
      · exact hinv.prints e hmem
      · obtain rfl := List.mem_singleton.mp hmem
        exact ⟨a.fingerprint, rfl, fingerprint_messageType a⟩
  · exact ⟨hjobs.ids ▸ hinv.jobIds, he ▸ hinv.eventIds, he ▸ hinv.eventKeys, he ▸ hold,
      he ▸ hinv.prints⟩

/-- A cancellation rewrites the jobs and touches no event. -/
theorem cancelScheduledJob_ok {tenantId sourceId : String} {now : Int} {outcome : CancellationOutcome}
    (h : cancelScheduledJob db jobId tenantId sourceId now = .ok (db', outcome)) :
    Rewritten db.jobs db'.jobs ∧ db'.events = db.events ∧
      (outcome ≠ .notFound → ∃ r ∈ db.jobs, inConversation jobId tenantId sourceId r = true ∧
        (r.isOpen = true → db'.jobs = updateWhere
          (fun r => inConversation jobId tenantId sourceId r && r.isOpen) (·.unlease .cancelled now) db.jobs) ∧
        (outcome = .cancelled → hasActiveDispatchedEvent db.events jobId tenantId = false)) := by
  have hrewritten : Rewritten db.jobs (updateWhere
      (fun r => inConversation jobId tenantId sourceId r && r.isOpen) (·.unlease .cancelled now) db.jobs) := by
    refine rewritten_updateWhere fun r _ hr => .of_open ?_ rfl rfl rfl
    simp only [Bool.and_eq_true] at hr
    exact hr.2
  unfold cancelScheduledJob at h
  split at h
  · cases h
  split at h
  · cases h
  split at h
  · cases h
  split at h
  · obtain ⟨rfl, rfl⟩ := Prod.mk.inj (Except.ok.inj h)
    exact ⟨.refl _, rfl, fun hne => absurd rfl hne⟩
  · rename_i row hrow
    have hmem := List.mem_of_find?_eq_some hrow
    have hconv := List.find?_some hrow
    dsimp only at h
    split at h
    · rename_i hstatus
      obtain ⟨rfl, rfl⟩ := Prod.mk.inj (Except.ok.inj h)
      refine ⟨.refl _, rfl, fun _ => ⟨row, hmem, hconv, by simp [CronJobRow.isOpen, hstatus], ?_⟩⟩
      intro ho
      split at ho <;> cases ho
    · rename_i hstatus
      obtain ⟨rfl, rfl⟩ := Prod.mk.inj (Except.ok.inj h)
      refine ⟨.refl _, rfl, fun _ => ⟨row, hmem, hconv, by simp [CronJobRow.isOpen, hstatus], ?_⟩⟩
      intro ho
      split at ho <;> cases ho
    · rename_i hstatus
      obtain ⟨rfl, rfl⟩ := Prod.mk.inj (Except.ok.inj h)
      refine ⟨.refl _, rfl, fun _ => ⟨row, hmem, hconv, by simp [CronJobRow.isOpen, hstatus], ?_⟩⟩
      intro ho
      split at ho <;> cases ho
    · obtain ⟨rfl, rfl⟩ := Prod.mk.inj (Except.ok.inj h)
      refine ⟨hrewritten, rfl, fun _ => ⟨row, hmem, hconv, fun _ => rfl, fun ho => ?_⟩⟩
      split at ho
      · cases ho
      · rename_i hno
        simpa using hno
    · obtain ⟨rfl, rfl⟩ := Prod.mk.inj (Except.ok.inj h)
      refine ⟨hrewritten, rfl, fun _ => ⟨row, hmem, hconv, fun _ => rfl, fun ho => ?_⟩⟩
      split at ho
      · cases ho
      · rename_i hno
        simpa using hno

end Effects

section Queue

variable {t : List Queue.EventRow} {op : Queue.QueueOp}

/-- Consumers change the delivery state of an event and nothing else. -/
theorem rowStep_content {r s : Queue.EventRow} (h : Queue.RowStep op r s) :
    s.id = r.id ∧ s.messageType = r.messageType ∧ s.payload = r.payload ∧ s.tenantId = r.tenantId ∧
      s.correlationId = r.correlationId ∧ s.idempotencyKey = r.idempotencyKey ∧
      s.idempotencyFingerprint = r.idempotencyFingerprint := by
  cases h <;> exact ⟨rfl, rfl, rfl, rfl, rfl, rfl, rfl⟩

/-- The ids of the events of a job. -/
def publishedOf (jobId : String) (events : List Queue.EventRow) : List String :=
  (events.filter (eventOf jobId)).map (·.id)

theorem publishedOf_append (jobId : String) (e : Queue.EventRow) :
    publishedOf jobId (t ++ [e]) = publishedOf jobId t ++ if eventOf jobId e then [e.id] else [] := by
  by_cases h : eventOf jobId e = true
  · simp [publishedOf, List.filter_append, h]
  · simp [publishedOf, List.filter_append, h]

theorem publishedOf_apply (jobId : String) (hid : (t.map (·.id)).Nodup) (hop : publishes op = false) :
    publishedOf jobId (Queue.apply t op) = publishedOf jobId t := by
  obtain ⟨g, hg, hstep⟩ | ⟨a, rfl, ha, -, -⟩ := Queue.apply_spec hid op
  · have hevent : ∀ r ∈ t, eventOf jobId (g r) = eventOf jobId r := by
      intro r hr
      obtain ⟨-, hm, hp, -⟩ := rowStep_content (hstep r hr)
      simp only [eventOf, hm, hp]
    rw [hg, publishedOf, List.filter_map, List.map_map]
    have hfilter : t.filter (eventOf jobId ∘ g) = t.filter (eventOf jobId) :=
      List.filter_congr fun r hr => hevent r hr
    rw [hfilter]
    exact List.map_congr_left fun r hr => (hstep r (List.mem_of_mem_filter hr)).id_eq
  · have hno : eventOf jobId a.row = false := by
      simp only [publishes, decide_eq_false_iff_not] at hop
      simp [eventOf, Queue.EnqueueArgs.row, hop]
    rw [ha, publishedOf_append, hno]
    simp

theorem Inv.queue {db : Tables} (h : Inv db) (hop : publishes op = false) :
    Inv { db with events := Queue.apply db.events op } := by
  refine ⟨h.jobIds, Queue.apply_ids_nodup h.eventIds op, Queue.apply_keys_nodup h.eventIds h.eventKeys op,
    fun e he hm => ?_, fun e he => ?_⟩
  · obtain ⟨r, hr, hstep⟩ | ⟨a, rfl, rfl, -⟩ := Queue.mem_apply h.eventIds he
    · obtain ⟨-, hmt, hp, ht, hc, hk, -⟩ := rowStep_content hstep
      obtain ⟨j, hj, htenant, hcorr, hpayload, n, hkey⟩ := h.origin r hr (hmt ▸ hm)
      exact ⟨j, hj, ht.trans htenant, hc.trans hcorr, hp ▸ hpayload, n, hk.trans hkey⟩
    · simp only [publishes, decide_eq_false_iff_not] at hop
      exact absurd hm hop
  · obtain ⟨r, hr, hstep⟩ | ⟨a, rfl, rfl, -⟩ := Queue.mem_apply h.eventIds he
    · obtain ⟨-, hmt, -, -, -, -, hf⟩ := rowStep_content hstep
      obtain ⟨f, hfp, hprint⟩ := h.prints r hr
      exact ⟨f, hf.trans hfp, hmt ▸ hprint⟩
    · exact ⟨a.fingerprint, rfl, fingerprint_messageType a⟩

end Queue

section Runs

variable {calendar : Calendar} {db : Tables}

/-- What a call does to the jobs and to the events of one job. -/
theorem perform_step (calendar : Calendar) (h : Inv db) (call : Call) :
    Inv (perform calendar db call) ∧
      Grows JobStep (fun _ => True) db.jobs (perform calendar db call).jobs ∧
      ∀ jobId, publishedOf jobId (perform calendar db call).events = publishedOf jobId db.events ∨
        ∃ r ∈ db.jobs, r.id = jobId ∧ r.isOpen = true := by
  have hsame : Inv db ∧ Grows JobStep (fun _ => True) db.jobs db.jobs ∧
      ∀ jobId, publishedOf jobId db.events = publishedOf jobId db.events ∨
        ∃ r ∈ db.jobs, r.id = jobId ∧ r.isOpen = true :=
    ⟨h, .refl fun r _ => .refl r, fun _ => .inl rfl⟩
  have hrewrite : ∀ t, Rewritten db.jobs t → Inv { db with jobs := t } ∧
      Grows JobStep (fun _ => True) db.jobs t ∧
      ∀ jobId, publishedOf jobId db.events = publishedOf jobId db.events ∨
        ∃ r ∈ db.jobs, r.id = jobId ∧ r.isOpen = true :=
    fun t ht => ⟨h.rewriteJobs ht, ht.mono (fun _ _ _ hs => hs) fun _ hf => hf.elim, fun _ => .inl rfl⟩
  cases call with
  | insertJob a =>
    simp only [perform]
    split
    · rename_i t result hok
      obtain rfl | ⟨rfl, hid⟩ := insertJob_ok hok
      · exact hsame
      · refine ⟨⟨nodup_append_key h.jobIds hid, h.eventIds, h.eventKeys, fun e he hm => ?_, h.prints⟩,
          .append (fun r _ => .refl r) fun _ _ => trivial, fun _ => .inl rfl⟩
        exact (h.origin e he hm).mono fun r hr => ⟨r, List.mem_append_left _ hr, rfl, rfl⟩
    · exact hsame
  | claimDueJobs a =>
    simp only [perform]
    split
    · rename_i hok
      exact hrewrite _ (claimDueJobs_ok h.jobIds hok)
    · exact hsame
  | renewLease jobId k leaseSeconds now =>
    simp only [perform]
    split
    · rename_i hok
      exact hrewrite _ (renewLease_ok hok)
    · exact hsame
  | cancelScheduledJob jobId tenantId sourceId now =>
    simp only [perform]
    split
    · rename_i db' outcome hok
      obtain ⟨hjobs, hevents, -⟩ := cancelScheduledJob_ok hok
      have hdb : db' = { db with jobs := db'.jobs } := by rw [← hevents]
      rw [hdb]
      exact hrewrite _ hjobs
    · exact hsame
  | dispatchDueEvent jobId k recipient eventId firedAt =>
    simp only [perform]
    split
    · rename_i db' b hok
      obtain ⟨-, rfl⟩ | ⟨-, row, following, a, hpub⟩ := dispatchDueEvent_ok hok
      · exact hsame
      · refine ⟨h.publish hpub, hpub.rewritten.mono (fun _ _ _ hs => hs) fun _ hf => hf.elim, fun id => ?_⟩
        obtain ⟨hrow, hholds⟩ := hpub.row_mem
        obtain ⟨hid, -, -, hopen⟩ := isOpen_of_holds hholds
        by_cases hidj : id = row.id
        · exact .inr ⟨row, hrow, hidj.symm, hopen⟩
        · obtain ⟨he, -⟩ | ⟨he, -⟩ := hpub.events_cases h
          · obtain ⟨recipient, eventId, rfl⟩ := hpub.args
            have hno : eventOf id (dueEvent row recipient eventId firedAt).row = false := by
              simp [eventOf, Queue.EnqueueArgs.row, dueEvent, Json.get?, Ne.symm hidj]
            rw [he, publishedOf_append, hno]
            exact .inl (by simp)
          · exact .inl (by rw [he])
    · exact hsame
  | queue op =>
    simp only [perform]
    split
    · exact hsame
    · rename_i hop
      have hno : publishes op = false := by simpa using hop
      exact ⟨h.queue hno, .refl fun r _ => .refl r, fun id => .inl (publishedOf_apply id h.eventIds hno)⟩

theorem runFrom_inv (h : Inv db) (calls : List Call) : Inv (runFrom calendar db calls) := by
  induction calls generalizing db with
  | nil => exact h
  | cons call calls ih => exact ih (perform_step calendar h call).1

/-- A closed job stays as it is, and no event of it is published any more. -/
theorem closed_forever (calendar : Calendar) (h : Inv db) {r : CronJobRow} (hr : r ∈ db.jobs)
    (hclosed : r.isOpen = false) (calls : List Call) : r ∈ (runFrom calendar db calls).jobs ∧
      publishedOf r.id (runFrom calendar db calls).events = publishedOf r.id db.events := by
  induction calls generalizing db with
  | nil => exact ⟨hr, rfl⟩
  | cons call calls ih =>
    obtain ⟨hinv, hjobs, hevents⟩ := perform_step calendar h call
    obtain ⟨s, hs, hstep⟩ := hjobs.exists_of_mem hr
    obtain rfl := hstep.2.2.2 hclosed
    have hsame : publishedOf s.id (perform calendar db call).events = publishedOf s.id db.events := by
      obtain he | ⟨x, hx, hid, hopen⟩ := hevents s.id
      · exact he
      · rw [eq_of_key h.jobIds hx hr hid, hclosed] at hopen
        cases hopen
    obtain ⟨hfinal, hpub⟩ := ih hinv hs
    exact ⟨hfinal, hpub.trans hsame⟩

end Runs

/-- A dispatch that returns true advances one job and leaves one event of the run that was due;
every other dispatch changes nothing. -/
def DispatchAtomic (calendar : Calendar) (db : Tables) : Prop :=
  ∀ jobId leaseToken recipient eventId firedAt,
    match dispatchDueEvent calendar db jobId leaseToken recipient eventId firedAt with
    | .ok (db', true) => ∃ row ∈ db.jobs, ∃ following, row.id = jobId ∧ row.status = .leased ∧
        nextRunAt calendar row.scheduleAnchorAt row.rrule row.timezone firedAt = .ok following ∧
        db.jobs.countP (·.id = jobId) = 1 ∧
        db'.jobs = updateWhere (·.id = jobId) (advanced following firedAt) db.jobs ∧
        db'.events.countP (keyed jobId row.runAt) = 1 ∧
        (db'.events = db.events ∨ ∃ e, keyed jobId row.runAt e = true ∧ db'.events = db.events ++ [e])
    | .ok (db', false) => db' = db
    | .error _ =>
      perform calendar db (.dispatchDueEvent jobId leaseToken recipient eventId firedAt) = db

/-- After the cancellation of an existing job, no event of it is inserted and it stays closed. -/
def CancelFinal (calendar : Calendar) (db : Tables) : Prop :=
  ∀ jobId tenantId sourceId now db' outcome,
    cancelScheduledJob db jobId tenantId sourceId now = .ok (db', outcome) → outcome ≠ .notFound →
    ∀ later, ∃ r ∈ (runFrom calendar db' later).jobs, r.id = jobId ∧
      (r.status = .cancelled ∨ r.status = .fired ∨ r.status = .deadLetter) ∧
      publishedOf jobId (runFrom calendar db' later).events = publishedOf jobId db'.events

/-- A job is reported as cancelled only when none of its events is waiting or being handled. -/
def CancelQuiet (db : Tables) : Prop :=
  ∀ jobId tenantId sourceId now db',
    cancelScheduledJob db jobId tenantId sourceId now = .ok (db', .cancelled) →
    ∀ e ∈ db'.events, eventOf jobId e = true →
      ¬ (e.status = .queued ∨ e.status = .leased ∨ e.status = .retrying)

section Theorems

variable {calendar : Calendar} {db : Tables}

theorem keyed_tenant (h : Inv db) {row : CronJobRow} (hrow : row ∈ db.jobs) {n : Int}
    {e : Queue.EventRow} (he : e ∈ db.events) (hkeyed : keyed row.id n e = true) :
    e.tenantId = row.tenantId := by
  simp only [keyed, Bool.and_eq_true, decide_eq_true_eq] at hkeyed
  obtain ⟨r, hr, htenant, -, -, m, hkey⟩ := h.origin e he hkeyed.1
  have hid : r.id = row.id := cronKey_inj (hkey.symm.trans hkeyed.2)
  rw [htenant, eq_of_key h.jobIds hr hrow hid]

/-- At most one event has the key of a run. -/
theorem countP_keyed_le_one (h : Inv db) {row : CronJobRow} (hrow : row ∈ db.jobs) (n : Int) :
    db.events.countP (keyed row.id n) ≤ 1 := by
  have hcongr : db.events.countP (keyed row.id n) = rowcount (fun e =>
      decide (e.tenantId = row.tenantId) && keyed row.id n e) db.events := by
    refine List.countP_congr fun e he => ?_
    simp only [Bool.and_eq_true, decide_eq_true_eq]
    exact ⟨fun hk => ⟨keyed_tenant h hrow he hk, hk⟩, fun hk => hk.2⟩
  rw [hcongr]
  have hkey : ∀ e : Queue.EventRow, (decide (e.tenantId = row.tenantId) && keyed row.id n e) = true →
      (e.tenantId, e.idempotencyKey) = (row.tenantId, cronKey row.id n) := by
    intro e he
    simp only [keyed, Bool.and_eq_true, decide_eq_true_eq] at he
    rw [he.1, he.2.2]
  exact rowcount_le_one h.eventKeys hkey

theorem dispatchAtomic (h : Inv db) : DispatchAtomic calendar db := by
  intro jobId k recipient eventId firedAt
  split
  · rename_i db' hok
    obtain ⟨hb, -⟩ | ⟨-, row, following, a, hpub⟩ := dispatchDueEvent_ok hok
    · cases hb
    obtain ⟨hrow, hholds⟩ := hpub.row_mem
    obtain ⟨rfl, hleased, -⟩ := isOpen_of_holds hholds
    obtain ⟨s, hs, hstep⟩ := hpub.rewritten.exists_of_mem hrow
    have hwhere : updateWhere (holds row.id k) (advanced following firedAt) db.jobs =
        updateWhere (·.id = row.id) (advanced following firedAt) db.jobs := by
      refine List.map_congr_left fun r hr => ?_
      by_cases hid : r.id = row.id
      · rw [eq_of_key h.jobIds hr hrow hid]
        simp [hholds]
      · have hno : holds row.id k r = false := by simp [holds, hid]
        simp [hno, hid]
    have hone : db.jobs.countP (·.id = row.id) = 1 := by
      refine le_antisymm (rowcount_le_one h.jobIds fun r hr => by simpa using hr) ?_
      exact List.countP_pos_iff.mpr ⟨row, hrow, by simp⟩
    have hle : db'.events.countP (keyed row.id row.runAt) ≤ 1 := by
      rw [← hstep.1]
      exact countP_keyed_le_one (h.publish hpub) hs row.runAt
    refine ⟨row, hrow, following, rfl, hleased, hpub.next, hone, hpub.jobs.trans hwhere, ?_⟩
    have hcases := hpub.events_cases h
    obtain ⟨recipient, eventId, rfl⟩ := hpub.args
    obtain ⟨he, -⟩ | ⟨he, e, hmem, hm, hkey⟩ := hcases
    · have hnew : keyed row.id row.runAt (dueEvent row recipient eventId firedAt).row = true := by
        simp [keyed, Queue.EnqueueArgs.row, dueEvent]
      refine ⟨le_antisymm hle (List.countP_pos_iff.mpr ⟨_, ?_, hnew⟩), .inr ⟨_, hnew, he⟩⟩
      simp [he]
    · refine ⟨le_antisymm hle (List.countP_pos_iff.mpr ⟨e, he ▸ hmem, ?_⟩), .inl he⟩
      simp [keyed, hm, hkey, dueEvent]
  · rename_i db' hok
    obtain ⟨-, rfl⟩ | ⟨hb, -⟩ := dispatchDueEvent_ok hok
    · rfl
    · cases hb
  · rename_i e hok
    simp only [perform, hok]

theorem isOpen_eq_false {r : CronJobRow} (h : r.isOpen = false) :
    r.status = .cancelled ∨ r.status = .fired ∨ r.status = .deadLetter := by
  cases hs : r.status <;> simp [CronJobRow.isOpen, hs] at h ⊢

theorem cancelFinal (h : Inv db) : CancelFinal calendar db := by
  intro jobId tenantId sourceId now db' outcome hok hne later
  have hdb' : Inv db' := by
    have hstep := (perform_step calendar h (.cancelScheduledJob jobId tenantId sourceId now)).1
    simpa only [perform, hok] using hstep
  obtain ⟨hjobs, -, hfound⟩ := cancelScheduledJob_ok hok
  obtain ⟨r, hr, hconv, hopened, -⟩ := hfound hne
  have hid : r.id = jobId := by
    simp only [inConversation, Bool.and_eq_true, decide_eq_true_eq] at hconv
    exact hconv.1.1
  have hclosed : ∃ s ∈ db'.jobs, s.id = jobId ∧ s.isOpen = false := by
    cases hopen : r.isOpen with
    | false =>
      obtain ⟨s, hs, hstep⟩ := hjobs.exists_of_mem hr
      obtain rfl := hstep.2.2.2 hopen
      exact ⟨s, hs, hid, hopen⟩
    | true =>
      refine ⟨r.unlease .cancelled now, ?_, hid, rfl⟩
      rw [hopened hopen]
      exact List.mem_map.mpr ⟨r, hr, by simp [hconv, hopen]⟩
  obtain ⟨s, hs, hsid, hsc⟩ := hclosed
  obtain ⟨hfinal, hpub⟩ := closed_forever calendar hdb' hs hsc later
  exact ⟨s, hfinal, hsid, isOpen_eq_false hsc, hsid ▸ hpub⟩

theorem cancelQuiet (h : Inv db) : CancelQuiet db := by
  intro jobId tenantId sourceId now db' hok e he hevent hactive
  obtain ⟨-, hevents, hfound⟩ := cancelScheduledJob_ok hok
  obtain ⟨r, hr, hconv, -, hnone⟩ := hfound (by simp)
  simp only [inConversation, Bool.and_eq_true, decide_eq_true_eq] at hconv
  simp only [eventOf, Bool.and_eq_true, decide_eq_true_eq] at hevent
  rw [hevents] at he
  obtain ⟨j, hj, htenant, hcorr, hpayload, -⟩ := h.origin e he hevent.1
  have hjid : j.id = jobId := Json.str.inj (Option.some.inj (hpayload.symm.trans hevent.2))
  have hjr : j = r := eq_of_key h.jobIds hj hr (hjid.trans hconv.1.1.symm)
  have hsome : hasActiveDispatchedEvent db.events jobId tenantId = true := by
    refine List.any_eq_true.mpr ⟨e, he, ?_⟩
    simp [htenant, hjr, hconv.1.2, hcorr, ← hjid, hjid ▸ hconv.1.1, hevent.1, hactive, or_assoc]
  rw [hnone rfl] at hsome
  cases hsome

theorem inv_empty : Inv {} := ⟨by simp, by simp, by simp, by simp, by simp⟩

end Theorems

/-- A calendar of one zone in which every rule recurs daily. -/
def dailyCalendar : Calendar where
  fromTimestamp _ _ := .ok ()
  probe _ _ _ := .ok ()
  after _ _ _ instant := .ok (some (instant + 86400))

/-- A daily job runs once and is cancelled while its next run is leased. -/
def cancelledJob : List Call := [
  .insertJob { tenantId := "t", sourceId := "chat", name := "report", payload := [], runAt := 10,
               rrule := some "FREQ=DAILY", now := 0, jobHex := "1" },
  .claimDueJobs { limit := 5, leaseOwner := "w", leaseSeconds := 60, now := 10, leaseToken := "k1" },
  .dispatchDueEvent "cron_1" "k1" "agent" "evt1" 11,
  .claimDueJobs { limit := 5, leaseOwner := "w", leaseSeconds := 60, now := 90000, leaseToken := "k2" },
  .cancelScheduledJob "cron_1" "t" "chat" 90001,
  .dispatchDueEvent "cron_1" "k2" "agent" "evt2" 90002]

example : (runFrom dailyCalendar {} cancelledJob).jobs.map (fun r => (r.status, r.runAt)) =
      [(.cancelled, 86411)] ∧
    (runFrom dailyCalendar {} cancelledJob).events.map (·.idempotencyKey) = ["cron:cron_1:10"] := by
  decide +kernel

end Soveren.Cron
