import Soveren.Actions.System
import Soveren.Actions.AtMostOnce

/-! No action that can still be executed is left without a live event. The ledger collects what
holds between the tables and the runs regardless of any condition; the coverage says which
event answers for each action, and is kept by fenced moves only. -/
namespace Soveren.Actions
open Soveren.Process Soveren.Queue Soveren.Relational Soveren.Run

/-- An event whose payload names the action. -/
def IsFor (k : ActionRef) (row : EventRow) : Prop :=
  row.messageType = "ExecuteAction" ∧ actionReference (rowToQueueEvent row) = .ok k

/-- An event that a worker will still see. -/
def IsLive (row : EventRow) : Prop :=
  row.status = .queued ∨ row.status = .leased ∨ row.status = .retrying

/-- An action that some worker still has to deal with. -/
def ActionRow.IsUnfinished (r : ActionRow) : Prop := r.IsExecutable ∨ r.status = .executing

instance (row : EventRow) : Decidable (IsLive row) := inferInstanceAs (Decidable (_ ∨ _ ∨ _))

instance (r : ActionRow) : Decidable r.IsUnfinished :=
  inferInstanceAs (Decidable ((r.status = .approved ∨ (r.status = .queued ∧ r.lastError ≠ none)) ∨
    r.status = .executing))

/-- The run's event is leased under the run's token. -/
def Run.Holds (run : Run) (row : EventRow) : Prop :=
  holds run.event.id run.event.leaseToken row = true

structure Ledger (s : System) : Prop where
  ids : (s.tables.actions.map (·.id)).Nodup
  named : ∀ r ∈ s.tables.actions, r.id ≠ "" ∧ r.sourceId ≠ ""
  follows : ∀ run ∈ s.runs, Follows (protocol run.event) run.phase run.program
  queue : TableValid s.tables.events
  kinds : ∀ row ∈ s.tables.events, row.messageType = "ExecuteAction"
  keyed : ∀ row ∈ s.tables.events, ∀ id, row.idempotencyKey = executionKey id →
    id ∈ s.tables.actions.map (·.id)
  unkeyed : ∀ r ∈ s.tables.actions, r.status = .pending →
    ∀ row ∈ s.tables.events, row.idempotencyKey ≠ executionKey r.id
  tokens : ∀ row ∈ s.tables.events, ∀ k, row.leaseToken = some k →
    ∃ run ∈ s.runs, run.event.leaseToken = k
  agree : ∀ run ∈ s.runs, ∀ row ∈ s.tables.events, run.Holds row → run.event = rowToQueueEvent row
  unique : ∀ (i j : ℕ) (ri rj : Run), s.runs[i]? = some ri → s.runs[j]? = some rj →
    ri.event.id = rj.event.id → ri.event.leaseToken = rj.event.leaseToken → i = j
  retrying : ∀ run ∈ s.runs, run.phase = .retrying → run.event.attempts < run.event.maxAttempts

theorem executionKey_injective {x y : String} (h : executionKey x = executionKey y) : x = y :=
  String.append_right_inj _ |>.mp h

theorem reconcileKey_ne (id key id' : String) : reconcileKey id key ≠ executionKey id' := by
  intro h
  obtain ⟨xs, hx⟩ : ∃ xs, "reconcile-action:".toList = 'r' :: xs :=
    ⟨"econcile-action:".toList, by decide⟩
  obtain ⟨ys, hy⟩ : ∃ ys, "execute-action:".toList = 'e' :: ys :=
    ⟨"xecute-action:".toList, by decide⟩
  unfold reconcileKey executionKey at h
  have hl := congrArg String.toList h
  rw [String.toList_append, String.toList_append, String.toList_append, String.toList_append,
    hx, hy] at hl
  have hne : 'r' ≠ 'e' := by decide
  exact hne (List.cons.inj hl).1

theorem Run.Holds.id_eq {run : Run} {row : EventRow} (h : run.Holds row) :
    row.id = run.event.id ∧ row.status = .leased ∧ row.leaseToken = some run.event.leaseToken :=
  holds_iff.mp h

/-- Two runs that hold one row are one run. -/
theorem Ledger.holder_eq {s : System} (hs : Ledger s) {i j : ℕ} {ri rj : Run} {row : EventRow}
    (hi : s.runs[i]? = some ri) (hj : s.runs[j]? = some rj) (hri : ri.Holds row)
    (hrj : rj.Holds row) : i = j := by
  refine hs.unique i j ri rj hi hj (hri.id_eq.1.symm.trans hrj.id_eq.1) ?_
  exact Option.some.inj (hri.id_eq.2.2.symm.trans hrj.id_eq.2.2)

section Ledger

variable {s : System}

theorem Ledger.setActions (hs : Ledger s) {t : List ActionRow} (hids : (t.map (·.id)).Nodup)
    (hnamed : ∀ r ∈ t, r.id ≠ "" ∧ r.sourceId ≠ "")
    (hsub : ∀ id ∈ s.tables.actions.map (·.id), id ∈ t.map (·.id))
    (hpend : ∀ r ∈ t, r.status = .pending →
      r ∈ s.tables.actions ∨ r.id ∉ s.tables.actions.map (·.id)) :
    Ledger { s with tables.actions := t } where
  ids := hids
  named := hnamed
  follows := hs.follows
  queue := hs.queue
  kinds := hs.kinds
  keyed row hrow id hkey := hsub id (hs.keyed row hrow id hkey)
  unkeyed r hr hst row hrow := by
    rcases hpend r hr hst with hr' | hn
    · exact hs.unkeyed r hr' hst row hrow
    · exact fun hkey => hn (hs.keyed row hrow r.id hkey)
  tokens := hs.tokens
  agree := hs.agree
  unique := hs.unique
  retrying := hs.retrying

theorem Ledger.enqueue (hs : Ledger s) {a : EnqueueArgs} {events : List EventRow}
    {res : Option String} (henq : enqueue s.tables.events a = .ok (events, res))
    (hmax : 1 ≤ a.maxAttempts) (hkind : a.messageType = "ExecuteAction")
    (hkey : ∀ id, a.idempotencyKey = executionKey id →
      id ∈ s.tables.actions.map (·.id) ∧ ∀ r ∈ s.tables.actions, r.id = id → r.status ≠ .pending) :
    Ledger { s with tables.events := events } := by
  have hq := apply_tableValid hs.queue (.enqueue a) (fun b hb => by cases hb; exact hmax)
  simp only [apply, henq] at hq
  rcases enqueue_ok henq with ⟨rfl, -, -, -⟩ | ⟨rfl, -, -⟩
  · have hmem : ∀ row ∈ s.tables.events ++ [a.row], row ∈ s.tables.events ∨ row = a.row := by
      intro row hrow
      simpa using hrow
    refine ⟨hs.ids, hs.named, hs.follows, hq, ?_, ?_, ?_, ?_, ?_, hs.unique, hs.retrying⟩
    · intro row hrow
      rcases hmem row hrow with hrow | rfl
      · exact hs.kinds row hrow
      · exact hkind
    · intro row hrow id hk
      rcases hmem row hrow with hrow | rfl
      · exact hs.keyed row hrow id hk
      · exact (hkey id hk).1
    · intro r hr hst row hrow hk
      rcases hmem row hrow with hrow | rfl
      · exact hs.unkeyed r hr hst row hrow hk
      · exact (hkey r.id hk).2 r hr rfl hst
    · intro row hrow k hk
      rcases hmem row hrow with hrow | rfl
      · exact hs.tokens row hrow k hk
      · simp [EnqueueArgs.row] at hk
    · intro run hrun row hrow hh
      rcases hmem row hrow with hrow | rfl
      · exact hs.agree run hrun row hrow hh
      · simpa [EnqueueArgs.row] using hh.id_eq.2.1
  · exact ⟨hs.ids, hs.named, hs.follows, hq, hs.kinds, hs.keyed, hs.unkeyed, hs.tokens, hs.agree,
      hs.unique, hs.retrying⟩

theorem Ledger.setReconciliations (hs : Ledger s) (recs : List Reconciliation.ReconciliationRow) :
    Ledger { s with tables.reconciliations := recs } :=
  ⟨hs.ids, hs.named, hs.follows, hs.queue, hs.kinds, hs.keyed, hs.unkeyed, hs.tokens, hs.agree,
    hs.unique, hs.retrying⟩

/-- A call that presents a token keeps the ledger. -/
theorem Ledger.presented (hs : Ledger s) (op : QueueOp) {p : String × String}
    (hop : op.presents = some p) : Ledger { s with tables.events := apply s.tables.events op } := by
  have hq := apply_tableValid hs.queue op (fun a ha => by subst ha; cases hop)
  have hback : ∀ row ∈ apply s.tables.events op, ∃ r ∈ s.tables.events, RowStep op r row := by
    intro row hrow
    rcases mem_apply hs.queue.ids hrow with h | ⟨a, rfl, -, -⟩
    · exact h
    · cases hop
  have htok : ∀ {r row : EventRow} {k : String}, RowStep op r row → row.leaseToken = some k →
      r.leaseToken = some k ∧ row.status = r.status ∧ row.attempts = r.attempts := by
    intro r row k hstep hk
    rcases hstep.of_token hk with h | ⟨a, rfl, -, -⟩
    · exact h
    · cases hop
  refine ⟨hs.ids, hs.named, hs.follows, hq, ?_, ?_, ?_, ?_, ?_, hs.unique, hs.retrying⟩
  · intro row hrow
    obtain ⟨r, hr, hstep⟩ := hback row hrow
    rw [hstep.messageType_eq]
    exact hs.kinds r hr
  · intro row hrow id hk
    obtain ⟨r, hr, hstep⟩ := hback row hrow
    exact hs.keyed r hr id ((Prod.mk.inj hstep.key_eq).2 ▸ hk)
  · intro a ha hst row hrow hk
    obtain ⟨r, hr, hstep⟩ := hback row hrow
    exact hs.unkeyed a ha hst r hr ((Prod.mk.inj hstep.key_eq).2 ▸ hk)
  · intro row hrow k hk
    obtain ⟨r, hr, hstep⟩ := hback row hrow
    exact hs.tokens r hr k (htok hstep hk).1
  · intro run hrun row hrow hh
    obtain ⟨r, hr, hstep⟩ := hback row hrow
    obtain ⟨hid, hst, hk⟩ := hh.id_eq
    obtain ⟨hk', hst', hatt⟩ := htok hstep hk
    have hheld : run.Holds r := holds_iff.mpr ⟨hstep.id_eq ▸ hid, hst' ▸ hst, hk'⟩
    rw [hs.agree run hrun r hr hheld]
    exact hstep.rowToQueueEvent_eq (hk'.trans hk.symm) hatt

/-- A run that moves keeps its event. -/
theorem Ledger.setRun (hs : Ledger s) {i : ℕ} {run : Run} (hi : s.runs[i]? = some run) {φ : Phase}
    {prog : Program} (hfol : Follows (protocol run.event) φ prog)
    (hretry : φ = .retrying → run.event.attempts < run.event.maxAttempts) (log : List Entry) :
    Ledger ⟨s.tables, s.runs.set i ⟨run.event, φ, prog⟩, log⟩ := by
  have hmem := List.mem_of_getElem? hi
  refine ⟨hs.ids, hs.named, forall_set hs.follows hfol, hs.queue, hs.kinds, hs.keyed, hs.unkeyed,
    ?_, ?_, ?_, forall_set hs.retrying hretry⟩
  · intro row hrow k hk
    obtain ⟨run', hrun', he⟩ := hs.tokens row hrow k hk
    obtain ⟨j, hj⟩ := List.getElem?_of_mem hrun'
    by_cases hij : i = j
    · subst hij
      obtain rfl : run = run' := Option.some.inj (hi.symm.trans hj)
      exact ⟨_, List.mem_set (List.getElem?_eq_some_iff.mp hi).1 _, he⟩
    · exact ⟨run', List.mem_of_getElem? ((List.getElem?_set_ne hij).trans hj), he⟩
  · exact forall_set hs.agree fun row hrow hh => hs.agree run hmem row hrow hh
  · have hold : ∀ (j : ℕ) (rj : Run), (s.runs.set i ⟨run.event, φ, prog⟩)[j]? = some rj →
        ∃ rj', s.runs[j]? = some rj' ∧ rj'.event = rj.event := by
      intro j rj hj
      rcases getElem?_set_cases hi hj with ⟨rfl, rfl⟩ | ⟨-, hj⟩
      · exact ⟨run, hi, rfl⟩
      · exact ⟨rj, hj, rfl⟩
    intro a b ra rb ha hb hid htok
    obtain ⟨ra', ha', hea⟩ := hold a ra ha
    obtain ⟨rb', hb', heb⟩ := hold b rb hb
    exact hs.unique a b ra' rb' ha' hb' (by rw [hea, heb, hid]) (by rw [hea, heb, htok])

end Ledger

/-- The event answers for the action: it waits for a worker, or its holder still guards it. -/
def Covers (runs : List Run) (row : EventRow) (r : ActionRow) : Prop :=
  ((row.status = .queued ∨ row.status = .retrying) ∧ r.IsExecutable) ∨
    ∃ (j : ℕ) (run : Run), runs[j]? = some run ∧ run.Holds row ∧ run.phase.Guards run.event r

/-- Every unfinished action has an event that answers for it. -/
def Covered (s : System) : Prop :=
  ∀ k r, getAction s.tables.actions k = some r → r.IsUnfinished →
    ∃ row ∈ s.tables.events, IsFor k row ∧ Covers s.runs row r

theorem Covers.isLive {runs : List Run} {row : EventRow} {r : ActionRow} (h : Covers runs row r) :
    IsLive row := by
  rcases h with ⟨h | h, -⟩ | ⟨j, run, -, hh, -⟩
  · exact .inl h
  · exact .inr (.inr h)
  · exact .inr (.inl hh.id_eq.2.1)

/-- The holder of an action's event works on that action. -/
theorem Ledger.reference_eq {s : System} (hs : Ledger s) {run : Run} (hrun : run ∈ s.runs)
    {row : EventRow} (hrow : row ∈ s.tables.events) (hh : run.Holds row) {k : ActionRef}
    (hk : IsFor k row) : actionReference run.event = .ok k := by
  rw [hs.agree run hrun row hrow hh]
  exact hk.2

/-- Coverage after run `i` moved without touching any event: an unfinished action was there
before and is still guarded if run `i` guarded it, or run `i` guards it under its lease. -/
theorem Covered.of_move {s : System} (hs : Ledger s) (hc : Covered s) {i : ℕ} {run : Run}
    (hi : s.runs[i]? = some run) {actions : List ActionRow} {φ : Phase} {prog : Program}
    {log : List Entry}
    (hrows : ∀ k r, getAction actions k = some r → r.IsUnfinished →
      (getAction s.tables.actions k = some r ∧ (actionReference run.event = .ok k →
        run.phase.Guards run.event r → φ.Guards run.event r)) ∨
      (actionReference run.event = .ok k ∧ (∃ row ∈ s.tables.events, run.Holds row) ∧
        φ.Guards run.event r)) :
    Covered ⟨{ s.tables with actions := actions }, s.runs.set i ⟨run.event, φ, prog⟩, log⟩ := by
  have hmem := List.mem_of_getElem? hi
  have hset : (s.runs.set i ⟨run.event, φ, prog⟩)[i]? = some ⟨run.event, φ, prog⟩ :=
    List.getElem?_set_self (List.getElem?_eq_some_iff.mp hi).1
  intro k r hr hlive
  rcases hrows k r hr hlive with ⟨hr', hg⟩ | ⟨hk, ⟨row, hrow, hh⟩, hg⟩
  · obtain ⟨row, hrow, hfor, hcov⟩ := hc k r hr' hlive
    refine ⟨row, hrow, hfor, ?_⟩
    rcases hcov with hwait | ⟨j, rj, hj, hh, hgj⟩
    · exact .inl hwait
    · by_cases hij : i = j
      · subst hij
        obtain rfl : run = rj := Option.some.inj (hi.symm.trans hj)
        exact .inr ⟨i, _, hset, hh, hg (hs.reference_eq hmem hrow hh hfor) hgj⟩
      · exact .inr ⟨j, rj, (List.getElem?_set_ne hij).trans hj, hh, hgj⟩
  · refine ⟨row, hrow, ⟨hs.kinds row hrow, ?_⟩, .inr ⟨i, _, hset, hh, hg⟩⟩
    rw [← hs.agree run hmem row hrow hh]
    exact hk

theorem IsFor.of_step {k : ActionRef} {op : QueueOp} {r r' : EventRow} (h : IsFor k r)
    (hstep : RowStep op r r') : IsFor k r' := by
  obtain ⟨hten, -, hkind, hpay, -⟩ : r'.tenantId = r.tenantId ∧ _ := by
    simpa only [EventRow.content, Prod.mk.injEq] using hstep.content_eq
  refine ⟨hkind.trans h.1, ?_⟩
  have href := h.2
  simp only [actionReference, rowToQueueEvent, hten, hpay] at href ⊢
  exact href

/-- Coverage after run `i` closed or retried its event. -/
theorem Covered.of_release {s : System} (hs : Ledger s) (hc : Covered s) {i : ℕ} {run : Run}
    (hi : s.runs[i]? = some run) {op : QueueOp} {φ : Phase} {prog : Program} {log : List Entry}
    (hop : op.presents = some (run.event.id, run.event.leaseToken))
    (hself : ∀ row ∈ s.tables.events, run.Holds row → ∀ k r, IsFor k row →
      run.phase.Guards run.event r → r.IsExecutable ∧
        ∃ row' ∈ apply s.tables.events op, RowStep op row row' ∧ row'.status = .retrying) :
    Covered ⟨{ s.tables with events := apply s.tables.events op },
      s.runs.set i ⟨run.event, φ, prog⟩, log⟩ := by
  intro k r hr hlive
  obtain ⟨row, hrow, hfor, hcov⟩ := hc k r hr hlive
  rcases hcov with ⟨hwait, hx⟩ | ⟨j, rj, hj, hh, hg⟩
  · have hno : holds run.event.id run.event.leaseToken row = false := by
      rcases hwait with h | h <;> simp [holds, h]
    exact ⟨row, mem_apply_of_not_holds hs.queue.ids hop hrow hno, hfor, .inl ⟨hwait, hx⟩⟩
  · by_cases hij : i = j
    · subst hij
      obtain rfl : run = rj := Option.some.inj (hi.symm.trans hj)
      obtain ⟨hx, row', hrow', hstep, hst⟩ := hself row hrow hh k r hfor hg
      exact ⟨row', hrow', hfor.of_step hstep, .inl ⟨.inr hst, hx⟩⟩
    · have hno : holds run.event.id run.event.leaseToken row = false := by
        by_contra hne
        exact hij (hs.holder_eq hi hj (by simpa [Run.Holds] using hne) hh)
      refine ⟨row, mem_apply_of_not_holds hs.queue.ids hop hrow hno, hfor, .inr ⟨j, rj, ?_, hh, hg⟩⟩
      exact (List.getElem?_set_ne hij).trans hj

/-- The retry of a held event that has attempts left puts it back. -/
theorem exists_retrying {t : List EventRow} (hid : (t.map (·.id)).Nodup) {e k error : String}
    {after now : Int} {row : EventRow} (hrow : row ∈ t) (hh : holds e k row = true)
    (hlt : row.attempts < row.maxAttempts) :
    ∃ row' ∈ apply t (.markRetry e k after error now),
      RowStep (.markRetry e k after error now) row row' ∧ row'.status = .retrying := by
  have hf : t.find? (holds e k) = some row := by
    cases hf : t.find? (holds e k) with
    | none => exact absurd hh (List.find?_eq_none.mp hf row hrow)
    | some x =>
      have hx := (holds_iff.mp (List.find?_some hf)).1
      rw [eq_of_key hid (List.mem_of_find?_eq_some hf) hrow (hx.trans (holds_iff.mp hh).1.symm)]
  have hst : ¬ row.maxAttempts ≤ row.attempts := by omega
  refine ⟨{ row.unlease .retrying now with runAfter := after, lastError := some error }, ?_,
    .retry hh (by simp [hst]), rfl⟩
  simp only [apply, markRetry, hf]
  have := mem_updateWhere_of_mem (p := holds e k)
    (f := fun r => { r.unlease .retrying now with runAfter := after, lastError := some error }) hrow
  rw [if_pos hh] at this
  simp only [if_neg hst]
  split <;> exact this

/-- The executor's admissions and retries are made under a current lease. -/
def fencedMoves (s : System) : Label → Bool
  | .advance i _ _ =>
    let leased := s.runs[i]?.any fun run =>
      s.tables.events.any (holds run.event.id run.event.leaseToken)
    match s.nextOp i with
    | some (.markExecuting k) => (getAction s.tables.actions k).all fun r =>
        !([ActionStatus.approved, .queued].contains r.status) || leased
    | some (.markRetryable k _) => (getAction s.tables.actions k).all fun r =>
        r.status ≠ .executing || leased
    | _ => true
  | _ => true

structure Kept (s : System) : Prop where
  ledger : Ledger s
  covered : Covered s

theorem Ledger.rewrite {s : System} (hs : Ledger s) {t : List ActionRow} {k : ActionRef}
    {r r' : ActionRow} (hw : Rewrites s.tables.actions t k r r') (h' : r'.status ≠ .pending) :
    Ledger { s with tables.actions := t } := by
  have hids : (t.map (·.id)).Nodup := hw.ids ▸ hs.ids
  have hback : ∀ x ∈ t, x = r' ∨ x ∈ s.tables.actions := by
    intro x hx
    have hget := getAction_of_mem hids hx
    by_cases hk : x.ref = k
    · rw [hk] at hget
      exact .inl (Option.some.inj (hget.symm.trans hw.now))
    · exact .inr (mem_of_getAction ((hw.others _ hk).symm.trans hget))
  refine hs.setActions hids (fun x hx => ?_) (fun id hid => hw.ids ▸ hid) fun x hx hst => ?_
  · rcases hback x hx with rfl | hx
    · have href : x.ref = r.ref := (getAction_ref hw.now).trans (getAction_ref hw.found).symm
      have hr := hs.named r (mem_of_getAction hw.found)
      rw [show x.id = r.id from congrArg ActionRef.id href,
        show x.sourceId = r.sourceId from congrArg ActionRef.sourceId href]
      exact hr
    · exact hs.named x hx
  · rcases hback x hx with rfl | hx
    · exact absurd hst h'
    · exact .inl hx

/-- The rows outside a rewritten one, for `Covered.of_move`. -/
theorem Rewrites.others_kept {s : System} {t : List ActionRow} {k k' : ActionRef} {r r' x : ActionRow}
    (hw : Rewrites s.tables.actions t k r r') {e : QueueEvent} (hk : actionReference e = .ok k)
    (hkk : k' ≠ k) (hx : getAction t k' = some x) {P : Prop} :
    getAction s.tables.actions k' = some x ∧ (actionReference e = .ok k' → P) :=
  ⟨(hw.others k' hkk).symm.trans hx, fun hk' => absurd (Except.ok.inj (hk'.symm.trans hk)) hkk⟩

theorem Kept.advance {s t : System} (hs : Kept s) {i : ℕ} {now : Int} {ends : ExecutionEnd}
    (hc : fencedMoves s (.advance i now ends) = true) (h : advance s i now ends = some t) :
    Kept t := by
  obtain ⟨hl, hcov⟩ := hs
  obtain ⟨run, o, db, φ, new, prog, hi, ho, heff, hfol, rfl⟩ := advance_effect hl.ids hl.follows h
  have hleased : (s.tables.events.any (holds run.event.id run.event.leaseToken)) = true →
      ∃ row ∈ s.tables.events, run.Holds row := List.any_eq_true.mp
  have hmem := List.mem_of_getElem? hi
  cases heff with
  | idle _ =>
    refine ⟨hl.setRun hi hfol (hl.retrying run hmem) _, hcov.of_move hl hi fun k r hr _ => ?_⟩
    exact .inl ⟨hr, fun _ hg => hg⟩
  | @read k hk hφ =>
    refine ⟨hl.setRun hi hfol (fun hre => ?_) _, hcov.of_move hl hi fun k' r hr _ => ?_⟩
    · cases hget : getAction s.tables.actions k with
      | none => simp [hget, Phase.afterRead] at hre
      | some r =>
        simp only [hget, Phase.afterRead] at hre
        split at hre <;> split at hre <;> cases hre
    · refine .inl ⟨hr, fun hk' hg => ?_⟩
      obtain rfl : k = k' := Except.ok.inj (hk.symm.trans hk')
      rw [hφ] at hg
      rcases hg with (hst | ⟨hst, herr⟩) | ⟨hst, hatt⟩
      · simp [hr, Phase.afterRead, hst, Phase.Guards, ActionRow.IsExecutable]
      · simp [hr, Phase.afterRead, hst, herr, Phase.Guards, ActionRow.IsExecutable]
      · simp [hr, Phase.afterRead, hst, hatt, Phase.Guards]
  | @refused k hk hno =>
    refine ⟨hl.setRun hi hfol (fun h => by cases h) _, hcov.of_move hl hi fun k' r hr _ => ?_⟩
    refine .inl ⟨hr, fun hk' hg => ?_⟩
    obtain rfl : k = k' := Except.ok.inj (hk.symm.trans hk')
    exact absurd hg (hno r hr)
  | closed hφ now =>
    refine ⟨(hl.presented _ rfl).setRun hi hfol (fun h => by cases h) _,
      hcov.of_release hl hi rfl fun row _ _ k r _ hg => ?_⟩
    rw [hφ] at hg
    exact hg.elim
  | retried hφ =>
    refine ⟨(hl.presented _ rfl).setRun hi hfol (fun h => by cases h) _,
      hcov.of_release hl hi rfl fun row hrow hh k r hfor hg => ?_⟩
    rcases hφ with hφ | hφ | hno
    · rw [hφ] at hg
      exact hg.elim
    · have hlt := hl.retrying run hmem hφ
      rw [hl.agree run hmem row hrow hh] at hlt
      rw [hφ] at hg
      exact ⟨hg, exists_retrying hl.queue.ids hrow hh hlt⟩
    · exact absurd (hl.reference_eq hmem hrow hh hfor) (hno k)
  | @admitted k r r' t hk hφ ho' hw hst hst' =>
    have hl' := hl.rewrite hw (by simp [hst'])
    refine ⟨hl'.setRun hi hfol (fun h => by cases h) _, hcov.of_move hl hi fun k' x hx _ => ?_⟩
    by_cases hkk : k' = k
    · subst hkk ho'
      obtain rfl : r' = x := Option.some.inj (hw.now.symm.trans hx)
      refine .inr ⟨hk, hleased ?_, hst'⟩
      rcases hst with hst | hst <;> simpa [fencedMoves, ho, hi, hw.found, hst] using hc
    · exact .inl (hw.others_kept hk hkk hx)
  | started hk hφ =>
    refine ⟨hl.setRun hi hfol (fun h => by cases h) _, hcov.of_move hl hi fun k' r hr _ => ?_⟩
    exact .inl ⟨hr, fun _ hg => by rw [hφ] at hg; exact hg⟩
  | ended hk hφ x =>
    refine ⟨hl.setRun hi hfol (fun h => by cases h) _, hcov.of_move hl hi fun k' r hr _ => ?_⟩
    exact .inl ⟨hr, fun _ hg => by rw [hφ] at hg; exact hg⟩
  | @recorded k r r' t v _ hk hw hrec =>
    have hpend : r'.status ≠ .pending := by
      cases hrec with
      | failed h' | uncertain _ h' | executed _ h' => simp [h']
      | handedOff _ _ h' | retryable _ _ _ _ _ h' => simp [h'.1]
    have hretry : φ = .retrying → run.event.attempts < run.event.maxAttempts := by
      cases hrec with
      | retryable _ _ _ ha _ _ => exact fun _ => ha
      | failed | uncertain | executed | handedOff => exact fun h => by cases h
    refine ⟨(hl.rewrite hw hpend).setRun hi hfol hretry _,
      hcov.of_move hl hi fun k' x hx hlive => ?_⟩
    by_cases hkk : k' = k
    · subst hkk
      obtain rfl : r' = x := Option.some.inj (hw.now.symm.trans hx)
      cases hrec with
      | failed h' | uncertain _ h' | executed _ h' =>
        simp [ActionRow.IsUnfinished, ActionRow.IsExecutable, h'] at hlive
      | handedOff _ _ h' => simp [ActionRow.IsUnfinished, ActionRow.IsExecutable, h'] at hlive
      | retryable _ _ ho' _ hst h' =>
        subst ho'
        refine .inr ⟨hk, hleased ?_, .inr h'⟩
        simpa [fencedMoves, ho, hi, hw.found, hst] using hc
    · exact .inl (hw.others_kept hk hkk hx)

section Claim

variable {s : System} {a : ClaimArgs} {events rows : List EventRow}

/-- The run that works on a claimed row. -/
theorem newRun_holds (registered : String → Bool) (backoff : Int)
    (h : claimDue s.tables.events a = .ok (events, rows)) {row : EventRow} (hrow : row ∈ rows) :
    (newRun registered backoff row).Holds row ∧
      (newRun registered backoff row).event.leaseToken = a.leaseToken := by
  obtain ⟨r, rfl⟩ := claimed_lease h hrow
  exact ⟨holds_iff.mpr ⟨rfl, rfl, rfl⟩, rfl⟩

theorem Ledger.claim (hs : Ledger s) (registered : String → Bool) (backoff : Int)
    (hfresh : ∀ run ∈ s.runs, run.event.leaseToken ≠ a.leaseToken)
    (h : claimDue s.tables.events a = .ok (events, rows)) :
    Ledger { s with
      tables.events := events
      runs := s.runs ++ rows.map (newRun registered backoff) } := by
  have hev : events = apply s.tables.events (.claimDue a) := by simp only [apply, h]
  have hq : TableValid events := hev ▸ apply_tableValid hs.queue (.claimDue a) (fun _ h => by cases h)
  have hback : ∀ row ∈ events, ∃ r ∈ s.tables.events, RowStep (.claimDue a) r row := by
    intro row hrow
    rcases mem_apply hs.queue.ids (hev ▸ hrow) with h | ⟨b, hb, -, -⟩
    · exact h
    · cases hb
  have hold : ∀ r ∈ s.tables.events, r.leaseToken ≠ some a.leaseToken := by
    intro r hr hk
    obtain ⟨run, hrun, he⟩ := hs.tokens r hr _ hk
    exact hfresh run hrun he
  have hnew : ∀ run ∈ rows.map (newRun registered backoff), ∃ row ∈ events,
      run.event = rowToQueueEvent row ∧ run.event.leaseToken = a.leaseToken ∧ run.phase = .start ∧
      Follows (protocol run.event) run.phase run.program := by
    intro run hrun
    obtain ⟨row, hrow, rfl⟩ := List.mem_map.mp hrun
    exact ⟨row, ((mem_claimed h).mp hrow).1, rfl, (newRun_holds registered backoff h hrow).2, rfl,
      processActionQueueEvent_follows registered backoff _⟩
  refine ⟨hs.ids, hs.named, ?_, hq, ?_, ?_, ?_, ?_, ?_, ?_, ?_⟩
  · intro run hrun
    rcases List.mem_append.mp hrun with hrun | hrun
    · exact hs.follows run hrun
    · obtain ⟨_, -, -, -, -, hf⟩ := hnew run hrun
      exact hf
  · intro row hrow
    obtain ⟨r, hr, hstep⟩ := hback row hrow
    rw [hstep.messageType_eq]
    exact hs.kinds r hr
  · intro row hrow id hk
    obtain ⟨r, hr, hstep⟩ := hback row hrow
    exact hs.keyed r hr id ((Prod.mk.inj hstep.key_eq).2 ▸ hk)
  · intro x hx hst row hrow hk
    obtain ⟨r, hr, hstep⟩ := hback row hrow
    exact hs.unkeyed x hx hst r hr ((Prod.mk.inj hstep.key_eq).2 ▸ hk)
  · intro row hrow k hk
    obtain ⟨r, hr, hstep⟩ := hback row hrow
    rcases hstep.of_token hk with ⟨hk', -, -⟩ | ⟨b, hb, rfl, -⟩
    · obtain ⟨run, hrun, he⟩ := hs.tokens r hr k hk'
      exact ⟨run, List.mem_append_left _ hrun, he⟩
    · cases hb
      have hmem := mem_claimed_of_token h hold hrow hk
      exact ⟨_, List.mem_append_right _ (List.mem_map_of_mem hmem),
        (newRun_holds registered backoff h hmem).2⟩
  · intro run hrun row hrow hh
    obtain ⟨hid, hst, hk⟩ := hh.id_eq
    rcases List.mem_append.mp hrun with hrun | hrun
    · obtain ⟨r, hr, hstep⟩ := hback row hrow
      rcases hstep.of_token hk with ⟨hk', hst', hatt⟩ | ⟨b, hb, hbk, -⟩
      · have hheld : run.Holds r := holds_iff.mpr ⟨hstep.id_eq ▸ hid, hst' ▸ hst, hk'⟩
        rw [hs.agree run hrun r hr hheld]
        exact hstep.rowToQueueEvent_eq (hk'.trans hk.symm) hatt
      · cases hb
        exact absurd hbk.symm (hfresh run hrun)
    · obtain ⟨x, hx, he, -, -, -⟩ := hnew run hrun
      have hxr : x = row := eq_of_key hq.ids hx hrow (by rw [hid, he]; rfl)
      rw [he, hxr]
  · intro i j ri rj hi hj hid hk
    rcases getElem?_append_cases hi with hi' | ⟨hlen, hri⟩
    · rcases getElem?_append_cases hj with hj' | ⟨-, hrj⟩
      · exact hs.unique i j ri rj hi' hj' hid hk
      · obtain ⟨_, -, -, htok, -, -⟩ := hnew rj hrj
        exact absurd (hk.trans htok) (hfresh ri (List.mem_of_getElem? hi'))
    · rcases getElem?_append_cases hj with hj' | ⟨hlen', hrj⟩
      · obtain ⟨_, -, -, htok, -, -⟩ := hnew ri hri
        exact absurd (hk.symm.trans htok) (hfresh rj (List.mem_of_getElem? hj'))
      · -- Both runs are new, and a claim returns each row once.
        have hnd : ((rows.map (newRun registered backoff)).map (·.event.id)).Nodup := by
          rw [List.map_map]
          exact claimed_nodup h hq.ids
        rw [List.getElem?_append_right hlen] at hi
        rw [List.getElem?_append_right hlen'] at hj
        have hlt : i - s.runs.length < (rows.map (newRun registered backoff)).length :=
          (List.getElem?_eq_some_iff.mp hi).1
        have hat : ∀ l (r : Run), (rows.map (newRun registered backoff))[l]? = some r →
            ((rows.map (newRun registered backoff)).map (·.event.id))[l]? = some r.event.id :=
          fun l r hl => by rw [List.getElem?_map, hl]; rfl
        have heq := (List.getElem?_inj (by simpa using hlt) hnd).mp
          ((hat _ ri hi).trans (hid ▸ (hat _ rj hj).symm))
        omega
  · intro run hrun hφ
    rcases List.mem_append.mp hrun with hrun | hrun
    · exact hs.retrying run hrun hφ
    · obtain ⟨_, -, -, -, hstart, -⟩ := hnew run hrun
      rw [hφ] at hstart
      cases hstart

theorem Covered.claim (hs : Ledger s) (hc : Covered s) (registered : String → Bool) (backoff : Int)
    (hfresh : ∀ run ∈ s.runs, run.event.leaseToken ≠ a.leaseToken) (hrec : a.recoverExhausted = true)
    (h : claimDue s.tables.events a = .ok (events, rows)) :
    Covered { s with
      tables.events := events
      runs := s.runs ++ rows.map (newRun registered backoff) } := by
  have hev : events = apply s.tables.events (.claimDue a) := by simp only [apply, h]
  have hold : ∀ r ∈ s.tables.events, r.leaseToken ≠ some a.leaseToken := by
    intro r hr hk
    obtain ⟨run, hrun, he⟩ := hs.tokens r hr _ hk
    exact hfresh run hrun he
  intro k r hr hlive
  obtain ⟨row, hrow, hfor, hcov⟩ := hc k r hr hlive
  obtain ⟨row', hrow', hstep⟩ := exists_apply hs.queue.ids (.claimDue a) hrow
  refine ⟨row', hev ▸ hrow', hfor.of_step hstep, ?_⟩
  cases hstep with
  | same =>
    rcases hcov with hwait | ⟨j, run, hj, hh, hg⟩
    · exact .inl hwait
    · refine .inr ⟨j, run, ?_, hh, hg⟩
      exact (List.getElem?_append_left (List.getElem?_eq_some_iff.mp hj).1).trans hj
  | bury hx => simp [ClaimArgs.isExhausted, hrec] at hx
  | lease _ =>
    have hmem := mem_claimed_of_token h hold (hev ▸ hrow') rfl
    obtain ⟨j, hj⟩ := List.getElem?_of_mem
      (List.mem_append_right s.runs (List.mem_map_of_mem (f := newRun registered backoff) hmem))
    refine .inr ⟨j, _, hj, (newRun_holds registered backoff h hmem).1, ?_⟩
    rcases hcov with ⟨-, hx⟩ | ⟨_, run, -, hh, -⟩
    · exact .inl hx
    · refine hlive.imp id fun hst => ⟨hst, ?_⟩
      have := (hs.queue.rows row hrow).leased_attempts hh.id_eq.2.1
      simp only [newRun, rowToQueueEvent, ClaimArgs.lease]
      omega

theorem Covered.renew (hs : Ledger s) (hc : Covered s) (e k : String) (seconds now : Int) :
    Covered { s with tables.events := apply s.tables.events (.renewLease e k seconds now) } := by
  intro k' r hr hlive
  obtain ⟨row, hrow, hfor, hcov⟩ := hc k' r hr hlive
  obtain ⟨row', hrow', hstep⟩ := exists_apply hs.queue.ids (.renewLease e k seconds now) hrow
  refine ⟨row', hrow', hfor.of_step hstep, ?_⟩
  cases hstep with
  | same => exact hcov
  | renew _ => exact hcov

end Claim

section Application

/-- Coverage after a store call of the application. -/
theorem Covered.of_application {s : System} (hc : Covered s) {db : Tables}
    (hsub : ∀ row ∈ s.tables.events, row ∈ db.events)
    (hrows : ∀ k r, getAction db.actions k = some r → r.IsUnfinished →
      getAction s.tables.actions k = some r ∨
      ∃ row ∈ db.events, IsFor k row ∧ row.status = .queued ∧ r.IsExecutable) :
    Covered { s with tables := db } := by
  intro k r hr hlive
  rcases hrows k r hr hlive with hr' | ⟨row, hrow, hfor, hst, hx⟩
  · obtain ⟨row, hrow, hfor, hcov⟩ := hc k r hr' hlive
    exact ⟨row, hsub row hrow, hfor, hcov⟩
  · exact ⟨row, hrow, hfor, .inl ⟨.inl hst, hx⟩⟩

theorem isFor_executionEvent (eventId recipient key : String) {k : ActionRef}
    (hid : k.id ≠ "") (hsource : k.sourceId ≠ "") (source : Option String) (now : Int) :
    IsFor k (executionEvent eventId k recipient key source now).row := by
  refine ⟨rfl, ?_⟩
  simp [actionReference, rowToQueueEvent, EnqueueArgs.row, executionEvent, executionPayload,
    Json.get?, Json.toStr, hid, hsource]

theorem enqueue_subset {t t' : List EventRow} {a : EnqueueArgs} {res : Option String}
    (h : enqueue t a = .ok (t', res)) : ∀ row ∈ t, row ∈ t' := by
  intro row hrow
  rcases enqueue_ok h with ⟨rfl, -⟩ | ⟨rfl, -⟩
  · exact List.mem_append_left _ hrow
  · exact hrow

/-- An enqueue under an unused key inserts its event. -/
theorem mem_enqueue {t t' : List EventRow} {a : EnqueueArgs} {res : Option String}
    (h : enqueue t a = .ok (t', res)) (hkey : ∀ row ∈ t, row.idempotencyKey ≠ a.idempotencyKey) :
    a.row ∈ t' := by
  rcases enqueue_ok h with ⟨rfl, -⟩ | ⟨-, -, x, hx, -⟩
  · simp
  · have hx' := List.find?_some hx
    simp only [Bool.and_eq_true, decide_eq_true_eq] at hx'
    exact absurd hx'.2 (hkey x (List.mem_of_find?_eq_some hx))

theorem mem_enqueue_of_some {t t' : List EventRow} {a : EnqueueArgs} {id : String}
    (h : enqueue t a = .ok (t', some id)) : a.row ∈ t' := by
  rcases enqueue_ok h with ⟨rfl, -⟩ | ⟨-, hnone, -⟩
  · simp
  · cases hnone

theorem Ledger.pending_of_key {s : System} (hs : Ledger s) {k : ActionRef} {r : ActionRow}
    (hr : getAction s.tables.actions k = some r) (hst : r.status ≠ .pending) :
    ∀ id, executionKey k.id = executionKey id →
      id ∈ s.tables.actions.map (·.id) ∧ ∀ x ∈ s.tables.actions, x.id = id → x.status ≠ .pending := by
  intro id hkey
  obtain rfl := executionKey_injective hkey
  have hrid : r.id = k.id := congrArg ActionRef.id (getAction_ref hr)
  refine ⟨hrid ▸ List.mem_map_of_mem (mem_of_getAction hr), fun x hx hid => ?_⟩
  rwa [eq_of_key hs.ids hx (mem_of_getAction hr) (hid.trans hrid.symm)]

theorem Kept.insert {s : System} (hs : Kept s) {a : InsertActionArgs} {eventId : String}
    {eventNow : Int} {db : Tables} {res : ActionDispatchResult}
    (h : insertActionAndExecutionEvent s.tables a true eventId eventNow = .ok (db, res)) :
    Kept { s with tables := db } := by
  obtain ⟨hl, hc⟩ := hs
  obtain ⟨id, created, hins, hrecs, hev⟩ := insertActionAndExecutionEvent_ok h
  obtain ⟨-, hsource, hact⟩ := insertAction_ok hins
  have hsource' : a.sourceId ≠ "" := by
    rintro he
    rw [he] at hsource
    exact absurd hsource (by decide)
  have hl' : Ledger { s with tables.actions := db.actions } := by
    rcases hact with ⟨ht, -, hn⟩ | ht
    · rw [ht]
      refine hl.setActions (nodup_append_row hl.ids hn) (fun r hr => ?_) (fun x hx => ?_) ?_
      · rcases List.mem_append.mp hr with hr | hr
        · exact hl.named r hr
        · obtain rfl := List.mem_singleton.mp hr
          refine ⟨fun he => ?_, hsource'⟩
          have := congrArg String.length he
          simp [InsertActionArgs.row, InsertActionArgs.actionId] at this
      · rw [List.map_append]
        exact List.mem_append_left _ hx
      · intro r hr _
        rcases List.mem_append.mp hr with hr | hr
        · exact .inl hr
        · exact .inr (List.mem_singleton.mp hr ▸ hn)
    · exact ht ▸ hl
  have hrow : ∀ k r, getAction db.actions k = some r → getAction s.tables.actions k = some r ∨
      (r = a.row ∧ k = ⟨id, a.tenantId, a.sourceId⟩ ∧ id ∉ s.tables.actions.map (·.id)) := by
    intro k r hr
    rcases hact with ⟨ht, rfl, hn⟩ | ht
    · rw [ht] at hr
      rcases getAction_append hr with hr | ⟨-, rfl, href⟩
      · exact .inl hr
      · exact .inr ⟨rfl, href.symm, hn⟩
    · exact .inl (ht ▸ hr)
  obtain ⟨actions, events, recs⟩ := db
  obtain rfl : recs = s.tables.reconciliations := hrecs
  rcases hev with ⟨rfl, hno⟩ | ⟨⟨r, hr, hst⟩, res', henq⟩
  · refine ⟨hl', hc.of_application (fun row h => h) fun k r hr hlive => ?_⟩
    rcases hrow k r hr with hold | ⟨rfl, rfl, -⟩
    · exact .inl hold
    · -- A new action that is not approved is pending.
      have hne := hno rfl _ hr
      rcases hlive with (h | ⟨h, -⟩) | h
      · exact absurd h hne
      all_goals
        simp only [InsertActionArgs.row] at h
        split at h <;> cases h
  · refine ⟨hl'.enqueue henq (by simp [executionEvent]) rfl (hl'.pending_of_key hr (by simp [hst])),
      hc.of_application (enqueue_subset henq) fun k x hx hlive => ?_⟩
    rcases hrow k x hx with hold | ⟨rfl, rfl, hn⟩
    · exact .inl hold
    · refine .inr ⟨_, mem_enqueue henq fun row hrow' hkey => hn (hl.keyed row hrow' id hkey),
        isFor_executionEvent _ _ _ ?_ hsource' _ _, rfl, ?_⟩
      · have := (hl'.named a.row (mem_of_getAction hx)).1
        rwa [show a.row.id = id from congrArg ActionRef.id (getAction_ref hx)] at this
      · obtain rfl : r = a.row := Option.some.inj (hr.symm.trans hx)
        exact .inl hst

theorem Kept.approve {s : System} (hs : Kept s) {k : ActionRef}
    {approverId recipient eventId : String} {now eventNow : Int} {db : Tables} {res : ApprovalResult}
    (h : approveActionAndEnqueue s.tables k approverId recipient eventId now eventNow = .ok (db, res)) :
    Kept { s with tables := db } := by
  obtain ⟨hl, hc⟩ := hs
  obtain ⟨hact, hrecs, hev⟩ := approveActionAndEnqueue_ok h
  obtain ⟨actions, events, recs⟩ := db
  obtain rfl : recs = s.tables.reconciliations := hrecs
  obtain rfl : actions = (approveAction s.tables.actions k approverId now).1 := hact
  rcases transition_cases [.pending]
      (f := fun r => { r with status := .approved, approvedBy := some approverId,
                              approvedAt := some now, updatedAt := now })
      (fun _ => rfl) hl.ids k with ⟨r, hst, -, hw⟩ | ⟨-, ht, -⟩
  · have hl' := hl.rewrite hw (by simp)
    have hpend : r.status = .pending := by simpa using hst
    rcases hev with ⟨-, hno⟩ | ⟨-, source, res', henq⟩
    · exact absurd rfl (hno _ hw.now)
    · refine ⟨hl'.enqueue henq (by simp [executionEvent]) rfl (hl'.pending_of_key hw.now (by simp)),
        hc.of_application (enqueue_subset henq) fun k' x hx _ => ?_⟩
      by_cases hkk : k' = k
      · subst hkk
        obtain rfl := Option.some.inj (hw.now.symm.trans hx)
        have href : r.ref = k' := getAction_ref hw.found
        obtain ⟨hid, hsource⟩ := hl.named r (mem_of_getAction hw.found)
        have hfresh := hl.unkeyed r (mem_of_getAction hw.found) hpend
        rw [show r.id = k'.id from congrArg ActionRef.id href] at hid hfresh
        rw [show r.sourceId = k'.sourceId from congrArg ActionRef.sourceId href] at hsource
        exact .inr ⟨_, mem_enqueue henq hfresh, isFor_executionEvent _ _ _ hid hsource _ _, rfl,
          .inl rfl⟩
      · exact .inl ((hw.others k' hkk).symm.trans hx)
  · have ht' : (approveAction s.tables.actions k approverId now).1 = s.tables.actions := ht
    simp only [ht'] at hev ⊢
    rcases hev with ⟨rfl, -⟩ | ⟨⟨r, hr, hst⟩, source, res', henq⟩
    · exact ⟨hl, hc⟩
    · exact ⟨hl.enqueue henq (by simp [executionEvent]) rfl (hl.pending_of_key hr (by simp [hst])),
        hc.of_application (enqueue_subset henq) fun k' x hx _ => .inl hx⟩

theorem Kept.deny {s : System} (hs : Kept s) (k : ActionRef) (approverId : String) (now : Int) :
    Kept { s with tables.actions := (denyAction s.tables.actions k approverId now).1 } := by
  obtain ⟨hl, hc⟩ := hs
  rcases transition_cases [.pending]
      (f := fun r => { r with status := .denied, approvedBy := some approverId,
                              approvedAt := some now, updatedAt := now })
      (fun _ => rfl) hl.ids k with ⟨r, -, -, hw⟩ | ⟨-, ht, -⟩
  · refine ⟨hl.rewrite hw (by simp), hc.of_application (fun row h => h) fun k' x hx hlive => ?_⟩
    by_cases hkk : k' = k
    · subst hkk
      obtain rfl := Option.some.inj (hw.now.symm.trans hx)
      simp [ActionRow.IsUnfinished, ActionRow.IsExecutable] at hlive
    · exact .inl ((hw.others k' hkk).symm.trans hx)
  · have ht' : (denyAction s.tables.actions k approverId now).1 = s.tables.actions := ht
    rw [ht']
    exact ⟨hl, hc⟩

theorem Kept.resolve {s : System} (hs : Kept s) {resolution : ActionResolution}
    {q : Reconciliation.Request} {eventId : String} {db : Tables}
    {res : Reconciliation.ReconciliationResult}
    (h : resolveAction s.tables resolution q eventId = .ok (db, res)) :
    Kept { s with tables := db } := by
  obtain rfl | ⟨-, hact, hev⟩ := resolveAction_ok h
  · exact hs
  obtain ⟨hl, hc⟩ := hs
  obtain ⟨actions, events, recs⟩ := db
  obtain rfl : actions = (transition [.uncertain] (resolution.write q) s.tables.actions
    ⟨q.effectId, q.tenantId, q.sourceId⟩).1 := hact
  rcases transition_cases [.uncertain] (resolution.write_ref q) hl.ids
      ⟨q.effectId, q.tenantId, q.sourceId⟩ with ⟨r, -, -, hw⟩ | ⟨-, ht, -⟩
  · have hl' := (hl.rewrite hw (by cases resolution <;> simp [ActionResolution.write]))
    rcases hev with ⟨rfl, hres⟩ | ⟨source, id, henq⟩
    · refine ⟨hl'.setReconciliations recs, hc.of_application (fun row h => h) fun k' x hx hlive => ?_⟩
      by_cases hkk : k' = ⟨q.effectId, q.tenantId, q.sourceId⟩
      · subst hkk
        obtain rfl := Option.some.inj (hw.now.symm.trans hx)
        cases resolution with
        | executed | failed =>
          simp [ActionRow.IsUnfinished, ActionRow.IsExecutable, ActionResolution.write] at hlive
        | notExecuted => exact absurd rfl hres
      · exact .inl ((hw.others k' hkk).symm.trans hx)
    · refine ⟨((hl'.enqueue henq (by simp [executionEvent]) rfl fun id h =>
        absurd h (reconcileKey_ne _ _ id)).setReconciliations recs),
        hc.of_application (enqueue_subset henq) fun k' x hx hlive => ?_⟩
      by_cases hkk : k' = ⟨q.effectId, q.tenantId, q.sourceId⟩
      · subst hkk
        obtain rfl := Option.some.inj (hw.now.symm.trans hx)
        have href := getAction_ref hw.found
        obtain ⟨hid, hsource⟩ := hl.named r (mem_of_getAction hw.found)
        refine .inr ⟨_, mem_enqueue_of_some henq, isFor_executionEvent _ _ _ ?_ ?_ _ _, rfl, ?_⟩
        · exact (show r.id = q.effectId from congrArg ActionRef.id href) ▸ hid
        · exact (show r.sourceId = q.sourceId from congrArg ActionRef.sourceId href) ▸ hsource
        · cases resolution with
          | executed | failed =>
            simp [ActionRow.IsUnfinished, ActionRow.IsExecutable, ActionResolution.write] at hlive
          | notExecuted => exact .inl rfl
      · exact .inl ((hw.others k' hkk).symm.trans hx)
  · simp only [ht]
    rcases hev with ⟨rfl, -⟩ | ⟨source, id, henq⟩
    · exact ⟨hl.setReconciliations recs, hc⟩
    · exact ⟨((hl.enqueue henq (by simp [executionEvent]) rfl fun id h =>
        absurd h (reconcileKey_ne _ _ id)).setReconciliations recs),
        hc.of_application (enqueue_subset henq) fun k' x hx _ => .inl hx⟩

end Application

/-- The operations of the action subsystem: actions are dispatched with their event, and every
claim recovers exhausted events. -/
def Label.isDispatch : Label → Bool
  | .insert _ enqueueWhenApproved _ _ => enqueueWhenApproved
  | .claim a => a.recoverExhausted
  | .enqueue _ => false
  | _ => true

theorem Kept.step {registered : String → Bool} {backoff : Int} {s t : System} {l : Label}
    (hs : Kept s) (hl : l.isDispatch = true) (hc : fencedMoves s l = true)
    (h : step registered backoff s l = some t) : Kept t := by
  cases l with
  | insert a w eventId eventNow =>
    obtain rfl : w = true := hl
    cases h
    cases hins : insertActionAndExecutionEvent s.tables a true eventId eventNow with
    | error e => simpa only [orKeep] using hs
    | ok p => exact hs.insert hins
  | approve k approverId recipient eventId now eventNow =>
    cases h
    cases happ : approveActionAndEnqueue s.tables k approverId recipient eventId now eventNow with
    | error e => simpa only [orKeep] using hs
    | ok p => exact hs.approve happ
  | deny k approverId now =>
    cases h
    exact hs.deny k approverId now
  | resolve resolution q eventId =>
    cases h
    cases hres : resolveAction s.tables resolution q eventId with
    | error e => simpa only [orKeep] using hs
    | ok p => exact hs.resolve hres
  | enqueue a => cases hl
  | claim a =>
    simp only [Actions.step] at h
    split at h
    · cases h
    · rename_i hfresh
      have hfresh' : ∀ run ∈ s.runs, run.event.leaseToken ≠ a.leaseToken := by
        intro run hrun he
        exact hfresh (List.any_eq_true.mpr ⟨run, hrun, by simpa using he⟩)
      split at h
      · rename_i hclaim
        cases h
        exact ⟨hs.ledger.claim registered backoff hfresh' hclaim,
          hs.covered.claim hs.ledger registered backoff hfresh' hl hclaim⟩
      · cases h
        exact hs
  | renew eventId leaseToken leaseSeconds now =>
    have hl' := hs.ledger.presented (.renewLease eventId leaseToken leaseSeconds now) rfl
    have hc' := hs.covered.renew hs.ledger eventId leaseToken leaseSeconds now
    simp only [Actions.step] at h
    simp only [apply] at hl' hc'
    split at h
    · rename_i hren
      cases h
      rw [hren] at hl' hc'
      exact ⟨hl', hc'⟩
    · cases h
      exact hs
  | advance i now ends => exact hs.advance hc h

theorem kept_init : Kept {} where
  ledger :=
    { ids := by simp
      named := by simp
      follows := by simp
      queue := tableValid_nil
      kinds := by simp
      keyed := by simp
      unkeyed := by simp
      tokens := by simp
      agree := by simp
      unique := by simp
      retrying := by simp }
  covered k r h := by simp [getAction] at h

/-- In every run of the action subsystem from an empty store whose admissions and retries are
made under a current lease, every unfinished action has a live event. -/
theorem unfinished_action_has_live_event (registered : String → Bool) (retryBackoffS : Int)
    (ls : List Label) (t : System) (hrun : exec (step registered retryBackoffS) {} ls = some t)
    (hls : ∀ l ∈ ls, l.isDispatch = true)
    (hfenced : Meets (step registered retryBackoffS) (fun s l => fencedMoves s l = true) {} ls) :
    ∀ r ∈ t.tables.actions, r.IsUnfinished → ∃ row ∈ t.tables.events, IsFor r.ref row ∧ IsLive row := by
  have hk : Kept t := exec_invariant_of_meets (fun s l u hs hc h => hs.step hc.1 hc.2 h)
    kept_init (hfenced.and_forall hls) hrun
  intro r hr hlive
  obtain ⟨row, hrow, hfor, hcov⟩ := hk.covered r.ref r (getAction_of_mem hk.ledger.ids hr) hlive
  exact ⟨row, hrow, hfor, hcov.isLive⟩

theorem unfinished_action_has_live_event_retrying :
    ∃ t, exec (step (fun _ => true) 30) {} (retriedSchedule.take 10) = some t ∧
      (∃ r ∈ t.tables.actions, r.IsUnfinished) ∧
      ∀ r ∈ t.tables.actions, r.IsUnfinished →
        ∃ row ∈ t.tables.events, IsFor r.ref row ∧ IsLive row := by
  have hact : (exec (step (fun _ => true) 30) {} (retriedSchedule.take 10)).map
      (fun t => decide (∃ r ∈ t.tables.actions, r.IsUnfinished)) = some true := by decide
  obtain ⟨t, ht, hr⟩ := Option.map_eq_some_iff.mp hact
  exact ⟨t, ht, of_decide_eq_true hr, unfinished_action_has_live_event (fun _ => true) 30
    (retriedSchedule.take 10) t ht (by decide) (by decide)⟩

/-- The second worker reads the first one's execution as interrupted; the first then reports a
retryable failure, which the second's late `mark_uncertain` and `mark_done` do not see. -/
def strandedSchedule : List Label :=
  let offline : ExecutionEnd := .notStarted "offline"
  [insertAuto, claimAt 0 "first"] ++ advances 0 1 offline 5 ++ [claimAt 60 "second"] ++
    advances 1 61 offline 1 ++ advances 0 62 offline 3 ++ advances 1 63 offline 2

theorem retryable_action_stranded :
    ∃ t, exec (step (fun _ => true) 30) {} strandedSchedule = some t ∧
      (∀ l ∈ strandedSchedule, l.isDispatch = true) ∧
      t.tables.actions.map (fun r => (r.status, r.lastError)) =
        [(.queued, some "ActionNotStartedError: offline")] ∧
      t.tables.events.map (·.status) = [.done] ∧
      ¬ ∀ r ∈ t.tables.actions, r.IsUnfinished →
        ∃ row ∈ t.tables.events, IsFor r.ref row ∧ IsLive row := by
  have hend : (exec (step (fun _ => true) 30) {} strandedSchedule).map (fun t =>
      (t.tables.actions.map (fun r => (r.status, r.lastError)), t.tables.events.map (·.status),
        decide (∃ r ∈ t.tables.actions, r.IsUnfinished),
        decide (∃ row ∈ t.tables.events, IsLive row))) =
      some ([(.queued, some "ActionNotStartedError: offline")], [.done], true, false) := by decide
  obtain ⟨t, ht, hend⟩ := Option.map_eq_some_iff.mp hend
  simp only [Prod.mk.injEq, decide_eq_true_eq, decide_eq_false_iff_not] at hend
  obtain ⟨hact, hev, ⟨r, hr, hlive⟩, hno⟩ := hend
  refine ⟨t, ht, by decide, hact, hev, fun hall => hno ?_⟩
  obtain ⟨row, hrow, -, hrl⟩ := hall r hr hlive
  exact ⟨row, hrow, hrl⟩

end Soveren.Actions
