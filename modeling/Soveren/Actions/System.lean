import Soveren.Relational.Run
import Soveren.Queue.Fencing
import Soveren.Actions.Worker

/-! The action subsystem: the store calls of the application and any number of worker runs,
each advanced one atomic operation at a time. A run's phase and the log of executor calls are
auxiliary: no program and no store call reads them. -/
namespace Soveren.Actions
open Soveren.Process Soveren.Queue Soveren.Reconciliation

/-- What an execution came to, as its end says it or as it was recorded. -/
inductive Verdict where
  | executed | handedOff | failed | retryable | uncertain
  deriving DecidableEq, Repr

/-- The verdict of an executor call's end. -/
def ExecutionEnd.verdict : ExecutionEnd → Verdict
  | .notStarted _ => .retryable
  | .raised _ _ => .uncertain
  | .returned value => match validateActionExecutionResult value with
    | .error _ => .uncertain
    | .ok result =>
      if result.status = "queued" then .handedOff
      else if result.status = "executed" then .executed
      else if result.status = "permanent_failure" then .failed
      else if result.status = "retryable_failure" then .retryable
      else .uncertain

/-- How far a run has come. -/
inductive Phase where
  | start
  /-- read an approved or retryable action -/
  | executable
  /-- read an executing action on a later attempt -/
  | recovering
  /-- won `mark_executing` -/
  | owning
  | calling
  | ended (o : ExecutionEnd)
  /-- won `mark_retryable` -/
  | retrying
  | closing
  deriving DecidableEq

/-- The phase after the first read of the action. -/
def Phase.afterRead (e : QueueEvent) : Option ActionRow → Phase
  | none => .closing
  | some action =>
    if action.status = .executing then if 1 < e.attempts then .recovering else .closing
    else if action.status = .approved || (action.status = .queued && action.lastError ≠ none) then
      .executable
    else .closing

/-- A refused transition leads to the run's end. -/
def Phase.ifMoved (moved : Bool) (φ : Phase) : Phase := if moved then φ else .closing

theorem Phase.ifMoved_closing (moved : Bool) : Phase.ifMoved moved .closing = .closing := by
  cases moved <;> rfl

/-- The order in which a run on event `e` performs its operations. -/
def protocol (e : QueueEvent) : Protocol Op Res where
  Phase := Phase
  allowed φ o := match o with
    | .time => True
    | .getAction k | .markFailed k _ => actionReference e = .ok k
    | .markExecuting k => actionReference e = .ok k ∧ φ = .executable
    | .executeStart k _ => actionReference e = .ok k ∧ φ = .owning
    | .executeEnd => φ = .calling ∧ ∃ k, actionReference e = .ok k
    | .markQueued k _ => actionReference e = .ok k ∧ ∃ o, φ = .ended o ∧ o.verdict = .handedOff
    | .markExecuted k _ => actionReference e = .ok k ∧ ∃ o, φ = .ended o ∧ o.verdict = .executed
    | .markRetryable k _ => actionReference e = .ok k ∧ e.attempts < e.maxAttempts ∧
        ∃ o, φ = .ended o ∧ o.verdict = .retryable
    | .markUncertain k _ => actionReference e = .ok k ∧
        (φ = .recovering ∨ φ = .owning ∨ ∃ o, φ = .ended o)
    | .markDone => φ = .closing
    | .markRetry _ _ => φ = .closing ∨ φ = .retrying ∨ ∀ k, actionReference e ≠ .ok k
  next φ o r := match o with
    | .time => φ
    | .getAction _ => if φ = .start then Phase.afterRead e r else φ
    | .markExecuting _ => Phase.ifMoved r .owning
    | .executeStart _ _ => .calling
    | .executeEnd => .ended r
    | .markRetryable _ _ => Phase.ifMoved r .retrying
    | .markQueued _ _ | .markExecuted _ _ | .markFailed _ _ | .markUncertain _ _
    | .markDone | .markRetry _ _ => .closing

section Follows

variable {e : QueueEvent} {k : ActionRef}

theorem finish_follows : Follows (protocol e) .closing finish := ⟨rfl, fun _ => trivial⟩

theorem finishIfSettled_follows (hk : actionReference e = .ok k) (refused : String) :
    Follows (protocol e) .closing (finishIfSettled k refused) := by
  refine ⟨hk, fun r => ?_⟩
  cases r with
  | none => exact finish_follows
  | some current =>
    simp only [Proc.bind]
    split
    · exact finish_follows
    · trivial

/-- A failed action's event is retried. -/
theorem failOrFinish_follows (hk : actionReference e = .ok k) (φ : Phase)
    (error refused : String) (delay : Int) :
    Follows (protocol e) φ (do
      if ← Call.markFailed k error then
        let _ ← retryLater delay error
        return .ok ()
      else finishIfSettled k refused) := by
  refine ⟨hk, fun moved => ?_⟩
  cases (moved : Bool) with
  | true => exact ⟨trivial, fun _ => ⟨.inl rfl, fun _ => trivial⟩⟩
  | false => exact finishIfSettled_follows hk refused

theorem retryAction_follows (hk : actionReference e = .ok k) {o : ExecutionEnd}
    (ho : o.verdict = .retryable) (error : String) (retryAfterS : Int) :
    Follows (protocol e) (.ended o) (retryAction e k error retryAfterS) := by
  unfold retryAction
  split
  · exact failOrFinish_follows hk _ _ _ _
  · rename_i hmax
    refine ⟨⟨hk, by omega, o, rfl, ho⟩, fun moved => ?_⟩
    cases (moved : Bool) with
    | true =>
      refine ⟨trivial, fun _ => ⟨.inr (.inl rfl), fun status => ?_⟩⟩
      cases (status : Option EventStatus) with
      | none => trivial
      | some st =>
        cases st with
        | deadLetter => exact ⟨hk, fun _ => trivial⟩
        | queued | leased | done | retrying => trivial
    | false => exact finishIfSettled_follows hk _

theorem applyActionResult_follows (hk : actionReference e = .ok k) {value : Option ReturnedResult}
    {result : ActionExecutionResult} (hv : validateActionExecutionResult value = .ok result)
    (retryBackoffS : Int) :
    Follows (protocol e) (.ended (.returned value)) (applyActionResult e k result retryBackoffS) := by
  have hverdict : ExecutionEnd.verdict (.returned value) =
      if result.status = "queued" then .handedOff
      else if result.status = "executed" then .executed
      else if result.status = "permanent_failure" then .failed
      else if result.status = "retryable_failure" then .retryable
      else .uncertain := by simp only [ExecutionEnd.verdict, hv]
  unfold applyActionResult
  by_cases h1 : result.status = "queued"
  · rw [if_pos h1] at hverdict ⊢
    exact ⟨⟨hk, _, rfl, hverdict⟩, fun _ => finish_follows⟩
  rw [if_neg h1] at hverdict ⊢
  by_cases h2 : result.status = "executed"
  · rw [if_pos h2] at hverdict ⊢
    exact ⟨⟨hk, _, rfl, hverdict⟩, fun _ => finish_follows⟩
  rw [if_neg h2] at hverdict ⊢
  by_cases h3 : result.status = "permanent_failure"
  · rw [if_pos h3]
    exact ⟨hk, fun _ => finish_follows⟩
  rw [if_neg h3] at hverdict ⊢
  by_cases h4 : result.status = "retryable_failure"
  · rw [if_pos h4] at hverdict ⊢
    exact retryAction_follows hk hverdict _ _
  · rw [if_neg h4]
    exact ⟨⟨hk, .inr (.inr ⟨_, rfl⟩)⟩, fun _ => finish_follows⟩

theorem executeAction_follows (hk : actionReference e = .ok k) (retryBackoffS : Int) :
    Follows (protocol e) .owning (executeAction e k retryBackoffS) := by
  refine ⟨hk, fun refreshed => ?_⟩
  cases (refreshed : Option ActionRow) with
  | none => exact ⟨⟨hk, .inr (.inl rfl)⟩, fun _ => finish_follows⟩
  | some refreshed =>
    refine ⟨⟨hk, rfl⟩, fun _ => ⟨⟨rfl, k, hk⟩, fun ends => ?_⟩⟩
    cases (ends : ExecutionEnd) with
    | notStarted message => exact retryAction_follows hk rfl _ _
    | raised type message => exact ⟨⟨hk, .inr (.inr ⟨_, rfl⟩)⟩, fun _ => finish_follows⟩
    | returned value =>
      simp only [Proc.bind]
      cases hv : validateActionExecutionResult value with
      | error error => exact ⟨⟨hk, .inr (.inr ⟨_, rfl⟩)⟩, fun _ => finish_follows⟩
      | ok result => exact applyActionResult_follows hk hv retryBackoffS

theorem processAction_follows (registered : String → Bool) (retryBackoffS : Int)
    (hk : actionReference e = .ok k) (action : ActionRow) :
    Follows (protocol e) (Phase.afterRead e (some action))
      (processAction registered retryBackoffS e k action) := by
  unfold processAction
  by_cases hs : action.status.isSettled = true
  · rw [if_pos hs]
    have : Phase.afterRead e (some action) = .closing := by
      cases h : action.status <;> simp [ActionStatus.isSettled, Phase.afterRead, h] at hs ⊢
    rw [this]
    exact finish_follows
  rw [if_neg hs]
  by_cases hx : action.status = .executing
  · rw [if_pos hx]
    by_cases ha : 1 < e.attempts
    · simp only [Phase.afterRead, hx, ha, if_true]
      exact ⟨⟨hk, .inl rfl⟩, fun _ => finish_follows⟩
    · simp only [Phase.afterRead, hx, ha, if_true, if_false]
      exact finish_follows
  rw [if_neg hx]
  by_cases hq : (action.status = .queued && action.lastError = none) = true
  · rw [if_pos hq]
    have : Phase.afterRead e (some action) = .closing := by
      simp only [Bool.and_eq_true, decide_eq_true_eq] at hq
      simp [Phase.afterRead, hq]
    rw [this]
    exact finish_follows
  rw [if_neg hq]
  by_cases hm : e.maxAttempts < e.attempts
  · rw [if_pos hm]
    exact failOrFinish_follows hk _ _ _ _
  rw [if_neg hm]
  by_cases hn : (action.status ≠ .approved && action.status ≠ .queued) = true
  · rw [if_pos hn]
    have : Phase.afterRead e (some action) = .closing := by
      simp only [Bool.and_eq_true, decide_eq_true_eq] at hn
      simp [Phase.afterRead, hx, hn]
    rw [this]
    exact finish_follows
  · rw [if_neg hn]
    have : Phase.afterRead e (some action) = .executable := by
      cases h : action.status <;> simp_all [Phase.afterRead, ActionStatus.isSettled]
    rw [this]
    refine ⟨⟨hk, rfl⟩, fun moved => ?_⟩
    cases (moved : Bool) with
    | true =>
      simp only [Proc.bind, if_true]
      split
      · exact executeAction_follows hk retryBackoffS
      · exact ⟨hk, fun _ => finish_follows⟩
    | false => exact finish_follows

/-- Every run keeps to the protocol of its event. -/
theorem processActionQueueEvent_follows (registered : String → Bool) (retryBackoffS : Int)
    (e : QueueEvent) :
    Follows (protocol e) .start (processActionQueueEvent registered retryBackoffS e) := by
  unfold processActionQueueEvent
  cases hk : actionReference e with
  | error err =>
    cases err with
    | uncaught message => trivial
    | caught message =>
      refine ⟨trivial, fun _ => ⟨.inr (.inr fun k h => ?_), fun _ => trivial⟩⟩
      rw [hk] at h
      cases h
  | ok k =>
    refine ⟨hk, fun read => ?_⟩
    cases (read : Option ActionRow) with
    | none => exact finish_follows
    | some action => exact processAction_follows registered retryBackoffS hk action

end Follows

structure Run where
  event : QueueEvent
  phase : Phase
  program : Program

/-- Starts and ends of executor calls, named by the run that makes them, and the outcomes
recorded for an action. -/
inductive Entry where
  | started (k : ActionRef) (run : ℕ)
  | ended (k : ActionRef) (run : ℕ) (o : ExecutionEnd)
  | recorded (k : ActionRef) (v : Verdict)
  deriving DecidableEq

structure System where
  tables : Tables := {}
  runs : List Run := []
  log : List Entry := []

/-- One operation of a run on event `e` at clock `now`; an executor call ends as `ends`. -/
def performOp (db : Tables) (e : QueueEvent) (now : Int) (ends : ExecutionEnd) :
    (o : Op) → Tables × Res o
  | .time => (db, now)
  | .getAction k => (db, getAction db.actions k)
  | .markExecuting k =>
    let (t, moved) := markExecuting db.actions k now
    ({ db with actions := t }, moved)
  | .markQueued k result =>
    let (t, moved) := markQueued db.actions k result now
    ({ db with actions := t }, moved)
  | .markExecuted k result =>
    let (t, moved) := markExecuted db.actions k result now
    ({ db with actions := t }, moved)
  | .markFailed k error =>
    let (t, moved) := markFailed db.actions k error now
    ({ db with actions := t }, moved)
  | .markRetryable k error =>
    let (t, moved) := markRetryable db.actions k error now
    ({ db with actions := t }, moved)
  | .markUncertain k error =>
    let (t, moved) := markUncertain db.actions k error now
    ({ db with actions := t }, moved)
  | .executeStart _ _ => (db, ())
  | .executeEnd => (db, ends)
  | .markDone =>
    let (t, moved) := markDone db.events e.id e.leaseToken now
    ({ db with events := t }, moved)
  | .markRetry runAfter lastError =>
    let (t, status) := markRetry db.events e.id e.leaseToken runAfter lastError now
    ({ db with events := t }, status)

def Entry.ifMoved (moved : Bool) (k : ActionRef) (v : Verdict) : List Entry :=
  if moved then [.recorded k v] else []

/-- What an operation of run `i` on event `e` adds to the log. -/
def entries (i : ℕ) (e : QueueEvent) : (o : Op) → Res o → List Entry
  | .executeStart k _, _ => [.started k i]
  | .executeEnd, o => match actionReference e with
    | .ok k => [.ended k i o]
    | .error _ => []
  | .markQueued k _, moved => Entry.ifMoved moved k .handedOff
  | .markExecuted k _, moved => Entry.ifMoved moved k .executed
  | .markFailed k _, moved => Entry.ifMoved moved k .failed
  | .markRetryable k _, moved => Entry.ifMoved moved k .retryable
  | .markUncertain k _, moved => Entry.ifMoved moved k .uncertain
  | _, _ => []

inductive Label where
  | insert (a : InsertActionArgs) (enqueueWhenApproved : Bool) (eventId : String) (eventNow : Int)
  | approve (k : ActionRef) (approverId recipient eventId : String) (now eventNow : Int)
  | deny (k : ActionRef) (approverId : String) (now : Int)
  | resolve (resolution : ActionResolution) (q : Request) (eventId : String)
  /-- any other producer of queue events -/
  | enqueue (a : EnqueueArgs)
  | claim (a : ClaimArgs)
  | renew (eventId leaseToken : String) (leaseSeconds now : Int)
  | advance (run : ℕ) (now : Int) (ends : ExecutionEnd)

/-- The tables after a store call; a call that raises is rolled back. -/
def orKeep {α : Type} (db : Tables) (r : Except StoreError (Tables × α)) : Tables :=
  match r with
  | .ok (db', _) => db'
  | .error _ => db

section Step

variable (registered : String → Bool) (retryBackoffS : Int)

def newRun (r : EventRow) : Run :=
  let e := rowToQueueEvent r
  ⟨e, .start, processActionQueueEvent registered retryBackoffS e⟩

/-- Advance run `i` by its next operation. -/
def advance (s : System) (i : ℕ) (now : Int) (ends : ExecutionEnd) : Option System :=
  match s.runs[i]? with
  | none => none
  | some run => match run.program with
    | .ret _ => none
    | .call o k =>
      let (db, r) := performOp s.tables run.event now ends o
      some { tables := db
             runs := s.runs.set i ⟨run.event, (protocol run.event).next run.phase o r, k r⟩
             log := s.log ++ entries i run.event o r }

/-- One step of the subsystem. A claim draws a token that no earlier claim has drawn. -/
def step (s : System) : Label → Option System
  | .insert a w eventId eventNow =>
    let r := insertActionAndExecutionEvent s.tables a w eventId eventNow
    some { s with tables := orKeep s.tables r }
  | .approve k approverId recipient eventId now eventNow =>
    let r := approveActionAndEnqueue s.tables k approverId recipient eventId now eventNow
    some { s with tables := orKeep s.tables r }
  | .deny k approverId now =>
    some { s with tables.actions := (denyAction s.tables.actions k approverId now).1 }
  | .resolve resolution q eventId =>
    some { s with tables := orKeep s.tables (resolveAction s.tables resolution q eventId) }
  | .enqueue a => match enqueue s.tables.events a with
    | .ok (t, _) => some { s with tables.events := t }
    | .error _ => some s
  | .claim a =>
    if s.runs.any (·.event.leaseToken = a.leaseToken) then none
    else match claimDue s.tables.events a with
      | .ok (t, rows) => some { s with
          tables.events := t
          runs := s.runs ++ rows.map (newRun registered retryBackoffS) }
      | .error _ => some s
  | .renew eventId leaseToken leaseSeconds now =>
    match renewLease s.tables.events eventId leaseToken leaseSeconds now with
    | .ok (t, _) => some { s with tables.events := t }
    | .error _ => some s
  | .advance i now ends => advance s i now ends

end Step

/-- The operation a run performs next. -/
def System.nextOp (s : System) (i : ℕ) : Option Op :=
  s.runs[i]?.bind fun run => match run.program with
    | .ret _ => none
    | .call o _ => some o

/-- One action row was rewritten, and no other. -/
structure Rewrites (t t' : List ActionRow) (k : ActionRef) (r r' : ActionRow) : Prop where
  found : getAction t k = some r
  now : getAction t' k = some r'
  others : ∀ k', k' ≠ k → getAction t' k' = getAction t k'
  ids : t'.map (·.id) = t.map (·.id)

/-- An action the worker may execute: approved, or waiting for a retry. -/
def ActionRow.IsExecutable (r : ActionRow) : Prop :=
  r.status = .approved ∨ (r.status = .queued ∧ r.lastError ≠ none)

/-- The action statuses that a run in a phase still answers for. -/
def Phase.Guards (e : QueueEvent) (r : ActionRow) : Phase → Prop
  | .start => r.IsExecutable ∨ (r.status = .executing ∧ 1 < e.attempts)
  | .executable | .retrying => r.IsExecutable
  | .recovering | .owning | .calling | .ended _ => r.status = .executing
  | .closing => False

/-- What recording the verdict `v` in phase `φ` does to the row and to the phase. -/
inductive Records (e : QueueEvent) (φ : Phase) (o : Op) (k : ActionRef) (r r' : ActionRow) :
    Verdict → Phase → Prop
  | failed (h' : r'.status = .failed) : Records e φ o k r r' .failed .closing
  | uncertain (h : r.status = .executing) (h' : r'.status = .uncertain) :
      Records e φ o k r r' .uncertain .closing
  | executed {x : ExecutionEnd} (hφ : φ = .ended x) (h' : r'.status = .executed) :
      Records e φ o k r r' .executed .closing
  | handedOff {x : ExecutionEnd} (hφ : φ = .ended x) (h : r.status = .executing)
      (h' : r'.status = .queued ∧ r'.lastError = none) : Records e φ o k r r' .handedOff .closing
  | retryable {x : ExecutionEnd} {error : String} (hφ : φ = .ended x) (hx : x.verdict = .retryable)
      (ho : o = .markRetryable k error) (ha : e.attempts < e.maxAttempts)
      (h : r.status = .executing) (h' : r'.status = .queued ∧ r'.lastError ≠ none) :
      Records e φ o k r r' .retryable .retrying

/-- Everything an operation of run `i` can do: the tables, its phase and the log afterwards. -/
inductive Effect (db : Tables) (i : ℕ) (e : QueueEvent) (φ : Phase) (o : Op) :
    Tables → Phase → List Entry → Prop
  | idle (h : φ ≠ .start ∨ o = .time) : Effect db i e φ o db φ []
  | read {k : ActionRef} (hk : actionReference e = .ok k) (hφ : φ = .start) :
      Effect db i e φ o db (Phase.afterRead e (getAction db.actions k)) []
  | refused {k : ActionRef} (hk : actionReference e = .ok k)
      (h : ∀ r, getAction db.actions k = some r → ¬ φ.Guards e r) :
      Effect db i e φ o db .closing []
  | closed (hφ : φ = .closing) (now : Int) :
      Effect db i e φ o { db with events := apply db.events (.markDone e.id e.leaseToken now) }
        .closing []
  | retried {after now : Int} {error : String}
      (hφ : φ = .closing ∨ φ = .retrying ∨ ∀ k, actionReference e ≠ .ok k) :
      Effect db i e φ o
        { db with events := apply db.events (.markRetry e.id e.leaseToken after error now) }
        .closing []
  | admitted {k : ActionRef} {r r' : ActionRow} {t : List ActionRow}
      (hk : actionReference e = .ok k) (hφ : φ = .executable) (ho : o = .markExecuting k)
      (hw : Rewrites db.actions t k r r') (h : r.status = .approved ∨ r.status = .queued)
      (h' : r'.status = .executing) : Effect db i e φ o { db with actions := t } .owning []
  | started {k : ActionRef} (hk : actionReference e = .ok k) (hφ : φ = .owning) :
      Effect db i e φ o db .calling [.started k i]
  | ended {k : ActionRef} (hk : actionReference e = .ok k) (hφ : φ = .calling) (x : ExecutionEnd) :
      Effect db i e φ o db (.ended x) [.ended k i x]
  | recorded {k : ActionRef} {r r' : ActionRow} {t : List ActionRow} {v : Verdict} {φ' : Phase}
      (hk : actionReference e = .ok k) (hw : Rewrites db.actions t k r r')
      (h : Records e φ o k r r' v φ') : Effect db i e φ o { db with actions := t } φ' [.recorded k v]

theorem rewrites_transition {admitted : List ActionStatus} {f : ActionRow → ActionRow}
    (hf : ∀ r, (f r).ref = r.ref) {t : List ActionRow} {k : ActionRef} {r : ActionRow}
    (hr : getAction t k = some r) (hs : r.status ∈ admitted) :
    Rewrites t (transition admitted f t k).1 k r (f r) where
  found := hr
  now := by simp [getAction_transition hf, hr, hs]
  others k' hk := by simp [getAction_transition hf, hk]
  ids := transition_ids hf t k

/-- A guarded transition either rewrites an admitted row or is refused. -/
theorem transition_cases (admitted : List ActionStatus) {f : ActionRow → ActionRow}
    (hf : ∀ r, (f r).ref = r.ref) {t : List ActionRow} (hid : (t.map (·.id)).Nodup)
    (k : ActionRef) :
    (∃ r, r.status ∈ admitted ∧ (transition admitted f t k).2 = true ∧
      Rewrites t (transition admitted f t k).1 k r (f r)) ∨
    ((transition admitted f t k).2 = false ∧ (transition admitted f t k).1 = t ∧
      ∀ r, getAction t k = some r → r.status ∉ admitted) := by
  by_cases h : (transition admitted f t k).2 = true
  · obtain ⟨r, hr, hs⟩ := (transition_snd hid k).mp h
    exact .inl ⟨r, hs, h, rewrites_transition hf hr hs⟩
  · have hfalse : (transition admitted f t k).2 = false := by simpa using h
    refine .inr ⟨hfalse, transition_eq_self hfalse, fun r hr hs => h ?_⟩
    exact (transition_snd hid k).mpr ⟨r, hr, hs⟩

theorem Phase.not_guards {e : QueueEvent} {r : ActionRow} (φ : Phase)
    (h : r.status ∉ [ActionStatus.approved, .executing, .queued]) : ¬ φ.Guards e r := by
  simp only [List.mem_cons, List.not_mem_nil, or_false, not_or] at h
  cases φ <;> simp [Phase.Guards, ActionRow.IsExecutable, h]

/-- A guarded transition that records a verdict, as an effect. -/
theorem effect_record {admitted : List ActionStatus} {f : ActionRow → ActionRow} {db : Tables}
    {i : ℕ} {e : QueueEvent} {φ φ' ψ : Phase} {o : Op} {k : ActionRef} {v : Verdict}
    (hψ : ψ = Phase.ifMoved (transition admitted f db.actions k).2 φ')
    (hf : ∀ r, (f r).ref = r.ref) (hid : (db.actions.map (·.id)).Nodup)
    (hk : actionReference e = .ok k)
    (hrec : ∀ r, r.status ∈ admitted → Records e φ o k r (f r) v φ')
    (hno : ∀ r : ActionRow, r.status ∉ admitted → ¬ φ.Guards e r) :
    Effect db i e φ o { db with actions := (transition admitted f db.actions k).1 } ψ
      (Entry.ifMoved (transition admitted f db.actions k).2 k v) := by
  rcases transition_cases admitted hf hid k with ⟨r, hs, hm, hw⟩ | ⟨hm, ht, hn⟩
  · rw [hψ, hm]
    exact .recorded hk hw (hrec r hs)
  · rw [hψ, hm, ht]
    exact .refused hk fun r hr => hno r (hn r hr)

/-- The operation that a run's protocol allows has one of the listed effects. -/
theorem performOp_effect {db : Tables} {i : ℕ} {e : QueueEvent} {φ : Phase} {o : Op}
    (now : Int) (ends : ExecutionEnd) (hid : (db.actions.map (·.id)).Nodup)
    (ho : (protocol e).allowed φ o) :
    Effect db i e φ o (performOp db e now ends o).1
      ((protocol e).next φ o (performOp db e now ends o).2)
      (entries i e o (performOp db e now ends o).2) := by
  cases o with
  | time => exact .idle (.inr rfl)
  | getAction k =>
    by_cases hφ : φ = .start
    · have hread : Effect db i e φ (.getAction k) db (Phase.afterRead e (getAction db.actions k)) [] :=
        .read ho hφ
      simpa [performOp, protocol, entries, hφ] using hread
    · have hidle : Effect db i e φ (.getAction k) db φ [] := .idle (.inl hφ)
      simpa [performOp, protocol, entries, hφ] using hidle
  | markExecuting k =>
    obtain ⟨hk, hφ⟩ := ho
    rcases transition_cases [.approved, .queued]
      (f := fun r => { r with status := .executing, updatedAt := now })
      (fun _ => rfl) hid k with ⟨r, hs, hm, hw⟩ | ⟨hm, ht, hn⟩
    · have hmove : (performOp db e now ends (.markExecuting k)).2 = true := hm
      rw [hmove]
      exact .admitted hk hφ rfl hw (by simpa using hs) rfl
    · have hmove : (performOp db e now ends (.markExecuting k)).2 = false := hm
      have htab : (performOp db e now ends (.markExecuting k)).1 = db := by
        simp only [performOp, markExecuting, ht]
      rw [hmove, htab]
      refine .refused hk fun r hr => ?_
      have := hn r hr
      simp only [List.mem_cons, List.not_mem_nil, or_false, not_or] at this
      simp [hφ, Phase.Guards, ActionRow.IsExecutable, this]
  | markQueued k result =>
    obtain ⟨hk, x, hφ, -⟩ := ho
    refine effect_record (Phase.ifMoved_closing _).symm (fun _ => rfl) hid hk (fun r hs => ?_)
      (fun r hs => ?_)
    · exact .handedOff hφ (by simpa using hs) ⟨rfl, rfl⟩
    · simpa [hφ, Phase.Guards] using hs
  | markExecuted k result =>
    obtain ⟨hk, x, hφ, -⟩ := ho
    refine effect_record (Phase.ifMoved_closing _).symm (fun _ => rfl) hid hk (fun r hs => ?_)
      (fun r hs => ?_)
    · exact .executed hφ rfl
    · simp only [List.mem_cons, not_or] at hs
      simpa [hφ, Phase.Guards] using hs.1
  | markFailed k error =>
    refine effect_record (Phase.ifMoved_closing _).symm (fun _ => rfl) hid ho (fun r _ => ?_)
      (fun r hs => φ.not_guards hs)
    exact .failed rfl
  | markRetryable k error =>
    obtain ⟨hk, ha, x, hφ, hx⟩ := ho
    refine effect_record rfl (fun _ => rfl) hid hk (fun r hs => ?_) (fun r hs => ?_)
    · exact .retryable hφ hx rfl ha (by simpa using hs) ⟨rfl, by simp⟩
    · simpa [hφ, Phase.Guards] using hs
  | markUncertain k error =>
    obtain ⟨hk, hφ⟩ := ho
    refine effect_record (Phase.ifMoved_closing _).symm (fun _ => rfl) hid hk (fun r hs => ?_)
      (fun r hs => ?_)
    · exact .uncertain (by simpa using hs) rfl
    · rcases hφ with hφ | hφ | ⟨x, hφ⟩ <;> simpa [hφ, Phase.Guards] using hs
  | executeStart k action => exact .started ho.1 ho.2
  | executeEnd =>
    obtain ⟨hφ, k, hk⟩ := ho
    have hend : Effect db i e φ .executeEnd db (.ended ends) [.ended k i ends] := .ended hk hφ ends
    simpa [performOp, protocol, entries, hk] using hend
  | markDone => exact .closed ho now
  | markRetry after error => exact .retried ho

theorem advance_effect {s t : System} {i : ℕ} {now : Int} {ends : ExecutionEnd}
    (hid : (s.tables.actions.map (·.id)).Nodup)
    (hf : ∀ run ∈ s.runs, Follows (protocol run.event) run.phase run.program)
    (h : advance s i now ends = some t) :
    ∃ run o db φ new prog, s.runs[i]? = some run ∧ s.nextOp i = some o ∧
      Effect s.tables i run.event run.phase o db φ new ∧
      Follows (protocol run.event) φ prog ∧
      t = ⟨db, s.runs.set i ⟨run.event, φ, prog⟩, s.log ++ new⟩ := by
  unfold advance at h
  cases hrun : s.runs[i]? with
  | none => simp [hrun] at h
  | some run =>
    have hfol := hf run (List.mem_of_getElem? hrun)
    cases hprog : run.program with
    | ret a => simp [hrun, hprog] at h
    | call o c =>
      rw [hprog] at hfol
      simp only [hrun, hprog, Option.some.injEq] at h
      have hop : s.nextOp i = some o := by simp [System.nextOp, hrun, hprog]
      exact ⟨run, o, _, _, _, _, rfl, hop, performOp_effect now ends hid hfol.1, hfol.2 _, h.symm⟩

end Soveren.Actions
