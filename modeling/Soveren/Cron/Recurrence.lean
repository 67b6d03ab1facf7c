import Mathlib.Data.String.Basic
import Soveren.Relational.Run
import Soveren.Time.Zone
import Soveren.Cron.Publication
import Soveren.Cron.Claim

/-! The next run of a recurring job. The rule is followed in the local time of the job's zone, and the
runs are stored as instants. -/
namespace Soveren.Cron
open Soveren.Relational Soveren.Run Soveren.Time

/-- A recurrence rule: its occurrences in local time, and the first one after a local time. -/
structure Rule where
  occurs : ℤ → Prop
  after : ℤ → Option ℤ
  after_some : ∀ x w, after x = some w → x < w ∧ occurs w ∧ ∀ v, occurs v → x < v → w ≤ v
  after_none : ∀ x, after x = none → ∀ v, occurs v → v ≤ x

/-- The libraries for zones and rules: what they find under a name or in a rule's text, and whether a
local time can be represented. -/
structure Library where
  zoneInfo : (timezone : String) → Except StoreError Zone
  rrulestr : (rrule timezone : String) → (anchor : ℤ) → Except StoreError Rule
  inRange : (wall : ℤ) → Except StoreError Unit

namespace Library

def fromTimestamp (lib : Library) (timezone : String) (instant : ℤ) : Except StoreError Unit := do
  let zone ← lib.zoneInfo timezone
  lib.inRange (zone.wall instant)

/-- `rrulestr(rrule, dtstart=anchor).after(anchor - timedelta(seconds=1))`. -/
def probe (lib : Library) (rrule timezone : String) (anchor : ℤ) : Except StoreError Unit := do
  let zone ← lib.zoneInfo timezone
  let _ ← lib.rrulestr rrule timezone anchor
  lib.inRange (zone.wall anchor - 1)

/-- `int(rrulestr(rrule, dtstart=anchor).after(instant).timestamp())`, where the rule is followed in local
time. -/
def after (lib : Library) (rrule timezone : String) (anchor instant : ℤ) :
    Except StoreError (Option ℤ) := do
  let zone ← lib.zoneInfo timezone
  let rule ← lib.rrulestr rrule timezone anchor
  .ok ((rule.after (zone.wall instant)).map zone.timestamp)

def calendar (lib : Library) : Calendar := ⟨lib.fromTimestamp, lib.probe, lib.after⟩

end Library

/-- The next occurrence of the job's rule is at a local time that the clock of its zone has not shown up to
the instant. -/
def NextUnseen (lib : Library) (row : CronJobRow) (firedAt : ℤ) : Prop :=
  ∀ body zone rule w, row.rrule = some body → lib.zoneInfo row.timezone = .ok zone →
    lib.rrulestr body row.timezone row.scheduleAnchorAt = .ok rule →
    rule.after (zone.wall firedAt) = some w → ∀ u ≤ firedAt, zone.wall u ≠ w

section Dispatch

variable {lib : Library} {row : CronJobRow} {firedAt next : ℤ}

/-- How the next run of a job was computed. -/
theorem nextRunAt_some
    (h : nextRunAt lib.calendar row.scheduleAnchorAt row.rrule row.timezone firedAt = .ok (some next)) :
    ∃ body zone rule w, row.rrule = some body ∧ lib.zoneInfo row.timezone = .ok zone ∧
      lib.rrulestr body row.timezone row.scheduleAnchorAt = .ok rule ∧
      rule.after (zone.wall firedAt) = some w ∧ next = zone.timestamp w := by
  unfold nextRunAt at h
  split at h
  · cases h
  · rename_i body hbody
    split at h
    · cases h
    · obtain ⟨_, -, h⟩ := bind_eq_ok h
      obtain ⟨_, -, h⟩ := bind_eq_ok h
      obtain ⟨zone, hzone, h⟩ := bind_eq_ok h
      obtain ⟨rule, hrule, h⟩ := bind_eq_ok h
      obtain ⟨w, hw, hnext⟩ := Option.map_eq_some_iff.mp (Except.ok.inj h)
      exact ⟨body, zone, rule, w, hbody, hzone, hrule, hw, hnext.symm⟩

/-- The next run of a job lies after this one, if and only if the clock has not shown it. -/
theorem lt_nextRunAt_iff
    (h : nextRunAt lib.calendar row.scheduleAnchorAt row.rrule row.timezone firedAt = .ok (some next)) :
    firedAt < next ↔ NextUnseen lib row firedAt := by
  obtain ⟨body, zone, rule, w, hbody, hzone, hrule, hw, rfl⟩ := nextRunAt_some h
  have hahead := (rule.after_some _ _ hw).1
  rw [← not_le, zone.timestamp_le_iff hahead]
  constructor
  · intro hnot body' zone' rule' w' hbody' hzone' hrule' hw' u hu he
    obtain rfl := Option.some.inj (hbody.symm.trans hbody')
    obtain rfl := Except.ok.inj (hzone.symm.trans hzone')
    obtain rfl := Except.ok.inj (hrule.symm.trans hrule')
    obtain rfl := Option.some.inj (hw.symm.trans hw')
    exact hnot ⟨u, hu, he⟩
  · rintro hunseen ⟨u, hu, he⟩
    exact hunseen body zone rule w hbody hzone hrule hw u hu he

end Dispatch

section Runs

variable (calendar : Calendar)

/-- The key of the publication that a call makes. -/
def publication (db : Tables) : Call → List String
  | .dispatchDueEvent jobId leaseToken recipient eventId firedAt =>
    match dispatchDueEvent calendar db jobId leaseToken recipient eventId firedAt with
    | .ok (_, true) =>
      ((db.jobs.find? (holdsAt jobId leaseToken firedAt)).map fun r => cronKey r.id r.runAt).toList
    | _ => []
  | _ => []

/-- A run keeps the keys that were published, in order. -/
def publishing (s : Tables × List String) (call : Call) : Option (Tables × List String) :=
  some (perform calendar s.1 call, s.2 ++ publication calendar s.1 call)

/-- The queue takes a publication for a repetition of an earlier one. -/
def Absorbed (db : Tables) (call : Call) : Prop :=
  publication calendar db call ≠ [] ∧ (perform calendar db call).events = db.events

/-- A dispatch is not early, and the next occurrence of the rule is ahead of the clock. -/
def MovesOn (lib : Library) (s : Tables × List String) (call : Call) : Prop :=
  ∀ jobId leaseToken recipient eventId firedAt row,
    call = .dispatchDueEvent jobId leaseToken recipient eventId firedAt →
    s.1.jobs.find? (holdsAt jobId leaseToken firedAt) = some row →
    row.runAt ≤ firedAt ∧ NextUnseen lib row firedAt

/-- The keys are those of past runs of the jobs. -/
def Past (jobs : List CronJobRow) (keys : List String) : Prop :=
  ∀ key ∈ keys, ∃ r ∈ jobs, ∃ n, key = cronKey r.id n ∧ (r.isOpen = true → n < r.runAt)

/-- The keys of the published events. -/
def eventKeys (db : Tables) : List String :=
  (db.events.filter fun e => e.messageType = "CronJobDue").map (·.idempotencyKey)

structure Forward (s : Tables × List String) : Prop where
  inv : Inv s.1
  past : Past s.1.jobs s.2
  events : Past s.1.jobs (eventKeys s.1)
  distinct : s.2.Nodup

end Runs

section Steps

variable {calendar : Calendar} {db : Tables} {t t' : List CronJobRow}

/-- A job keeps its run, and it is not opened again. -/
def KeepsRun (r s : CronJobRow) : Prop :=
  s.id = r.id ∧ s.runAt = r.runAt ∧ (r.isOpen = false → s.isOpen = false)

theorem Past.mono {keys : List String} (h : Past t keys)
    (hjobs : ∀ r ∈ t, ∃ s ∈ t', s.id = r.id ∧ (s.isOpen = true → r.isOpen = true ∧ r.runAt ≤ s.runAt)) :
    Past t' keys := by
  intro key hkey
  obtain ⟨r, hr, n, rfl, hn⟩ := h key hkey
  obtain ⟨s, hs, hid, hstep⟩ := hjobs r hr
  refine ⟨s, hs, n, by rw [hid], fun hopen => ?_⟩
  obtain ⟨hopen, hle⟩ := hstep hopen
  exact (hn hopen).trans_le hle

theorem Past.keeps {keys : List String} (h : Past t keys) {P : CronJobRow → Prop}
    (hjobs : Grows KeepsRun P t t') : Past t' keys := by
  refine h.mono fun r hr => ?_
  obtain ⟨s, hs, hid, hrun, hclosed⟩ := hjobs.exists_of_mem hr
  refine ⟨s, hs, hid, fun hopen => ⟨?_, hrun.ge⟩⟩
  by_contra hno
  rw [hclosed (by simpa using hno)] at hopen
  cases hopen

theorem keepsRun_updateWhere {p : CronJobRow → Bool} {f : CronJobRow → CronJobRow}
    (h : ∀ r, p r = true → r.isOpen = true) (hf : ∀ r, (f r).id = r.id ∧ (f r).runAt = r.runAt) :
    Grows KeepsRun (fun _ => False) t (updateWhere p f t) := by
  refine .updateWhere (fun r _ hr => ⟨(hf r).1, (hf r).2, fun hclosed => ?_⟩) fun r _ _ => ⟨rfl, rfl, id⟩
  rw [h r hr] at hclosed
  cases hclosed

theorem claimDueJobs_keepsRun {a : ClaimArgs} {rows : List CronJobRow} (hk : (t.map (·.id)).Nodup)
    (h : claimDueJobs calendar t a = .ok (t', rows)) : Grows KeepsRun (fun _ => False) t t' := by
  rw [ClaimArgs.claimDueJobs_table hk h]
  have hswept : Grows KeepsRun (fun _ => False) t (a.swept t) := by
    refine keepsRun_updateWhere (fun r hr => ?_) fun r => ⟨rfl, rfl⟩
    simp only [ClaimArgs.isExhausted, ClaimArgs.isLapsed, Bool.and_eq_true, decide_eq_true_eq] at hr
    simp [CronJobRow.isOpen, hr.1.1.1]
  refine hswept.trans (fun r s u hrs hsu => ?_) (fun _ _ h _ => h) ⟨a.settle calendar t, [], by simp, ?_,
    by simp⟩
  · exact ⟨hsu.1.trans hrs.1, hsu.2.1.trans hrs.2.1, fun h => hsu.2.2 (hrs.2.2 h)⟩
  · intro r _
    have hdue : ∀ s ∈ a.due t, s.isOpen = true := by
      intro s hs
      have hcand := (mem_selectOrdered.mp hs).2
      simp only [ClaimArgs.isCandidate, Bool.and_eq_true] at hcand
      exact isOpen_of_claimable hcand.1.2
    rw [ClaimArgs.settle]
    split
    · rename_i hlease
      refine ⟨rfl, rfl, fun hclosed => ?_⟩
      rw [hdue r (ClaimArgs.leasable_sublist.subset hlease)] at hclosed
      cases hclosed
    · split
      · rename_i hbury
        refine ⟨rfl, rfl, fun hclosed => ?_⟩
        rw [hdue r hbury.1.1] at hclosed
        cases hclosed
      · exact ⟨rfl, rfl, id⟩

theorem cancelScheduledJob_jobs {jobId tenantId sourceId : String} {now : Int} {db' : Tables}
    {outcome : CancellationOutcome}
    (h : cancelScheduledJob db jobId tenantId sourceId now = .ok (db', outcome)) :
    Grows KeepsRun (fun _ => False) db.jobs db'.jobs := by
  have hsame : Grows KeepsRun (fun _ => False) db.jobs db.jobs := .refl fun r _ => ⟨rfl, rfl, id⟩
  unfold cancelScheduledJob at h
  split at h
  · cases h
  split at h
  · cases h
  split at h
  · cases h
  split at h
  · obtain ⟨rfl, -⟩ := Prod.mk.inj (Except.ok.inj h)
    exact hsame
  · have hcancel : Grows KeepsRun (fun _ => False) db.jobs (updateWhere
        (fun r => inConversation jobId tenantId sourceId r && r.isOpen) (·.unlease .cancelled now)
        db.jobs) := by
      refine keepsRun_updateWhere (fun r hr => ?_) fun r => ⟨rfl, rfl⟩
      simp only [Bool.and_eq_true] at hr
      exact hr.2
    dsimp only at h
    split at h <;> obtain ⟨rfl, -⟩ := Prod.mk.inj (Except.ok.inj h)
    · exact hsame
    · exact hsame
    · exact hsame
    · exact hcancel
    · exact hcancel

/-- A dispatch that returns true publishes the run of the job it found. -/
theorem publication_dispatch {db' : Tables} {jobId k recipient eventId : String} {firedAt : Int} {b : Bool}
    (h : dispatchDueEvent calendar db jobId k recipient eventId firedAt = .ok (db', b)) :
    (b = false ∧ db' = db ∧
      publication calendar db (.dispatchDueEvent jobId k recipient eventId firedAt) = []) ∨
    ∃ row following a, Published calendar db jobId k firedAt db' row following a ∧
      publication calendar db (.dispatchDueEvent jobId k recipient eventId firedAt) =
        [cronKey row.id row.runAt] := by
  obtain ⟨rfl, rfl⟩ | ⟨rfl, row, following, a, hpub⟩ := dispatchDueEvent_ok h
  · exact .inl ⟨rfl, rfl, by simp [publication, h]⟩
  · exact .inr ⟨row, following, a, hpub, by simp [publication, h, hpub.found]⟩

/-- A call that publishes nothing keeps the runs of the jobs and adds no event of theirs. -/
theorem perform_keepsRun (h : Inv db) {call : Call} (hcall : publication calendar db call = []) :
    Grows KeepsRun (fun _ => True) db.jobs (perform calendar db call).jobs ∧
      ∀ key ∈ eventKeys (perform calendar db call), key ∈ eventKeys db := by
  have hsame : Grows KeepsRun (fun _ => True) db.jobs db.jobs := .refl fun r _ => ⟨rfl, rfl, id⟩
  have hgrows : ∀ {t}, Grows KeepsRun (fun _ => False) db.jobs t →
      Grows KeepsRun (fun _ => True) db.jobs t :=
    fun ht => ht.mono (fun _ _ _ hs => hs) fun _ hf => hf.elim
  cases call with
  | insertJob a =>
    simp only [perform]
    split
    · rename_i t result hok
      obtain rfl | ⟨rfl, -⟩ := insertJob_ok hok
      · exact ⟨hsame, fun _ hk => hk⟩
      · exact ⟨.append (fun r _ => ⟨rfl, rfl, id⟩) fun _ _ => trivial, fun _ hk => hk⟩
    · exact ⟨hsame, fun _ hk => hk⟩
  | claimDueJobs a =>
    simp only [perform]
    split
    · rename_i hok
      exact ⟨hgrows (claimDueJobs_keepsRun h.jobIds hok), fun _ hk => hk⟩
    · exact ⟨hsame, fun _ hk => hk⟩
  | renewLease jobId k leaseSeconds now =>
    simp only [perform]
    split
    · rename_i t b hok
      refine ⟨hgrows ?_, fun _ hk => hk⟩
      unfold renewLease at hok
      split at hok
      · cases hok
      · obtain ⟨rfl, -⟩ := Prod.mk.inj (Except.ok.inj hok)
        refine keepsRun_updateWhere (fun r hr => ?_) fun r => ⟨rfl, rfl⟩
        simp only [holdsAt, Bool.and_eq_true] at hr
        exact (isOpen_of_holds hr.1).2.2.2
    · exact ⟨hsame, fun _ hk => hk⟩
  | cancelScheduledJob jobId tenantId sourceId now =>
    simp only [perform]
    split
    · rename_i db' outcome hok
      refine ⟨hgrows (cancelScheduledJob_jobs hok), fun key hkey => ?_⟩
      rwa [eventKeys, (cancelScheduledJob_ok hok).2.1] at hkey
    · exact ⟨hsame, fun _ hk => hk⟩
  | dispatchDueEvent jobId k recipient eventId firedAt =>
    simp only [perform]
    split
    · rename_i db' b hok
      obtain ⟨-, rfl, -⟩ | ⟨row, following, a, -, hkey⟩ := publication_dispatch hok
      · exact ⟨hsame, fun _ hk => hk⟩
      · rw [hcall] at hkey
        cases hkey
    · exact ⟨hsame, fun _ hk => hk⟩
  | queue op =>
    simp only [perform]
    split
    · exact ⟨hsame, fun _ hk => hk⟩
    · rename_i hop
      refine ⟨hsame, fun key hkey => ?_⟩
      obtain ⟨e, he, rfl⟩ := List.mem_map.mp hkey
      obtain ⟨he, htype⟩ := List.mem_filter.mp he
      obtain ⟨r, hr, hstep⟩ | ⟨a, rfl, rfl, -⟩ := Queue.mem_apply h.eventIds he
      · obtain ⟨-, hmt, -, -, -, hk, -⟩ := rowStep_content hstep
        exact List.mem_map.mpr ⟨r, List.mem_filter.mpr ⟨hr, by simpa [← hmt] using htype⟩, hk.symm⟩
      · exact absurd htype hop

/-- The run of an open job is not among the past ones. -/
theorem Past.not_mem {keys : List String} (h : Past t keys) (hk : (t.map (·.id)).Nodup) {row : CronJobRow}
    (hrow : row ∈ t) (hopen : row.isOpen = true) : cronKey row.id row.runAt ∉ keys := by
  intro hmem
  obtain ⟨r, hr, n, hkey, hn⟩ := h _ hmem
  obtain rfl := eq_of_key hk hr hrow (cronKey_inj hkey).symm
  exact absurd (hn hopen) (by rw [cronKey_runAt hkey]; exact lt_irrefl n)

/-- No publication is taken for a repetition of an earlier one. -/
theorem Forward.not_absorbed {s : Tables × List String} (h : Forward s) (call : Call) :
    ¬ Absorbed calendar s.1 call := by
  rintro ⟨hpub, hevents⟩
  cases call with
  | dispatchDueEvent jobId k recipient eventId firedAt =>
    cases hok : dispatchDueEvent calendar s.1 jobId k recipient eventId firedAt with
    | error e => exact hpub (by simp [publication, hok])
    | ok result =>
      obtain ⟨db', b⟩ := result
      obtain ⟨-, -, hnone⟩ | ⟨row, following, a, hpublished, -⟩ := publication_dispatch hok
      · exact hpub hnone
      · simp only [perform, hok] at hevents
        obtain ⟨hnew, -⟩ | ⟨-, e, he, htype, hkey⟩ := hpublished.events_cases h.inv
        · rw [hevents] at hnew
          simpa using congrArg List.length hnew
        · obtain ⟨hrow, hholds⟩ := hpublished.row_mem
          obtain ⟨_, _, rfl⟩ := hpublished.args
          refine h.events.not_mem h.inv.jobIds hrow (isOpen_of_holds hholds).2.2.2 ?_
          exact List.mem_map.mpr ⟨e, List.mem_filter.mpr ⟨he, by simpa using htype⟩, hkey⟩
  | _ => exact hpub rfl

/-- A publication moves its job past the run that it publishes. -/
theorem Published.past {lib : Library} {db' : Tables} {jobId k : String} {firedAt : Int} {row : CronJobRow}
    {following : Option Int} {a : Queue.EnqueueArgs}
    (h : Published lib.calendar db jobId k firedAt db' row following a) (hk : (db.jobs.map (·.id)).Nodup)
    (hdue : row.runAt ≤ firedAt) (hnext : NextUnseen lib row firedAt) {keys : List String}
    (hpast : Past db.jobs keys) : Past db'.jobs (keys ++ [cronKey row.id row.runAt]) := by
  obtain ⟨hrow, hholds⟩ := h.row_mem
  have hlater : ∀ r ∈ db.jobs, holds jobId k r = true →
      (advanced following firedAt r).isOpen = true → r = row ∧ row.runAt <
        (advanced following firedAt r).runAt := by
    intro r hr hrholds hopen
    obtain rfl : r = row :=
      eq_of_key hk hr hrow ((isOpen_of_holds hrholds).1.trans (isOpen_of_holds hholds).1.symm)
    cases following with
    | none => simp [advanced, CronJobRow.unlease, CronJobRow.isOpen] at hopen
    | some next => exact ⟨rfl, hdue.trans_lt ((lt_nextRunAt_iff h.next).mpr hnext)⟩
  have hold : Past db'.jobs keys := by
    refine hpast.mono fun r hr => ?_
    rw [h.jobs]
    refine ⟨_, mem_updateWhere_of_mem hr, ?_, ?_⟩
    · split
      · exact (advanced_identity following firedAt r).1
      · rfl
    · split
      · rename_i hrholds
        intro hopen
        obtain ⟨rfl, hlt⟩ := hlater r hr hrholds hopen
        exact ⟨(isOpen_of_holds hholds).2.2.2, hlt.le⟩
      · exact fun hopen => ⟨hopen, le_rfl⟩
  intro key hkey
  obtain hkey | hkey := List.mem_append.mp hkey
  · exact hold key hkey
  · obtain rfl := List.mem_singleton.mp hkey
    refine ⟨advanced following firedAt row, ?_, row.runAt, ?_, fun hopen => ?_⟩
    · rw [h.jobs]
      have hmem := mem_updateWhere_of_mem (p := holds jobId k) (f := advanced following firedAt) hrow
      rwa [hholds, if_pos rfl] at hmem
    · rw [(advanced_identity following firedAt row).1]
    · exact (hlater row hrow hholds hopen).2

theorem Forward.step {lib : Library} {s s' : Tables × List String} {call : Call} (h : Forward s)
    (hcond : MovesOn lib s call) (hstep : publishing lib.calendar s call = some s') : Forward s' := by
  obtain rfl := Option.some.inj hstep
  have hinv := (perform_step lib.calendar h.inv call).1
  by_cases hnone : publication lib.calendar s.1 call = []
  · obtain ⟨hjobs, hkeys⟩ := perform_keepsRun h.inv hnone
    rw [hnone, List.append_nil]
    exact ⟨hinv, h.past.keeps hjobs, fun key hkey => h.events.keeps hjobs key (hkeys key hkey), h.distinct⟩
  · cases call with
    | dispatchDueEvent jobId k recipient eventId firedAt =>
      cases hok : dispatchDueEvent lib.calendar s.1 jobId k recipient eventId firedAt with
      | error e => exact absurd (by simp [publication, hok]) hnone
      | ok result =>
        obtain ⟨db', b⟩ := result
        obtain ⟨-, -, hno⟩ | ⟨row, following, a, hpublished, hkey⟩ := publication_dispatch hok
        · exact absurd hno hnone
        · obtain ⟨hrow, hholds⟩ := hpublished.row_mem
          have hopen := (isOpen_of_holds hholds).2.2.2
          obtain ⟨hdue, hnext⟩ := hcond jobId k recipient eventId firedAt row rfl hpublished.found
          have hperform : perform lib.calendar s.1 (.dispatchDueEvent jobId k recipient eventId firedAt) = db' := by
            simp [perform, hok]
          rw [hkey]
          simp only [hperform] at hinv ⊢
          refine ⟨hinv, hpublished.past h.inv.jobIds hdue hnext h.past, fun key hkey => ?_, ?_⟩
          · refine hpublished.past h.inv.jobIds hdue hnext h.events key ?_
            obtain ⟨e, he, rfl⟩ := List.mem_map.mp hkey
            obtain ⟨he, htype⟩ := List.mem_filter.mp he
            obtain ⟨hnew, -⟩ | ⟨hold, -⟩ := hpublished.events_cases h.inv
            · rw [hnew] at he
              obtain he | he := List.mem_append.mp he
              · exact List.mem_append_left _ (List.mem_map.mpr ⟨e, List.mem_filter.mpr ⟨he, htype⟩, rfl⟩)
              · obtain rfl := List.mem_singleton.mp he
                obtain ⟨_, _, rfl⟩ := hpublished.args
                exact List.mem_append_right _ (List.mem_singleton.mpr rfl)
            · rw [hold] at he
              exact List.mem_append_left _ (List.mem_map.mpr ⟨e, List.mem_filter.mpr ⟨he, htype⟩, rfl⟩)
          · refine List.nodup_append.mpr ⟨h.distinct, List.nodup_singleton _, fun x hx y hy he => ?_⟩
            obtain rfl := List.mem_singleton.mp hy
            exact h.past.not_mem h.inv.jobIds hrow hopen (he ▸ hx)
    | _ => exact absurd rfl hnone

end Steps

/-- A dispatch moves its job past the instant of the dispatch, if and only if the clock of the job's zone
has not shown the next occurrence up to then. Where this holds of all dispatches, every publication of a
job has a key of its own and becomes an event. -/
theorem schedules_move_forward (lib : Library) :
    (∀ db db' jobId leaseToken recipient eventId firedAt row r, (db.jobs.map (·.id)).Nodup →
      dispatchDueEvent lib.calendar db jobId leaseToken recipient eventId firedAt = .ok (db', true) →
      db.jobs.find? (holdsAt jobId leaseToken firedAt) = some row →
      r ∈ db'.jobs → r.id = jobId → r.status = .pending →
      (firedAt < r.runAt ↔ NextUnseen lib row firedAt)) ∧
    ∀ calls s, Meets (publishing lib.calendar) (MovesOn lib) ({}, []) calls →
      exec (publishing lib.calendar) ({}, []) calls = some s →
      s.2.Nodup ∧ ∀ call, ¬ Absorbed lib.calendar s.1 call := by
  constructor
  · intro db db' jobId k recipient eventId firedAt row r hk hok hfound hr hid hpending
    obtain ⟨hfalse, -⟩ | ⟨-, row', following, a, hpub⟩ := dispatchDueEvent_ok hok
    · cases hfalse
    · obtain rfl := Option.some.inj (hfound.symm.trans hpub.found)
      obtain ⟨hrow, hholds⟩ := hpub.row_mem
      have hself : advanced following firedAt row ∈ db'.jobs := by
        rw [hpub.jobs]
        have hmem := mem_updateWhere_of_mem (p := holds jobId k) (f := advanced following firedAt) hrow
        rwa [hholds, if_pos rfl] at hmem
      have hk' : (db'.jobs.map (·.id)).Nodup := hpub.rewritten.ids ▸ hk
      obtain rfl : r = advanced following firedAt row := by
        refine eq_of_key hk' hr hself ?_
        rw [hid, (advanced_identity following firedAt row).1, (isOpen_of_holds hholds).1]
      cases following with
      | none => simp [advanced, CronJobRow.unlease] at hpending
      | some next => exact lt_nextRunAt_iff hpub.next
  · intro calls s hmeets hexec
    have h0 : Forward ({}, []) :=
      ⟨inv_empty, List.forall_mem_nil _, List.forall_mem_nil _, List.nodup_nil⟩
    have h := exec_invariant_of_meets (fun _ _ _ h hcond hstep => h.step hcond hstep) h0 hmeets hexec
    exact ⟨h.distinct, h.not_absorbed⟩

section Berlin

/-- A rule that recurs every ten minutes. -/
def everyTenMinutes (anchor : ℤ) : Rule where
  occurs w := anchor ≤ w ∧ 600 ∣ w - anchor
  after x := some (if x < anchor then anchor else anchor + 600 * ((x - anchor) / 600 + 1))
  after_some x w h := by
    obtain rfl := Option.some.inj h
    split
    · refine ⟨by assumption, ⟨le_rfl, by simp⟩, fun v hv _ => hv.1⟩
    · refine ⟨by omega, ⟨by omega, by simp⟩, fun v hv hx => ?_⟩
      obtain ⟨-, k, hk⟩ := hv
      omega
  after_none x h := by cases h

/-- The clock is set back by an hour at 2025-10-26T01:00Z, from three to two. -/
def berlin : Zone := ⟨7200, [(1761440400, 3600)], trivial⟩

def berlinLibrary : Library where
  zoneInfo timezone :=
    if timezone = "Europe/Berlin" then .ok berlin else .error (.lookupError timezone)
  rrulestr rrule _ anchor :=
    if rrule = "FREQ=MINUTELY;INTERVAL=10" then .ok (everyTenMinutes (berlin.wall anchor))
    else .error (.valueError "unknown rule")
  inRange _ := .ok ()

def tenMinuteJob : Call :=
  .insertJob { tenantId := "t", sourceId := "chat", name := "report", payload := [], runAt := 1761436800,
               rrule := some "FREQ=MINUTELY;INTERVAL=10", timezone := "Europe/Berlin",
               now := 1761436000, jobHex := "1" }

def claimAt (now : Int) (leaseToken : String) : Call :=
  .claimDueJobs { limit := 5, leaseOwner := "w", leaseSeconds := 60, now := now, leaseToken := leaseToken }

def dispatchAt (now : Int) (leaseToken eventId : String) : Call :=
  .dispatchDueEvent "cron_1" leaseToken "agent" eventId now

/-- What a dispatch has to check to move its job forward. -/
def movesOn (lib : Library) (db : Tables) (jobId leaseToken : String) (firedAt : Int) : Bool :=
  (db.jobs.find? (holdsAt jobId leaseToken firedAt)).all fun row => row.runAt ≤ firedAt &&
    match nextRunAt lib.calendar row.scheduleAnchorAt row.rrule row.timezone firedAt with
    | .ok (some next) => firedAt < next
    | _ => false

theorem movesOn_dispatch {lib : Library} {s : Tables × List String} {jobId k recipient eventId : String}
    {firedAt : Int} (h : movesOn lib s.1 jobId k firedAt = true) :
    MovesOn lib s (.dispatchDueEvent jobId k recipient eventId firedAt) := by
  rintro _ _ _ _ _ row ⟨⟩ hfound
  rw [movesOn, hfound, Option.all_some, Bool.and_eq_true, decide_eq_true_eq] at h
  obtain ⟨hdue, hnext⟩ := h
  split at hnext
  · rename_i next hok
    exact ⟨hdue, (lt_nextRunAt_iff hok).mp (of_decide_eq_true hnext)⟩
  · cases hnext

theorem schedules_move_forward_once :
    (∃ db' r row, dispatchDueEvent berlinLibrary.calendar (runFrom berlinLibrary.calendar {}
        [tenMinuteJob, claimAt 1761436800 "k1"]) "cron_1" "k1" "agent" "evt1" 1761436800 = .ok (db', true) ∧
      r ∈ db'.jobs ∧ (1761436800 < r.runAt ↔ NextUnseen berlinLibrary row 1761436800)) ∧
    ∃ s, exec (publishing berlinLibrary.calendar) ({}, []) [tenMinuteJob, claimAt 1761436800 "k1",
        dispatchAt 1761436800 "k1" "evt1"] = some s ∧
      s.2.Nodup ∧ ∀ call, ¬ Absorbed berlinLibrary.calendar s.1 call := by
  constructor
  · have hrow : ((runFrom berlinLibrary.calendar {} [tenMinuteJob, claimAt 1761436800 "k1"]).jobs.find?
        (holdsAt "cron_1" "k1" 1761436800)).isSome = true := by decide +kernel
    have hok : (dispatchDueEvent berlinLibrary.calendar (runFrom berlinLibrary.calendar {}
        [tenMinuteJob, claimAt 1761436800 "k1"]) "cron_1" "k1" "agent" "evt1" 1761436800).map
        (fun p => (p.2, p.1.jobs.map fun r => (r.id, r.status))) = .ok (true, [("cron_1", .pending)]) := by
      decide +kernel
    obtain ⟨row, hrow⟩ := Option.isSome_iff_exists.mp hrow
    cases hdispatch : dispatchDueEvent berlinLibrary.calendar (runFrom berlinLibrary.calendar {}
        [tenMinuteJob, claimAt 1761436800 "k1"]) "cron_1" "k1" "agent" "evt1" 1761436800 with
    | error e =>
      rw [hdispatch] at hok
      cases hok
    | ok result =>
      rw [hdispatch] at hok
      obtain ⟨htrue, hjobs⟩ := Prod.mk.inj (Except.ok.inj hok)
      obtain ⟨r, hr, hfields⟩ : ∃ r ∈ result.1.jobs, (r.id, r.status) = ("cron_1", .pending) :=
        List.mem_map.mp (hjobs ▸ List.mem_singleton.mpr rfl)
      refine ⟨result.1, r, row, by rw [← htrue], hr, ?_⟩
      exact (schedules_move_forward berlinLibrary).1 _ result.1 "cron_1" "k1" "agent" "evt1" 1761436800
        row r (by decide +kernel) (by rw [hdispatch, ← htrue]) hrow hr (Prod.mk.inj hfields).1
        (Prod.mk.inj hfields).2
  · refine ⟨_, rfl, (schedules_move_forward berlinLibrary).2 [tenMinuteJob, claimAt 1761436800 "k1",
      dispatchAt 1761436800 "k1" "evt1"] _ ?_ rfl⟩
    refine ⟨fun _ _ _ _ _ _ h => (nomatch h), fun t ht => ⟨fun _ _ _ _ _ _ h => (nomatch h), fun u hu => ?_⟩⟩
    obtain rfl := Option.some.inj ht
    obtain rfl := Option.some.inj hu
    exact ⟨movesOn_dispatch (by decide +kernel), fun _ _ => trivial⟩

/-- The job runs at two and at ten past two; its third run is claimed when it is two for the second
time. -/
def lateRun : List Call := [tenMinuteJob, claimAt 1761436800 "k1", dispatchAt 1761436800 "k1" "evt1",
  claimAt 1761437400 "k2", dispatchAt 1761437400 "k2" "evt2", claimAt 1761440400 "k3"]

instance (db : Tables) (call : Call) : Decidable (Absorbed berlinLibrary.calendar db call) :=
  inferInstanceAs (Decidable (_ ∧ _))

/-- The dispatch moves the job an hour back, and the dispatch after it is taken for the second one. -/
theorem late_dispatch_moves_back :
    (runFrom berlinLibrary.calendar {} lateRun).jobs.map (fun r => (r.status, r.runAt)) =
        [(.leased, 1761438000)] ∧
      ((runFrom berlinLibrary.calendar {} (lateRun ++ [dispatchAt 1761440400 "k3" "evt3"])).jobs.map
        fun r => (r.status, r.runAt)) = [(.pending, 1761437400)] ∧
      Absorbed berlinLibrary.calendar (runFrom berlinLibrary.calendar {}
        (lateRun ++ [dispatchAt 1761440400 "k3" "evt3", claimAt 1761440460 "k4"]))
        (dispatchAt 1761440460 "k4" "evt4") := by
  decide +kernel

end Berlin

end Soveren.Cron
