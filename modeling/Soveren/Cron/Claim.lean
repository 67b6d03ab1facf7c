import Soveren.Relational.Quota
import Soveren.Actions.Store
import Soveren.Cron.Store

/-! What one claim does to the table of jobs. The jobs that are due form one list, in their order; the
loop walks through it until the limit of leases is met. -/
namespace Soveren.Cron
open Soveren.Relational
open scoped List

section Specification

variable (calendar : Calendar)

/-- The check of the job's schedule passes. -/
def hasValidSchedule (r : CronJobRow) : Bool :=
  match validateSchedule calendar r.scheduleAnchorAt r.rrule r.timezone with
  | .ok () => true
  | .error _ => false

/-- The check ends with an error that is neither a `ValueError` nor a `TypeError`, or does not end. -/
def scheduleEscapes (r : CronJobRow) : Bool :=
  match validateSchedule calendar r.scheduleAnchorAt r.rrule r.timezone with
  | .ok () | .error (.valueError _) => false
  | .error _ => true

def scheduleError (r : CronJobRow) : String :=
  match validateSchedule calendar r.scheduleAnchorAt r.rrule r.timezone with
  | .error (.valueError message) => message
  | _ => ""

namespace ClaimArgs

variable (a : ClaimArgs)

/-- A job is taken out of the schedule. -/
def bury (r : CronJobRow) : CronJobRow :=
  { r.unlease .deadLetter a.now with
    lastError := some ("invalid cron schedule: " ++ scheduleError calendar r) }

/-- The due jobs after the sweep, in their order. -/
def due (t : List CronJobRow) : List CronJobRow := selectOrdered a.isCandidate dueOrder (a.swept t)

/-- The due jobs with a valid schedule. -/
def validDue (t : List CronJobRow) : List CronJobRow := (a.due t).filter (hasValidSchedule calendar)

/-- The jobs to be leased. -/
def leasable (t : List CronJobRow) : List CronJobRow := (a.validDue calendar t).take a.limit.toNat

/-- A due job before the last one to be leased, or any due job if there are not enough to lease. -/
def Reached (t : List CronJobRow) (r : CronJobRow) : Prop :=
  r ∈ a.due t ∧ ((a.validDue calendar t).length < a.limit.toNat ∨
    ∃ s ∈ a.leasable calendar t, [r, s] <+ a.due t)

instance (t : List CronJobRow) (r : CronJobRow) : Decidable (a.Reached calendar t r) :=
  inferInstanceAs (Decidable (_ ∧ (_ ∨ _)))

/-- The statements of the claim are within the bounds of the database: the clock and the limit can be bound, the end
of the leases as well if there are any, and there are not too many of them to be read back in one statement. -/
structure Bounded (t : List CronJobRow) : Prop where
  clock : Fits a.now
  limit : Fits a.limit
  leases : a.leasable calendar t ≠ [] → Fits (a.now + a.leaseSeconds)
  readable : (a.leasable calendar t).length ≤ a.maxVariables

def settle (t : List CronJobRow) (r : CronJobRow) : CronJobRow :=
  if r ∈ a.leasable calendar t then a.lease r
  else if a.Reached calendar t r ∧ hasValidSchedule calendar r = false then a.bury calendar r
  else r

/-- The loop of a claim, from the table and the leases it starts with to those it ends with. -/
inductive Loop : List CronJobRow → List String → List CronJobRow → List String → Prop
  | filled {t : List CronJobRow} {ids : List String} (hfull : a.limit ≤ ids.length) : Loop t ids t ids
  | exhausted {t : List CronJobRow} {ids : List String} (hopen : ids.length < a.limit)
      (hnone : selectOrdered a.isCandidate dueOrder t = []) : Loop t ids t ids
  | round {t t₁ t' : List CronJobRow} {ids ids₁ ids' : List String} (hopen : ids.length < a.limit)
      (hsome : selectOrdered a.isCandidate dueOrder t ≠ [])
      (hrows : a.claimRows calendar t ids
        ((selectOrdered a.isCandidate dueOrder t).take (a.limit - ids.length).toNat) = .ok (t₁, ids₁))
      (hrest : Loop t₁ ids₁ t' ids') : Loop t ids t' ids'

/-- The loop ends, and the claim leases and buries what it should and nothing else. -/
def ClaimsAsSpecified (t : List CronJobRow) : Prop :=
  Loop calendar a (a.swept t) [] ((a.swept t).map (a.settle calendar t))
      ((a.leasable calendar t).map (·.id)) ∧
    claimDueJobs calendar t a =
      .ok ((a.swept t).map (a.settle calendar t), (a.leasable calendar t).map a.lease)

end ClaimArgs

end Specification

namespace ClaimArgs

variable {calendar : Calendar} {a : ClaimArgs} {t : List CronJobRow}

section Order

instance : Std.Total dueOrder where
  total r s := by
    unfold dueOrder
    omega

instance : IsTrans CronJobRow dueOrder where
  trans r s u := by
    unfold dueOrder
    omega

end Order

section Plainly

/-- Who is due: after the sweep, a job of the claim's tenant whose time has come and that is pending, or whose
lease has lapsed with attempts left. -/
theorem mem_due_iff {r : CronJobRow} : r ∈ a.due t ↔ r ∈ a.swept t ∧ r.runAt ≤ a.now ∧
    (r.status = .pending ∨ r.status = .leased ∧ (∃ u, r.leaseUntil = some u ∧ u ≤ a.now) ∧
      r.attempts < r.maxAttempts) ∧ ∀ tenantId, a.tenantId = some tenantId → r.tenantId = tenantId := by
  rw [due, mem_selectOrdered]
  refine and_congr_right fun _ => ?_
  simp only [isCandidate, isClaimable, isLapsed, inScope, Bool.and_eq_true, Bool.or_eq_true, decide_eq_true_eq,
    Option.any_eq_true, Option.all_eq_true, and_assoc]

/-- In which order: by due time, then by creation time. -/
theorem due_ordered : (a.due t).Pairwise fun r s =>
    r.runAt < s.runAt ∨ (r.runAt = s.runAt ∧ r.createdAt ≤ s.createdAt) :=
  List.pairwise_insertionSort dueOrder _

/-- Jobs of one due time and one creation time stay in the order of the table. -/
theorem due_stable {r s : CronJobRow} (h : [r, s] <+ a.swept t) (hr : r ∈ a.due t) (hs : s ∈ a.due t)
    (hrun : r.runAt = s.runAt) (hcreated : r.createdAt = s.createdAt) : [r, s] <+ a.due t := by
  have hboth : [r, s].filter a.isCandidate = [r, s] := by
    simp [(mem_selectOrdered.mp hr).2, (mem_selectOrdered.mp hs).2]
  have hfiltered : [r, s] <+ (a.swept t).filter a.isCandidate := hboth ▸ h.filter a.isCandidate
  exact List.pair_sublist_insertionSort (.inr ⟨hrun, hcreated.le⟩) hfiltered

/-- A job that is leased has one more attempt, and keeps its schedule. -/
theorem lease_job (r : CronJobRow) : (a.lease r).attempts = r.attempts + 1 ∧ (a.lease r).status = .leased ∧
    (a.lease r).leaseUntil = some (a.now + a.leaseSeconds) ∧ (a.lease r).runAt = r.runAt ∧
    (a.lease r).maxAttempts = r.maxAttempts :=
  ⟨rfl, rfl, rfl, rfl, rfl⟩

/-- A job that is buried has no more attempts than before. -/
theorem bury_job (r : CronJobRow) : (a.bury calendar r).attempts = r.attempts ∧
    (a.bury calendar r).status = .deadLetter ∧ (a.bury calendar r).leaseToken = none :=
  ⟨rfl, rfl, rfl⟩

end Plainly

section Rows

/-- The table after a list of jobs has been walked through. -/
def walked (calendar : Calendar) (a : ClaimArgs) (t pre : List CronJobRow) : List CronJobRow :=
  t.map fun r =>
    if r ∈ pre then if hasValidSchedule calendar r then a.lease r else a.bury calendar r else r

/-- The leases of the jobs that have been walked through. -/
def leases (calendar : Calendar) (pre : List CronJobRow) : List String :=
  (pre.filter (hasValidSchedule calendar)).map (·.id)

theorem leases_append (pre rows : List CronJobRow) :
    leases calendar (pre ++ rows) = leases calendar pre ++ leases calendar rows := by
  simp [leases]

theorem walked_ids (pre : List CronJobRow) : (walked calendar a t pre).map (·.id) = t.map (·.id) := by
  rw [walked, List.map_map]
  refine List.map_congr_left fun r _ => ?_
  simp only [Function.comp]
  split
  · split <;> rfl
  · rfl

/-- One more job is leased or buried. -/
theorem updateWhere_walked {pre : List CronJobRow} {row : CronJobRow} (hk : (t.map (·.id)).Nodup)
    (hrow : row ∈ t) (hpre : row ∉ pre) {p : CronJobRow → Bool} {f : CronJobRow → CronJobRow}
    (hp : ∀ r, p r = true → r.id = row.id) (hself : p row = true)
    (hf : f row = if hasValidSchedule calendar row then a.lease row else a.bury calendar row) :
    updateWhere p f (walked calendar a t pre) = walked calendar a t (pre ++ [row]) := by
  rw [updateWhere, walked, walked, List.map_map]
  refine List.map_congr_left fun r hr => ?_
  by_cases he : r = row
  · subst he
    simp [hpre, hself, hf]
  · have hne : r.id ≠ row.id := fun hid => he (eq_of_key hk hr hrow hid)
    have hid : ∀ s : CronJobRow, s.id = r.id → p s = false := by
      intro s hs
      exact Bool.eq_false_iff.mpr fun hps => hne (hs.symm.trans (hp s hps))
    simp only [Function.comp, List.mem_append, List.mem_singleton, he, or_false]
    rw [hid _ (by split; split <;> rfl; rfl)]
    simp

/-- A job that has not been walked through is as it was. -/
theorem mem_walked {pre : List CronJobRow} {row : CronJobRow} (hrow : row ∈ t) (hpre : row ∉ pre) :
    row ∈ walked calendar a t pre :=
  List.mem_map.mpr ⟨row, hrow, if_neg hpre⟩

/-- The step of a job raises, or does not return. -/
def claimFails (calendar : Calendar) (a : ClaimArgs) (r : CronJobRow) : Bool :=
  scheduleEscapes calendar r || (hasValidSchedule calendar r && !decide (Fits (a.now + a.leaseSeconds)))

theorem claimRow_walked {pre : List CronJobRow} {row : CronJobRow} (hk : (t.map (·.id)).Nodup)
    (hrow : row ∈ t) (hclaim : a.isClaimable row = true) (hpre : row ∉ pre)
    (hfails : claimFails calendar a row = false) (ids : List String) :
    a.claimRow calendar (walked calendar a t pre) ids row =
      .ok (walked calendar a t (pre ++ [row]), ids ++ leases calendar [row]) := by
  obtain ⟨hesc, hfits⟩ := Bool.or_eq_false_iff.mp hfails
  unfold claimRow
  split
  · rename_i message hcheck
    have hvalid : hasValidSchedule calendar row = false := by simp [hasValidSchedule, hcheck]
    have hbury : { row.unlease .deadLetter a.now with
        lastError := some ("invalid cron schedule: " ++ message) } = a.bury calendar row := by
      simp [bury, scheduleError, hcheck]
    rw [updateWhere_walked hk hrow hpre (fun r hr => by simpa using hr) (by simp)
      (by simpa [hvalid] using hbury)]
    simp [leases, hvalid]
  · rename_i e hcheck hne
    cases e <;> simp_all [scheduleEscapes]
  · rename_i hcheck
    have hvalid : hasValidSchedule calendar row = true := by simp [hasValidSchedule, hcheck]
    have hbinds : ¬ ¬ Fits (a.now + a.leaseSeconds) := by simpa [hvalid] using hfits
    have hid : ∀ r, (decide (r.id = row.id) && a.isClaimable r) = true → r.id = row.id := by
      intro r hr
      simp only [Bool.and_eq_true, decide_eq_true_eq] at hr
      exact hr.1
    have hcount : rowcount (fun r => decide (r.id = row.id) && a.isClaimable r)
        (walked calendar a t pre) = 1 := by
      have hkeys : ((walked calendar a t pre).map (·.id)).Nodup := by rwa [walked_ids]
      refine le_antisymm (rowcount_le_one hkeys hid) (List.countP_pos_iff.mpr ?_)
      exact ⟨row, mem_walked hrow hpre, by simp [hclaim]⟩
    simp only [if_neg hbinds, hcount, if_true]
    rw [updateWhere_walked hk hrow hpre hid (by simp [hclaim]) (by simp [hvalid])]
    simp [leases, hvalid]

theorem claimRows_append (t : List CronJobRow) (ids : List String) (xs ys : List CronJobRow) :
    a.claimRows calendar t ids (xs ++ ys) =
      (a.claimRows calendar t ids xs >>= fun r => a.claimRows calendar r.1 r.2 ys) := by
  induction xs generalizing t ids with
  | nil => rfl
  | cons row xs ih =>
    simp only [List.cons_append, claimRows, bind_assoc, ih]

theorem claimRows_walked {pre rows : List CronJobRow} (hk : (t.map (·.id)).Nodup)
    (hrows : ∀ r ∈ rows, r ∈ t ∧ a.isClaimable r = true) (hnd : (pre ++ rows).Nodup)
    (hfails : ∀ r ∈ rows, claimFails calendar a r = false) :
    a.claimRows calendar (walked calendar a t pre) (leases calendar pre) rows =
      .ok (walked calendar a t (pre ++ rows), leases calendar (pre ++ rows)) := by
  induction rows generalizing pre with
  | nil => simp [claimRows]
  | cons row rows ih =>
    obtain ⟨hmem, hclaim⟩ := hrows row (by simp)
    have hpre : row ∉ pre := fun h => (List.nodup_append.mp hnd).2.2 row h row (by simp) rfl
    rw [claimRows, claimRow_walked hk hmem hclaim hpre (hfails row (by simp)), ← leases_append]
    have hsplit : pre ++ row :: rows = (pre ++ [row]) ++ rows := by simp
    rw [hsplit] at hnd ⊢
    exact ih (fun r hr => hrows r (by simp [hr])) hnd (fun r hr => hfails r (by simp [hr]))

/-- A step that fails ends the walk. -/
theorem claimRows_fails {rows : List CronJobRow} {r : CronJobRow} (hr : r ∈ rows)
    (hfails : claimFails calendar a r = true) (t : List CronJobRow) (ids : List String) :
    ∃ e, a.claimRows calendar t ids rows = .error e := by
  induction rows generalizing t ids with
  | nil => cases hr
  | cons row rows ih =>
    cases hrow : a.claimRow calendar t ids row with
    | error e => exact ⟨e, by rw [claimRows, hrow]; rfl⟩
    | ok result =>
      obtain rfl | hr := List.mem_cons.mp hr
      · unfold claimRow at hrow
        obtain hesc | hbinds := Bool.or_eq_true_iff.mp hfails
        · unfold scheduleEscapes at hesc
          split at hrow <;> simp_all
        · obtain ⟨hvalid, hbinds⟩ := Bool.and_eq_true_iff.mp hbinds
          unfold hasValidSchedule at hvalid
          split at hrow <;> simp_all
      · obtain ⟨e, he⟩ := ih hr result.1 result.2
        exact ⟨e, by rw [claimRows, hrow]; exact he⟩

end Rows

section Rounds

theorem not_isCandidate_lease (h : a.validate = .ok ()) (r : CronJobRow) :
    a.isCandidate (a.lease r) = false := by
  have hpos : 1 ≤ a.leaseSeconds := by
    unfold validate at h
    split at h
    · cases h
    · split at h
      · cases h
      · omega
  have hlate : ¬ a.now + a.leaseSeconds ≤ a.now := by omega
  simp [isCandidate, isClaimable, isLapsed, lease, hlate]

theorem not_isCandidate_bury (r : CronJobRow) : a.isCandidate (a.bury calendar r) = false := by
  simp [isCandidate, isClaimable, isLapsed, bury, CronJobRow.unlease]

/-- The next selection finds the jobs that have not been walked through. -/
theorem select_walked (h : a.validate = .ok ()) {pre post : List CronJobRow}
    (hnd : (pre ++ post).Nodup) (hsplit : selectOrdered a.isCandidate dueOrder t = pre ++ post) :
    selectOrdered a.isCandidate dueOrder (walked calendar a t pre) = post := by
  have hfilter : (walked calendar a t pre).filter a.isCandidate =
      t.filter (fun r => a.isCandidate r && decide (r ∉ pre)) := by
    rw [walked, List.filter_map]
    have hcand : ∀ r ∈ t, (a.isCandidate ∘ fun r => if r ∈ pre then
        if hasValidSchedule calendar r then a.lease r else a.bury calendar r else r) r =
          (a.isCandidate r && decide (r ∉ pre)) := by
      intro r _
      by_cases hr : r ∈ pre
      · by_cases hv : hasValidSchedule calendar r = true
        · simp [hr, hv, not_isCandidate_lease h]
        · simp [hr, hv, not_isCandidate_bury]
      · simp [hr]
    rw [List.filter_congr hcand]
    refine (List.map_congr_left fun r hr => ?_).trans (List.map_id _)
    have hout : r ∉ pre := by
      have hboth := (List.mem_filter.mp hr).2
      simp only [Bool.and_eq_true, decide_eq_true_eq] at hboth
      exact hboth.2
    simp [hout]
  have hsel := filter_selectOrdered a.isCandidate (fun r => decide (r ∉ pre)) dueOrder t
  rw [selectOrdered, hfilter, ← selectOrdered, ← hsel, hsplit, List.filter_append]
  have hpre : pre.filter (fun r => decide (r ∉ pre)) = [] :=
    List.filter_eq_nil_iff.mpr fun r hr => by simp [hr]
  have hpost : post.filter (fun r => decide (r ∉ pre)) = post := by
    refine List.filter_eq_self.mpr fun r hr => ?_
    simpa using fun hin => (List.nodup_append.mp hnd).2.2 r hin r hr rfl
  rw [hpre, hpost, List.nil_append]

/-- All rounds together walk through the due jobs until the limit is met. -/
theorem rounds_walked (calendar : Calendar) (h : a.validate = .ok ()) (hk : (t.map (·.id)).Nodup) {n : ℕ}
    {pre post : List CronJobRow} (hsplit : selectOrdered a.isCandidate dueOrder t = pre ++ post)
    (hn : post.length < n) :
    a.rounds calendar n (walked calendar a t pre) (leases calendar pre) =
      a.claimRows calendar (walked calendar a t pre) (leases calendar pre)
        (upTo (hasValidSchedule calendar) (a.limit - (leases calendar pre).length).toNat post) := by
  have hnd : (pre ++ post).Nodup := by
    have hkeys := selectOrdered_keys (p := a.isCandidate) (r := dueOrder) hk
    rw [hsplit] at hkeys
    exact hkeys.of_map
  induction n generalizing pre post with
  | zero => omega
  | succ n ih =>
    rw [rounds]
    by_cases hfull : a.limit ≤ (leases calendar pre).length
    · rw [if_pos hfull, Int.toNat_of_nonpos (by omega), upTo_zero]
      rfl
    · rw [if_neg hfull, select_walked h hnd hsplit]
      set k := (a.limit - (leases calendar pre).length).toNat with hkdef
      have hkpos : 0 < k := by omega
      cases hrows : post.take k with
      | nil =>
        obtain rfl : post = [] := (List.take_eq_nil_iff.mp hrows).resolve_left (by omega)
        rw [upTo_nil]
        rfl
      | cons row rest =>
        rw [upTo_split _ le_rfl, claimRows_append, hrows]
        dsimp only
        by_cases hfails : ∃ r ∈ row :: rest, claimFails calendar a r = true
        · -- the round fails, and the claim with it
          obtain ⟨r, hr, hfails⟩ := hfails
          obtain ⟨e, he⟩ := claimRows_fails hr hfails (walked calendar a t pre)
            (leases calendar pre)
          simp [he, bind, Except.bind]
        · have hsub : ∀ r ∈ row :: rest, r ∈ post := fun r hr => List.mem_of_mem_take (hrows ▸ hr)
          have hmem : ∀ r ∈ row :: rest, r ∈ t ∧ a.isClaimable r = true := by
            intro r hr
            have hsel : r ∈ selectOrdered a.isCandidate dueOrder t := by
              rw [hsplit]
              exact List.mem_append_right _ (hsub r hr)
            obtain ⟨hr, hcand⟩ := mem_selectOrdered.mp hsel
            simp only [isCandidate, Bool.and_eq_true] at hcand
            exact ⟨hr, hcand.1.2⟩
          have hpost : pre ++ post = (pre ++ row :: rest) ++ post.drop k := by
            rw [← hrows, List.append_assoc, List.take_append_drop]
          have hnd' := hnd
          rw [hpost] at hnd'
          have hround : a.claimRows calendar (walked calendar a t pre) (leases calendar pre)
              (row :: rest) = .ok (walked calendar a t (pre ++ row :: rest),
                leases calendar (pre ++ row :: rest)) :=
            claimRows_walked hk hmem (List.nodup_append.mp hnd').1 (by simpa using hfails)
          have hlen : (post.drop k).length < n := by
            have hlt := congrArg List.length hrows
            rw [List.length_take, List.length_cons] at hlt
            rw [List.length_drop]
            omega
          have hrest := ih (hsplit.trans hpost) hlen hnd'
          have hquota : (a.limit - (leases calendar (pre ++ row :: rest)).length).toNat =
              k - ((row :: rest).filter (hasValidSchedule calendar)).length := by
            rw [leases_append, List.length_append]
            simp only [leases, List.length_map] at hkdef ⊢
            omega
          rw [hround]
          show a.rounds calendar n _ _ = a.claimRows calendar _ _ _
          rw [hrest, hquota]

/-- A loop that has nothing left to do has ended. -/
theorem loop_of_rounds {n : ℕ} {t t' : List CronJobRow} {ids ids' : List String}
    (h : a.rounds calendar n t ids = .ok (t', ids'))
    (hend : a.limit ≤ ids'.length ∨ selectOrdered a.isCandidate dueOrder t' = []) :
    Loop calendar a t ids t' ids' := by
  have hstop : ∀ {t ids}, (a.limit ≤ ids.length ∨ selectOrdered a.isCandidate dueOrder t = []) →
      Loop calendar a t ids t ids := by
    intro t ids hend
    by_cases hfull : a.limit ≤ ids.length
    · exact .filled hfull
    · exact .exhausted (not_le.mp hfull) (hend.resolve_left hfull)
  induction n generalizing t ids with
  | zero =>
    obtain ⟨rfl, rfl⟩ := Prod.mk.inj (Except.ok.inj h)
    exact hstop hend
  | succ n ih =>
    rw [rounds] at h
    by_cases hfull : a.limit ≤ ids.length
    · rw [if_pos hfull] at h
      obtain ⟨rfl, rfl⟩ := Prod.mk.inj (Except.ok.inj h)
      exact hstop hend
    · rw [if_neg hfull] at h
      split at h
      · obtain ⟨rfl, rfl⟩ := Prod.mk.inj (Except.ok.inj h)
        exact hstop hend
      · rename_i hne
        obtain ⟨⟨t₁, ids₁⟩, hrows, h⟩ := bind_eq_ok h
        refine .round (not_le.mp hfull) (fun hnone => hne ?_) hrows (ih h)
        rw [hnone, List.take_nil]

end Rounds

section Result

theorem swept_ids (a : ClaimArgs) (t : List CronJobRow) : (a.swept t).map (·.id) = t.map (·.id) :=
  map_updateWhere t fun _ _ => rfl

theorem due_nodup (hk : (t.map (·.id)).Nodup) : (a.due t).Nodup := by
  rw [← swept_ids a] at hk
  exact (selectOrdered_keys (p := a.isCandidate) (r := dueOrder) hk).of_map

/-- The jobs that a claim walks through. -/
def reach (calendar : Calendar) (a : ClaimArgs) (t : List CronJobRow) : List CronJobRow :=
  upTo (hasValidSchedule calendar) a.limit.toNat (a.due t)

theorem leases_reach : leases calendar (reach calendar a t) = (a.leasable calendar t).map (·.id) := by
  rw [leases, reach, filter_upTo, leasable, validDue]

theorem mem_reach_iff (hk : (t.map (·.id)).Nodup) {r : CronJobRow}
    (hbad : hasValidSchedule calendar r = false) : r ∈ reach calendar a t ↔ a.Reached calendar t r := by
  constructor
  · intro hr
    have hdue : r ∈ a.due t := (upTo_isPrefix _ _ _).subset hr
    exact ⟨hdue, (mem_upTo_iff _ (due_nodup hk) hdue hbad).mp hr⟩
  · rintro ⟨hdue, hr⟩
    exact (mem_upTo_iff _ (due_nodup hk) hdue hbad).mpr hr

theorem mem_leasable_iff {r : CronJobRow} : r ∈ a.leasable calendar t ↔
    r ∈ reach calendar a t ∧ hasValidSchedule calendar r = true := by
  rw [leasable, validDue, ← filter_upTo, List.mem_filter, reach]

theorem walked_reach (hk : (t.map (·.id)).Nodup) :
    walked calendar a (a.swept t) (reach calendar a t) = (a.swept t).map (a.settle calendar t) := by
  refine List.map_congr_left fun r _ => ?_
  rw [settle]
  by_cases hvalid : hasValidSchedule calendar r = true
  · simp [mem_leasable_iff, hvalid]
  · have hbad : hasValidSchedule calendar r = false := by simpa using hvalid
    simp [mem_leasable_iff, ← mem_reach_iff hk hbad, hbad]

theorem leasable_sublist : a.leasable calendar t <+ a.due t :=
  (List.take_sublist _ _).trans List.filter_sublist

/-- The jobs that are leased are returned in their order. -/
theorem select_leased (hk : (t.map (·.id)).Nodup) :
    selectOrdered (fun r => ((a.leasable calendar t).map (·.id)).contains r.id) dueOrder
      ((a.swept t).map (a.settle calendar t)) = (a.leasable calendar t).map a.lease := by
  have hkeep : ∀ r, (a.settle calendar t r).id = r.id ∧ (a.settle calendar t r).runAt = r.runAt ∧
      (a.settle calendar t r).createdAt = r.createdAt := by
    intro r
    rw [settle]
    split
    · exact ⟨rfl, rfl, rfl⟩
    · split <;> exact ⟨rfl, rfl, rfl⟩
  have hmem : ∀ r ∈ a.leasable calendar t, r ∈ a.swept t ∧ a.isCandidate r = true :=
    fun r hr => mem_selectOrdered.mp (leasable_sublist.subset hr)
  have hselect : ∀ r ∈ a.swept t,
      ((fun r => ((a.leasable calendar t).map (·.id)).contains r.id) ∘ a.settle calendar t) r =
        (a.isCandidate r && decide (r ∈ a.leasable calendar t)) := by
    intro r hr
    rw [Function.comp, (hkeep r).1, Bool.eq_iff_iff, List.contains_iff_mem, List.mem_map]
    simp only [Bool.and_eq_true, decide_eq_true_eq]
    constructor
    · rintro ⟨s, hs, hid⟩
      rw [← swept_ids a] at hk
      obtain rfl := eq_of_key hk (hmem s hs).1 hr hid
      exact ⟨(hmem s hs).2, hs⟩
    · rintro ⟨-, hr⟩
      exact ⟨r, hr, rfl⟩
  have hsort := filter_selectOrdered a.isCandidate (fun r => decide (r ∈ a.leasable calendar t))
    dueOrder (a.swept t)
  rw [← due, filter_mem_sublist (due_nodup hk) leasable_sublist, selectOrdered] at hsort
  rw [selectOrdered, List.filter_map, List.filter_congr hselect, ← List.map_insertionSort dueOrder dueOrder]
  · rw [← hsort]
    exact List.map_congr_left fun r hr => if_pos hr
  · intro r _ s _
    simp only [dueOrder, hkeep]

/-- The loop has ended when its jobs have been walked through. -/
theorem reach_end (h : a.validate = .ok ()) (hk : (t.map (·.id)).Nodup) :
    a.limit ≤ (leases calendar (reach calendar a t)).length ∨ selectOrdered a.isCandidate dueOrder
      (walked calendar a (a.swept t) (reach calendar a t)) = [] := by
  by_cases hfew : (a.validDue calendar t).length < a.limit.toNat
  · have hall : reach calendar a t = a.due t := upTo_eq_self _ hfew
    refine .inr (select_walked h ?_ ?_)
    · simpa [hall] using due_nodup hk
    · simp [hall, due]
  · refine .inl ?_
    rw [leases_reach, List.length_map, leasable, List.length_take]
    omega

theorem rounds_reach (calendar : Calendar) (h : a.validate = .ok ()) (hk : (t.map (·.id)).Nodup) :
    a.rounds calendar (t.length + 1) (a.swept t) [] =
      a.claimRows calendar (a.swept t) [] (reach calendar a t) := by
  have hlen : (a.due t).length < t.length + 1 := by
    rw [due, selectOrdered, List.length_insertionSort]
    have hle := List.length_filter_le a.isCandidate (a.swept t)
    rw [swept, updateWhere_length] at hle
    exact Nat.lt_succ_of_le hle
  have hkeys : ((a.swept t).map (·.id)).Nodup := by rwa [swept_ids]
  have hall := rounds_walked calendar h hkeys (List.nil_append _).symm hlen
  simpa [walked, leases, reach, due] using hall

theorem hasValidSchedule_of_escapes {r : CronJobRow} (h : scheduleEscapes calendar r = true) :
    hasValidSchedule calendar r = false := by
  unfold scheduleEscapes at h
  unfold hasValidSchedule
  split at h <;> simp_all

theorem claimRows_reach (hk : (t.map (·.id)).Nodup)
    (hfails : ∀ r ∈ reach calendar a t, claimFails calendar a r = false) :
    a.claimRows calendar (a.swept t) [] (reach calendar a t) =
      .ok ((a.swept t).map (a.settle calendar t), (a.leasable calendar t).map (·.id)) := by
  have hkeys : ((a.swept t).map (·.id)).Nodup := by rwa [swept_ids]
  have hin : ∀ r ∈ reach calendar a t, r ∈ a.swept t ∧ a.isClaimable r = true := by
    intro r hr
    obtain ⟨hr, hcand⟩ := mem_selectOrdered.mp ((upTo_isPrefix _ _ _).subset hr)
    simp only [isCandidate, Bool.and_eq_true] at hcand
    exact ⟨hr, hcand.1.2⟩
  have hnd : (reach calendar a t).Nodup := (due_nodup hk).sublist (upTo_isPrefix _ _ _).sublist
  have hrows : a.claimRows calendar (walked calendar a (a.swept t) []) (leases calendar [])
      (reach calendar a t) = .ok (walked calendar a (a.swept t) ([] ++ reach calendar a t),
        leases calendar ([] ++ reach calendar a t)) := claimRows_walked hkeys hin hnd hfails
  rw [List.nil_append, walked_reach hk, leases_reach] at hrows
  simpa [walked, leases] using hrows

/-- No step fails exactly when every check that is made ends as expected and the leases can be bound. -/
theorem reach_fails_iff (hk : (t.map (·.id)).Nodup) :
    (∀ r ∈ reach calendar a t, claimFails calendar a r = false) ↔
      (∀ r, a.Reached calendar t r → scheduleEscapes calendar r = false) ∧
        (a.leasable calendar t ≠ [] → Fits (a.now + a.leaseSeconds)) := by
  constructor
  · intro hfails
    refine ⟨fun r hr => Bool.eq_false_iff.mpr fun hesc => ?_, fun hsome => ?_⟩
    · have hin := (mem_reach_iff hk (hasValidSchedule_of_escapes hesc)).mpr hr
      exact absurd (Bool.or_eq_false_iff.mp (hfails r hin)).1 (by simp [hesc])
    · obtain ⟨r, hr⟩ := List.exists_mem_of_ne_nil _ hsome
      obtain ⟨hin, hvalid⟩ := mem_leasable_iff.mp hr
      simpa [hvalid] using (Bool.or_eq_false_iff.mp (hfails r hin)).2
  · rintro ⟨hesc, hleases⟩ r hr
    refine Bool.or_eq_false_iff.mpr ⟨Bool.eq_false_iff.mpr fun he => ?_, ?_⟩
    · have hreached := (mem_reach_iff hk (hasValidSchedule_of_escapes he)).mp hr
      exact absurd (hesc r hreached) (by simp [he])
    · cases hvalid : hasValidSchedule calendar r with
      | false => rfl
      | true =>
        have hfits := hleases (List.ne_nil_of_mem (mem_leasable_iff.mpr ⟨hr, hvalid⟩))
        simpa using hfits

/-- A claim that does not fail has met no step that fails, nor a bound of the database. -/
theorem unfailing_of_ok (h : a.validate = .ok ()) (hk : (t.map (·.id)).Nodup)
    {result : List CronJobRow × List CronJobRow} (hok : claimDueJobs calendar t a = .ok result) :
    a.binds = true ∧ (∀ r ∈ reach calendar a t, claimFails calendar a r = false) ∧
      (a.leasable calendar t).length ≤ a.maxVariables := by
  rw [claimDueJobs, h, ok_bind] at hok
  split at hok
  · cases hok
  rename_i hbinds
  have hfails : ∀ r ∈ reach calendar a t, claimFails calendar a r = false := by
    intro r hr
    refine Bool.eq_false_iff.mpr fun hfails => ?_
    obtain ⟨e, he⟩ := claimRows_fails hr hfails (a.swept t) []
    rw [rounds_reach calendar h hk, he] at hok
    cases hok
  rw [rounds_reach calendar h hk, claimRows_reach hk hfails] at hok
  exact ⟨by simpa using hbinds, hfails, by simpa using (readBack_ok hok).1⟩

/-- The table after a claim. -/
theorem claimDueJobs_table (hk : (t.map (·.id)).Nodup) {t' rows : List CronJobRow}
    (hok : claimDueJobs calendar t a = .ok (t', rows)) : t' = (a.swept t).map (a.settle calendar t) := by
  obtain ⟨⟨⟩, hvalid, hrest⟩ := bind_eq_ok hok
  split at hrest
  · cases hrest
  obtain ⟨⟨t₁, ids⟩, hrounds, hrest⟩ := bind_eq_ok hrest
  rw [rounds_reach calendar hvalid hk, claimRows_reach hk (unfailing_of_ok hvalid hk hok).2.1] at hrounds
  rw [(Prod.mk.inj (readBack_ok hrest).2).1, ← (Prod.mk.inj (Except.ok.inj hrounds)).1]

end Result

/-- A claim leases and buries what it should, if and only if it keeps within the bounds of the database and no job
that it walks through has a schedule whose check does not return or fails in a way the claim does not expect. -/
theorem claims_as_specified_iff (calendar : Calendar) (a : ClaimArgs) (t : List CronJobRow)
    (h : a.validate = .ok ()) (hk : (t.map (·.id)).Nodup) :
    a.ClaimsAsSpecified calendar t ↔ a.Bounded calendar t ∧
      ∀ r, a.Reached calendar t r → scheduleEscapes calendar r = false := by
  constructor
  · rintro ⟨-, hclaim⟩
    obtain ⟨hbinds, hfails, hvariables⟩ := unfailing_of_ok h hk hclaim
    obtain ⟨hesc, hleases⟩ := (reach_fails_iff hk).mp hfails
    simp only [binds, Bool.and_eq_true, decide_eq_true_eq] at hbinds
    exact ⟨⟨hbinds.1, hbinds.2, hleases, hvariables⟩, hesc⟩
  · rintro ⟨hbounded, hesc⟩
    have hfails := (reach_fails_iff hk).mpr ⟨hesc, hbounded.leases⟩
    have hbinds : a.binds = true := by simp [binds, hbounded.clock, hbounded.limit]
    have hmany : ¬ a.maxVariables < ((a.leasable calendar t).map (·.id)).length := by
      simpa using hbounded.readable
    have hrounds := rounds_reach calendar h hk
    rw [claimRows_reach hk hfails] at hrounds
    refine ⟨loop_of_rounds hrounds ?_, ?_⟩
    · rw [← leases_reach, ← walked_reach hk]
      exact reach_end h hk
    · rw [claimDueJobs, h, hrounds, ok_bind, if_neg (by simp [hbinds])]
      refine (if_neg hmany).trans ?_
      exact congrArg (fun rows => Except.ok (_, rows)) (select_leased hk)

/-- A calendar of one zone. A rule cannot be probed before the first instant of the calendar, and the search of one
rule goes on in the month of its anchor for ever. -/
def utcCalendar : Calendar where
  fromTimestamp timezone _ := if timezone = "UTC" then .ok () else .error (.lookupError timezone)
  probe rrule _ anchor :=
    if anchor = -62135596800 then .error (.overflowError "date value out of range")
    else if rrule = "FREQ=DAILY" then .ok ()
    else if rrule = "FREQ=DAILY;INTERVAL=0;BYMONTH=2" then .error .noReturn
    else .error (.valueError "unknown rule")
  after _ _ _ instant := .ok (some (instant + 86400))

/-- A pending daily job. -/
def dailyJob (id : String) (anchor runAt : Int) (timezone : String) : CronJobRow where
  id := id
  tenantId := "t"
  sourceId := "chat"
  name := "report"
  payload := .obj []
  status := .pending
  scheduleAnchorAt := anchor
  runAt := runAt
  rrule := some "FREQ=DAILY"
  timezone := timezone
  leaseOwner := none
  leaseUntil := none
  leaseToken := none
  attempts := 0
  maxAttempts := 5
  idempotencyKey := none
  idempotencyFingerprint := none
  lastError := none
  createdAt := 0
  updatedAt := 0

def claimTwo : ClaimArgs :=
  { limit := 2, leaseOwner := "w", leaseSeconds := 60, now := 100, leaseToken := "k" }

/-- A job in an unknown zone is buried between two jobs that are leased. -/
theorem claims_as_specified_three :
    claimTwo.ClaimsAsSpecified utcCalendar
      [dailyJob "a" 10 10 "UTC", dailyJob "b" 11 11 "Nowhere", dailyJob "c" 12 12 "UTC",
        dailyJob "d" 13 13 "UTC"] :=
  (claims_as_specified_iff utcCalendar claimTwo _ rfl (by decide)).mpr (by
    refine ⟨⟨by decide, by decide, fun _ => by decide, by decide⟩, fun r hr => ?_⟩
    have hall : ∀ r ∈ claimTwo.due [dailyJob "a" 10 10 "UTC", dailyJob "b" 11 11 "Nowhere",
        dailyJob "c" 12 12 "UTC", dailyJob "d" 13 13 "UTC"], scheduleEscapes utcCalendar r = false := by
      decide
    exact hall r hr.1)

/-- One job whose rule cannot be probed keeps every other job from being leased. -/
theorem escaping_schedule_blocks_claim :
    ¬ claimTwo.ClaimsAsSpecified utcCalendar
      [dailyJob "a" 10 10 "UTC", dailyJob "b" (-62135596800) (-62135596800) "UTC"] := by
  rintro ⟨-, hclaim⟩
  exact absurd hclaim (by decide)

end ClaimArgs

end Soveren.Cron
