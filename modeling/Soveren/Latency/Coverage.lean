import Mathlib.Data.List.Sort
import Soveren.Time.Sweep

/-! The measured part of a turn. Spans nest and overlap, and a turn is accounted for by the length of their
union. Numbers are exact, and the rounding of a metric to microseconds is left out. -/
namespace Soveren.Latency

section Model

variable {α : Type*} [AddCommGroup α] [LinearOrder α]

/-- The order of tuples. -/
def before (v w : α × α) : Prop := v.1 < w.1 ∨ (v.1 = w.1 ∧ v.2 ≤ w.2)

instance : DecidableRel (before (α := α)) := fun _ _ => instDecidableOr

/-- The windows that meet the interval, cut to it, in order. -/
def clipped (windows : List (α × α)) (start stop : α) : List (α × α) :=
  ((windows.filter fun w => start < w.2 && w.1 < stop).map fun w => (max start w.1, min stop w.2)).insertionSort
    before

def coverage (windows : List (α × α)) (start stop : α) : α :=
  ((clipped windows start stop).foldl Sweep.step (0, start)).1

inductive RuntimeStage where
  | prepareTurn | prepareWarm | prepareCold | sandboxAcquire | credentialsRefresh | backendBuild
  | backendRebuild | backendShutdown | ensureThread | acquireOrphanRecovery | acquireConversationLockWait
  | acquireCapacityReservation | acquireTenantLockWait | acquireEnsureEgress | acquireEgressLockWait
  | acquireInternalNetwork | acquireNetworkSubnet | acquirePublicNetwork | acquireEgressContainer
  | acquireEgressStart | acquireEgressConnect | acquireEgressHealth | acquireRelayReconcile
  | acquireRelayIdentity | acquireRelayResolve | acquireRelayHostCheck | acquireRelayFirewall
  | acquireRelayProbe | acquireNetworkPolicyInspect | acquireNetworkPolicyApply
  | acquireBrokerNetworkPrepare | acquireBrokerRemoveUnowned | acquireContainerLookup
  | acquireReuseExisting | acquireContainerCreate | siwcBind | siwcBindingLockWait | siwcAuthFileCheck
  | siwcGetAccessToken | siwcGrantValidation | siwcProvisionHttpCredential | siwcEndpointValidation
  | siwcRevocation | siwcHostConversationLockWait | siwcHostTenantLockWait | brokerTenantLockWait
  | brokerSharedLockWait | brokerVerifiedNetworks | brokerContainer | brokerHealth | brokerNetworkAccess
  | brokerRegistrySync | brokerPruneNetworks
  deriving DecidableEq, Repr

def runtimeStages : List RuntimeStage := [.prepareTurn, .prepareWarm, .prepareCold, .sandboxAcquire,
  .credentialsRefresh, .backendBuild, .backendRebuild, .backendShutdown, .ensureThread]

structure RuntimeSpan (α : Type*) where
  stage : RuntimeStage
  start : α
  stop : α
  failed : Bool

structure RuntimeAttempt (α : Type*) where
  start : α
  stop : Option α
  failed : Bool := false
  spans : List (RuntimeSpan α) := []
  nativeWindows : List (α × α) := []

inductive Availability where
  | measured | partiallyMeasured | unavailable
  deriving DecidableEq, Repr

structure RuntimeMetric (α : Type*) where
  duration : Option α
  availability : Availability
  samples : ℕ
  incompleteSamples : ℕ
  reason : Option String

def runtimeMetric (values : List α) (failed : ℕ) : RuntimeMetric α where
  duration := if values.isEmpty then none else some values.sum
  availability := if values.isEmpty then .unavailable else if failed ≠ 0 then .partiallyMeasured else .measured
  samples := values.length
  incompleteSamples := failed
  reason := if values.isEmpty then some "not_observed_in_codex_turn"
    else if failed ≠ 0 then some "incomplete_observation" else none

namespace RuntimeAttempt

variable (a : RuntimeAttempt α) (stop : α)

/-- The windows of the spans and of the native events. -/
def windows : List (α × α) := a.spans.map (fun s => (s.start, s.stop)) ++ a.nativeWindows

/-- An attempt without windows gives no sample. -/
def accounted : Option α :=
  if a.spans.isEmpty && a.nativeWindows.isEmpty then none else some (coverage a.windows a.start stop)

def unmeasured : α := max 0 (stop - a.start - coverage a.windows a.start stop)

def native : Option α :=
  if a.nativeWindows.isEmpty then none else some (coverage a.nativeWindows a.start stop)

def prepareParents : List (RuntimeSpan α) := a.spans.filter (·.stage = .prepareTurn)

/-- What the children of a preparation leave open of it. -/
def prepareUnmeasured : List α :=
  let children := (a.spans.filter fun s => !([.prepareTurn, .prepareWarm, .prepareCold].contains s.stage)).map
    fun s => (s.start, s.stop)
  a.prepareParents.map fun p => max 0 (p.stop - p.start - coverage children p.start p.stop)

end RuntimeAttempt

structure RuntimeDetails (α : Type*) where
  attempts : ℕ
  stages : List (RuntimeStage × RuntimeMetric α)
  nativeEventWindow : RuntimeMetric α
  accounted : RuntimeMetric α
  unmeasured : RuntimeMetric α
  prepareUnmeasured : RuntimeMetric α

/-- The attempts that have ended, with their end. -/
def ended (trace : List (RuntimeAttempt α)) : List (RuntimeAttempt α × α) :=
  trace.filterMap fun a => a.stop.map (a, ·)

def runtimeDetails (trace : List (RuntimeAttempt α)) : RuntimeDetails α :=
  let attempts := ended trace
  let spans := attempts.flatMap fun p => p.1.spans
  let failedWhere (p : RuntimeAttempt α → Bool) : ℕ := attempts.countP fun x => p x.1 && x.1.failed
  { attempts := attempts.length
    stages := runtimeStages.map fun stage =>
      let mine := spans.filter (·.stage = stage)
      (stage, runtimeMetric (mine.map fun s => s.stop - s.start) (mine.countP (·.failed)))
    nativeEventWindow := runtimeMetric (attempts.filterMap fun p => p.1.native p.2)
      (failedWhere fun a => !a.nativeWindows.isEmpty)
    accounted := runtimeMetric (attempts.filterMap fun p => p.1.accounted p.2)
      (failedWhere fun a => !(a.spans.isEmpty && a.nativeWindows.isEmpty))
    unmeasured := runtimeMetric (attempts.map fun p => p.1.unmeasured p.2)
      (if attempts.isEmpty then 0 else failedWhere fun _ => true)
    prepareUnmeasured := runtimeMetric (attempts.flatMap fun p => p.1.prepareUnmeasured)
      ((attempts.flatMap fun p => p.1.prepareParents).countP (·.failed)) }

end Model

section Measure
open MeasureTheory Set

variable {windows : List (ℝ × ℝ)} {start stop : ℝ}

theorem clipped_sorted (windows : List (ℝ × ℝ)) (start stop : ℝ) :
    (clipped windows start stop).Pairwise fun v w => v.1 ≤ w.1 := by
  have htotal : Std.Total (before (α := ℝ)) := by
    refine ⟨fun v w => ?_⟩
    rcases lt_trichotomy v.1 w.1 with h | h | h
    · exact .inl (.inl h)
    · exact (le_total v.2 w.2).imp (fun h' => .inr ⟨h, h'⟩) fun h' => .inr ⟨h.symm, h'⟩
    · exact .inr (.inl h)
  have htrans : IsTrans (ℝ × ℝ) before := by
    refine ⟨fun u v w huv hvw => ?_⟩
    obtain huv | ⟨huv, huv'⟩ := huv
    · obtain hvw | ⟨hvw, -⟩ := hvw
      · exact .inl (huv.trans hvw)
      · exact .inl (huv.trans_eq hvw)
    · obtain hvw | ⟨hvw, hvw'⟩ := hvw
      · exact .inl (huv.trans_lt hvw)
      · exact .inr ⟨huv.trans hvw, huv'.trans hvw'⟩
  refine (List.pairwise_insertionSort before _).imp fun {v w} h => ?_
  obtain h | ⟨h, -⟩ := h
  · exact h.le
  · exact h.le

theorem mem_clipped {x : ℝ × ℝ} : x ∈ clipped windows start stop ↔
    ∃ w ∈ windows, (start < w.2 ∧ w.1 < stop) ∧ (max start w.1, min stop w.2) = x := by
  simp [clipped, List.mem_insertionSort, and_assoc]

theorem clipped_le (hle : ∀ w ∈ windows, w.1 ≤ w.2) (h : start ≤ stop) :
    ∀ w ∈ clipped windows start stop, w.1 ≤ w.2 := by
  intro x hx
  obtain ⟨w, hw, ⟨hstart, hstop⟩, rfl⟩ := mem_clipped.mp hx
  exact max_le (le_min h hstart.le) (le_min hstop.le (hle w hw))

/-- Cutting the windows to the interval cuts their union to it. -/
theorem cover_clipped : Sweep.cover (clipped windows start stop) ∩ Ioi start =
    Sweep.cover windows ∩ Ioc start stop := by
  ext x
  simp only [mem_inter_iff, Sweep.mem_cover, mem_Ioi, mem_Ioc]
  constructor
  · rintro ⟨⟨y, hy, hlo, hhi⟩, hstart⟩
    obtain ⟨w, hw, -, rfl⟩ := mem_clipped.mp hy
    obtain ⟨-, hlo⟩ := max_lt_iff.mp hlo
    obtain ⟨hstop, hhi⟩ := le_min_iff.mp hhi
    exact ⟨⟨w, hw, hlo, hhi⟩, hstart, hstop⟩
  · rintro ⟨⟨w, hw, hlo, hhi⟩, hstart, hstop⟩
    refine ⟨⟨_, mem_clipped.mpr ⟨w, hw, ⟨hstart.trans_le hhi, hlo.trans_le hstop⟩, rfl⟩, ?_, ?_⟩, hstart⟩
    · exact max_lt hstart hlo
    · exact le_min hstop hhi

/-- The end points do not count. -/
theorem cover_ae_eq (windows : List (ℝ × ℝ)) :
    Sweep.cover windows =ᵐ[volume] ⋃ w ∈ windows, Icc w.1 w.2 := by
  induction windows with
  | nil => simp [Sweep.cover]
  | cons w windows ih =>
    simp only [Sweep.cover, List.mem_cons, iUnion_iUnion_eq_or_left] at ih ⊢
    exact ae_eq_set_union Ioc_ae_eq_Icc ih

theorem coverage_eq (hle : ∀ w ∈ windows, w.1 ≤ w.2) (h : start ≤ stop) :
    coverage windows start stop = volume.real ((⋃ w ∈ windows, Icc w.1 w.2) ∩ Icc start stop) := by
  rw [coverage, Sweep.foldl_step (clipped_sorted windows start stop) (clipped_le hle h), zero_add, cover_clipped]
  exact measureReal_congr (ae_eq_set_inter (cover_ae_eq windows) Ioc_ae_eq_Icc)

theorem coverage_nonneg (hle : ∀ w ∈ windows, w.1 ≤ w.2) (h : start ≤ stop) : 0 ≤ coverage windows start stop := by
  rw [coverage_eq hle h]
  exact measureReal_nonneg

theorem coverage_le (hle : ∀ w ∈ windows, w.1 ≤ w.2) (h : start ≤ stop) :
    coverage windows start stop ≤ stop - start := by
  rw [coverage_eq hle h, ← Real.volume_real_Icc_of_le h]
  exact measureReal_mono inter_subset_right measure_Icc_lt_top.ne

theorem coverage_mono {windows' : List (ℝ × ℝ)} (hle : ∀ w ∈ windows', w.1 ≤ w.2) (h : start ≤ stop)
    (hsub : windows ⊆ windows') : coverage windows start stop ≤ coverage windows' start stop := by
  rw [coverage_eq (fun w hw => hle w (hsub hw)) h, coverage_eq hle h]
  refine measureReal_mono (inter_subset_inter_left _ (biUnion_subset_biUnion_left hsub)) ?_
  exact ((measure_mono inter_subset_right).trans_lt measure_Icc_lt_top).ne

/-- An attempt whose clock has not gone backwards. -/
structure RuntimeAttempt.Timed (a : RuntimeAttempt ℝ) : Prop where
  ended : ∀ stop, a.stop = some stop → a.start ≤ stop
  windows : ∀ w ∈ a.windows, w.1 ≤ w.2

theorem RuntimeAttempt.Timed.accounted_add_unmeasured {a : RuntimeAttempt ℝ} (ha : a.Timed) {stop : ℝ}
    (hstop : a.stop = some stop) : (a.accounted stop).getD 0 + a.unmeasured stop = stop - a.start := by
  have hle := coverage_le ha.windows (ha.ended stop hstop)
  have haccounted : (a.accounted stop).getD 0 = coverage a.windows a.start stop := by
    unfold RuntimeAttempt.accounted
    split
    · rename_i hempty
      simp only [Bool.and_eq_true, List.isEmpty_iff] at hempty
      simp [RuntimeAttempt.windows, hempty, coverage, clipped]
    · rfl
  rw [haccounted, RuntimeAttempt.unmeasured, max_eq_right (by linarith)]
  ring

theorem duration_runtimeMetric (values : List ℝ) (failed : ℕ) :
    (runtimeMetric values failed).duration.getD 0 = values.sum := by
  cases values <;> rfl

theorem sum_filterMap {ι : Type*} (f : ι → Option ℝ) (l : List ι) :
    (l.filterMap f).sum = (l.map fun x => (f x).getD 0).sum := by
  induction l with
  | nil => rfl
  | cons x l ih =>
    cases hx : f x with
    | none => simp [hx, ih]
    | some y => simp [hx, ih]

/-- The coverage is the length of the union of the windows inside the interval. -/
theorem coverage_is_measure (windows : List (ℝ × ℝ)) (start stop : ℝ) (hle : ∀ w ∈ windows, w.1 ≤ w.2)
    (h : start ≤ stop) :
    coverage windows start stop = volume.real ((⋃ w ∈ windows, Icc w.1 w.2) ∩ Icc start stop) ∧
    (∀ windows', (∀ w, w ∈ windows' ↔ w ∈ windows) →
      coverage windows' start stop = coverage windows start stop) ∧
    0 ≤ coverage windows start stop ∧ coverage windows start stop ≤ stop - start ∧
    (∀ windows', (∀ w ∈ windows', w.1 ≤ w.2) → windows ⊆ windows' →
      coverage windows start stop ≤ coverage windows' start stop) ∧
    ∀ (trace : List (RuntimeAttempt ℝ)), (∀ a ∈ trace, a.Timed) →
      (∀ p ∈ ended trace, (p.1.accounted p.2).getD 0 + p.1.unmeasured p.2 = p.2 - p.1.start) ∧
      (runtimeDetails trace).accounted.duration.getD 0 + (runtimeDetails trace).unmeasured.duration.getD 0 =
        ((ended trace).map fun p => p.2 - p.1.start).sum := by
  have hattempt : ∀ (trace : List (RuntimeAttempt ℝ)), (∀ a ∈ trace, a.Timed) → ∀ p ∈ ended trace,
      (p.1.accounted p.2).getD 0 + p.1.unmeasured p.2 = p.2 - p.1.start := by
    intro trace htimed p hp
    obtain ⟨a, ha, hmap⟩ := List.mem_filterMap.mp hp
    obtain ⟨stop, hstop, rfl⟩ := Option.map_eq_some_iff.mp hmap
    exact (htimed a ha).accounted_add_unmeasured hstop
  refine ⟨coverage_eq hle h, fun windows' hsame => ?_, coverage_nonneg hle h, coverage_le hle h,
    fun windows' hle' hsub => coverage_mono hle' h hsub, fun trace htimed => ⟨hattempt trace htimed, ?_⟩⟩
  · have hle' : ∀ w ∈ windows', w.1 ≤ w.2 := fun w hw => hle w ((hsame w).mp hw)
    exact le_antisymm (coverage_mono hle h fun w hw => (hsame w).mp hw)
      (coverage_mono hle' h fun w hw => (hsame w).mpr hw)
  · simp only [runtimeDetails, duration_runtimeMetric, sum_filterMap]
    rw [← List.sum_map_add]
    exact congrArg List.sum (List.map_congr_left (hattempt trace htimed))

theorem coverage_is_measure_overlapping :
    (∀ w ∈ [((0 : ℝ), (2 : ℝ)), (1, 3)], w.1 ≤ w.2) ∧ coverage [((0 : ℝ), (2 : ℝ)), (1, 3)] 0 5 = 3 := by
  have hle : ∀ w ∈ [((0 : ℝ), (2 : ℝ)), (1, 3)], w.1 ≤ w.2 := by simp
  refine ⟨hle, ?_⟩
  rw [(coverage_is_measure [((0 : ℝ), (2 : ℝ)), (1, 3)] 0 5 hle (by norm_num)).1]
  have hunion : (⋃ w ∈ [((0 : ℝ), (2 : ℝ)), (1, 3)], Icc w.1 w.2) ∩ Icc (0 : ℝ) 5 = Icc 0 3 := by
    ext x
    simp only [List.mem_cons, List.not_mem_nil, or_false, mem_inter_iff, mem_iUnion, mem_Icc, exists_prop,
      exists_eq_or_imp, exists_eq_left]
    constructor
    · rintro ⟨⟨h1, h2⟩ | ⟨h1, h2⟩, h3, h4⟩ <;> constructor <;> linarith
    · rintro ⟨h1, h2⟩
      refine ⟨?_, h1, by linarith⟩
      by_cases hx : x ≤ 2
      · exact .inl ⟨h1, hx⟩
      · exact .inr ⟨by linarith, h2⟩
  rw [hunion, Real.volume_real_Icc_of_le (by norm_num)]
  norm_num

end Measure

end Soveren.Latency
