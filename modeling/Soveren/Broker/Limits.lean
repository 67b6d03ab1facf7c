import Soveren.Relational.Accounting
import Soveren.Broker.Admission

/-! The limits of the broker across registry updates. Every limiter counts the requests that
hold it or wait for it. The runtime that a request uses stays the one of its binding; the
capacity of its tenant does, as long as no tenant is removed while one of its requests still
waits for its binding's slot. -/
namespace Soveren.Broker
open Soveren.Run Soveren.Accounting

/-- A number that a limiter keeps. -/
inductive Counter where
  | active (r : ℕ)
  | waiting (r : ℕ)
  | inflight (c : ℕ)
  | queued (c : ℕ)
  | buffered (c : ℕ)

def BrokerProcess.counter (p : BrokerProcess) : Counter → ℕ
  | .active r => (p.runtimes[r]?.map (·.activeRequests)).getD 0
  | .waiting r => (p.runtimes[r]?.map (·.waitingRequests)).getD 0
  | .inflight c => (p.capacities[c]?.map (·.inflightRequests)).getD 0
  | .queued c => (p.capacities[c]?.map (·.waitingRequests)).getD 0
  | .buffered c => (p.capacities[c]?.map (·.bufferedRequestBytes)).getD 0

/-- What a request adds to a counter. -/
def Forward.usage (f : Forward) : Counter → ℕ
  | .active r => if f.runtimeAcquired = true ∧ f.runtime = some r then 1 else 0
  | .waiting r => if f.suspension = .runtimeQueue ∧ f.runtime = some r then 1 else 0
  | .inflight c =>
    (if f.tenantCapacityAcquired = true ∧ f.tenantCapacity = some c then 1 else 0) +
      if f.capacityAcquired = true ∧ c = brokerCapacity then 1 else 0
  | .queued c =>
    (if f.suspension = .tenantQueue ∧ f.tenantCapacity = some c then 1 else 0) +
      if f.suspension = .brokerQueue ∧ c = brokerCapacity then 1 else 0
  | .buffered c =>
    (if f.tenantCapacityAcquired = true ∧ f.tenantCapacity = some c then f.reservedRequestBytes else 0) +
      if f.capacityAcquired = true ∧ c = brokerCapacity then f.reservedRequestBytes else 0

/-- The largest limit that was configured for a binding. -/
def largestLimit (configured : List BindingRegistry) (bindingId : String) : Int :=
  (((configured.flatMap registryBindings).filter (·.bindingId = bindingId)).map
    (·.limits.maxConcurrentRequests)).foldr max 0

/-- What holds of the limiters and of the dictionaries that name them. -/
structure Sound (settings : Settings) (configured : List BindingRegistry) (p : BrokerProcess) :
    Prop where
  registry : p.broker.registry ∈ configured
  runtime : ∀ b r, p.bindingRuntimes.lookup b = some r → ∃ rt, p.runtimes[r]? = some rt ∧
    rt.maxConcurrentRequests ≤ largestLimit configured b ∧
    (rt.activeRequests : Int) ≤ largestLimit configured b
  distinct : ∀ b b' r, p.bindingRuntimes.lookup b = some r → p.bindingRuntimes.lookup b' = some r →
    b = b'
  positive : 1 ≤ p.maxInflightRequestsPerTenant ∧ 1 ≤ p.broker.maxBufferedRequestBytesPerTenant
  perTenant : p.maxInflightRequestsPerTenant =
      min settings.maxInflightRequestsPerTenant settings.maxInflightRequests ∧
    p.broker.maxBufferedRequestBytesPerTenant =
      min settings.maxBufferedRequestBytesPerTenant settings.maxBufferedRequestBytes
  nonempty : 0 < p.capacities.length
  maxima : ∀ c cap, p.capacities[c]? = some cap →
    (c = brokerCapacity ∧ cap.maxInflightRequests = settings.maxInflightRequests ∧
      cap.maxBufferedRequestBytes = settings.maxBufferedRequestBytes) ∨
    (c ≠ brokerCapacity ∧ cap.maxInflightRequests = p.maxInflightRequestsPerTenant ∧
      cap.maxBufferedRequestBytes = p.broker.maxBufferedRequestBytesPerTenant)
  bounded : ∀ (c : ℕ) (cap : BrokerCapacity), p.capacities[c]? = some cap →
    (cap.inflightRequests : Int) ≤ cap.maxInflightRequests ∧
    (cap.bufferedRequestBytes : Int) ≤ cap.maxBufferedRequestBytes
  tenant : ∀ t c, p.tenantCapacities.lookup t = some c →
    c ≠ brokerCapacity ∧ c < p.capacities.length

/-- The limiters that a request uses are the ones of its binding and of its tenant. -/
structure Uses (p : BrokerProcess) (f : Forward) : Prop where
  slot : f.runtimeAcquired = true ∨ f.suspension = .runtimeQueue → ∃ b r, f.bindingId = some b ∧
    f.runtime = some r ∧ p.bindingRuntimes.lookup b = some r
  tenant : f.suspension = .runtimeQueue ∨ f.suspension = .tenantQueue ∨
      f.tenantCapacityAcquired = true →
    ∃ t c, f.tenantKey = some t ∧ f.tenantCapacity = some c ∧ p.tenantCapacities.lookup t = some c

/-- What holds of a request between two steps. -/
structure Good (p : BrokerProcess) (f : Forward) : Prop extends Uses p f where
  registered : f.suspension = .runtimeQueue → ∀ t, f.tenantKey = some t →
    (p.broker.registry.byTenant.lookup t).isSome = true
  runtimeQueue : f.suspension = .runtimeQueue → f.runtimeAcquired = false
  tenantQueue : f.suspension = .runtimeQueue ∨ f.suspension = .tenantQueue →
    f.tenantCapacityAcquired = false
  brokerQueue : f.suspension = .runtimeQueue ∨ f.suspension = .tenantQueue ∨
    f.suspension = .brokerQueue → f.capacityAcquired = false
  released : ∀ o, f.suspension = .ended o → f.runtimeAcquired = false ∧
    f.tenantCapacityAcquired = false ∧ f.capacityAcquired = false
  intact : ∀ message, f.suspension ≠ .ended (.error (.runtimeError message))

/-- What is left of a dictionary without a key. -/
theorem lookup_of_erase {α : Type} {d : Dict α} {k k' : String} {v : α}
    (h : (d.erase k).lookup k' = some v) : k' ≠ k ∧ d.lookup k' = some v := by
  by_cases hk : k' = k
  · subst hk
    rw [AList.lookup_erase] at h
    cases h
  · exact ⟨hk, (AList.lookup_erase_ne hk).symm.trans h⟩

section Largest

variable {configured : List BindingRegistry} {g : BindingRegistry} {b : BrokerBinding}

theorem le_foldr_max {l : List Int} {x : Int} (h : x ∈ l) : x ≤ l.foldr max 0 := by
  induction l with
  | nil => cases h
  | cons y l ih =>
    rw [List.foldr_cons]
    obtain rfl | h := List.mem_cons.mp h
    · exact le_max_left ..
    · exact (ih h).trans (le_max_right ..)

theorem largestLimit_nonneg (configured : List BindingRegistry) (bindingId : String) :
    0 ≤ largestLimit configured bindingId := by
  unfold largestLimit
  generalize (((configured.flatMap registryBindings).filter (·.bindingId = bindingId)).map
    (·.limits.maxConcurrentRequests)) = l
  induction l with
  | nil => exact le_refl 0
  | cons x l ih => exact ih.trans (le_max_right ..)

theorem le_largestLimit (hg : g ∈ configured) (hb : b ∈ registryBindings g) :
    b.limits.maxConcurrentRequests ≤ largestLimit configured b.bindingId := by
  refine le_foldr_max (List.mem_map.mpr ⟨b, List.mem_filter.mpr ⟨?_, by simp⟩, rfl⟩)
  exact List.mem_flatMap.mpr ⟨g, hg, hb⟩

theorem largestLimit_mono (configured new : List BindingRegistry) (bindingId : String) :
    largestLimit configured bindingId ≤ largestLimit (configured ++ new) bindingId := by
  simp only [largestLimit, List.flatMap_append, List.filter_append, List.map_append,
    List.foldr_append]
  generalize ((configured.flatMap registryBindings).filter (·.bindingId = bindingId)).map
    (·.limits.maxConcurrentRequests) = l
  have h0 := largestLimit_nonneg new bindingId
  unfold largestLimit at h0
  induction l with
  | nil => exact h0
  | cons x l ih => exact max_le_max (le_refl x) ih

theorem mem_registryBindings {t : String} {r : TenantBindingRegistry}
    (hr : g.byTenant.lookup t = some r) (hb : b ∈ tenantRegistryBindings r) :
    b ∈ registryBindings g :=
  List.mem_flatMap.mpr ⟨r, List.mem_map.mpr ⟨⟨t, r⟩, AList.mem_lookup_iff.mp hr, rfl⟩, hb⟩

end Largest

/-- A new object whose counter is zero. -/
theorem getD_concat_zero {α : Type} {w : α → ℕ} {l : List α} {x : α} {n : ℕ} (hx : w x = 0) :
    ((l ++ [x])[n]?.map w).getD 0 = (l[n]?.map w).getD 0 := by
  rw [List.getElem?_append]
  split
  · rfl
  · rename_i hlt
    rw [List.getElem?_eq_none (Nat.le_of_not_lt hlt), List.getElem?_singleton]
    split
    · exact hx
    · rfl

section Counters

variable {p : BrokerProcess} {r c : ℕ} {rt : BindingRuntime} {cap : BrokerCapacity}

theorem counter_active (h : p.runtimes[r]? = some rt) : p.counter (.active r) = rt.activeRequests := by
  simp [BrokerProcess.counter, h]

theorem counter_waiting (h : p.runtimes[r]? = some rt) :
    p.counter (.waiting r) = rt.waitingRequests := by
  simp [BrokerProcess.counter, h]

theorem counter_inflight (h : p.capacities[c]? = some cap) :
    p.counter (.inflight c) = cap.inflightRequests := by
  simp [BrokerProcess.counter, h]

theorem counter_queued (h : p.capacities[c]? = some cap) :
    p.counter (.queued c) = cap.waitingRequests := by
  simp [BrokerProcess.counter, h]

theorem counter_buffered (h : p.capacities[c]? = some cap) :
    p.counter (.buffered c) = cap.bufferedRequestBytes := by
  simp [BrokerProcess.counter, h]

/-- A change of one runtime changes its two counters. -/
theorem counter_modifyRuntime (h : p.runtimes[r]? = some rt) (g : BindingRuntime → BindingRuntime)
    (k : Counter) : (p.modifyRuntime r g).counter k = match k with
      | .active r' => if r' = r then (g rt).activeRequests else p.counter k
      | .waiting r' => if r' = r then (g rt).waitingRequests else p.counter k
      | .inflight _ | .queued _ | .buffered _ => p.counter k := by
  cases k with
  | active r' =>
    by_cases hr : r' = r
    · subst hr
      simp [BrokerProcess.counter, BrokerProcess.modifyRuntime, h]
    · simp [BrokerProcess.counter, BrokerProcess.modifyRuntime, hr, Ne.symm hr]
  | waiting r' =>
    by_cases hr : r' = r
    · subst hr
      simp [BrokerProcess.counter, BrokerProcess.modifyRuntime, h]
    · simp [BrokerProcess.counter, BrokerProcess.modifyRuntime, hr, Ne.symm hr]
  | inflight c => rfl
  | queued c => rfl
  | buffered c => rfl

theorem counter_modifyCapacity (h : p.capacities[c]? = some cap)
    (g : BrokerCapacity → BrokerCapacity) (k : Counter) :
    (p.modifyCapacity c g).counter k = match k with
      | .inflight c' => if c' = c then (g cap).inflightRequests else p.counter k
      | .queued c' => if c' = c then (g cap).waitingRequests else p.counter k
      | .buffered c' => if c' = c then (g cap).bufferedRequestBytes else p.counter k
      | .active _ | .waiting _ => p.counter k := by
  cases k with
  | active r => rfl
  | waiting r => rfl
  | inflight c' =>
    by_cases hc : c' = c
    · subst hc
      simp [BrokerProcess.counter, BrokerProcess.modifyCapacity, h]
    · simp [BrokerProcess.counter, BrokerProcess.modifyCapacity, hc, Ne.symm hc]
  | queued c' =>
    by_cases hc : c' = c
    · subst hc
      simp [BrokerProcess.counter, BrokerProcess.modifyCapacity, h]
    · simp [BrokerProcess.counter, BrokerProcess.modifyCapacity, hc, Ne.symm hc]
  | buffered c' =>
    by_cases hc : c' = c
    · subst hc
      simp [BrokerProcess.counter, BrokerProcess.modifyCapacity, h]
    · simp [BrokerProcess.counter, BrokerProcess.modifyCapacity, hc, Ne.symm hc]

end Counters

/-- A request in the middle of a step: the others are as they were stored. -/
structure At (settings : Settings) (configured : List BindingRegistry) (forwards : List Forward)
    (i : ℕ) (p : BrokerProcess) (f : Forward) : Prop where
  place : i < forwards.length
  balanced : Balanced Forward.usage p.counter (forwards.set i f)
  sound : Sound settings configured p
  others : ∀ j g, j ≠ i → forwards[j]? = some g → Good p g

section Requests

variable {settings : Settings} {configured : List BindingRegistry} {forwards : List Forward} {i : ℕ}
  {p p' : BrokerProcess} {f f' : Forward} {r c : ℕ} {rt : BindingRuntime} {cap : BrokerCapacity}

/-- What a request says of the process is about its dictionaries and its registry. -/
theorem Good.congr (h : Good p f) (hr : p'.bindingRuntimes = p.bindingRuntimes)
    (hc : p'.tenantCapacities = p.tenantCapacities) (hb : p'.broker = p.broker) : Good p' f :=
  { h with
    slot := hr ▸ h.slot
    tenant := hc ▸ h.tenant
    registered := hb ▸ h.registered }

theorem At.get (h : At settings configured forwards i p f) : (forwards.set i f)[i]? = some f :=
  List.getElem?_set_self h.place

theorem At.mem (h : At settings configured forwards i p f) : f ∈ forwards.set i f :=
  List.mem_of_getElem? h.get

/-- The request and the counters change by the same amounts. -/
theorem At.balance (h : At settings configured forwards i p f)
    (hc : ∀ k, p'.counter k + f.usage k = p.counter k + f'.usage k) :
    Balanced Forward.usage p'.counter (forwards.set i f') := by
  have hb := h.balanced.set h.get hc
  rwa [List.set_set] at hb

/-- A change of a runtime that keeps its limit. -/
theorem Sound.modifyRuntime (h : Sound settings configured p) (hr : p.runtimes[r]? = some rt)
    {g : BindingRuntime → BindingRuntime} (hmax : (g rt).maxConcurrentRequests = rt.maxConcurrentRequests)
    (hactive : ∀ b, p.bindingRuntimes.lookup b = some r →
      ((g rt).activeRequests : Int) ≤ largestLimit configured b) :
    Sound settings configured (p.modifyRuntime r g) := by
  refine { h with runtime := fun b r' hb => ?_ }
  obtain ⟨rt', hrt', hle, hact⟩ := h.runtime b r' hb
  by_cases he : r' = r
  · subst he
    obtain rfl := Option.some.inj (hr.symm.trans hrt')
    exact ⟨g rt, by simp [BrokerProcess.modifyRuntime, hr], hmax ▸ hle, hactive b hb⟩
  · exact ⟨rt', by simp [BrokerProcess.modifyRuntime, Ne.symm he, hrt'], hle, hact⟩

theorem Sound.modifyCapacity (h : Sound settings configured p) (hc : p.capacities[c]? = some cap)
    {g : BrokerCapacity → BrokerCapacity}
    (hinflight : (g cap).maxInflightRequests = cap.maxInflightRequests)
    (hbuffered : (g cap).maxBufferedRequestBytes = cap.maxBufferedRequestBytes)
    (hbounded : ((g cap).inflightRequests : Int) ≤ cap.maxInflightRequests ∧
      ((g cap).bufferedRequestBytes : Int) ≤ cap.maxBufferedRequestBytes) :
    Sound settings configured (p.modifyCapacity c g) := by
  have hcases : ∀ c' cap', (p.modifyCapacity c g).capacities[c']? = some cap' →
      (c' = c ∧ cap' = g cap) ∨ p.capacities[c']? = some cap' := by
    intro c' cap' h'
    by_cases he : c' = c
    · subst he
      have hg : (p.modifyCapacity c' g).capacities[c']? = some (g cap) := by
        simp [BrokerProcess.modifyCapacity, hc]
      exact .inl ⟨rfl, (Option.some.inj (hg.symm.trans h')).symm⟩
    · have hg : (p.modifyCapacity c g).capacities[c']? = p.capacities[c']? := by
        simp [BrokerProcess.modifyCapacity, Ne.symm he]
      exact .inr (hg ▸ h')
  have hlen : (p.modifyCapacity c g).capacities.length = p.capacities.length := by
    simp [BrokerProcess.modifyCapacity]
  refine { h with
    nonempty := hlen ▸ h.nonempty
    maxima := fun c' cap' h' => ?_
    bounded := fun c' cap' h' => ?_
    tenant := fun t c' ht => ?_ }
  · obtain ⟨rfl, rfl⟩ | h' := hcases c' cap' h'
    · rw [hinflight, hbuffered]
      exact h.maxima c' cap hc
    · exact h.maxima c' cap' h'
  · obtain ⟨rfl, rfl⟩ | h' := hcases c' cap' h'
    · rw [hinflight, hbuffered]
      exact hbounded
    · exact h.bounded c' cap' h'
  · rw [hlen]
    exact h.tenant t c' ht

/-- A runtime that a request holds or waits for is not idle. -/
theorem runtime_not_idle {pool : List Forward} (hb : Balanced Forward.usage p.counter pool)
    (hf : f ∈ pool) (huse : f.runtimeAcquired = true ∨ f.suspension = .runtimeQueue)
    (hr : f.runtime = some r) : p.isRuntimeIdle r = false := by
  by_contra hidle
  obtain ⟨rt, hrt, hidle⟩ := (Option.any_eq_true ..).mp ((Bool.not_eq_false _).mp hidle)
  simp only [BindingRuntime.isIdle, Bool.and_eq_true, decide_eq_true_eq] at hidle
  have hactive := hb.usage_le (k := .active r) hf
  have hwaiting := hb.usage_le (k := .waiting r) hf
  rw [counter_active hrt, hidle.1] at hactive
  rw [counter_waiting hrt, hidle.2] at hwaiting
  obtain huse | huse := huse
  · simp [Forward.usage, huse, hr] at hactive
  · simp [Forward.usage, huse, hr] at hwaiting

theorem capacity_not_idle {pool : List Forward} (hb : Balanced Forward.usage p.counter pool)
    (hf : f ∈ pool) (huse : f.suspension = .tenantQueue ∨ f.tenantCapacityAcquired = true)
    (hc : f.tenantCapacity = some c) : p.isCapacityIdle c = false := by
  by_contra hidle
  obtain ⟨cap, hcap, hidle⟩ := (Option.any_eq_true ..).mp ((Bool.not_eq_false _).mp hidle)
  simp only [BrokerCapacity.isIdle, Bool.and_eq_true, decide_eq_true_eq] at hidle
  have hinflight := hb.usage_le (k := .inflight c) hf
  have hqueued := hb.usage_le (k := .queued c) hf
  rw [counter_inflight hcap, hidle.1] at hinflight
  rw [counter_queued hcap, hidle.2] at hqueued
  obtain huse | huse := huse
  · simp [Forward.usage, huse, hc] at hqueued
  · simp [Forward.usage, huse, hc] at hinflight

/-- Discarding an idle runtime takes it away from no request. -/
theorem At.discardRuntime (h : At settings configured forwards i p f) (b : String) (r : ℕ) :
    At settings configured forwards i (p.discardRuntime b r) f := by
  unfold BrokerProcess.discardRuntime
  split
  · rename_i hdrop
    simp only [Bool.and_eq_true, decide_eq_true_eq] at hdrop
    obtain ⟨⟨hlookup, -⟩, hidle⟩ := hdrop
    refine ⟨h.place, h.balanced, ?_, fun j g hj hg => ?_⟩
    · refine { h.sound with
        runtime := fun b' r' hb' => ?_
        distinct := fun b' b'' r' hb' hb'' => ?_ }
      · exact h.sound.runtime b' r' (lookup_of_erase hb').2
      · exact h.sound.distinct b' b'' r' (lookup_of_erase hb').2 (lookup_of_erase hb'').2
    · have hgood := h.others j g hj hg
      refine { hgood with slot := fun huse => ?_ }
      obtain ⟨b', r', hb', hr', hl'⟩ := hgood.slot huse
      refine ⟨b', r', hb', hr', ?_⟩
      by_cases hbb : b' = b
      · subst hbb
        obtain rfl := Option.some.inj (hlookup.symm.trans hl')
        have hmem : g ∈ forwards.set i f :=
          List.mem_of_getElem? (by rwa [List.getElem?_set_ne (Ne.symm hj)])
        rw [runtime_not_idle h.balanced hmem huse hr'] at hidle
        cases hidle
      · exact (AList.lookup_erase_ne hbb).trans hl'
  · exact h

theorem discardCapacity_bindingRuntimes (p : BrokerProcess) (t : String) (c : ℕ) :
    (p.discardCapacity t c).bindingRuntimes = p.bindingRuntimes := by
  unfold BrokerProcess.discardCapacity
  split <;> rfl

/-- Discarding an idle capacity takes it away from no request: a request that has looked it up
and still waits for its slot has its tenant registered. -/
theorem At.discardCapacity (h : At settings configured forwards i p f) (t : String) (c : ℕ) :
    At settings configured forwards i (p.discardCapacity t c) f := by
  unfold BrokerProcess.discardCapacity
  split
  · rename_i hdrop
    simp only [Bool.and_eq_true, decide_eq_true_eq] at hdrop
    obtain ⟨⟨hlookup, hnone⟩, hidle⟩ := hdrop
    refine ⟨h.place, h.balanced, ?_, fun j g hj hg => ?_⟩
    · refine { h.sound with tenant := fun t' c' ht' => ?_ }
      exact h.sound.tenant t' c' (lookup_of_erase ht').2
    · have hgood := h.others j g hj hg
      refine { hgood with tenant := fun huse => ?_ }
      obtain ⟨t', c', ht', hc', hl'⟩ := hgood.tenant huse
      refine ⟨t', c', ht', hc', ?_⟩
      by_cases htt : t' = t
      · subst htt
        obtain rfl := Option.some.inj (hlookup.symm.trans hl')
        have hmem : g ∈ forwards.set i f :=
          List.mem_of_getElem? (by rwa [List.getElem?_set_ne (Ne.symm hj)])
        obtain huse | huse := huse
        · have hreg := hgood.registered huse t' ht'
          rw [Option.isNone_iff_eq_none.mp hnone] at hreg
          cases hreg
        · rw [capacity_not_idle h.balanced hmem huse hc'] at hidle
          cases hidle
      · exact (AList.lookup_erase_ne htt).trans hl'
  · exact h

theorem At.modifyRuntime (h : At settings configured forwards i p f) (hr : p.runtimes[r]? = some rt)
    {g : BindingRuntime → BindingRuntime} (hmax : (g rt).maxConcurrentRequests = rt.maxConcurrentRequests)
    (hactive : ∀ b, p.bindingRuntimes.lookup b = some r →
      ((g rt).activeRequests : Int) ≤ largestLimit configured b)
    (hc : ∀ k, (p.modifyRuntime r g).counter k + f.usage k = p.counter k + f'.usage k) :
    At settings configured forwards i (p.modifyRuntime r g) f' :=
  ⟨h.place, h.balance hc, h.sound.modifyRuntime hr hmax hactive,
    fun j g hj hg => (h.others j g hj hg).congr rfl rfl rfl⟩

theorem At.modifyCapacity (h : At settings configured forwards i p f)
    (hcap : p.capacities[c]? = some cap) {g : BrokerCapacity → BrokerCapacity}
    (hinflight : (g cap).maxInflightRequests = cap.maxInflightRequests)
    (hbuffered : (g cap).maxBufferedRequestBytes = cap.maxBufferedRequestBytes)
    (hbounded : ((g cap).inflightRequests : Int) ≤ cap.maxInflightRequests ∧
      ((g cap).bufferedRequestBytes : Int) ≤ cap.maxBufferedRequestBytes)
    (hc : ∀ k, (p.modifyCapacity c g).counter k + f.usage k = p.counter k + f'.usage k) :
    At settings configured forwards i (p.modifyCapacity c g) f' :=
  ⟨h.place, h.balance hc, h.sound.modifyCapacity hcap hinflight hbuffered hbounded,
    fun j g hj hg => (h.others j g hj hg).congr rfl rfl rfl⟩

/-- A change of one runtime and of a request that uses nothing else. -/
theorem counter_runtime_step (hrt : p.runtimes[r]? = some rt) {g : BindingRuntime → BindingRuntime}
    (hactive : (g rt).activeRequests + f.usage (.active r) = rt.activeRequests + f'.usage (.active r))
    (hwaiting : (g rt).waitingRequests + f.usage (.waiting r) =
      rt.waitingRequests + f'.usage (.waiting r))
    (hother : ∀ k, k ≠ .active r → k ≠ .waiting r → f.usage k = f'.usage k) (k : Counter) :
    (p.modifyRuntime r g).counter k + f.usage k = p.counter k + f'.usage k := by
  rw [counter_modifyRuntime hrt]
  cases k with
  | active r' =>
    by_cases hr' : r' = r
    · subst hr'
      simpa [counter_active hrt] using hactive
    · simp [hr', hother (.active r') (by simpa using hr') (by simp)]
  | waiting r' =>
    by_cases hr' : r' = r
    · subst hr'
      simpa [counter_waiting hrt] using hwaiting
    · simp [hr', hother (.waiting r') (by simp) (by simpa using hr')]
  | inflight c => simp [hother (.inflight c) (by simp) (by simp)]
  | queued c => simp [hother (.queued c) (by simp) (by simp)]
  | buffered c => simp [hother (.buffered c) (by simp) (by simp)]

theorem counter_capacity_step (hcap : p.capacities[c]? = some cap)
    {g : BrokerCapacity → BrokerCapacity}
    (hinflight : (g cap).inflightRequests + f.usage (.inflight c) =
      cap.inflightRequests + f'.usage (.inflight c))
    (hqueued : (g cap).waitingRequests + f.usage (.queued c) =
      cap.waitingRequests + f'.usage (.queued c))
    (hbuffered : (g cap).bufferedRequestBytes + f.usage (.buffered c) =
      cap.bufferedRequestBytes + f'.usage (.buffered c))
    (hother : ∀ k, k ≠ .inflight c → k ≠ .queued c → k ≠ .buffered c → f.usage k = f'.usage k)
    (k : Counter) : (p.modifyCapacity c g).counter k + f.usage k = p.counter k + f'.usage k := by
  rw [counter_modifyCapacity hcap]
  cases k with
  | active r => simp [hother (.active r) (by simp) (by simp) (by simp)]
  | waiting r => simp [hother (.waiting r) (by simp) (by simp) (by simp)]
  | inflight c' =>
    by_cases hc' : c' = c
    · subst hc'
      simpa [counter_inflight hcap] using hinflight
    · simp [hc', hother (.inflight c') (by simpa using hc') (by simp) (by simp)]
  | queued c' =>
    by_cases hc' : c' = c
    · subst hc'
      simpa [counter_queued hcap] using hqueued
    · simp [hc', hother (.queued c') (by simp) (by simpa using hc') (by simp)]
  | buffered c' =>
    by_cases hc' : c' = c
    · subst hc'
      simpa [counter_buffered hcap] using hbuffered
    · simp [hc', hother (.buffered c') (by simp) (by simp) (by simpa using hc')]

/-- The request and the process after a step. -/
def Settles (settings : Settings) (configured : List BindingRegistry) (forwards : List Forward)
    (i : ℕ) (result : BrokerProcess × Forward) : Prop :=
  At settings configured forwards i result.1 result.2 ∧ Good result.1 result.2

/-- A request that has given back everything. -/
theorem Good.of_ended {o : Except ForwardError ℕ} (ho : f.suspension = .ended o)
    (hintact : ∀ message, o ≠ .error (.runtimeError message)) (hr : f.runtimeAcquired = false)
    (ht : f.tenantCapacityAcquired = false) (hc : f.capacityAcquired = false) : Good p f where
  slot := by simp [ho, hr]
  tenant := by simp [ho, ht]
  registered := by simp [ho]
  runtimeQueue := by simp [ho]
  tenantQueue := by simp [ho]
  brokerQueue := by simp [ho]
  released := fun _ _ => ⟨hr, ht, hc⟩
  intact := fun message he => hintact message (by simpa [ho] using he)

theorem finishRuntime_settles {o : Except ForwardError ℕ} (h : At settings configured forwards i p f)
    (hu : Uses p f) (ho : f.suspension = .ended o)
    (hintact : ∀ message, o ≠ .error (.runtimeError message))
    (ht : f.tenantCapacityAcquired = false) (hc : f.capacityAcquired = false) :
    Settles settings configured forwards i (finishRuntime p f) := by
  cases hacq : f.runtimeAcquired with
  | false =>
    have hf : finishRuntime p f = (p, f) := by simp [finishRuntime, hacq]
    rw [hf]
    exact ⟨h, .of_ended ho hintact hacq ht hc⟩
  | true =>
    obtain ⟨b, r, hb, hr, hlookup⟩ := hu.slot (.inl hacq)
    obtain ⟨rt, hrt, -, hle⟩ := h.sound.runtime b r hlookup
    have hone : 1 ≤ rt.activeRequests := by
      have := h.balanced.usage_le (k := .active r) h.mem
      simpa [Forward.usage, hacq, hr, counter_active hrt] using this
    have hf : finishRuntime p f = ((p.modifyRuntime r (·.released)).discardRuntime b r,
        { f with runtimeAcquired := false }) := by
      simp [finishRuntime, hacq, hr, hb, hrt, hone]
    rw [hf]
    refine ⟨(h.modifyRuntime hrt rfl (fun b' hb' => ?_) fun k => ?_).discardRuntime b r,
      .of_ended ho hintact rfl ht hc⟩
    · obtain rfl := h.sound.distinct b b' r hlookup hb'
      simp only [BindingRuntime.released]
      omega
    · refine counter_runtime_step hrt ?_ ?_ ?_ k
      · simp only [BindingRuntime.released, Forward.usage, hacq, hr, and_self, if_true,
          Bool.false_eq_true, false_and, if_false]
        omega
      · simp [BindingRuntime.released, Forward.usage]
      · intro k hne _
        cases k with
        | active r' =>
          have hr' : r ≠ r' := fun he => hne (he ▸ rfl)
          simp [Forward.usage, hr, hr']
        | waiting r' => rfl
        | inflight c => rfl
        | queued c => rfl
        | buffered c => rfl

/-- A request that holds a capacity can release it. -/
theorem canRelease_of_usage (h : At settings configured forwards i p f)
    (hcap : p.capacities[c]? = some cap) (hone : 1 ≤ f.usage (.inflight c))
    (hbytes : f.reservedRequestBytes ≤ f.usage (.buffered c)) :
    cap.canRelease f.reservedRequestBytes = true := by
  have hinflight := h.balanced.usage_le (k := .inflight c) h.mem
  have hbuffered := h.balanced.usage_le (k := .buffered c) h.mem
  rw [counter_inflight hcap] at hinflight
  rw [counter_buffered hcap] at hbuffered
  simp only [BrokerCapacity.canRelease, Bool.not_eq_true', Bool.or_eq_false_iff,
    decide_eq_false_iff_not]
  omega

theorem finishTenant_settles {o : Except ForwardError ℕ} (h : At settings configured forwards i p f)
    (hu : Uses p f) (ho : f.suspension = .ended o)
    (hintact : ∀ message, o ≠ .error (.runtimeError message)) (hc : f.capacityAcquired = false) :
    Settles settings configured forwards i (finishTenant p f) := by
  cases hacq : f.tenantCapacityAcquired with
  | false =>
    have hf : finishTenant p f = finishRuntime p f := by simp [finishTenant, hacq]
    rw [hf]
    exact finishRuntime_settles h hu ho hintact hacq hc
  | true =>
    obtain ⟨t, c, ht, hcap', hlookup⟩ := hu.tenant (.inr (.inr hacq))
    obtain ⟨hne, hlt⟩ := h.sound.tenant t c hlookup
    obtain ⟨cap, hcap⟩ : ∃ cap, p.capacities[c]? = some cap := ⟨_, List.getElem?_eq_getElem hlt⟩
    have hinflight : f.usage (.inflight c) = 1 := by simp [Forward.usage, hacq, hcap', hc]
    have hbuffered : f.usage (.buffered c) = f.reservedRequestBytes := by
      simp [Forward.usage, hacq, hcap', hc]
    have hcan := canRelease_of_usage h hcap hinflight.ge hbuffered.ge
    have hf : finishTenant p f = finishRuntime
        ((p.modifyCapacity c (·.released f.reservedRequestBytes)).discardCapacity t c)
        { f with tenantCapacityAcquired := false } := by
      simp [finishTenant, hacq, hcap', ht, hcap, hcan]
    simp only [BrokerCapacity.canRelease, Bool.not_eq_true', Bool.or_eq_false_iff,
      decide_eq_false_iff_not] at hcan
    have hb := h.sound.bounded c cap hcap
    rw [hf]
    refine finishRuntime_settles ((h.modifyCapacity hcap rfl rfl ?_ fun k => ?_).discardCapacity t c)
      ?_ ho hintact rfl hc
    · simp only [BrokerCapacity.released]
      omega
    · refine counter_capacity_step hcap ?_ ?_ ?_ ?_ k
      · rw [hinflight]
        simp only [BrokerCapacity.released, Forward.usage, hc, Bool.false_eq_true, false_and, if_false]
        omega
      · simp [BrokerCapacity.released, Forward.usage, ho]
      · rw [hbuffered]
        simp only [BrokerCapacity.released, Forward.usage, hc, Bool.false_eq_true, false_and, if_false]
        omega
      · intro k hne _ hne'
        cases k with
        | active r => rfl
        | waiting r => rfl
        | inflight c' =>
          have hc' : c ≠ c' := fun he => hne (he ▸ rfl)
          simp [Forward.usage, hcap', hc']
        | queued c' => rfl
        | buffered c' =>
          have hc' : c ≠ c' := fun he => hne' (he ▸ rfl)
          simp [Forward.usage, hcap', hc']
    · refine ⟨fun huse => ?_, by simp [ho]⟩
      rw [discardCapacity_bindingRuntimes]
      exact hu.slot huse

theorem finishCapacity_settles {o : Except ForwardError ℕ} (h : At settings configured forwards i p f)
    (hu : Uses p f) (ho : f.suspension = .ended o)
    (hintact : ∀ message, o ≠ .error (.runtimeError message)) :
    Settles settings configured forwards i (finishCapacity p f) := by
  unfold finishCapacity
  cases hacq : f.capacityAcquired with
  | false => exact finishTenant_settles h hu ho hintact hacq
  | true =>
    obtain ⟨cap, hcap⟩ : ∃ cap, p.capacities[brokerCapacity]? = some cap :=
      ⟨_, List.getElem?_eq_getElem h.sound.nonempty⟩
    have hinflight : 1 ≤ f.usage (.inflight brokerCapacity) := by simp [Forward.usage, hacq]
    have hbuffered : f.reservedRequestBytes ≤ f.usage (.buffered brokerCapacity) := by
      simp [Forward.usage, hacq]
    have hcan := canRelease_of_usage h hcap hinflight hbuffered
    simp only [if_true, hcap, Option.any_some, hcan]
    simp only [BrokerCapacity.canRelease, Bool.not_eq_true', Bool.or_eq_false_iff,
      decide_eq_false_iff_not] at hcan
    have hb := h.sound.bounded brokerCapacity cap hcap
    refine finishTenant_settles (h.modifyCapacity hcap rfl rfl ?_ fun k => ?_) ?_ ho hintact rfl
    · simp only [BrokerCapacity.released]
      omega
    · refine counter_capacity_step hcap ?_ ?_ ?_ ?_ k
      · simp only [BrokerCapacity.released, Forward.usage, hacq, and_self, if_true,
          Bool.false_eq_true, false_and, if_false]
        omega
      · simp [BrokerCapacity.released, Forward.usage]
      · simp only [BrokerCapacity.released, Forward.usage, hacq, and_self, if_true,
          Bool.false_eq_true, false_and, if_false]
        omega
      · intro k hne _ hne'
        cases k with
        | active r => rfl
        | waiting r => rfl
        | inflight c' =>
          have hc' : c' ≠ brokerCapacity := fun he => hne (he ▸ rfl)
          simp [Forward.usage, hc']
        | queued c' => rfl
        | buffered c' =>
          have hc' : c' ≠ brokerCapacity := fun he => hne' (he ▸ rfl)
          simp [Forward.usage, hc']
    · exact ⟨hu.slot, hu.tenant⟩

/-- A request stops waiting for a capacity. -/
theorem leaveCapacity_at {o : Except ForwardError ℕ} (h : At settings configured forwards i p f)
    (hcap : p.capacities[c]? = some cap) (hone : f.usage (.queued c) = 1)
    (hother : ∀ c', c' ≠ c → f.usage (.queued c') = 0)
    (hruntime : ∀ r, f.usage (.waiting r) = 0) :
    At settings configured forwards i (p.modifyCapacity c (·.left))
      { f with suspension := .ended o } := by
  have hle := h.balanced.usage_le (k := .queued c) h.mem
  rw [hone, counter_queued hcap] at hle
  refine h.modifyCapacity hcap rfl rfl (h.sound.bounded c cap hcap)
    (counter_capacity_step hcap rfl ?_ rfl ?_)
  · rw [hone]
    simp only [BrokerCapacity.left, Forward.usage, reduceCtorEq, false_and, if_false]
    omega
  · intro k _ hne _
    cases k with
    | queued c' =>
      rw [hother c' fun he => hne (he ▸ rfl)]
      simp [Forward.usage]
    | waiting r =>
      rw [hruntime r]
      simp [Forward.usage]
    | active r => rfl
    | inflight c' => rfl
    | buffered c' => rfl

theorem leaveQueue_uses (hu : Uses p f) (o : Except ForwardError ℕ) :
    Uses (leaveQueue p f) { f with suspension := .ended o } := by
  have hdicts : (leaveQueue p f).bindingRuntimes = p.bindingRuntimes ∧
      (leaveQueue p f).tenantCapacities = p.tenantCapacities := by
    unfold leaveQueue
    split
    · split <;> exact ⟨rfl, rfl⟩
    · split <;> exact ⟨rfl, rfl⟩
    · exact ⟨rfl, rfl⟩
    · exact ⟨rfl, rfl⟩
  refine ⟨fun huse => ?_, fun huse => ?_⟩
  · rw [hdicts.1]
    exact hu.slot (.inl (by simpa using huse))
  · rw [hdicts.2]
    exact hu.tenant (.inr (.inr (by simpa using huse)))

/-- A request that waits and raises has left its queue. -/
theorem leaveQueue_at (h : At settings configured forwards i p f) (hu : Uses p f)
    (o : Except ForwardError ℕ) :
    At settings configured forwards i (leaveQueue p f) { f with suspension := .ended o } := by
  -- outside of the queues no counter depends on where the request is suspended
  have hframe (hk : ∀ k, f.usage k = { f with suspension := .ended o }.usage k) :
      At settings configured forwards i p { f with suspension := .ended o } :=
    ⟨h.place, h.balance fun k => by rw [hk k], h.sound, h.others⟩
  cases hs : f.suspension with
  | runtimeQueue =>
    obtain ⟨b, r, -, hr, hlookup⟩ := hu.slot (.inr hs)
    obtain ⟨rt, hrt, -, hle⟩ := h.sound.runtime b r hlookup
    have hone : 1 ≤ rt.waitingRequests := by
      have := h.balanced.usage_le (k := .waiting r) h.mem
      simpa [Forward.usage, hs, hr, counter_waiting hrt] using this
    have hq : leaveQueue p f = p.modifyRuntime r (·.left) := by simp [leaveQueue, hs, hr]
    rw [hq]
    refine h.modifyRuntime hrt rfl (fun b' hb' => ?_) (counter_runtime_step hrt ?_ ?_ ?_)
    · obtain rfl := h.sound.distinct b b' r hlookup hb'
      exact hle
    · simp [BindingRuntime.left, Forward.usage]
    · simp only [BindingRuntime.left, Forward.usage, hs, hr, and_self, if_true, reduceCtorEq,
        false_and, if_false]
      omega
    · intro k _ hne
      cases k with
      | waiting r' =>
        have hr' : r ≠ r' := fun he => hne (he ▸ rfl)
        simp [Forward.usage, hr, hr']
      | queued c => simp [Forward.usage, hs]
      | active r' => rfl
      | inflight c => rfl
      | buffered c => rfl
  | tenantQueue =>
    obtain ⟨t, c, -, hc, hlookup⟩ := hu.tenant (.inr (.inl hs))
    obtain ⟨cap, hcap⟩ : ∃ cap, p.capacities[c]? = some cap :=
      ⟨_, List.getElem?_eq_getElem (h.sound.tenant t c hlookup).2⟩
    have hq : leaveQueue p f = p.modifyCapacity c (·.left) := by simp [leaveQueue, hs, hc]
    rw [hq]
    exact leaveCapacity_at h hcap (by simp [Forward.usage, hs, hc])
      (fun c' hc' => by simp [Forward.usage, hs, hc, Ne.symm hc']) (by simp [Forward.usage, hs])
  | brokerQueue =>
    obtain ⟨cap, hcap⟩ : ∃ cap, p.capacities[brokerCapacity]? = some cap :=
      ⟨_, List.getElem?_eq_getElem h.sound.nonempty⟩
    have hq : leaveQueue p f = p.modifyCapacity brokerCapacity (·.left) := by simp [leaveQueue, hs]
    rw [hq]
    exact leaveCapacity_at h hcap (by simp [Forward.usage, hs])
      (fun c' hc' => by simp [Forward.usage, hs, hc']) (by simp [Forward.usage, hs])
  | running =>
    have hq : leaveQueue p f = p := by simp [leaveQueue, hs]
    rw [hq]
    exact hframe fun k => by cases k <;> simp [Forward.usage, hs]
  | bodyRead =>
    have hq : leaveQueue p f = p := by simp [leaveQueue, hs]
    rw [hq]
    exact hframe fun k => by cases k <;> simp [Forward.usage, hs]
  | upstream =>
    have hq : leaveQueue p f = p := by simp [leaveQueue, hs]
    rw [hq]
    exact hframe fun k => by cases k <;> simp [Forward.usage, hs]
  | ended o' =>
    have hq : leaveQueue p f = p := by simp [leaveQueue, hs]
    rw [hq]
    exact hframe fun k => by cases k <;> simp [Forward.usage, hs]

/-- Wherever a request returns or raises, it gives back what it holds. -/
theorem finish_settles (h : At settings configured forwards i p f) (hu : Uses p f)
    {o : Except ForwardError ℕ} (hintact : ∀ message, o ≠ .error (.runtimeError message)) :
    Settles settings configured forwards i (finish p f o) :=
  finishCapacity_settles (leaveQueue_at h hu o) (leaveQueue_uses hu o) rfl hintact

/-- A request comes to wait for a capacity. -/
theorem joinCapacity_at {q : Suspension} (h : At settings configured forwards i p f)
    (hcap : p.capacities[c]? = some cap) (hs : f.suspension = .running)
    (hone : { f with suspension := q }.usage (.queued c) = 1)
    (hother : ∀ c', c' ≠ c → { f with suspension := q }.usage (.queued c') = 0)
    (hruntime : ∀ r, { f with suspension := q }.usage (.waiting r) = 0) :
    At settings configured forwards i (p.modifyCapacity c (·.joined))
      { f with suspension := q } := by
  refine h.modifyCapacity hcap rfl rfl (h.sound.bounded c cap hcap)
    (counter_capacity_step hcap rfl ?_ rfl ?_)
  · rw [hone]
    simp [BrokerCapacity.joined, Forward.usage, hs]
  · intro k _ hne _
    cases k with
    | queued c' =>
      rw [hother c' fun he => hne (he ▸ rfl)]
      simp [Forward.usage, hs]
    | waiting r =>
      rw [hruntime r]
      simp [Forward.usage, hs]
    | active r => rfl
    | inflight c' => rfl
    | buffered c' => rfl

theorem awaitBroker_settles (h : At settings configured forwards i p f) (hg : Good p f)
    (hs : f.suspension = .brokerQueue) : Settles settings configured forwards i (awaitBroker p f) := by
  have hacq := hg.brokerQueue (.inr (.inr hs))
  obtain ⟨cap, hcap⟩ : ∃ cap, p.capacities[brokerCapacity]? = some cap :=
    ⟨_, List.getElem?_eq_getElem h.sound.nonempty⟩
  unfold awaitBroker
  split
  · rename_i hroom
    simp only [hcap, Option.any_some, BrokerCapacity.hasRoom, Bool.and_eq_true,
      decide_eq_true_eq] at hroom
    have hone : 1 ≤ cap.waitingRequests := by
      have := h.balanced.usage_le (k := .queued brokerCapacity) h.mem
      simpa [Forward.usage, hs, counter_queued hcap] using this
    refine ⟨h.modifyCapacity hcap rfl rfl ?_ (counter_capacity_step hcap ?_ ?_ ?_ ?_), ?_⟩
    · simp only [BrokerCapacity.acquired]
      omega
    · simp only [BrokerCapacity.acquired, Forward.usage, hacq, and_self, if_true,
        Bool.false_eq_true, false_and, if_false]
      omega
    · simp only [BrokerCapacity.acquired, Forward.usage, hs, and_self, if_true, reduceCtorEq,
        false_and, if_false]
      omega
    · simp only [BrokerCapacity.acquired, Forward.usage, hacq, and_self, if_true,
        Bool.false_eq_true, false_and, if_false]
      omega
    · intro k hne hne' hne''
      cases k with
      | active r => rfl
      | waiting r => simp [Forward.usage, hs]
      | inflight c' =>
        have hc' : c' ≠ brokerCapacity := fun he => hne (he ▸ rfl)
        simp [Forward.usage, hc']
      | queued c' =>
        have hc' : c' ≠ brokerCapacity := fun he => hne' (he ▸ rfl)
        simp [Forward.usage, hs, hc']
      | buffered c' =>
        have hc' : c' ≠ brokerCapacity := fun he => hne'' (he ▸ rfl)
        simp [Forward.usage, hc']
    · exact
        { slot := fun huse => hg.slot (by simpa [hs] using huse)
          tenant := fun huse => hg.tenant (by simpa [hs] using huse)
          registered := by simp
          runtimeQueue := by simp
          tenantQueue := by simp
          brokerQueue := by simp
          released := by simp
          intact := by simp }
  · exact ⟨h, hg⟩

theorem enterBroker_settles (h : At settings configured forwards i p f) (hu : Uses p f)
    (hs : f.suspension = .running) (hacq : f.capacityAcquired = false) :
    Settles settings configured forwards i (enterBroker p f) := by
  unfold enterBroker
  split
  · rename_i error herror
    refine finish_settles h hu fun message he => ?_
    obtain rfl := Except.error.inj he
    simp [exceedsCapacity, Option.bind_eq_some_iff] at herror
  · obtain ⟨cap, hcap⟩ : ∃ cap, p.capacities[brokerCapacity]? = some cap :=
      ⟨_, List.getElem?_eq_getElem h.sound.nonempty⟩
    refine awaitBroker_settles (joinCapacity_at h hcap hs (by simp [Forward.usage])
      (fun c' hc' => by simp [Forward.usage, hc']) (by simp [Forward.usage])) ?_ rfl
    exact
      { slot := fun huse => hu.slot (by simpa [hs] using huse)
        tenant := fun huse => hu.tenant (by simpa [hs] using huse)
        registered := by simp
        runtimeQueue := by simp
        tenantQueue := by simp
        brokerQueue := fun _ => hacq
        released := by simp
        intact := by simp }

theorem awaitTenant_settles (h : At settings configured forwards i p f) (hg : Good p f)
    (hs : f.suspension = .tenantQueue) (hcapacity : f.tenantCapacity = some c) :
    Settles settings configured forwards i (awaitTenant p f c) := by
  have hacq := hg.tenantQueue (.inr hs)
  have hbroker := hg.brokerQueue (.inr (.inl hs))
  obtain ⟨t, c', ht, hc', hlookup⟩ := hg.tenant (.inr (.inl hs))
  obtain rfl := Option.some.inj (hcapacity.symm.trans hc')
  obtain ⟨hne0, hlt⟩ := h.sound.tenant t c hlookup
  obtain ⟨cap, hcap⟩ : ∃ cap, p.capacities[c]? = some cap := ⟨_, List.getElem?_eq_getElem hlt⟩
  unfold awaitTenant
  split
  · rename_i hroom
    simp only [hcap, Option.any_some, BrokerCapacity.hasRoom, Bool.and_eq_true,
      decide_eq_true_eq] at hroom
    have hone : 1 ≤ cap.waitingRequests := by
      have := h.balanced.usage_le (k := .queued c) h.mem
      simpa [Forward.usage, hs, hcapacity, counter_queued hcap] using this
    refine enterBroker_settles (h.modifyCapacity hcap rfl rfl ?_
      (counter_capacity_step hcap ?_ ?_ ?_ ?_)) ?_ rfl hbroker
    · simp only [BrokerCapacity.acquired]
      omega
    · simp [BrokerCapacity.acquired, Forward.usage, hacq, hbroker, hcapacity]
    · simp only [BrokerCapacity.acquired, Forward.usage, hs, hcapacity, and_self, if_true,
        reduceCtorEq, false_and, if_false]
      omega
    · simp [BrokerCapacity.acquired, Forward.usage, hacq, hbroker, hcapacity]
    · intro k hne hne' hne''
      cases k with
      | active r => rfl
      | waiting r => simp [Forward.usage, hs]
      | inflight c' =>
        have hc' : c ≠ c' := fun he => hne (he ▸ rfl)
        simp [Forward.usage, hcapacity, hc']
      | queued c' =>
        have hc' : c ≠ c' := fun he => hne' (he ▸ rfl)
        simp [Forward.usage, hs, hcapacity, hc']
      | buffered c' =>
        have hc' : c ≠ c' := fun he => hne'' (he ▸ rfl)
        simp [Forward.usage, hcapacity, hc']
    · exact ⟨fun huse => hg.slot (by simpa [hs] using huse), fun _ => ⟨t, c, ht, hcapacity, hlookup⟩⟩
  · exact ⟨h, hg⟩

theorem enterTenant_settles {t : String} (h : At settings configured forwards i p f) (hu : Uses p f)
    (hs : f.suspension = .running) (hacq : f.tenantCapacityAcquired = false)
    (hbroker : f.capacityAcquired = false) (ht : f.tenantKey = some t)
    (hcapacity : f.tenantCapacity = some c) (hlookup : p.tenantCapacities.lookup t = some c) :
    Settles settings configured forwards i (enterTenant p f c) := by
  unfold enterTenant
  split
  · rename_i error herror
    refine finish_settles h hu fun message he => ?_
    obtain rfl := Except.error.inj he
    simp [exceedsCapacity, Option.bind_eq_some_iff] at herror
  · obtain ⟨cap, hcap⟩ : ∃ cap, p.capacities[c]? = some cap :=
      ⟨_, List.getElem?_eq_getElem (h.sound.tenant t c hlookup).2⟩
    refine awaitTenant_settles (joinCapacity_at h hcap hs (by simp [Forward.usage, hcapacity])
      (fun c' hc' => by simp [Forward.usage, hcapacity, Ne.symm hc']) (by simp [Forward.usage])) ?_ rfl
      hcapacity
    exact
      { slot := fun huse => hu.slot (by simpa [hs] using huse)
        tenant := fun _ => ⟨t, c, ht, hcapacity, hlookup⟩
        registered := by simp
        runtimeQueue := by simp
        tenantQueue := fun _ => hacq
        brokerQueue := fun _ => hbroker
        released := by simp
        intact := by simp }

theorem awaitRuntime_settles (h : At settings configured forwards i p f) (hg : Good p f)
    (hs : f.suspension = .runtimeQueue) (hruntime : f.runtime = some r)
    (hcapacity : f.tenantCapacity = some c) :
    Settles settings configured forwards i (awaitRuntime p f r c) := by
  obtain ⟨b, r', hb, hr', hlookup⟩ := hg.slot (.inr hs)
  obtain rfl := Option.some.inj (hruntime.symm.trans hr')
  obtain ⟨t, c', ht, hc', hlookup'⟩ := hg.tenant (.inl hs)
  obtain rfl := Option.some.inj (hcapacity.symm.trans hc')
  obtain ⟨rt, hrt, hmax, -⟩ := h.sound.runtime b r hlookup
  have hacq := hg.runtimeQueue hs
  have htenant := hg.tenantQueue (.inl hs)
  have hbroker := hg.brokerQueue (.inl hs)
  unfold awaitRuntime
  split
  · rename_i hroom
    simp only [hrt, Option.any_some, BindingRuntime.hasRoom, decide_eq_true_eq] at hroom
    have hone : 1 ≤ rt.waitingRequests := by
      have := h.balanced.usage_le (k := .waiting r) h.mem
      simpa [Forward.usage, hs, hruntime, counter_waiting hrt] using this
    refine enterTenant_settles (h.modifyRuntime hrt rfl (fun b' hb' => ?_)
      (counter_runtime_step hrt ?_ ?_ ?_)) ?_ rfl htenant hbroker ht hcapacity hlookup'
    · obtain rfl := h.sound.distinct b b' r hlookup hb'
      simp only [BindingRuntime.acquired]
      omega
    · simp [BindingRuntime.acquired, Forward.usage, hacq, hruntime]
    · simp only [BindingRuntime.acquired, Forward.usage, hs, hruntime, and_self, if_true,
        reduceCtorEq, false_and, if_false]
      omega
    · intro k hne hne'
      cases k with
      | active r' =>
        have hr' : r ≠ r' := fun he => hne (he ▸ rfl)
        simp [Forward.usage, hruntime, hr']
      | waiting r' =>
        have hr' : r ≠ r' := fun he => hne' (he ▸ rfl)
        simp [Forward.usage, hs, hruntime, hr']
      | inflight c => simp [Forward.usage, htenant, hbroker]
      | queued c => simp [Forward.usage, hs]
      | buffered c => simp [Forward.usage, htenant, hbroker]
    · exact ⟨fun _ => ⟨b, r, hb, hruntime, hlookup⟩, fun _ => ⟨t, c, ht, hcapacity, hlookup'⟩⟩
  · exact ⟨h, hg⟩

/-- A request that has looked up the limiters of its binding and of its tenant. -/
structure LookedUp (p : BrokerProcess) (f : Forward) (r c : ℕ) : Prop where
  running : f.suspension = .running
  holdsNothing : f.runtimeAcquired = false ∧ f.tenantCapacityAcquired = false ∧
    f.capacityAcquired = false
  slot : ∃ b, f.bindingId = some b ∧ f.runtime = some r ∧ p.bindingRuntimes.lookup b = some r
  tenant : ∃ t, f.tenantKey = some t ∧ f.tenantCapacity = some c ∧
    p.tenantCapacities.lookup t = some c ∧ (p.broker.registry.byTenant.lookup t).isSome = true

theorem Uses.of_running (hs : f.suspension = .running) (hr : f.runtimeAcquired = false)
    (ht : f.tenantCapacityAcquired = false) : Uses p f :=
  ⟨by simp [hs, hr], by simp [hs, ht]⟩

theorem enterRuntime_settles (h : At settings configured forwards i p f) (hl : LookedUp p f r c) :
    Settles settings configured forwards i (enterRuntime p f r c) := by
  obtain ⟨hs, ⟨hacq, htenant, hbroker⟩, ⟨b, hb, hr, hlookup⟩, t, ht, hc, hlookup', hreg⟩ := hl
  obtain ⟨rt, hrt, -, hle⟩ := h.sound.runtime b r hlookup
  refine awaitRuntime_settles (h.modifyRuntime hrt rfl (fun b' hb' => ?_)
    (counter_runtime_step hrt rfl ?_ ?_)) ?_ rfl hr hc
  · obtain rfl := h.sound.distinct b b' r hlookup hb'
    exact hle
  · simp [BindingRuntime.joined, Forward.usage, hs, hr]
  · intro k _ hne
    cases k with
    | waiting r' =>
      have hr' : r ≠ r' := fun he => hne (he ▸ rfl)
      simp [Forward.usage, hr, hr']
    | queued c => simp [Forward.usage, hs]
    | active r' => rfl
    | inflight c => rfl
    | buffered c => rfl
  · exact
      { slot := fun _ => ⟨b, r, hb, hr, hlookup⟩
        tenant := fun _ => ⟨t, c, ht, hc, hlookup'⟩
        registered := fun _ t' ht' => by
          obtain rfl := Option.some.inj (ht.symm.trans ht')
          exact hreg
        runtimeQueue := fun _ => hacq
        tenantQueue := fun _ => htenant
        brokerQueue := fun _ => hbroker
        released := by simp
        intact := by simp }

/-- A binding gets one runtime, and no other binding has it. -/
theorem runtimeOf_at {b : String} {limit : Int} (h : At settings configured forwards i p f)
    (hlimit : limit ≤ largestLimit configured b) :
    At settings configured forwards i (runtimeOf p b limit).1 f ∧
      (runtimeOf p b limit).1.bindingRuntimes.lookup b = some (runtimeOf p b limit).2 ∧
      (runtimeOf p b limit).1.broker = p.broker := by
  unfold runtimeOf
  split
  · rename_i r hr
    exact ⟨h, hr, rfl⟩
  · rename_i hnone
    refine ⟨⟨h.place, ?_, ?_, fun j g hj hg => ?_⟩, AList.lookup_insert _, rfl⟩
    · have hcounter : ∀ k, BrokerProcess.counter { p with
          bindingRuntimes := p.bindingRuntimes.insert b p.runtimes.length
          runtimes := p.runtimes ++ [⟨limit, 0, 0, {}⟩] } k = p.counter k := by
        intro k
        cases k with
        | active r => exact getD_concat_zero rfl
        | waiting r => exact getD_concat_zero rfl
        | inflight c => rfl
        | queued c => rfl
        | buffered c => rfl
      exact fun k => (hcounter k).trans (h.balanced k)
    · have hold : ∀ b' r, p.bindingRuntimes.lookup b' = some r → r < p.runtimes.length := by
        intro b' r hb'
        obtain ⟨rt, hrt, -⟩ := h.sound.runtime b' r hb'
        exact (List.getElem?_eq_some_iff.mp hrt).1
      refine { h.sound with
        runtime := fun b' r hb' => ?_
        distinct := fun b' b'' r hb' hb'' => ?_ }
      · by_cases he : b' = b
        · subst he
          obtain rfl := Option.some.inj ((AList.lookup_insert _).symm.trans hb')
          exact ⟨_, List.getElem?_concat_length, hlimit, largestLimit_nonneg ..⟩
        · rw [AList.lookup_insert_ne he] at hb'
          obtain ⟨rt, hrt, hrest⟩ := h.sound.runtime b' r hb'
          exact ⟨rt, by rw [List.getElem?_append_left (hold b' r hb')]; exact hrt, hrest⟩
      · by_cases he : b' = b
        · by_cases he' : b'' = b
          · exact he.trans he'.symm
          · subst he
            obtain rfl := Option.some.inj ((AList.lookup_insert _).symm.trans hb')
            rw [AList.lookup_insert_ne he'] at hb''
            exact absurd (hold b'' _ hb'') (lt_irrefl _)
        · by_cases he' : b'' = b
          · subst he'
            obtain rfl := Option.some.inj ((AList.lookup_insert _).symm.trans hb'')
            rw [AList.lookup_insert_ne he] at hb'
            exact absurd (hold b' _ hb') (lt_irrefl _)
          · rw [AList.lookup_insert_ne he] at hb'
            rw [AList.lookup_insert_ne he'] at hb''
            exact h.sound.distinct b' b'' r hb' hb''
    · have hgood := h.others j g hj hg
      refine { hgood with slot := fun huse => ?_ }
      obtain ⟨b', r, hb', hr, hl⟩ := hgood.slot huse
      refine ⟨b', r, hb', hr, ?_⟩
      have he : b' ≠ b := by
        rintro rfl
        rw [hnone] at hl
        cases hl
      rw [AList.lookup_insert_ne he]
      exact hl

theorem capacityOf_at {t : String} (h : At settings configured forwards i p f) :
    At settings configured forwards i (capacityOf p t).1 f ∧
      (capacityOf p t).1.tenantCapacities.lookup t = some (capacityOf p t).2 ∧
      (capacityOf p t).1.broker = p.broker ∧
      (capacityOf p t).1.bindingRuntimes = p.bindingRuntimes := by
  unfold capacityOf
  split
  · rename_i c hc
    exact ⟨h, hc, rfl, rfl⟩
  · rename_i hnone
    refine ⟨⟨h.place, ?_, ?_, fun j g hj hg => ?_⟩, AList.lookup_insert _, rfl, rfl⟩
    · have hcounter : ∀ k, BrokerProcess.counter { p with
          tenantCapacities := p.tenantCapacities.insert t p.capacities.length
          capacities := p.capacities ++ [⟨p.maxInflightRequestsPerTenant,
            p.broker.maxBufferedRequestBytesPerTenant, 0, 0, 0⟩] } k = p.counter k := by
        intro k
        cases k with
        | active r => rfl
        | waiting r => rfl
        | inflight c => exact getD_concat_zero rfl
        | queued c => exact getD_concat_zero rfl
        | buffered c => exact getD_concat_zero rfl
      exact fun k => (hcounter k).trans (h.balanced k)
    · -- a place in the longer heap is an old one or the new one
      have hcases : ∀ {cs : List BrokerCapacity} {x : BrokerCapacity} {c : ℕ} {cap : BrokerCapacity},
          (cs ++ [x])[c]? = some cap → cs[c]? = some cap ∨ (c = cs.length ∧ cap = x) := by
        intro cs x c cap hc
        rw [List.getElem?_append] at hc
        split at hc
        · exact .inl hc
        · rename_i hlt
          rw [List.getElem?_singleton] at hc
          split at hc
          · exact .inr ⟨by omega, (Option.some.inj hc).symm⟩
          · cases hc
      refine { h.sound with
        nonempty := by simp
        maxima := fun c cap hc => ?_
        bounded := fun c cap hc => ?_
        tenant := fun t' c hc => ?_ }
      · obtain hc | ⟨rfl, rfl⟩ := hcases hc
        · exact h.sound.maxima c cap hc
        · refine .inr ⟨?_, rfl, rfl⟩
          have := h.sound.nonempty
          unfold brokerCapacity
          omega
      · obtain hc | ⟨rfl, rfl⟩ := hcases hc
        · exact h.sound.bounded c cap hc
        · have := h.sound.positive
          simp only
          omega
      · rw [List.length_append, List.length_singleton]
        by_cases he : t' = t
        · subst he
          obtain rfl := Option.some.inj ((AList.lookup_insert _).symm.trans hc)
          have := h.sound.nonempty
          unfold brokerCapacity
          omega
        · rw [AList.lookup_insert_ne he] at hc
          have := h.sound.tenant t' c hc
          omega
    · have hgood := h.others j g hj hg
      refine { hgood with tenant := fun huse => ?_ }
      obtain ⟨t', c, ht', hc, hl⟩ := hgood.tenant huse
      refine ⟨t', c, ht', hc, ?_⟩
      have he : t' ≠ t := by
        rintro rfl
        rw [hnone] at hl
        cases hl
      rw [AList.lookup_insert_ne he]
      exact hl

theorem receive_settles (lib : Library) (h : At settings configured forwards i p f)
    (hs : f.suspension = .running) (hr : f.runtimeAcquired = false)
    (ht : f.tenantCapacityAcquired = false) (hc : f.capacityAcquired = false) :
    Settles settings configured forwards i (receive p f lib) := by
  unfold receive
  split
  · exact finish_settles h (.of_running hs hr ht) (by simp)
  · split
    · exact finish_settles h (.of_running hs hr ht) (by simp)
    · rename_i tenantKey b upstream hresolve
      obtain ⟨tr, htr, hb⟩ := (resolveBinding_authorized hresolve).binding
      have hlimit := le_largestLimit h.sound.registry (mem_registryBindings htr hb)
      obtain ⟨h1, hlookup, hbroker⟩ := runtimeOf_at h hlimit
      obtain ⟨h2, hlookup', hbroker', hsame⟩ := capacityOf_at (t := tenantKey) h1
      have hidle : ∀ k, f.usage k = 0 := by
        intro k
        cases k <;> simp [Forward.usage, hs, hr, ht, hc]
      have h3 : At settings configured forwards i
          (capacityOf (runtimeOf p b.bindingId b.limits.maxConcurrentRequests).1 tenantKey).1
          { f with
            tenantKey := some tenantKey
            bindingId := some b.bindingId
            maxRequestBytes := b.limits.maxRequestBytes
            runtime := some (runtimeOf p b.bindingId b.limits.maxConcurrentRequests).2
            tenantCapacity := some (capacityOf
              (runtimeOf p b.bindingId b.limits.maxConcurrentRequests).1 tenantKey).2 } := by
        refine ⟨h2.place, h2.balance fun k => ?_, h2.sound, h2.others⟩
        rw [hidle k]
        cases k <;> simp [Forward.usage, hs, hr, ht, hc]
      dsimp only
      split
      · exact finish_settles h3 (.of_running hs hr ht) (by simp)
      · refine enterRuntime_settles h3 ⟨hs, ⟨hr, ht, hc⟩, ⟨b.bindingId, rfl, rfl, ?_⟩, tenantKey, rfl,
          rfl, hlookup', ?_⟩
        · rw [hsame]
          exact hlookup
        · rw [hbroker', hbroker, htr]
          rfl

end Requests

end Soveren.Broker
