import Soveren.Broker.Limits

/-! Every run of the broker stays within its limits, if no update removes a tenant while one of its
requests waits for its binding's slot. -/
namespace Soveren.Broker
open Soveren.Run Soveren.Accounting

section Steps

variable {settings : Settings} {configured : List BindingRegistry} {forwards : List Forward} {i : ℕ}
  {p : BrokerProcess} {f : Forward}

theorem wake_settles (h : At settings configured forwards i p f) (hg : Good p f) :
    Settles settings configured forwards i (wake p f) := by
  unfold wake
  split
  · rename_i r c hs hr hc
    exact awaitRuntime_settles h hg hs hr hc
  · rename_i c hs hc
    exact awaitTenant_settles h hg hs hc
  · rename_i hs
    exact awaitBroker_settles h hg hs
  · exact ⟨h, hg⟩

/-- The rate limiter of a runtime is none of the counters. -/
theorem At.limit_rate (h : At settings configured forwards i p f) {r : ℕ} {rt : BindingRuntime}
    (hrt : p.runtimes[r]? = some rt) (limiter : RateLimiter) :
    At settings configured forwards i
      (p.modifyRuntime r fun rt => { rt with rateLimiter := limiter }) f := by
  refine h.modifyRuntime hrt rfl (fun b hb => ?_) (counter_runtime_step hrt rfl rfl fun _ _ _ => rfl)
  obtain ⟨rt', hrt', -, hle⟩ := h.sound.runtime b r hb
  obtain rfl := Option.some.inj (hrt.symm.trans hrt')
  exact hle

/-- The request is made upstream; what it holds does not change. -/
theorem upstream_settles (h : At settings configured forwards i p f) (hg : Good p f)
    (hs : f.suspension = .bodyRead) :
    Settles settings configured forwards i (p, { f with suspension := .upstream }) := by
  refine ⟨⟨h.place, h.balance fun k => ?_, h.sound, h.others⟩, ?_⟩
  · cases k <;> simp [Forward.usage, hs]
  · exact
      { slot := fun huse => hg.slot (.inl (by simpa using huse))
        tenant := fun huse => hg.tenant (.inr (.inr (by simpa using huse)))
        registered := by simp
        runtimeQueue := by simp
        tenantQueue := by simp
        brokerQueue := by simp
        released := by simp
        intact := by simp }

theorem forwardBody_settles (lib : Library) (body : Body) (now : ℚ) (session : Bool)
    (h : At settings configured forwards i p f) (hg : Good p f) (hs : f.suspension = .bodyRead) :
    Settles settings configured forwards i (forwardBody p f lib body now session) := by
  unfold forwardBody
  split
  · exact finish_settles h hg.toUses (by simp)
  · split
    · exact finish_settles h hg.toUses (by simp)
    · split
      · exact finish_settles h hg.toUses (by simp)
      · split
        · exact finish_settles h hg.toUses (by simp)
        · split
          · exact finish_settles h hg.toUses (by simp)
          · split
            · exact ⟨h, hg⟩
            · rename_i rt hrt
              obtain ⟨r, hr, hrt⟩ := Option.bind_eq_some_iff.mp hrt
              have h' := h.limit_rate hrt
              have hg' : ∀ limiter, Good
                  (p.modifyRuntime r fun rt => { rt with rateLimiter := limiter }) f :=
                fun limiter => hg.congr rfl rfl rfl
              have hget : f.runtime.getD 0 = r := by rw [hr, Option.getD_some]
              rw [hget]
              dsimp only
              split
              · exact finish_settles (h' _) (hg' _).toUses (by simp)
              · split
                · exact finish_settles (h' _) (hg' _).toUses (by simp)
                · exact upstream_settles (h' _) (hg' _) hs

theorem timeout_settles (prepared : Option ℕ) (h : At settings configured forwards i p f)
    (hg : Good p f) : Settles settings configured forwards i (timeout p f prepared) := by
  unfold timeout
  split
  · exact finish_settles h hg.toUses (by simp)
  · exact finish_settles h hg.toUses (by simp)
  · exact finish_settles h hg.toUses (by simp)
  · exact finish_settles h hg.toUses (by simp)
  · split <;> exact finish_settles h hg.toUses (by simp)
  · exact ⟨h, hg⟩
  · exact ⟨h, hg⟩

theorem disconnect_settles (h : At settings configured forwards i p f) (hg : Good p f) :
    Settles settings configured forwards i (disconnect p f) := by
  unfold disconnect
  split <;> exact finish_settles h hg.toUses (by simp)

end Steps

/-- What holds of the broker and its requests between two steps. -/
structure AdmissionInv (settings : Settings) (s : Requests) : Prop where
  balanced : Balanced Forward.usage s.process.counter s.forwards
  sound : Sound settings s.configured s.process
  good : ∀ f ∈ s.forwards, Good s.process f

/-- No update removes a tenant while one of its requests waits for its binding's slot. -/
def KeepsQueuedTenants (s : Requests) : RequestLabel → Prop
  | .update update => update.registry.isNone = true → ∀ f ∈ s.forwards,
    f.suspension = .runtimeQueue → f.tenantKey ≠ some update.tenantKey
  | _ => True

instance (s : Requests) (l : RequestLabel) : Decidable (KeepsQueuedTenants s l) := by
  unfold KeepsQueuedTenants
  split <;> infer_instance

section Updates

variable {settings : Settings} {s : Requests} {p' : BrokerProcess} {update : RegistryUpdate}

theorem lookup_filter {α : Type} {d : Dict α} {q : String → α → Bool} {k : String} {v : α} :
    (Dict.filter d q).lookup k = some v ↔ d.lookup k = some v ∧ q k v = true := by
  rw [← Option.mem_def, ← Option.mem_def, AList.mem_lookup_iff, AList.mem_lookup_iff]
  simp [Dict.filter]

/-- Configuring changes the limits only. -/
theorem configureRuntimes_get (bindings : List BrokerBinding) (entries : List (Σ _ : String, ℕ))
    (runtimes : List BindingRuntime) (r : ℕ) :
    ((configureRuntimes bindings runtimes entries)[r]?.map fun rt =>
        (rt.activeRequests, rt.waitingRequests)) =
      runtimes[r]?.map fun rt => (rt.activeRequests, rt.waitingRequests) := by
  induction entries generalizing runtimes with
  | nil => rfl
  | cons e entries ih =>
    rw [configureRuntimes, List.foldl_cons]
    refine (ih _).trans ?_
    split
    · rw [List.getElem?_modify]
      cases runtimes[r]? with
      | none => rfl
      | some rt =>
        by_cases he : e.2 = r
        · simp [he]
        · simp [he]
    · rfl

/-- A runtime that a binding names gets a limit of the new registry or keeps its own. -/
theorem configureRuntimes_limit {bindings : List BrokerBinding} {d : Dict ℕ} (limit : String → Int)
    (hnew : ∀ b ∈ bindings, b.limits.maxConcurrentRequests ≤ limit b.bindingId)
    (hdistinct : ∀ b b' r, d.lookup b = some r → d.lookup b' = some r → b = b')
    (entries : List (Σ _ : String, ℕ)) (hentries : ∀ e ∈ entries, d.lookup e.1 = some e.2)
    (runtimes : List BindingRuntime)
    (hold : ∀ b r rt, d.lookup b = some r → runtimes[r]? = some rt → rt.maxConcurrentRequests ≤ limit b) :
    ∀ b r rt, d.lookup b = some r → (configureRuntimes bindings runtimes entries)[r]? = some rt →
      rt.maxConcurrentRequests ≤ limit b := by
  induction entries generalizing runtimes with
  | nil => exact hold
  | cons e entries ih =>
    rw [configureRuntimes, List.foldl_cons]
    refine ih (fun e' he' => hentries e' (List.mem_cons_of_mem e he')) _ fun b r rt hb hrt => ?_
    have he := hentries e List.mem_cons_self
    split at hrt
    · rename_i found hfound
      rw [List.getElem?_modify, Option.map_eq_map, Option.map_eq_some_iff] at hrt
      obtain ⟨rt0, hrt0, rfl⟩ := hrt
      by_cases her : e.2 = r
      · obtain rfl := hdistinct b e.1 r hb (her ▸ he)
        have hid : found.bindingId = e.1 := by simpa using List.find?_some hfound
        simp only [her, if_true]
        exact hid ▸ hnew found (List.mem_of_find?_eq_some hfound)
      · simp only [her, if_false]
        exact hold b r rt0 hb hrt0
    · exact hold b r rt hb hrt

theorem replace_ok {p p' : BrokerProcess} (h : p.replace update = .ok p') :
    replaceTenantRegistry p.broker update = .ok p'.broker ∧
      p'.runtimes = configureRuntimes (registryBindings p'.broker.registry) p.runtimes
        p.bindingRuntimes.entries ∧
      p'.capacities = p.capacities ∧
      p'.maxInflightRequestsPerTenant = p.maxInflightRequestsPerTenant ∧
      (∀ b r, p'.bindingRuntimes.lookup b = some r ↔ p.bindingRuntimes.lookup b = some r ∧
        (registryContains p'.broker.registry b || !p'.isRuntimeIdle r) = true) ∧
      ∀ t c, p'.tenantCapacities.lookup t = some c ↔ p.tenantCapacities.lookup t = some c ∧
        ((p'.broker.registry.byTenant.lookup t).isSome || !p'.isCapacityIdle c) = true := by
  obtain ⟨broker, hbroker, h⟩ := bind_eq_ok h
  obtain rfl := Except.ok.inj h
  exact ⟨hbroker, rfl, rfl, rfl, fun b r => lookup_filter, fun t c => lookup_filter⟩

/-- The bounds on bytes are not changed by an update. -/
theorem replaceTenantRegistry_bounds {b b' : CredentialBroker}
    (h : replaceTenantRegistry b update = .ok b') :
    b'.maxBufferedRequestBytesPerTenant = b.maxBufferedRequestBytesPerTenant := by
  obtain ⟨g, -, h⟩ := bind_eq_ok h
  obtain ⟨_, -, h⟩ := bind_eq_ok h
  obtain rfl := Except.ok.inj h
  rfl

theorem replace_counter {p p' : BrokerProcess} (h : p.replace update = .ok p') (k : Counter) :
    p'.counter k = p.counter k := by
  obtain ⟨-, hruntimes, hcapacities, -⟩ := replace_ok h
  have hget := fun r => configureRuntimes_get (registryBindings p'.broker.registry)
    p.bindingRuntimes.entries p.runtimes r
  cases k with
  | active r =>
    have := congrArg (fun o => (o.map Prod.fst).getD 0) (hget r)
    simpa [BrokerProcess.counter, hruntimes, Function.comp_def] using this
  | waiting r =>
    have := congrArg (fun o => (o.map Prod.snd).getD 0) (hget r)
    simpa [BrokerProcess.counter, hruntimes, Function.comp_def] using this
  | inflight c => simp only [BrokerProcess.counter, hcapacities]
  | queued c => simp only [BrokerProcess.counter, hcapacities]
  | buffered c => simp only [BrokerProcess.counter, hcapacities]

theorem replace_sound (hs : Sound settings s.configured s.process)
    (h : s.process.replace update = .ok p') :
    Sound settings (s.configured ++ [p'.broker.registry]) p' := by
  obtain ⟨hbroker, hruntimes, hcapacities, hinflight, hkept, htenants⟩ := replace_ok h
  have hbytes := replaceTenantRegistry_bounds hbroker
  have hmono := largestLimit_mono s.configured [p'.broker.registry]
  have hlimit := configureRuntimes_limit (largestLimit (s.configured ++ [p'.broker.registry]))
    (fun b hb => le_largestLimit (List.mem_append_right _ List.mem_cons_self) hb) hs.distinct
    s.process.bindingRuntimes.entries (fun e he => AList.mem_lookup_iff.mpr he) s.process.runtimes
    (fun b r rt hb hrt => by
      obtain ⟨rt', hrt', hle, -⟩ := hs.runtime b r hb
      obtain rfl := Option.some.inj (hrt.symm.trans hrt')
      exact hle.trans (hmono b))
  refine
    { registry := List.mem_append_right _ List.mem_cons_self
      runtime := fun b r hb => ?_
      distinct := fun b b' r hb hb' => hs.distinct b b' r ((hkept b r).mp hb).1 ((hkept b' r).mp hb').1
      positive := by
        rw [hinflight, hbytes]
        exact hs.positive
      perTenant := by
        rw [hinflight, hbytes]
        exact hs.perTenant
      nonempty := hcapacities ▸ hs.nonempty
      maxima := fun c cap hc => by
        rw [hinflight, hbytes]
        exact hs.maxima c cap (hcapacities ▸ hc)
      bounded := fun c cap hc => hs.bounded c cap (hcapacities ▸ hc)
      tenant := fun t c ht => hcapacities ▸ hs.tenant t c ((htenants t c).mp ht).1 }
  have hold := ((hkept b r).mp hb).1
  obtain ⟨rt, hrt, -, hactive⟩ := hs.runtime b r hold
  have hget := configureRuntimes_get (registryBindings p'.broker.registry)
    s.process.bindingRuntimes.entries s.process.runtimes r
  rw [hrt, Option.map_some, Option.map_eq_some_iff] at hget
  obtain ⟨rt', hrt', hcounts⟩ := hget
  have hsame : rt'.activeRequests = rt.activeRequests := congrArg Prod.fst hcounts
  exact ⟨rt', hruntimes ▸ hrt', hlimit b r rt' hold hrt', hsame ▸ hactive.trans (hmono b)⟩

/-- An update takes no limiter away from a request. -/
theorem replace_good (hi : AdmissionInv settings s) (h : s.process.replace update = .ok p')
    (hkeeps : KeepsQueuedTenants s (.update update)) {f : Forward} (hf : f ∈ s.forwards) :
    Good p' f := by
  obtain ⟨hbroker, -, hcapacities, -, hkept, htenants⟩ := replace_ok h
  obtain ⟨hself, hothers⟩ := lookup_of_replace hbroker
  have hsound := replace_sound hi.sound h
  have hgood := hi.good f hf
  have hbalanced : Balanced Forward.usage p'.counter s.forwards :=
    fun k => (replace_counter h k).trans (hi.balanced k)
  have hregistered : f.suspension = .runtimeQueue → ∀ t, f.tenantKey = some t →
      (p'.broker.registry.byTenant.lookup t).isSome = true := by
    intro hs t ht
    by_cases hu : t = update.tenantKey
    · subst hu
      rw [hself]
      by_contra hnone
      exact hkeeps (by simpa using hnone) f hf hs ht
    · rw [hothers t hu]
      exact hgood.registered hs t ht
  refine { hgood with
    slot := fun huse => ?_
    tenant := fun huse => ?_
    registered := hregistered }
  · obtain ⟨b, r, hb, hr, hl⟩ := hgood.slot huse
    refine ⟨b, r, hb, hr, (hkept b r).mpr ⟨hl, ?_⟩⟩
    rw [runtime_not_idle hbalanced hf huse hr]
    simp
  · obtain ⟨t, c, ht, hc, hl⟩ := hgood.tenant huse
    refine ⟨t, c, ht, hc, (htenants t c).mpr ⟨hl, ?_⟩⟩
    obtain hs | huse := huse
    · rw [hregistered hs t ht]
      rfl
    · rw [capacity_not_idle hbalanced hf huse hc]
      simp

end Updates

section Runs

variable {lib : Library} {settings : Settings} {s t : Requests}

theorem AdmissionInv.at (h : AdmissionInv settings s) {i : ℕ} {f : Forward}
    (hf : s.forwards[i]? = some f) : At settings s.configured s.forwards i s.process f := by
  obtain ⟨hlt, he⟩ := List.getElem?_eq_some_iff.mp hf
  refine ⟨hlt, ?_, h.sound, fun j g _ hg => h.good g (List.mem_of_getElem? hg)⟩
  rw [← he, List.set_getElem_self]
  exact h.balanced

theorem AdmissionInv.of_settles {i : ℕ} {result : BrokerProcess × Forward}
    (h : Settles settings s.configured s.forwards i result) :
    AdmissionInv settings (s.store i result) := by
  refine ⟨h.1.balanced, h.1.sound, fun f hf => ?_⟩
  obtain ⟨j, hj⟩ := List.mem_iff_getElem?.mp hf
  by_cases hij : j = i
  · subst hij
    obtain rfl := Option.some.inj (h.1.get.symm.trans hj)
    exact h.2
  · exact h.1.others j f hij (by rwa [Requests.store, List.getElem?_set_ne (Ne.symm hij)] at hj)

/-- A request that has done nothing yet. -/
theorem Good.of_new {p : BrokerProcess} {f : Forward} (hs : f.suspension = .running)
    (hr : f.runtimeAcquired = false) (ht : f.tenantCapacityAcquired = false)
    (hc : f.capacityAcquired = false) : Good p f where
  toUses := .of_running hs hr ht
  registered := by simp [hs]
  runtimeQueue := fun _ => hr
  tenantQueue := fun _ => ht
  brokerQueue := fun _ => hc
  released := fun _ _ => ⟨hr, ht, hc⟩
  intact := by simp [hs]

theorem suspended_get {i : ℕ} {f : Forward} {q : Forward → Bool}
    (h : s.forwards[i]?.filter q = some f) : s.forwards[i]? = some f ∧ q f = true := by
  simpa [Option.filter_eq_some_iff] using h

theorem admission_step (hi : AdmissionInv settings s) {l : RequestLabel}
    (hkeeps : KeepsQueuedTenants s l) (h : Requests.step lib s l = some t) :
    AdmissionInv settings t := by
  cases l with
  | receive routeKind incoming =>
    obtain rfl := Option.some.inj h
    have hpush : AdmissionInv settings
        { s with forwards := s.forwards ++ [{ incoming := incoming, routeKind := routeKind }] } := by
      refine ⟨hi.balanced.push fun k => ?_, hi.sound, fun f hf => ?_⟩
      · cases k <;> simp [Forward.usage]
      · obtain hf | hf := List.mem_append.mp hf
        · exact hi.good f hf
        · obtain rfl := List.mem_singleton.mp hf
          exact .of_new rfl rfl rfl rfl
    exact .of_settles (receive_settles lib (hpush.at List.getElem?_concat_length) rfl rfl rfl rfl)
  | wake i =>
    obtain ⟨f, hf, rfl⟩ := Option.map_eq_some_iff.mp h
    obtain ⟨hf, -⟩ := suspended_get hf
    exact .of_settles (wake_settles (hi.at hf) (hi.good f (List.mem_of_getElem? hf)))
  | body i body now session =>
    obtain ⟨f, hf, rfl⟩ := Option.map_eq_some_iff.mp h
    obtain ⟨hf, hs⟩ := suspended_get hf
    refine .of_settles (forwardBody_settles lib body now session (hi.at hf)
      (hi.good f (List.mem_of_getElem? hf)) ?_)
    split at hs
    · assumption
    · cases hs
  | respond i status =>
    obtain ⟨f, hf, rfl⟩ := Option.map_eq_some_iff.mp h
    obtain ⟨hf, -⟩ := suspended_get hf
    exact .of_settles (finish_settles (hi.at hf) (hi.good f (List.mem_of_getElem? hf)).toUses (by simp))
  | timeout i prepared =>
    obtain ⟨f, hf, rfl⟩ := Option.map_eq_some_iff.mp h
    obtain ⟨hf, -⟩ := suspended_get hf
    exact .of_settles (timeout_settles prepared (hi.at hf) (hi.good f (List.mem_of_getElem? hf)))
  | disconnect i =>
    obtain ⟨f, hf, rfl⟩ := Option.map_eq_some_iff.mp h
    obtain ⟨hf, -⟩ := suspended_get hf
    exact .of_settles (disconnect_settles (hi.at hf) (hi.good f (List.mem_of_getElem? hf)))
  | cancel i =>
    obtain ⟨f, hf, rfl⟩ := Option.map_eq_some_iff.mp h
    obtain ⟨hf, -⟩ := suspended_get hf
    exact .of_settles (finish_settles (hi.at hf) (hi.good f (List.mem_of_getElem? hf)).toUses (by simp))
  | update update =>
    simp only [Requests.step] at h
    split at h
    · rename_i process hprocess
      obtain rfl := Option.some.inj h
      exact ⟨fun k => (replace_counter hprocess k).trans (hi.balanced k),
        replace_sound hi.sound hprocess, fun f hf => replace_good hi hprocess hkeeps hf⟩
    · obtain rfl := Option.some.inj h
      exact hi

end Runs

/-- The requests are served and have not ended. -/
def Forward.inFlight (f : Forward) : Bool :=
  match f.suspension with
  | .ended _ => false
  | _ => true

/-- The limits of the broker, counted over its requests. -/
structure WithinLimits (settings : Settings) (s : Requests) : Prop where
  bindings : ∀ b, ((s.forwards.countP fun f => f.runtimeAcquired && f.bindingId = some b : ℕ) : Int) ≤
    largestLimit s.configured b
  tenantRequests : ∀ t,
    ((s.forwards.countP fun f => f.tenantCapacityAcquired && f.tenantKey = some t : ℕ) : Int) ≤
      min settings.maxInflightRequestsPerTenant settings.maxInflightRequests
  tenantBytes : ∀ t,
    ((((s.forwards.filter fun f => f.tenantCapacityAcquired && f.tenantKey = some t).map
      (·.reservedRequestBytes)).sum : ℕ) : Int) ≤
        min settings.maxBufferedRequestBytesPerTenant settings.maxBufferedRequestBytes
  requests : ((s.forwards.countP (·.capacityAcquired) : ℕ) : Int) ≤ settings.maxInflightRequests
  bytes : ((((s.forwards.filter (·.capacityAcquired)).map (·.reservedRequestBytes)).sum : ℕ) : Int) ≤
    settings.maxBufferedRequestBytes
  releases : ∀ f ∈ s.forwards, ∀ message, f.suspension ≠ .ended (.error (.runtimeError message))
  drained : (∀ f ∈ s.forwards, f.inFlight = false) → ∀ k, s.process.counter k = 0

section Counts

variable {settings : Settings} {s : Requests}

/-- A request that holds a slot holds the one of its binding's runtime. -/
theorem AdmissionInv.holds_slot (h : AdmissionInv settings s) {f : Forward} (hf : f ∈ s.forwards)
    {b : String} (hb : (f.runtimeAcquired && f.bindingId = some b) = true) :
    ∃ r, s.process.bindingRuntimes.lookup b = some r ∧ 1 ≤ f.usage (.active r) := by
  simp only [Bool.and_eq_true, decide_eq_true_eq] at hb
  obtain ⟨b', r, hb', hr, hl⟩ := (h.good f hf).slot (.inl hb.1)
  obtain rfl := Option.some.inj (hb.2.symm.trans hb')
  exact ⟨r, hl, by simp [Forward.usage, hb.1, hr]⟩

theorem AdmissionInv.holds_capacity (h : AdmissionInv settings s) {f : Forward} (hf : f ∈ s.forwards)
    {t : String} (ht : (f.tenantCapacityAcquired && f.tenantKey = some t) = true) :
    ∃ c, s.process.tenantCapacities.lookup t = some c ∧ 1 ≤ f.usage (.inflight c) ∧
      f.reservedRequestBytes ≤ f.usage (.buffered c) := by
  simp only [Bool.and_eq_true, decide_eq_true_eq] at ht
  obtain ⟨t', c, ht', hc, hl⟩ := (h.good f hf).tenant (.inr (.inr ht.1))
  obtain rfl := Option.some.inj (ht.2.symm.trans ht')
  exact ⟨c, hl, by simp [Forward.usage, ht.1, hc], by simp [Forward.usage, ht.1, hc]⟩

theorem AdmissionInv.bindings_le (h : AdmissionInv settings s) (b : String) :
    ((s.forwards.countP fun f => f.runtimeAcquired && f.bindingId = some b : ℕ) : Int) ≤
      largestLimit s.configured b := by
  cases hl : s.process.bindingRuntimes.lookup b with
  | none =>
    have hzero : (s.forwards.countP fun f => f.runtimeAcquired && f.bindingId = some b) = 0 := by
      refine List.countP_eq_zero.mpr fun f hf hb => ?_
      obtain ⟨r, hr, -⟩ := h.holds_slot hf hb
      rw [hl] at hr
      cases hr
    rw [hzero]
    exact largestLimit_nonneg ..
  | some r =>
    obtain ⟨rt, hrt, -, hle⟩ := h.sound.runtime b r hl
    have hcount : (s.forwards.countP fun f => f.runtimeAcquired && f.bindingId = some b) ≤
        s.process.counter (.active r) := by
      refine h.balanced.countP_le fun f hf hb => ?_
      obtain ⟨r', hr', hu⟩ := h.holds_slot hf hb
      obtain rfl := Option.some.inj (hl.symm.trans hr')
      exact hu
    rw [counter_active hrt] at hcount
    omega

/-- The capacity of a tenant has the tenant's limits. -/
theorem Sound.tenant_bounds (h : Sound settings s.configured s.process) {t : String} {c : ℕ}
    (hl : s.process.tenantCapacities.lookup t = some c) :
    (s.process.counter (.inflight c) : Int) ≤
      min settings.maxInflightRequestsPerTenant settings.maxInflightRequests ∧
    (s.process.counter (.buffered c) : Int) ≤
      min settings.maxBufferedRequestBytesPerTenant settings.maxBufferedRequestBytes := by
  obtain ⟨hne, hlt⟩ := h.tenant t c hl
  obtain ⟨cap, hcap⟩ : ∃ cap, s.process.capacities[c]? = some cap :=
    ⟨_, List.getElem?_eq_getElem hlt⟩
  rw [counter_inflight hcap, counter_buffered hcap, ← h.perTenant.1, ← h.perTenant.2]
  obtain ⟨he, -⟩ | ⟨-, hinflight, hbuffered⟩ := h.maxima c cap hcap
  · exact absurd he hne
  · rw [← hinflight, ← hbuffered]
    exact h.bounded c cap hcap

theorem AdmissionInv.tenant_le (h : AdmissionInv settings s) (t : String) :
    ((s.forwards.countP fun f => f.tenantCapacityAcquired && f.tenantKey = some t : ℕ) : Int) ≤
      min settings.maxInflightRequestsPerTenant settings.maxInflightRequests ∧
    ((((s.forwards.filter fun f => f.tenantCapacityAcquired && f.tenantKey = some t).map
      (·.reservedRequestBytes)).sum : ℕ) : Int) ≤
        min settings.maxBufferedRequestBytesPerTenant settings.maxBufferedRequestBytes := by
  cases hl : s.process.tenantCapacities.lookup t with
  | none =>
    have hnone : ∀ f ∈ s.forwards, ¬ (f.tenantCapacityAcquired && f.tenantKey = some t) = true := by
      intro f hf ht
      obtain ⟨c, hc, -⟩ := h.holds_capacity hf ht
      rw [hl] at hc
      cases hc
    rw [List.countP_eq_zero.mpr hnone, List.filter_eq_nil_iff.mpr hnone]
    have hpos := h.sound.positive
    rw [h.sound.perTenant.1, h.sound.perTenant.2] at hpos
    simp only [List.map_nil, List.sum_nil]
    omega
  | some c =>
    obtain ⟨hinflight, hbuffered⟩ := h.sound.tenant_bounds hl
    have hcount : (s.forwards.countP fun f => f.tenantCapacityAcquired && f.tenantKey = some t) ≤
        s.process.counter (.inflight c) := by
      refine h.balanced.countP_le fun f hf ht => ?_
      obtain ⟨c', hc', hu, -⟩ := h.holds_capacity hf ht
      obtain rfl := Option.some.inj (hl.symm.trans hc')
      exact hu
    have hsum : ((s.forwards.filter fun f => f.tenantCapacityAcquired && f.tenantKey = some t).map
        (·.reservedRequestBytes)).sum ≤ s.process.counter (.buffered c) := by
      refine h.balanced.sum_filter_le fun f hf ht => ?_
      obtain ⟨c', hc', -, hu⟩ := h.holds_capacity hf ht
      obtain rfl := Option.some.inj (hl.symm.trans hc')
      exact hu
    omega

theorem AdmissionInv.broker_le (h : AdmissionInv settings s) :
    ((s.forwards.countP (·.capacityAcquired) : ℕ) : Int) ≤ settings.maxInflightRequests ∧
    ((((s.forwards.filter (·.capacityAcquired)).map (·.reservedRequestBytes)).sum : ℕ) : Int) ≤
      settings.maxBufferedRequestBytes := by
  obtain ⟨cap, hcap⟩ : ∃ cap, s.process.capacities[brokerCapacity]? = some cap :=
    ⟨_, List.getElem?_eq_getElem h.sound.nonempty⟩
  have hcount : s.forwards.countP (·.capacityAcquired) ≤ s.process.counter (.inflight brokerCapacity) :=
    h.balanced.countP_le fun f _ hc => by simp [Forward.usage, hc]
  have hsum : ((s.forwards.filter (·.capacityAcquired)).map (·.reservedRequestBytes)).sum ≤
      s.process.counter (.buffered brokerCapacity) :=
    h.balanced.sum_filter_le fun f _ hc => by simp [Forward.usage, hc]
  rw [counter_inflight hcap] at hcount
  rw [counter_buffered hcap] at hsum
  have hbounded := h.sound.bounded brokerCapacity cap hcap
  obtain ⟨-, hinflight, hbuffered⟩ | ⟨hne, -⟩ := h.sound.maxima brokerCapacity cap hcap
  · rw [hinflight, hbuffered] at hbounded
    omega
  · exact absurd rfl hne

theorem AdmissionInv.drained (h : AdmissionInv settings s)
    (hended : ∀ f ∈ s.forwards, f.inFlight = false) (k : Counter) : s.process.counter k = 0 := by
  refine h.balanced.eq_zero fun f hf => ?_
  have hend := hended f hf
  unfold Forward.inFlight at hend
  split at hend
  · rename_i o ho
    obtain ⟨hr, ht, hc⟩ := (h.good f hf).released o ho
    cases k <;> simp [Forward.usage, ho, hr, ht, hc]
  · cases hend

end Counts

theorem start_inv {settings : Settings} {g : BindingRegistry} {p : BrokerProcess}
    (h : BrokerProcess.start settings g = .ok p) : AdmissionInv settings ⟨p, [], [g]⟩ := by
  obtain ⟨_, hinflight, h⟩ := bind_eq_ok h
  obtain ⟨_, hbytes, h⟩ := bind_eq_ok h
  obtain ⟨_, hinflight', h⟩ := bind_eq_ok h
  obtain ⟨_, hbytes', h⟩ := bind_eq_ok h
  obtain ⟨_, -, h⟩ := bind_eq_ok h
  have h1 := of_decide_eq_true (require_ok hinflight)
  have h2 := of_decide_eq_true (require_ok hbytes)
  have h3 := of_decide_eq_true (require_ok hinflight')
  have h4 := of_decide_eq_true (require_ok hbytes')
  obtain rfl := Except.ok.inj h
  -- the heap holds the broker-wide capacity alone
  have hone : ∀ {x : BrokerCapacity} {c : ℕ} {cap : BrokerCapacity}, [x][c]? = some cap →
      c = brokerCapacity ∧ cap = x := by
    intro x c cap hc
    cases c with
    | zero => exact ⟨rfl, (Option.some.inj hc).symm⟩
    | succ c => cases hc
  refine ⟨fun k => ?_, ?_, by simp⟩
  · cases k with
    | active r => rfl
    | waiting r => rfl
    | inflight c => cases c <;> rfl
    | queued c => cases c <;> rfl
    | buffered c => cases c <;> rfl
  · refine
      { registry := List.mem_cons_self
        runtime := by simp
        distinct := by simp
        positive := ⟨le_min h3 h1, le_min h4 h2⟩
        perTenant := ⟨rfl, rfl⟩
        nonempty := Nat.one_pos
        maxima := fun c cap hc => ?_
        bounded := fun c cap hc => ?_
        tenant := by simp }
    · obtain ⟨rfl, rfl⟩ := hone hc
      exact .inl ⟨rfl, rfl, rfl⟩
    · obtain ⟨rfl, rfl⟩ := hone hc
      simp only
      omega

/-- In every run of requests and updates in which no tenant is removed while one of its requests
waits for its binding's slot, the broker stays within the limits of its bindings, of its tenants
and of the process, every release succeeds, and a broker without requests has counted down to
zero. -/
theorem admission_limits_hold (lib : Library) (settings : Settings) (g : BindingRegistry)
    (p : BrokerProcess) (labels : List RequestLabel) (s : Requests)
    (hstart : BrokerProcess.start settings g = .ok p)
    (hkeeps : Meets (Requests.step lib) KeepsQueuedTenants ⟨p, [], [g]⟩ labels)
    (h : exec (Requests.step lib) ⟨p, [], [g]⟩ labels = some s) : WithinLimits settings s := by
  have hi : AdmissionInv settings s :=
    exec_invariant_of_meets (fun s l t hs hl hstep => admission_step hs hl hstep) (start_inv hstart)
      hkeeps h
  exact
    { bindings := hi.bindings_le
      tenantRequests := fun t => (hi.tenant_le t).1
      tenantBytes := fun t => (hi.tenant_le t).2
      requests := hi.broker_le.1
      bytes := hi.broker_le.2
      releases := fun f hf => (hi.good f hf).intact
      drained := hi.drained }

/-- A broker that serves ten requests, one of each tenant. -/
def sampleSettings : Settings := ⟨10, 4096, 1, 4096⟩

def sampleProcess : BrokerProcess where
  broker := ⟨{}, 4096, 4096⟩
  maxInflightRequestsPerTenant := 1
  capacities := [⟨10, 4096, 0, 0, 0⟩]

/-- An update that gives a tenant one OpenAI binding with so many slots. -/
def provide (slots : Int) : RegistryUpdate where
  tenantKey := sampleDigest
  registry := some
    { openai := some
        { bindingId := sampleDigest
          kind := .openaiResponses
          secret := "secret"
          allowedLocalIps := ["10.0.0.2"]
          limits := ⟨slots, 60, 1024, .int 5, .int 15, .int 300⟩
          allowedMethods := ["POST"] } }

def sampleIncoming : Incoming where
  sockname := some "10.0.0.2"
  method := "POST"
  path := "/v1/responses"
  queryString := ""
  capability := ""
  tail := ""
  contentLength := some 10

theorem admission_limits_hold_two :
    ∃ s, exec (Requests.step sampleLibrary) ⟨sampleProcess, [], [{}]⟩
        [.update (provide 1), .receive .openai sampleIncoming, .receive .openai sampleIncoming,
          .cancel 0, .wake 1, .update (provide 2)] = some s ∧
      s.forwards.map (·.capacityAcquired) = [false, true] ∧ WithinLimits sampleSettings s := by
  have hrun : ((exec (Requests.step sampleLibrary) ⟨sampleProcess, [], [{}]⟩
      [.update (provide 1), .receive .openai sampleIncoming, .receive .openai sampleIncoming,
        .cancel 0, .wake 1, .update (provide 2)]).map fun s =>
          s.forwards.map (·.capacityAcquired)) = some [false, true] := by decide +kernel
  obtain ⟨s, hs, hforwards⟩ := Option.map_eq_some_iff.mp hrun
  exact ⟨s, hs, hforwards, admission_limits_hold sampleLibrary sampleSettings {} sampleProcess _ s
    rfl (by decide +kernel) hs⟩

/-- A tenant is removed while a request waits for its slot, and provided again. -/
def readdedTenant : List RequestLabel :=
  [.update (provide 1), .receive .openai sampleIncoming, .receive .openai sampleIncoming,
    .update ⟨sampleDigest, none⟩, .cancel 0, .wake 1, .update (provide 2), .receive .openai sampleIncoming]

/-- The capacity that the waiting request has looked up is discarded; when the tenant is provided again the
request is served beside another that has a new one. -/
theorem tenant_exceeds_its_requests :
    ∃ s, BrokerProcess.start sampleSettings {} = .ok sampleProcess ∧
      exec (Requests.step sampleLibrary) ⟨sampleProcess, [], [{}]⟩ readdedTenant = some s ∧
      ¬ WithinLimits sampleSettings s := by
  have hrun : ((exec (Requests.step sampleLibrary) ⟨sampleProcess, [], [{}]⟩ readdedTenant).map fun s =>
      s.forwards.countP fun f => f.tenantCapacityAcquired && f.tenantKey = some sampleDigest) = some 2 := by
    decide +kernel
  obtain ⟨s, hs, hcount⟩ := Option.map_eq_some_iff.mp hrun
  refine ⟨s, rfl, hs, fun hlimits => ?_⟩
  have hle := hlimits.tenantRequests sampleDigest
  rw [hcount] at hle
  exact absurd hle (by decide)

end Soveren.Broker
