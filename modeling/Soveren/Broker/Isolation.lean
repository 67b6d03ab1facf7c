import Mathlib.Data.List.Induction
import Soveren.Storage.Idempotency
import Soveren.Broker.Registry

/-! Tenant isolation of the broker: who owns an address in every registry that updates reach,
and what a resolved request is authorized by. -/
namespace Soveren.Broker

section Paths

/-- The named segments of a path. -/
def segments (path : String) : List (List Char) := (pathSegments path).filter (· ≠ [])

/-- No segment is relative, and none between the first and the last is empty. -/
structure IsNormalized (path : String) : Prop where
  dots : ∀ segment ∈ pathSegments path, isDots segment = false
  inner : ∀ before after, pathSegments path = before ++ [] :: after → before = [] ∨ after = []

/-- Joined segments around an empty one hold two slashes in a row. -/
theorem slashes_of_empty_segment {before after : List (List Char)} (hb : before ≠ [])
    (ha : after ≠ []) : ['/', '/'] <:+: ['/'].intercalate (before ++ [] :: after) := by
  induction before with
  | nil => exact absurd rfl hb
  | cons x before ih =>
    have hne : before ++ [] :: after ≠ [] := by simp
    rw [List.cons_append, List.intercalate_cons_of_ne_nil hne]
    cases before with
    | nil =>
      rw [List.nil_append, List.intercalate_cons_of_ne_nil ha]
      exact ⟨x, ['/'].intercalate after, by simp⟩
    | cons y before =>
      obtain ⟨l, r, h⟩ := ih (by simp)
      exact ⟨x ++ ['/'] ++ l, r, by rw [← h]; simp⟩

theorem isNormalized_of_safe {path : String} (h : isUnsafePath path = false) :
    IsNormalized path := by
  simp only [isUnsafePath, Bool.or_eq_false_iff, decide_eq_false_iff_not] at h
  obtain ⟨⟨hslashes, -⟩, hdots⟩ := h
  refine ⟨fun segment hs => ?_, fun before after hsplit => ?_⟩
  · simpa using List.any_eq_false.mp hdots segment hs
  · by_contra hno
    obtain ⟨hb, ha⟩ := not_or.mp hno
    have hjoin : ['/'].intercalate (pathSegments path) = path.toList := List.intercalate_splitOn '/'
    exact hslashes (hjoin ▸ hsplit ▸ slashes_of_empty_segment hb ha)

/-- A path that matches an allowed root extends its segments. -/
theorem segments_of_match {path root : String} (h : pathMatchesPrefix path root = true) :
    segments root <+: segments path := by
  simp only [pathMatchesPrefix, Bool.or_eq_true, decide_eq_true_eq] at h
  obtain (rfl | rfl) | h := h
  · exact ⟨segments path, rfl⟩
  · exact List.prefix_rfl
  · obtain ⟨rest, hrest⟩ := List.isPrefixOf_iff_prefix.mp h
    refine ⟨(rest.splitOn '/').filter (· ≠ []), ?_⟩
    have hpath : path.toList = root.toList ++ '/' :: rest := by rw [← hrest]; simp
    simp only [segments, pathSegments, hpath, List.splitOn_append_cons_self, List.filter_append]

end Paths

theorem require_ok {condition : Bool} {message : String} {u : Unit}
    (h : require condition message = .ok u) : condition = true := by
  cases condition with
  | true => rfl
  | false => cases h

section Build

/-- A binding among some allows an address. -/
def Allows (bindings : List BrokerBinding) (ip : String) : Prop :=
  ∃ b ∈ bindings, ip ∈ b.allowedLocalIps

theorem claimIps_ok {tenantKey : String} {owners owners' : Dict String} {ips : List String}
    (h : claimIps tenantKey owners ips = .ok owners') (ip owner : String) :
    owners'.lookup ip = some owner ↔
      owners.lookup ip = some owner ∨ (owner = tenantKey ∧ ip ∈ ips) := by
  induction ips generalizing owners with
  | nil =>
    obtain rfl := Except.ok.inj h
    simp
  | cons ip0 ips ih =>
    unfold claimIps at h
    split at h
    · rename_i hnone
      rw [ih h]
      by_cases hip : ip = ip0
      · subst hip
        simp only [AList.lookup_insert, hnone, List.mem_cons, true_or, and_true, Option.some.injEq,
          reduceCtorEq, false_or]
        constructor
        · rintro (rfl | ⟨rfl, -⟩) <;> rfl
        · exact fun he => .inl he.symm
      · simp [AList.lookup_insert_ne hip, hip]
    · rename_i owner0 hsome
      split at h
      · cases h
      · rename_i hsame
        rw [ih h]
        by_cases hip : ip = ip0
        · subst hip
          simp only [not_not] at hsame
          simp only [hsome, hsame, List.mem_cons, true_or, and_true, Option.some.injEq]
          constructor
          · rintro (he | ⟨he, -⟩)
            · exact .inl he
            · exact .inl he.symm
          · rintro (he | he)
            · exact .inl he
            · exact .inl he.symm
        · simp [hip]

/-- What a stretch of the loop adds: addresses of one owner and distinct binding ids. -/
structure Extends (s s' : Build) (owned : String → String → Prop) (ids : List String) : Prop where
  owners : ∀ ip owner, s'.owners.lookup ip = some owner ↔
    s.owners.lookup ip = some owner ∨ owned ip owner
  bindingIds : s'.bindingIds = s.bindingIds ++ ids
  nodup : s.bindingIds.Nodup → s'.bindingIds.Nodup

theorem Extends.trans {s s' s'' : Build} {owned owned' : String → String → Prop}
    {ids ids' : List String} (h : Extends s s' owned ids) (h' : Extends s' s'' owned' ids') :
    Extends s s'' (fun ip owner => owned ip owner ∨ owned' ip owner) (ids ++ ids') where
  owners ip owner := by rw [h'.owners, h.owners, or_assoc]
  bindingIds := by rw [h'.bindingIds, h.bindingIds, List.append_assoc]
  nodup hn := h'.nodup (h.nodup hn)

theorem Extends.congr {s s' : Build} {owned owned' : String → String → Prop} {ids : List String}
    (h : Extends s s' owned ids) (ho : ∀ ip owner, owned ip owner ↔ owned' ip owner) :
    Extends s s' owned' ids :=
  ⟨fun ip owner => by rw [h.owners, ho], h.bindingIds, h.nodup⟩

theorem buildBindings_ok {tenantKey : String} {s s' : Build} {bindings : List BrokerBinding}
    (h : buildBindings tenantKey s bindings = .ok s') :
    Extends s s' (fun ip owner => owner = tenantKey ∧ Allows bindings ip)
      (bindings.map (·.bindingId)) := by
  induction bindings generalizing s with
  | nil =>
    obtain rfl := Except.ok.inj h
    exact ⟨by simp [Allows], by simp, fun hn => hn⟩
  | cons b bindings ih =>
    unfold buildBindings at h
    split at h
    · cases h
    · rename_i hfresh
      obtain ⟨owners, hclaim, h⟩ := bind_eq_ok h
      have hfirst : Extends s { s with owners := owners, bindingIds := s.bindingIds ++ [b.bindingId] }
          (fun ip owner => owner = tenantKey ∧ ip ∈ b.allowedLocalIps) [b.bindingId] := by
        refine ⟨claimIps_ok hclaim, rfl, fun hn => ?_⟩
        exact List.Nodup.append hn (List.nodup_singleton _) (by simpa using hfresh)
      refine (hfirst.trans (ih h)).congr fun ip owner => ?_
      simp [Allows, ← and_or_left]

theorem buildTenant_ok {s s' : Build} {tenantKey : String} {r : TenantBindingRegistry}
    (h : buildTenant s tenantKey r = .ok s') :
    Extends s s' (fun ip owner => owner = tenantKey ∧ Allows (tenantRegistryBindings r) ip)
      ((tenantRegistryBindings r).map (·.bindingId)) := by
  obtain ⟨_, -, h⟩ := bind_eq_ok h
  obtain ⟨_, -, h⟩ := bind_eq_ok h
  obtain ⟨_, -, h⟩ := bind_eq_ok h
  have hb := buildBindings_ok h
  exact ⟨hb.owners, hb.bindingIds, hb.nodup⟩

theorem buildTenants_ok {s s' : Build} {tenants : List (Σ _ : String, TenantBindingRegistry)}
    (h : buildTenants s tenants = .ok s') :
    Extends s s' (fun ip owner => ∃ r, ⟨owner, r⟩ ∈ tenants ∧ Allows (tenantRegistryBindings r) ip)
      ((tenants.flatMap fun e => tenantRegistryBindings e.2).map (·.bindingId)) := by
  induction tenants generalizing s with
  | nil =>
    obtain rfl := Except.ok.inj h
    exact ⟨by simp, by simp, fun hn => hn⟩
  | cons e tenants ih =>
    obtain ⟨tenantKey, r⟩ := e
    obtain ⟨s1, h1, h⟩ := bind_eq_ok h
    have hall := (buildTenant_ok h1).trans (ih h)
    rw [← List.map_append] at hall
    refine hall.congr fun ip owner => ?_
    constructor
    · rintro (⟨rfl, ha⟩ | ⟨r', hr', ha⟩)
      · exact ⟨r, List.mem_cons_self, ha⟩
      · exact ⟨r', List.mem_cons_of_mem _ hr', ha⟩
    · rintro ⟨r', hr', ha⟩
      obtain he | hr' := List.mem_cons.mp hr'
      · cases he
        exact .inl ⟨rfl, ha⟩
      · exact .inr ⟨r', hr', ha⟩

theorem buildRegistry_ok {byTenant : Dict TenantBindingRegistry} {g : BindingRegistry}
    (h : buildRegistry byTenant = .ok g) :
    g.byTenant = byTenant ∧
      (∀ ip owner, g.tenantByLocalIp.lookup ip = some owner ↔
        ∃ r, g.byTenant.lookup owner = some r ∧ Allows (tenantRegistryBindings r) ip) ∧
      ((registryBindings g).map (·.bindingId)).Nodup := by
  obtain ⟨_, -, h⟩ := bind_eq_ok h
  obtain ⟨s, hs, h⟩ := bind_eq_ok h
  obtain rfl := Except.ok.inj h
  have hb := buildTenants_ok hs
  refine ⟨rfl, fun ip owner => ?_, ?_⟩
  · rw [hb.owners]
    simp [← AList.mem_lookup_iff]
  · have hids := hb.bindingIds
    have hn := hb.nodup List.nodup_nil
    rw [hids, List.nil_append] at hn
    simpa [registryBindings, Dict.values, List.flatMap_map] using hn

end Build

section Parse

variable {lib : Library}

theorem parseHttpBinding_ok {value : Json} {bindingId secret : String} {ips : List String}
    {limits : BindingLimits} {b : BrokerBinding}
    (h : parseHttpBinding lib value bindingId secret ips limits = .ok b) : b.kind = .http := by
  unfold parseHttpBinding at h
  obtain ⟨_, -, h⟩ := bind_eq_ok h
  obtain ⟨_, -, h⟩ := bind_eq_ok h
  obtain ⟨_, -, h⟩ := bind_eq_ok h
  obtain ⟨_, -, h⟩ := bind_eq_ok h
  obtain ⟨_, -, h⟩ := bind_eq_ok h
  obtain ⟨_, -, h⟩ := bind_eq_ok h
  obtain ⟨_, -, h⟩ := bind_eq_ok h
  obtain ⟨_, -, h⟩ := bind_eq_ok h
  obtain ⟨_, -, h⟩ := bind_eq_ok h
  obtain ⟨_, -, h⟩ := bind_eq_ok h
  obtain ⟨_, -, h⟩ := bind_eq_ok h
  obtain rfl := Except.ok.inj h
  rfl

/-- An OpenAI binding has no capability. -/
theorem parseBinding_ok {value : Json} {b : BrokerBinding} (h : parseBinding lib value = .ok b)
    (hkind : b.kind = .openaiResponses) : b.capability = none := by
  unfold parseBinding at h
  split at h
  · obtain ⟨_, -, h⟩ := bind_eq_ok h
    obtain ⟨_, -, h⟩ := bind_eq_ok h
    obtain ⟨_, -, h⟩ := bind_eq_ok h
    obtain ⟨_, -, h⟩ := bind_eq_ok h
    obtain ⟨_, -, h⟩ := bind_eq_ok h
    split at h
    · obtain ⟨_, -, h⟩ := bind_eq_ok h
      obtain rfl := Except.ok.inj h
      rfl
    · rw [parseHttpBinding_ok h] at hkind
      cases hkind
  · cases h

/-- A binding is filed under its capability, and the OpenAI binding has none. -/
structure Filed (r : TenantBindingRegistry) : Prop where
  openai : ∀ b, r.openai = some b → b.capability = none
  byCapability : ∀ c b, r.byCapability.lookup c = some b → b.capability = some c

theorem Filed.add {r r' : TenantBindingRegistry} {ids : List String} {b : BrokerBinding}
    (h : Filed r) (hadd : addBinding r ids b = .ok r')
    (hb : b.kind = .openaiResponses → b.capability = none) : Filed r' := by
  unfold addBinding at hadd
  split at hadd
  · cases hadd
  · split at hadd
    · rename_i hkind
      split at hadd
      · cases hadd
      · obtain rfl := Except.ok.inj hadd
        exact ⟨fun b' he => Option.some.inj he ▸ hb hkind, h.byCapability⟩
    · split at hadd
      · cases hadd
      · rename_i capability hcap
        split at hadd
        · cases hadd
        · obtain rfl := Except.ok.inj hadd
          refine ⟨h.openai, fun c b' hl => ?_⟩
          by_cases hc : c = capability
          · subst hc
            rw [AList.lookup_insert] at hl
            exact Option.some.inj hl ▸ hcap
          · rw [AList.lookup_insert_ne hc] at hl
            exact h.byCapability c b' hl

theorem parseTenantBindings_filed {values : List Json} {r r' : TenantBindingRegistry}
    {ids : List String} (h : parseTenantBindings lib r ids values = .ok r') (hr : Filed r) :
    Filed r' := by
  induction values generalizing r ids with
  | nil =>
    obtain rfl := Except.ok.inj h
    exact hr
  | cons value values ih =>
    obtain ⟨b, hb, h⟩ := bind_eq_ok h
    obtain ⟨r1, hadd, h⟩ := bind_eq_ok h
    exact ih h (hr.add hadd (parseBinding_ok hb))

theorem readUpdate_filed {input : AdminInput} {update : RegistryUpdate}
    (h : readUpdate lib input = .ok update) (r : TenantBindingRegistry)
    (hr : update.registry = some r) : Filed r := by
  unfold readUpdate at h
  split at h
  · cases h
  · split at h
    · cases h
    · split at h
      · cases h
      · unfold parseRegistryUpdate at h
        obtain ⟨_, -, h⟩ := bind_eq_ok h
        obtain ⟨tenantKey, -, h⟩ := bind_eq_ok h
        split at h
        · obtain ⟨_, -, h⟩ := bind_eq_ok h
          obtain rfl := Except.ok.inj h
          cases hr
        · obtain ⟨_, -, h⟩ := bind_eq_ok h
          split at h
          · obtain ⟨_, -, h⟩ := bind_eq_ok h
            obtain ⟨r1, hparse, h⟩ := bind_eq_ok h
            obtain rfl := Except.ok.inj h
            obtain rfl := Option.some.inj hr
            refine parseTenantBindings_filed hparse ⟨fun b he => ?_, fun c b he => ?_⟩
            · cases he
            · cases he
          · cases h

/-- Under their capabilities the bindings of a tenant are distinct. -/
theorem Filed.capabilities {r : TenantBindingRegistry} (h : Filed r) :
    ((tenantRegistryBindings r).filterMap (·.capability)).Nodup := by
  have hopenai : (r.openai.toList.filterMap (·.capability)) = [] := by
    cases ho : r.openai with
    | none => rfl
    | some b => simp [h.openai b ho]
  have hvalues : (Dict.values r.byCapability).filterMap (·.capability) = r.byCapability.keys := by
    rw [Dict.values, List.filterMap_map, AList.keys, List.keys, ← List.filterMap_eq_map]
    refine List.filterMap_congr fun e he => ?_
    exact h.byCapability e.1 e.2 (AList.mem_lookup_iff.mpr he)
  rw [tenantRegistryBindings, List.filterMap_append, hopenai, hvalues, List.nil_append]
  exact r.byCapability.keys_nodup

end Parse

/-- What holds of a registry that updates reach: an address is owned by the one tenant with a
binding that allows it, and ids and capabilities are unique. -/
structure Isolated (g : BindingRegistry) : Prop where
  owner : ∀ ip owner, g.tenantByLocalIp.lookup ip = some owner ↔
    ∃ r, g.byTenant.lookup owner = some r ∧ Allows (tenantRegistryBindings r) ip
  bindingIds : ((registryBindings g).map (·.bindingId)).Nodup
  filed : ∀ tenantKey r, g.byTenant.lookup tenantKey = some r → Filed r

section Updates

variable {lib : Library} {s s' : CredentialBroker}

theorem replaceTenantRegistry_ok {update : RegistryUpdate}
    (h : replaceTenantRegistry s update = .ok s') :
    buildRegistry (match update.registry with
      | none => s.registry.byTenant.erase update.tenantKey
      | some r => s.registry.byTenant.insert update.tenantKey r) = .ok s'.registry := by
  unfold replaceTenantRegistry at h
  obtain ⟨g, hg, h⟩ := bind_eq_ok h
  obtain ⟨_, -, h⟩ := bind_eq_ok h
  obtain rfl := Except.ok.inj h
  exact hg

/-- An update writes its own tenant and no other. -/
theorem lookup_of_replace {update : RegistryUpdate} (h : replaceTenantRegistry s update = .ok s') :
    s'.registry.byTenant.lookup update.tenantKey = update.registry ∧
      ∀ t, t ≠ update.tenantKey →
        s'.registry.byTenant.lookup t = s.registry.byTenant.lookup t := by
  have hg := replaceTenantRegistry_ok h
  cases hr : update.registry with
  | none =>
    rw [hr] at hg
    rw [(buildRegistry_ok hg).1]
    exact ⟨AList.lookup_erase _ _, fun t ht => AList.lookup_erase_ne ht⟩
  | some r =>
    rw [hr] at hg
    rw [(buildRegistry_ok hg).1]
    exact ⟨AList.lookup_insert _, fun t ht => AList.lookup_insert_ne ht⟩

theorem Isolated.replace {update : RegistryUpdate} (h : Isolated s.registry)
    (hread : ∀ r, update.registry = some r → Filed r)
    (hs : replaceTenantRegistry s update = .ok s') : Isolated s'.registry := by
  obtain ⟨-, howner, hids⟩ := buildRegistry_ok (replaceTenantRegistry_ok hs)
  obtain ⟨hself, hothers⟩ := lookup_of_replace hs
  refine ⟨howner, hids, fun t r hr => ?_⟩
  by_cases ht : t = update.tenantKey
  · subst ht
    exact hread r (hself.symm.trans hr)
  · exact h.filed t r ((hothers t ht).symm.trans hr)

theorem receiveUpdate_ok {input : AdminInput} (h : receiveUpdate lib s input = .ok s') :
    ∃ update, readUpdate lib input = .ok update ∧ replaceTenantRegistry s update = .ok s' :=
  bind_eq_ok h

theorem handleAdmin_isolated (h : Isolated s.registry) (input : AdminInput) :
    Isolated (handleAdmin lib s input).1.registry := by
  unfold handleAdmin
  split
  · rename_i s' hs
    obtain ⟨update, hread, hreplace⟩ := receiveUpdate_ok hs
    exact h.replace (readUpdate_filed hread) hreplace
  · exact h

theorem afterUpdates_isolated (lib : Library) (maxBuffered maxBufferedPerTenant : Int)
    (inputs : List AdminInput) :
    Isolated (afterUpdates lib maxBuffered maxBufferedPerTenant inputs).registry := by
  induction inputs using List.reverseRecOn with
  | nil =>
    refine ⟨fun ip owner => ?_, List.nodup_nil, fun t r hr => ?_⟩
    · simp [afterUpdates]
    · simp [afterUpdates] at hr
  | append_singleton inputs input ih =>
    rw [afterUpdates, List.foldl_append]
    exact handleAdmin_isolated ih input

end Updates

/-- What authorizes a resolved request. -/
structure Authorized (lib : Library) (g : BindingRegistry) (routeKind : RouteKind)
    (request : Request) (tenantKey : String) (b : BrokerBinding) (upstream : Upstream) : Prop where
  address : ∃ ip, requestLocalIp lib request = .ok ip ∧
    g.tenantByLocalIp.lookup ip = some tenantKey ∧ ip ∈ b.allowedLocalIps
  binding : ∃ r, g.byTenant.lookup tenantKey = some r ∧ b ∈ tenantRegistryBindings r
  normalized : IsNormalized upstream.path
  capability : routeKind = .httpBinding → request.method ∈ b.allowedMethods ∧
    ∃ root ∈ b.allowedPathPrefixes, segments root <+: segments upstream.path
  openai : routeKind = .openai → openaiUpstream request.path = some upstream

section Resolve

variable {localIp : String} {r : TenantBindingRegistry} {request : Request} {b : BrokerBinding}
  {upstream : Upstream}

theorem ensureBindingAccess_ok {u : Unit} (h : ensureBindingAccess localIp b = .ok u) :
    localIp ∈ b.allowedLocalIps := by
  unfold ensureBindingAccess at h
  split at h
  · rename_i hc
    exact List.contains_iff_mem.mp hc
  · cases h

theorem requestBindingPath_ok {tail path : String} (h : requestBindingPath tail = .ok path) :
    IsNormalized path := by
  unfold requestBindingPath at h
  generalize (if tail = "" then "/" else "/" ++ tail) = p at h
  dsimp only at h
  split at h
  · cases h
  · rename_i hsafe
    exact Except.ok.inj h ▸ isNormalized_of_safe (by simpa using hsafe)

theorem openaiUpstream_normalized {path : String} (h : openaiUpstream path = some upstream) :
    IsNormalized upstream.path := by
  unfold openaiUpstream at h
  split at h
  · obtain rfl := Option.some.inj h
    exact isNormalized_of_safe (by decide +kernel)
  · split at h
    · obtain rfl := Option.some.inj h
      exact isNormalized_of_safe (by decide +kernel)
    · cases h

theorem resolveOpenai_ok (h : resolveOpenai localIp r request = .ok (b, upstream)) :
    b ∈ tenantRegistryBindings r ∧ localIp ∈ b.allowedLocalIps ∧
      openaiUpstream request.path = some upstream := by
  unfold resolveOpenai at h
  split at h
  · cases h
  · rename_i b' hb
    obtain ⟨_, haccess, h⟩ := bind_eq_ok h
    split at h
    · cases h
    · split at h
      · cases h
      · rename_i upstream' hup
        obtain ⟨rfl, rfl⟩ := Prod.mk.inj (Except.ok.inj h)
        exact ⟨by simp [tenantRegistryBindings, hb], ensureBindingAccess_ok haccess, hup⟩

theorem resolveCapability_ok (h : resolveCapability localIp r request = .ok (b, upstream)) :
    b ∈ tenantRegistryBindings r ∧ localIp ∈ b.allowedLocalIps ∧
      request.method ∈ b.allowedMethods ∧ IsNormalized upstream.path ∧
      ∃ root ∈ b.allowedPathPrefixes, segments root <+: segments upstream.path := by
  unfold resolveCapability at h
  split at h
  · cases h
  · rename_i b' hb
    obtain ⟨_, haccess, h⟩ := bind_eq_ok h
    split at h
    · cases h
    · rename_i hmethod
      obtain ⟨path, hpath, h⟩ := bind_eq_ok h
      split at h
      · cases h
      · rename_i hmatch
        split at h
        · cases h
        · obtain ⟨rfl, rfl⟩ := Prod.mk.inj (Except.ok.inj h)
          have hmem : b' ∈ tenantRegistryBindings r := by
            refine List.mem_append_right _ (List.mem_map.mpr ⟨⟨request.capability, b'⟩, ?_, rfl⟩)
            exact AList.mem_lookup_iff.mp hb
          simp only [Bool.not_eq_true', Bool.not_eq_false, List.any_eq_true] at hmatch
          obtain ⟨root, hroot, hm⟩ := hmatch
          exact ⟨hmem, ensureBindingAccess_ok haccess, by simpa using hmethod,
            requestBindingPath_ok hpath, root, hroot, segments_of_match hm⟩

theorem resolveBinding_authorized {lib : Library} {g : BindingRegistry} {routeKind : RouteKind}
    {tenantKey : String}
    (h : resolveBinding lib g routeKind request = .ok (tenantKey, b, upstream)) :
    Authorized lib g routeKind request tenantKey b upstream := by
  obtain ⟨ip, hip, h⟩ := bind_eq_ok h
  split at h
  · cases h
  · rename_i owner howner
    split at h
    · cases h
    · rename_i r hr
      obtain ⟨⟨b', upstream'⟩, hresolve, h⟩ := bind_eq_ok h
      obtain ⟨rfl, hrest⟩ := Prod.mk.inj (Except.ok.inj h)
      obtain ⟨rfl, rfl⟩ := Prod.mk.inj hrest
      cases routeKind with
      | openai =>
        obtain ⟨hb, haccess, hup⟩ := resolveOpenai_ok hresolve
        exact ⟨⟨ip, hip, howner, haccess⟩, ⟨r, hr, hb⟩, openaiUpstream_normalized hup,
          (fun h => nomatch h), fun _ => hup⟩
      | httpBinding =>
        obtain ⟨hb, haccess, hmethod, hnorm, hroot⟩ := resolveCapability_ok hresolve
        exact ⟨⟨ip, hip, howner, haccess⟩, ⟨r, hr, hb⟩, hnorm, fun _ => ⟨hmethod, hroot⟩,
          fun h => nomatch h⟩

end Resolve

/-- The boundary that a broker keeps between its tenants. -/
structure KeepsTenantsApart (lib : Library) (s : CredentialBroker) : Prop where
  owner : ∀ ip owner, s.registry.tenantByLocalIp.lookup ip = some owner ↔
    ∃ r, s.registry.byTenant.lookup owner = some r ∧ Allows (tenantRegistryBindings r) ip
  bindingIds : ((registryBindings s.registry).map (·.bindingId)).Nodup
  capabilities : ∀ tenantKey r, s.registry.byTenant.lookup tenantKey = some r →
    ((tenantRegistryBindings r).filterMap (·.capability)).Nodup
  rejected : ∀ input, (handleAdmin lib s input).2 = false → (handleAdmin lib s input).1 = s
  accepted : ∀ input, (handleAdmin lib s input).2 = true →
    ∃ update, readUpdate lib input = .ok update ∧ ∀ t, t ≠ update.tenantKey →
      (handleAdmin lib s input).1.registry.byTenant.lookup t = s.registry.byTenant.lookup t ∧
      ∀ ip, (handleAdmin lib s input).1.registry.tenantByLocalIp.lookup ip = some t ↔
        s.registry.tenantByLocalIp.lookup ip = some t
  resolved : ∀ routeKind request tenantKey b upstream,
    resolveBinding lib s.registry routeKind request = .ok (tenantKey, b, upstream) →
      Authorized lib s.registry routeKind request tenantKey b upstream

/-- A library that knows one address and one secret. -/
def sampleLibrary : Library where
  ipAddress s := if s = "10.0.0.2" then some ⟨"10.0.0.2", 4, false⟩ else none
  urlsplit _ := none
  idna _ := none
  b64decode s := if s = "c2VjcmV0" then some [115, 101, 99, 114, 101, 116] else none
  upper s := s
  lower s := s

def sampleDigest : String := String.ofList (List.replicate 64 'a')

/-- An update that gives a tenant its OpenAI binding. -/
def openaiUpdate : Json :=
  .obj [("bindings", .arr [.obj [("allowed_local_ips", .arr [.str "10.0.0.2"]),
      ("binding_id", .str sampleDigest), ("kind", .str "openai_responses"),
      ("limits", .obj [("max_concurrent_requests", .int 2), ("max_request_bytes", .int 1024),
        ("queue_timeout_s", .int 5), ("request_read_timeout_s", .int 15),
        ("requests_per_minute", .int 120), ("response_timeout_s", .int 300)]),
      ("secret", .str "c2VjcmV0")]]),
    ("operation", .str "replace_tenant"), ("tenant_key", .str sampleDigest), ("version", .int 2)]

end Soveren.Broker
